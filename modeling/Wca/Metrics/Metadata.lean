import Mathlib.Algebra.BigOperators.Group.List.Basic
import Mathlib.Algebra.Order.Field.Rat
import Wca.Py.Dict

/-!
# The metadata of metrics

`METRICS_METADATA`: the levels of each metric, where it comes from, and what its values are merged by.
-/

namespace Wca.Metrics

open Py

abbrev MetricName := String

/-- Where a metric comes from. Some entries have a path in the place of the member. -/
inductive MetricSource where
  | PERF_SUBSYSTEM_WITH_CGROUPS
  | PERF_SUBSYSTEM_UNCORE
  | RESCTRL
  | CGROUP
  | PROCFS
  | SYSFS
  | INTERNAL
  | DERIVED_PERF_WITH_CGROUPS
  | DERIVED_PERF_UNCORE
  | ORCHESTRATOR
  | DMIDECODE_BINARY
  | IPMCTL_BINARY
  | path (text : String)
  deriving DecidableEq

/-- The levels of a metric have different names. -/
structure MetricMetadata where
  levels : List String
  source : MetricSource
  mergeOperation : List ℚ → ℚ := List.sum
  nodup : levels.Nodup := by decide

/-- An entry that says nothing of how values are merged. -/
def metricMetadata (levels : List String) (source : MetricSource)
    (nodup : levels.Nodup := by decide) : MetricMetadata where
  levels := levels
  source := source
  nodup := nodup

def METRICS_METADATA : Dict MetricName MetricMetadata := ⟨[
  ("task_instructions", metricMetadata [] .PERF_SUBSYSTEM_WITH_CGROUPS),
  ("task_cycles", metricMetadata [] .PERF_SUBSYSTEM_WITH_CGROUPS),
  ("task_cache_misses", metricMetadata [] .PERF_SUBSYSTEM_WITH_CGROUPS),
  ("task_cache_references", metricMetadata [] .PERF_SUBSYSTEM_WITH_CGROUPS),
  ("task_stalled_mem_loads", metricMetadata [] .PERF_SUBSYSTEM_WITH_CGROUPS),
  ("task_offcore_requests_l3_miss_demand_data_rd", metricMetadata [] .PERF_SUBSYSTEM_WITH_CGROUPS),
  ("task_offcore_requests_demand_data_rd", metricMetadata [] .PERF_SUBSYSTEM_WITH_CGROUPS),
  ("task_offcore_requests_demand_rfo", metricMetadata [] .PERF_SUBSYSTEM_WITH_CGROUPS),
  ("task_offcore_requests_outstanding_l3_miss_demand_data_rd",
    metricMetadata [] .PERF_SUBSYSTEM_WITH_CGROUPS),
  ("task_mem_load_retired_local_pmm", metricMetadata [] .PERF_SUBSYSTEM_WITH_CGROUPS),
  ("task_mem_load_retired_local_dram", metricMetadata [] .PERF_SUBSYSTEM_WITH_CGROUPS),
  ("task_mem_load_retired_remote_dram", metricMetadata [] .PERF_SUBSYSTEM_WITH_CGROUPS),
  ("task_mem_inst_retired_loads", metricMetadata [] .PERF_SUBSYSTEM_WITH_CGROUPS),
  ("task_mem_inst_retired_stores", metricMetadata [] .PERF_SUBSYSTEM_WITH_CGROUPS),
  ("task_dtlb_load_misses", metricMetadata [] .PERF_SUBSYSTEM_WITH_CGROUPS),
  ("task_scaling_factor_avg", metricMetadata [] .PERF_SUBSYSTEM_WITH_CGROUPS),
  ("task_scaling_factor_max", metricMetadata [] .PERF_SUBSYSTEM_WITH_CGROUPS),
  ("task_ips", metricMetadata [] .DERIVED_PERF_WITH_CGROUPS),
  ("task_ipc", metricMetadata [] .DERIVED_PERF_WITH_CGROUPS),
  ("task_cache_hit_ratio", metricMetadata [] .DERIVED_PERF_WITH_CGROUPS),
  ("task_cache_misses_per_kilo_instructions", metricMetadata [] .DERIVED_PERF_WITH_CGROUPS),
  ("task_llc_occupancy_bytes", metricMetadata [] .RESCTRL),
  ("task_mem_bandwidth_bytes", metricMetadata [] .RESCTRL),
  ("task_mem_bandwidth_local_bytes", metricMetadata [] .RESCTRL),
  ("task_mem_bandwidth_remote_bytes", metricMetadata [] .RESCTRL),
  ("task_cpu_usage_seconds", metricMetadata [] .CGROUP),
  ("task_mem_usage_bytes", metricMetadata [] .CGROUP),
  ("task_mem_max_usage_bytes", metricMetadata [] .CGROUP),
  ("task_mem_limit_bytes", metricMetadata [] .CGROUP),
  ("task_mem_soft_limit_bytes", metricMetadata [] .CGROUP),
  ("task_mem_numa_pages", metricMetadata ["numa_node"] .CGROUP),
  ("task_mem_page_faults", metricMetadata [] .CGROUP),
  ("task_wss_referenced_bytes", metricMetadata [] (.path "/proc/PIDS/smaps")),
  ("task_working_set_size_bytes", metricMetadata [] (.path "/proc/PIDS/smaps")),
  ("task_wss_measure_overhead_seconds",
    metricMetadata [] (.path "/proc/PIDS/smaps /proc/PIDS/clear_refs")),
  ("task_sched_stat", metricMetadata ["key"] (.path "/proc/PIDS/sched")),
  ("task_sched_stat_numa_faults",
    metricMetadata ["numa_node", "fault_type"] (.path "/proc/PIDS/sched")),
  ("task_requested_cpus", metricMetadata [] .ORCHESTRATOR),
  ("task_requested_mem_bytes", metricMetadata [] .ORCHESTRATOR),
  ("task_last_seen", metricMetadata [] .INTERNAL),
  ("task_up", metricMetadata [] .INTERNAL),
  ("task_subcontainers", metricMetadata [] .INTERNAL),
  ("platform_topology_cores", metricMetadata [] .INTERNAL),
  ("platform_topology_cpus", metricMetadata [] .INTERNAL),
  ("platform_topology_sockets", metricMetadata [] .INTERNAL),
  ("platform_dimm_count", metricMetadata ["dimm_type"] .DMIDECODE_BINARY),
  ("platform_dimm_total_size_bytes", metricMetadata ["dimm_type"] .DMIDECODE_BINARY),
  ("platform_mem_mode_size_bytes", metricMetadata [] .IPMCTL_BINARY),
  ("platform_dimm_speed_bytes_per_second", metricMetadata [] .DMIDECODE_BINARY),
  ("platform_cpu_usage", metricMetadata ["cpu"] .PROCFS),
  ("platform_mem_usage_bytes", metricMetadata [] .PROCFS),
  ("platform_mem_numa_free_bytes", metricMetadata ["numa_node"] .SYSFS),
  ("platform_mem_numa_used_bytes", metricMetadata ["numa_node"] .SYSFS),
  ("platform_vmstat_numa_pages_migrated", metricMetadata [] .PROCFS),
  ("platform_vmstat_pgmigrate_success", metricMetadata [] .PROCFS),
  ("platform_vmstat_pgmigrate_fail", metricMetadata [] .PROCFS),
  ("platform_vmstat_numa_hint_faults", metricMetadata [] .PROCFS),
  ("platform_vmstat_numa_hint_faults_local", metricMetadata [] .PROCFS),
  ("platform_vmstat_pgfaults", metricMetadata [] .PROCFS),
  ("platform_vmstat", metricMetadata ["key"] .PROCFS),
  ("platform_node_vmstat", metricMetadata ["numa_node", "key"] .PROCFS),
  ("platform_pmm_bandwidth_reads", metricMetadata ["socket", "pmu_type"] .PERF_SUBSYSTEM_UNCORE),
  ("platform_pmm_bandwidth_writes", metricMetadata ["socket", "pmu_type"] .PERF_SUBSYSTEM_UNCORE),
  ("platform_cas_count_reads", metricMetadata ["socket", "pmu_type"] .PERF_SUBSYSTEM_UNCORE),
  ("platform_cas_count_writes", metricMetadata ["socket", "pmu_type"] .PERF_SUBSYSTEM_UNCORE),
  ("platform_upi_rxl_flits", metricMetadata ["socket", "pmu_type"] .PERF_SUBSYSTEM_UNCORE),
  ("platform_upi_txl_flits", metricMetadata ["socket", "pmu_type"] .PERF_SUBSYSTEM_UNCORE),
  ("platform_rpq_occupancy", metricMetadata ["socket", "pmu_type"] .PERF_SUBSYSTEM_UNCORE),
  ("platform_rpq_inserts", metricMetadata ["socket", "pmu_type"] .PERF_SUBSYSTEM_UNCORE),
  ("platform_imc_clockticks", metricMetadata ["socket", "pmu_type"] .PERF_SUBSYSTEM_UNCORE),
  ("platform_rpq_read_latency_seconds", metricMetadata ["socket"] .DERIVED_PERF_UNCORE),
  ("platform_pmm_reads_bytes_per_second",
    metricMetadata ["socket", "pmu_type"] .DERIVED_PERF_UNCORE),
  ("platform_pmm_writes_bytes_per_second",
    metricMetadata ["socket", "pmu_type"] .DERIVED_PERF_UNCORE),
  ("platform_pmm_total_bytes_per_second",
    metricMetadata ["socket", "pmu_type"] .DERIVED_PERF_UNCORE),
  ("platform_dram_reads_bytes_per_second",
    metricMetadata ["socket", "pmu_type"] .DERIVED_PERF_UNCORE),
  ("platform_dram_writes_bytes_per_second",
    metricMetadata ["socket", "pmu_type"] .DERIVED_PERF_UNCORE),
  ("platform_dram_total_bytes_per_second",
    metricMetadata ["socket", "pmu_type"] .DERIVED_PERF_UNCORE),
  ("platform_dram_hit_ratio", metricMetadata ["socket", "pmu_type"] .DERIVED_PERF_UNCORE),
  ("platform_upi_bandwidth_bytes_per_second",
    metricMetadata ["socket", "pmu_type"] .DERIVED_PERF_UNCORE),
  ("platform_scaling_uncore_factor", metricMetadata ["socket", "pmu_type"] .PERF_SUBSYSTEM_UNCORE),
  ("platform_zoneinfo", metricMetadata ["numa_node", "zone", "key"] .PROCFS),
  ("platform_last_seen", metricMetadata [] .INTERNAL),
  ("wca_up", metricMetadata [] .INTERNAL),
  ("wca_information", metricMetadata [] .INTERNAL),
  ("wca_tasks", metricMetadata [] .INTERNAL),
  ("wca_mem_usage_bytes", metricMetadata [] .INTERNAL),
  ("wca_duration_seconds", metricMetadata [] .INTERNAL),
  ("wca_duration_seconds_avg", metricMetadata [] .INTERNAL),
  ("platform_capacity_per_nvdimm_bytes", metricMetadata [] .INTERNAL),
  ("platform_avg_power_per_nvdimm_watts", metricMetadata [] .INTERNAL),
  ("platform_nvdimm_read_bandwidth_bytes_per_second", metricMetadata ["socket"] .INTERNAL),
  ("platform_nvdimm_write_bandwidth_bytes_per_second", metricMetadata ["socket"] .INTERNAL)],
  by decide +kernel⟩

/-- The table of a runner: without `perf_aggregate_cpus`, what perf measures of a cgroup and what is
derived of it has a level for cpus. -/
def MetricMetadata.withCpus (m : MetricMetadata) : MetricMetadata :=
  if m.source = .PERF_SUBSYSTEM_WITH_CGROUPS ∨ m.source = .DERIVED_PERF_WITH_CGROUPS then
    { m with levels := ["cpu"], nodup := by decide }
  else m

/-- `METRICS_METADATA` after the start of a `MeasurementRunner`. -/
def metricsMetadata (perfAggregateCpus : Bool) : Dict MetricName MetricMetadata :=
  if perfAggregateCpus then METRICS_METADATA
  else METRICS_METADATA.map fun _ m => m.withCpus

end Wca.Metrics
