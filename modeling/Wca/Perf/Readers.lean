import Mathlib.Algebra.BigOperators.Group.List.Basic
import Wca.Perf.Files

/-!
# The readers of groups

`PerfCounters` reads the groups of a cgroup, one file for every cpu; `UncorePerfCounters` reads
those of the uncore PMUs, one file for every PMU and cpu. Both hand the record to
`_parse_event_groups`, each with a callback of its own.
-/

namespace Wca.Perf

open Py

abbrev Cpu := ℤ

abbrev Pmu := ℤ

abbrev Socket := ℤ

/-! ## Levelled dictionaries -/

section Levels

variable {K L V : Type} [DecidableEq K] [DecidableEq L]

/-- `d.setdefault(k, {})[l] = v` -/
def put (d : Dict K (Dict L V)) (k : K) (l : L) (v : V) : Dict K (Dict L V) :=
  d.set k (((d.get? k).getD ∅).set l v)

/-- The value at `d[k][l]`, if any. -/
def at? (d : Dict K (Dict L V)) (k : K) (l : L) : Option V := (d.get? k).bind (Dict.get? · l)

theorem at?_put {d : Dict K (Dict L V)} {k k' : K} {l l' : L} {v : V} :
    at? (put d k l v) k' l' = if k' = k ∧ l' = l then some v else at? d k' l' := by
  rw [at?, put, Dict.get?_set]
  by_cases hk : k' = k
  · rw [if_pos hk, Option.bind_some, Dict.get?_set]
    by_cases hl : l' = l
    · simp [hk, hl]
    · rw [if_neg hl, if_neg fun h => hl h.2, at?, hk]
      cases d.get? k <;> rfl
  · rw [if_neg hk, if_neg fun h => hk h.1, at?]

end Levels

/-! ## Open files -/

/-- `_open_for_cpu`: the first event that is opened for a cpu leads its group. -/
def openForCpu (leaders : List Cpu) (cpu : Cpu) : List Cpu :=
  if cpu ∈ leaders then leaders else leaders ++ [cpu]

/-- `_open`: the cpus with a leader. -/
def openEvents {ι : Type} (events : List ι) (cpus : List Cpu) : List Cpu :=
  events.foldl (fun leaders _ => cpus.foldl openForCpu leaders) []

theorem nodup_openForCpu {leaders : List Cpu} {cpu : Cpu} (h : leaders.Nodup) :
    (openForCpu leaders cpu).Nodup := by
  rw [openForCpu]
  split
  · exact h
  · next hnew =>
    refine List.nodup_append.mpr ⟨h, List.nodup_singleton _, fun a ha b hb heq => hnew ?_⟩
    rwa [← List.mem_singleton.mp hb, ← heq]

theorem nodup_openEvents {ι : Type} {events : List ι} {cpus : List Cpu} :
    (openEvents events cpus).Nodup := by
  have hcpus : ∀ leaders : List Cpu, leaders.Nodup → (cpus.foldl openForCpu leaders).Nodup := by
    intro leaders h
    induction cpus generalizing leaders with
    | nil => exact h
    | cons cpu cpus ih => exact ih _ (nodup_openForCpu h)
  have hevents : ∀ leaders : List Cpu, leaders.Nodup →
      (events.foldl (fun leaders _ => cpus.foldl openForCpu leaders) leaders).Nodup := by
    intro leaders h
    induction events generalizing leaders with
    | nil => exact h
    | cons event events ih => exact ih _ (hcpus leaders h)
  exact hevents [] List.nodup_nil

theorem openEvents_nil {ι : Type} {cpus : List Cpu} : openEvents ([] : List ι) cpus = [] := rfl

/-! ## The callbacks -/

def taskScalingFactorAvg : MetricName := "task_scaling_factor_avg"

def taskScalingFactorMax : MetricName := "task_scaling_factor_max"

def platformScalingUncoreFactor : MetricName := "platform_scaling_uncore_factor"

/-- `statistics.mean` of some values. -/
def mean (values : List ℚ) : ℚ := values.sum / values.length

/-- `max` of a value and others. -/
def maximum (value : ℚ) (values : List ℚ) : ℚ := values.foldl max value

def scalingMeasurements : List ℚ → Measurements
  | [] => (Dict.set ∅ taskScalingFactorAvg 1).set taskScalingFactorMax 1
  | value :: values =>
    (Dict.set ∅ taskScalingFactorAvg (mean (value :: values))).set
      taskScalingFactorMax (maximum value values)

/-- `_get_measurements_for_scaling_info` of the cgroup reader, which raises nothing. -/
def getMeasurementsForScalingInfo : ScalingInfo := fun scalingFactors =>
  .ok (scalingMeasurements scalingFactors)

/-- `_get_measurements_for_scaling_info` of the uncore reader: the other branch asks `MetricName`
for a name it does not have. -/
def getUncoreMeasurementsForScalingInfo : ScalingInfo
  | [] => .error (.AttributeError "PLATFORM_SCALING_UNCORE_FACTOR_AVG")
  | value :: values => .ok (Dict.set ∅ platformScalingUncoreFactor (mean (value :: values)))

/-- `d[k]` -/
def item {K V : Type} [DecidableEq K] (d : Dict K V) (k : K) : Except Exc V :=
  match d.get? k with
  | some v => .ok v
  | none => .error .KeyError

theorem item_ok_iff {K V : Type} [DecidableEq K] {d : Dict K V} {k : K} {v : V} :
    item d k = .ok v ↔ d.get? k = some v := by
  rw [item]
  cases d.get? k <;> simp

/-! ## `PerfCounters` -/

/-- The keys of `HardwareEventNameMap` and of `PREDEFINED_RAW_EVENTS`. -/
def namedEvents : List MetricName :=
  ["task_cycles", "task_instructions", "task_cache_misses", "task_cache_references",
    "task_stalled_mem_loads", "task_offcore_requests_l3_miss_demand_data_rd",
    "task_offcore_requests_demand_data_rd", "task_offcore_requests_demand_rfo",
    "task_offcore_requests_outstanding_l3_miss_demand_data_rd", "task_mem_load_retired_local_pmm",
    "task_mem_load_retired_local_dram", "task_mem_load_retired_remote_dram",
    "task_mem_inst_retired_loads", "task_mem_inst_retired_stores", "task_dtlb_load_misses"]

/-- The names that `_create_event_attributes` takes: it raises for the others. -/
def Known (eventName : MetricName) : Prop :=
  eventName ∈ namedEvents ∨ ['_', '_', 'r'] <:+: eventName.toList

instance (eventName : MetricName) : Decidable (Known eventName) :=
  inferInstanceAs (Decidable (_ ∨ _))

/-- The counters of a cgroup. They were opened, so every event is known. -/
structure PerfCounters where
  eventNames : List MetricName
  onlineCpus : List Cpu
  aggregateForAllCpusWithSum : Bool
  known : ∀ name ∈ eventNames, Known name

/-- What `get_measurements` has when it read some cpus. -/
structure Totals where
  perMetricPerCpu : Dict MetricName (Dict Cpu ℚ) := ∅
  perMetric : Measurements := ∅
  maxValuesForAllCpus : List ℚ := []
  avgValuesForAllCpus : List ℚ := []

/-- The metrics of a cgroup: aggregated or with a level for the cpus. -/
inductive CgroupMeasurements where
  | summed (perMetric : Measurements)
  | perCpu (perMetricPerCpu : Dict MetricName (Dict Cpu ℚ))

namespace PerfCounters

def groupEventLeaderFiles (self : PerfCounters) : List Cpu :=
  openEvents self.eventNames self.onlineCpus

/-- One turn over the metrics of a cpu. -/
def addMetric (cpu : Cpu) (acc : Totals) (metric : MetricName × ℚ) : Totals :=
  { acc with
    perMetricPerCpu := put acc.perMetricPerCpu metric.1 cpu metric.2
    perMetric := acc.perMetric.set metric.1 ((acc.perMetric.get? metric.1).getD 0 + metric.2) }

/-- One turn over the leaders. -/
def readCpu (self : PerfCounters) (acc : Totals) (cpu : Cpu) : EStateM Exc (Cpu → File) Totals := do
  let perCpu ← onFile cpu (parseEventGroups self.eventNames (some getMeasurementsForScalingInfo))
  let acc := perCpu.items.foldl (addMetric cpu) acc
  let max ← Py.liftExcept (item perCpu taskScalingFactorMax)
  let avg ← Py.liftExcept (item perCpu taskScalingFactorAvg)
  pure { acc with
    maxValuesForAllCpus := acc.maxValuesForAllCpus ++ [max]
    avgValuesForAllCpus := acc.avgValuesForAllCpus ++ [avg] }

/-- `PerfCounters.get_measurements` -/
def getMeasurements (self : PerfCounters) : EStateM Exc (Cpu → File) CgroupMeasurements := do
  let acc ← self.groupEventLeaderFiles.foldlM self.readCpu {}
  match self.aggregateForAllCpusWithSum, acc.avgValuesForAllCpus, acc.maxValuesForAllCpus with
  | true, avg :: avgs, max :: maxs =>
    pure (.summed ((acc.perMetric.set taskScalingFactorAvg (mean (avg :: avgs))).set
      taskScalingFactorMax (maximum max maxs)))
  | _, _, _ => pure (.perCpu acc.perMetricPerCpu)

end PerfCounters

/-! ## `UncorePerfCounters` -/

/-- An event of a PMU. -/
structure Event where
  name : MetricName

/-- The counters of the uncore PMUs. -/
structure UncorePerfCounters where
  cpus : List Cpu
  pmuEvents : Dict Pmu (List Event)
  topology : Dict Socket (Dict ℤ (List Cpu))

namespace UncorePerfCounters

/-- `event_names` -/
def eventNames (events : List Event) : List MetricName := events.map Event.name

def groupEventLeaderFiles (self : UncorePerfCounters) (events : List Event) : List Cpu :=
  openEvents events self.cpus

/-- The topology reversed. -/
def cpuToSocket (self : UncorePerfCounters) : Dict Cpu Socket :=
  self.topology.items.foldl (fun cpuToSocket socket =>
    socket.2.items.foldl (fun cpuToSocket cpuIds =>
      cpuIds.2.foldl (fun cpuToSocket cpuId => cpuToSocket.set cpuId socket.1) cpuToSocket)
      cpuToSocket) ∅

/-- The measurements per metric, socket and PMU. -/
abbrev PerSocket := Dict MetricName (Dict Socket (Dict Pmu ℚ))

/-- One turn over the metrics of a cpu. -/
def addMetric (self : UncorePerfCounters) (pmu : Pmu) (cpu : Cpu) (acc : PerSocket)
    (metric : MetricName × ℚ) : EStateM Exc (Pmu × Cpu → File) PerSocket := do
  let socket ← Py.liftExcept (item self.cpuToSocket cpu)
  pure (acc.set metric.1 (put ((acc.get? metric.1).getD ∅) socket pmu metric.2))

/-- One turn over the leaders of a PMU. -/
def readCpu (self : UncorePerfCounters) (pmu : Pmu × List Event) (acc : PerSocket) (cpu : Cpu) :
    EStateM Exc (Pmu × Cpu → File) PerSocket := do
  let measurements ← onFile (pmu.1, cpu)
    (parseEventGroups (eventNames pmu.2) (some getUncoreMeasurementsForScalingInfo))
  measurements.items.foldlM (self.addMetric pmu.1 cpu) acc

/-- One turn over the PMUs. -/
def readPmu (self : UncorePerfCounters) (acc : PerSocket) (pmu : Pmu × List Event) :
    EStateM Exc (Pmu × Cpu → File) PerSocket :=
  (self.groupEventLeaderFiles pmu.2).foldlM (self.readCpu pmu) acc

/-- `UncorePerfCounters.get_measurements` -/
def getMeasurements (self : UncorePerfCounters) :
    EStateM Exc (Pmu × Cpu → File) PerSocket :=
  self.pmuEvents.items.foldlM self.readPmu ∅

end UncorePerfCounters

/-! ## The callbacks, after a record -/

section Callbacks

variable {f : ℚ}

theorem mean_replicate {count : Nat} : mean (List.replicate (count + 1) f) = f := by
  have hpos : ((count + 1 : Nat) : ℚ) ≠ 0 := by exact_mod_cast Nat.succ_ne_zero count
  rw [mean, List.sum_replicate, List.length_replicate, nsmul_eq_mul, mul_div_cancel_left₀ _ hpos]

theorem mem_scalingMeasurements {scalingFactors : List ℚ} {name : MetricName} :
    name ∈ scalingMeasurements scalingFactors ↔
      name ∈ [taskScalingFactorAvg, taskScalingFactorMax] := by
  have hset : ∀ avg max : ℚ,
      name ∈ (Dict.set ∅ taskScalingFactorAvg avg).set taskScalingFactorMax max ↔
        name ∈ [taskScalingFactorAvg, taskScalingFactorMax] := by
    intro avg max
    simp only [Dict.mem_def, Dict.mem_keys_set, Dict.keys_empty, List.mem_cons, List.not_mem_nil,
      or_false]
    exact or_comm
  cases scalingFactors with
  | nil => exact hset _ _
  | cons value values => exact hset _ _

theorem informs_scalingMeasurements : Informs getMeasurementsForScalingInfo f
    [taskScalingFactorAvg, taskScalingFactorMax] fun count => scalingMeasurements (noted f count) :=
  fun _ => ⟨rfl, fun _ => mem_scalingMeasurements⟩

theorem informs_uncore (h : f ≠ 0) : Informs getUncoreMeasurementsForScalingInfo f
    [platformScalingUncoreFactor] fun _ => Dict.set ∅ platformScalingUncoreFactor f := by
  intro count
  constructor
  · rw [noted, if_neg h]
    have hmean := @mean_replicate f count
    rw [List.replicate_succ] at hmean ⊢
    rw [getUncoreMeasurementsForScalingInfo, hmean]
  · simp [Dict.mem_def, Dict.mem_keys_set]

theorem uncore_raises : getUncoreMeasurementsForScalingInfo (noted 0 1) =
    .error (.AttributeError "PLATFORM_SCALING_UNCORE_FACTOR_AVG") := by
  rw [noted, if_pos rfl]
  rfl

end Callbacks

end Wca.Perf
