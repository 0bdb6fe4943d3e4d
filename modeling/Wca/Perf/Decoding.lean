import Wca.Perf.Readers

/-!
# What the readers show

Each file holds a record of the group and then whatever it gives next. The cgroup reader always
shows every event as it was counted (`PerfCounters.decodes`). The uncore reader raises at a group
that did not run, and it has one place for a socket and a PMU, where the last cpu of the socket
stays (`UncorePerfCounters.decodes_iff`).
-/

namespace Wca.Perf

open Py

/-- The files hold a record each, and then something else. -/
def Holds {K : Type} (keys : List K) (records : K → GroupRecord) (rest files : K → File) : Prop :=
  ∀ k ∈ keys, files k = (records k).bytes ++ rest k

/-! ## `PerfCounters` -/

namespace PerfCounters

variable {self : PerfCounters} {records : Cpu → GroupRecord} {rest files : Cpu → File}

/-- What an event counted on some cpus. -/
def sumOf (records : Cpu → GroupRecord) (cpus : List Cpu) (i : Nat) : ℚ :=
  (cpus.map fun cpu => (records cpu).count i).sum

/-- The metrics show every event under its name: for every cpu, or the sum of the cpus. -/
def Shows (self : PerfCounters) (records : Cpu → GroupRecord) : CgroupMeasurements → Prop
  | .summed perMetric => self.aggregateForAllCpusWithSum = true ∧
    ∀ i name, self.eventNames[i]? = some name →
      perMetric.get? name = some (sumOf records self.groupEventLeaderFiles i)
  | .perCpu perMetricPerCpu =>
    (self.aggregateForAllCpusWithSum = true → self.groupEventLeaderFiles = []) ∧
    ∀ i name, self.eventNames[i]? = some name → ∀ cpu ∈ self.groupEventLeaderFiles,
      at? perMetricPerCpu name cpu = some ((records cpu).count i)

/-- The events have different names, and the files hold records of as many events. -/
structure Fed (counters : PerfCounters) (records : Cpu → GroupRecord) (rest files : Cpu → File) :
    Prop where
  nodup : counters.eventNames.Nodup
  length : ∀ cpu ∈ counters.groupEventLeaderFiles,
    (records cpu).values.length = counters.eventNames.length
  holds : Holds counters.groupEventLeaderFiles records rest files

/-- The reader raises nothing, reads each record to its end and shows every event. -/
def Decodes (self : PerfCounters) (records : Cpu → GroupRecord) (rest files : Cpu → File) : Prop :=
  Reads self.groupEventLeaderFiles rest files self.getMeasurements (self.Shows records)

/-- What was collected after some cpus. -/
structure Summed (counters : PerfCounters) (records : Cpu → GroupRecord) (cpus : List Cpu)
    (acc : Totals) : Prop where
  perCpu : ∀ i name, counters.eventNames[i]? = some name → ∀ cpu ∈ cpus,
    at? acc.perMetricPerCpu name cpu = some ((records cpu).count i)
  sums : ∀ i name, counters.eventNames[i]? = some name →
    acc.perMetric.get? name = if cpus = [] then none else some (sumOf records cpus i)
  maxs : acc.maxValuesForAllCpus.length = cpus.length
  avgs : acc.avgValuesForAllCpus.length = cpus.length

theorem known_ne_scaling {name : MetricName} (h : Known name) :
    name ∉ [taskScalingFactorAvg, taskScalingFactorMax] := by
  have havg : ¬Known taskScalingFactorAvg := by decide
  have hmax : ¬Known taskScalingFactorMax := by decide
  simp only [List.mem_cons, List.not_mem_nil, or_false, not_or]
  exact ⟨fun heq => havg (heq ▸ h), fun heq => hmax (heq ▸ h)⟩

theorem event_not_scaling {i : Nat} {name : MetricName} (h : self.eventNames[i]? = some name) :
    name ∉ [taskScalingFactorAvg, taskScalingFactorMax] :=
  known_ne_scaling (self.known name (List.mem_of_getElem? h))

theorem eventNames_ne_nil {cpu : Cpu} (h : cpu ∈ self.groupEventLeaderFiles) :
    self.eventNames ≠ [] := by
  intro hnil
  rw [groupEventLeaderFiles, hnil, openEvents_nil] at h
  exact absurd h List.not_mem_nil

section AddMetric

variable {perCpu : Measurements} {cpu : Cpu} {acc : Totals}

theorem at?_addMetrics {name : MetricName} {cpu' : Cpu} :
    at? (perCpu.items.foldl (addMetric cpu) acc).perMetricPerCpu name cpu' =
      (perCpu.get? name).elim (at? acc.perMetricPerCpu name cpu') fun value =>
        if cpu' = cpu then some value else at? acc.perMetricPerCpu name cpu' := by
  have hstep : ∀ (acc : Totals) (p : MetricName × ℚ) (name : MetricName),
      at? (addMetric cpu acc p).perMetricPerCpu name cpu' =
        if name = p.1 then
          if cpu' = cpu then some p.2 else at? acc.perMetricPerCpu name cpu'
        else at? acc.perMetricPerCpu name cpu' := by
    intro acc p name
    rw [addMetric, at?_put]
    by_cases hname : name = p.1 <;> simp [hname]
  exact Dict.foldl_items (s := fun (acc : Totals) name => at? acc.perMetricPerCpu name cpu')
    (g := fun old value => if cpu' = cpu then some value else old) hstep perCpu acc name

theorem get?_addMetrics {name : MetricName} :
    (perCpu.items.foldl (addMetric cpu) acc).perMetric.get? name =
      (perCpu.get? name).elim (acc.perMetric.get? name) fun value =>
        some ((acc.perMetric.get? name).getD 0 + value) := by
  have hstep : ∀ (acc : Totals) (p : MetricName × ℚ) (name : MetricName),
      (addMetric cpu acc p).perMetric.get? name =
        if name = p.1 then some ((acc.perMetric.get? name).getD 0 + p.2)
        else acc.perMetric.get? name := by
    intro acc p name
    rw [addMetric, Dict.get?_set]
    by_cases hname : name = p.1 <;> simp [hname]
  exact Dict.foldl_items (s := fun (acc : Totals) name => acc.perMetric.get? name)
    (g := fun old value => some (old.getD 0 + value)) hstep perCpu acc name

theorem addMetrics_scaling (items : List (MetricName × ℚ)) :
    (items.foldl (addMetric cpu) acc).maxValuesForAllCpus = acc.maxValuesForAllCpus ∧
      (items.foldl (addMetric cpu) acc).avgValuesForAllCpus = acc.avgValuesForAllCpus := by
  induction items generalizing acc with
  | nil => exact ⟨rfl, rfl⟩
  | cons p items ih =>
    have hrest := @ih (addMetric cpu acc p)
    exact hrest

end AddMetric

theorem readCpu_reads {pre : List Cpu} {acc : Totals} {cpu : Cpu}
    (hne : self.eventNames ≠ []) (hnodup : self.eventNames.Nodup)
    (hlen : self.eventNames.length = (records cpu).values.length)
    (hfile : files cpu = (records cpu).bytes ++ rest cpu) (h : self.Summed records pre acc) :
    Reads [cpu] rest files (self.readCpu acc cpu) (self.Summed records (pre ++ [cpu])) := by
  obtain ⟨perCpu, hrun, hperCpu⟩ :=
    parseEventGroups_run informs_scalingMeasurements hlen hnodup (rest cpu)
  rw [← hfile] at hrun
  refine (onFile_reads hrun).bind fun perCpu' files' heq => ?_
  obtain rfl := heq
  have hscaling : ∀ name ∈ [taskScalingFactorAvg, taskScalingFactorMax], ∃ value,
      item perCpu' name = .ok value := by
    intro name hname
    obtain ⟨value, hvalue⟩ := Dict.mem_keys_iff_get?.mp (mem_scalingMeasurements.mpr hname)
    exact ⟨value, item_ok_iff.mpr ((hperCpu.extras hne name hname).trans hvalue)⟩
  obtain ⟨max, hmax⟩ := hscaling taskScalingFactorMax (by simp)
  obtain ⟨avg, havg⟩ := hscaling taskScalingFactorAvg (by simp)
  refine ⟨_, by rw [hmax, havg]; rfl, ⟨?_, ?_, ?_, ?_⟩⟩
  · intro i name hname cpu' hcpu'
    have hvalue := hperCpu.get?_event hlen hname (event_not_scaling hname)
    rw [at?_addMetrics, hvalue, Option.elim_some]
    split
    · next heq => rw [heq]
    · next hother =>
      obtain hcpu' | hcpu' := List.mem_append.mp hcpu'
      · exact h.perCpu i name hname cpu' hcpu'
      · exact absurd (List.mem_singleton.mp hcpu') hother
  · intro i name hname
    have hvalue := hperCpu.get?_event hlen hname (event_not_scaling hname)
    rw [get?_addMetrics, hvalue, h.sums i name hname, Option.elim_some]
    cases pre with
    | nil => simp [sumOf]
    | cons _ _ => simp [sumOf, add_assoc]
  · simp [(addMetrics_scaling _).1, h.maxs]
  · simp [(addMetrics_scaling _).2, h.avgs]

/-- The cgroup reader decodes every record. -/
theorem decodes (hfed : self.Fed records rest files) : self.Decodes records rest files := by
  have hapart : Apart (fun cpu : Cpu => [cpu]) self.groupEventLeaderFiles := by
    refine nodup_openEvents.imp fun hne k hk hk' => hne ?_
    rw [← List.mem_singleton.mp hk, List.mem_singleton.mp hk']
  have hstep : ∀ pre acc files, ∀ cpu ∈ self.groupEventLeaderFiles, self.Summed records pre acc →
      (∀ k ∈ [cpu], files k = (records k).bytes ++ rest k) →
        Reads [cpu] rest files (self.readCpu acc cpu) (self.Summed records (pre ++ [cpu])) :=
    fun pre acc files cpu hcpu h hfile => readCpu_reads (eventNames_ne_nil hcpu) hfed.nodup
      (hfed.length cpu hcpu).symm (hfile cpu List.mem_cons_self) h
  have hstart : self.Summed records [] {} :=
    ⟨fun _ _ _ _ hcpu => absurd hcpu List.not_mem_nil, fun _ _ _ => rfl, rfl, rfl⟩
  have hfull : ∀ cpu ∈ self.groupEventLeaderFiles, ∀ k ∈ [cpu],
      files k = (records k).bytes ++ rest k := fun cpu hcpu k hk => by
    rw [List.mem_singleton.mp hk]
    exact hfed.holds cpu hcpu
  have hread := Reads.foldlM hapart hstep hstart hfull
  rw [List.nil_append, List.flatMap_singleton'] at hread
  refine hread.bind fun acc files' h => ?_
  cases hflag : self.aggregateForAllCpusWithSum with
  | false => exact ⟨_, rfl, by simp [hflag], h.perCpu⟩
  | true =>
    cases hleaders : self.groupEventLeaderFiles with
    | nil =>
      have havgs := List.length_eq_zero_iff.mp (h.avgs.trans (by rw [hleaders]; rfl))
      rw [havgs]
      exact ⟨_, rfl, fun _ => hleaders, h.perCpu⟩
    | cons cpu cpus =>
      have hpos : 0 < self.groupEventLeaderFiles.length := by simp [hleaders]
      obtain ⟨avg, avgs, havgs⟩ := List.exists_cons_of_length_pos (h.avgs ▸ hpos)
      obtain ⟨max, maxs, hmaxs⟩ := List.exists_cons_of_length_pos (h.maxs ▸ hpos)
      rw [havgs, hmaxs]
      refine ⟨_, rfl, hflag, fun i name hname => ?_⟩
      have hother := event_not_scaling hname
      simp only [List.mem_cons, List.not_mem_nil, or_false, not_or] at hother
      rw [Dict.get?_set_of_ne hother.2, Dict.get?_set_of_ne hother.1, h.sums i name hname,
        if_neg (by simp [hleaders])]

end PerfCounters

/-! ## `UncorePerfCounters` -/

namespace UncorePerfCounters

variable {self : UncorePerfCounters} {records : Pmu × Cpu → GroupRecord}
  {rest files : Pmu × Cpu → File} {pmu : Pmu × List Event}

/-- The leaders of a PMU. -/
def leaders (self : UncorePerfCounters) (pmu : Pmu × List Event) : List (Pmu × Cpu) :=
  (self.groupEventLeaderFiles pmu.2).map fun cpu => (pmu.1, cpu)

/-- The value at `measurements[metric][socket][pmu]`, if any. -/
def measured (measurements : PerSocket) (metric : MetricName) (socket : Socket) (pmu : Pmu) :
    Option ℚ :=
  (measurements.get? metric).bind fun sockets => at? sockets socket pmu

/-- The metrics show every event of every cpu and PMU under its name. -/
def Shows (self : UncorePerfCounters) (records : Pmu × Cpu → GroupRecord)
    (measurements : PerSocket) : Prop :=
  ∀ pmu ∈ self.pmuEvents.items, ∀ cpu ∈ self.groupEventLeaderFiles pmu.2, ∃ socket,
    self.cpuToSocket.get? cpu = some socket ∧ ∀ i name, (eventNames pmu.2)[i]? = some name →
      measured measurements name socket pmu.1 = some ((records (pmu.1, cpu)).count i)

/-- The events of a PMU have different names, and the files hold records of as many events. -/
structure Fed (counters : UncorePerfCounters) (records : Pmu × Cpu → GroupRecord)
    (rest files : Pmu × Cpu → File) : Prop where
  nodup : ∀ pmu ∈ counters.pmuEvents.items, (eventNames pmu.2).Nodup
  length : ∀ pmu ∈ counters.pmuEvents.items, ∀ cpu ∈ counters.groupEventLeaderFiles pmu.2,
    (records (pmu.1, cpu)).values.length = (eventNames pmu.2).length
  holds : Holds (counters.pmuEvents.items.flatMap counters.leaders) records rest files

/-- The reader raises nothing, reads each record to its end and shows every event. -/
def Decodes (self : UncorePerfCounters) (records : Pmu × Cpu → GroupRecord)
    (rest files : Pmu × Cpu → File) : Prop :=
  Reads (self.pmuEvents.items.flatMap self.leaders) rest files self.getMeasurements
    (self.Shows records)

/-- The cpu of the socket that is read last. -/
def lastOnSocket (self : UncorePerfCounters) (cpus : List Cpu) (socket : Socket) : Option Cpu :=
  (cpus.filter fun cpu => self.cpuToSocket.get? cpu = some socket).getLast?

/-- What is left of an event of a cpu: the scaling factor has the name of its metric. -/
def kept (record : GroupRecord) (name : MetricName) (i : Nat) : ℚ :=
  if name = platformScalingUncoreFactor then record.scalingFactor else record.count i

/-- Every group ran, on a cpu of the topology, and counted what is left of the last cpu of its
socket. -/
def Readable (self : UncorePerfCounters) (records : Pmu × Cpu → GroupRecord) : Prop :=
  ∀ pmu ∈ self.pmuEvents.items, ∀ cpu ∈ self.groupEventLeaderFiles pmu.2,
    (records (pmu.1, cpu)).Scheduled ∧ ∃ socket, self.cpuToSocket.get? cpu = some socket ∧
      ∀ last, self.lastOnSocket (self.groupEventLeaderFiles pmu.2) socket = some last →
        ∀ i name, (eventNames pmu.2)[i]? = some name →
          kept (records (pmu.1, last)) name i = (records (pmu.1, cpu)).count i

theorem lastOnSocket_concat {cpus : List Cpu} {cpu : Cpu} {socket : Socket} :
    self.lastOnSocket (cpus ++ [cpu]) socket =
      if self.cpuToSocket.get? cpu = some socket then some cpu
      else self.lastOnSocket cpus socket := by
  rw [lastOnSocket, List.filter_append]
  split
  · next h => simp [h]
  · next h => simp [h, lastOnSocket]

section AddMetric

variable {cpu : Cpu} {socket : Socket} {acc : PerSocket}

/-- One turn over the metrics of a cpu of the topology. -/
def place (pmu : Pmu) (socket : Socket) (acc : PerSocket) (metric : MetricName × ℚ) : PerSocket :=
  acc.set metric.1 (put ((acc.get? metric.1).getD ∅) socket pmu metric.2)

theorem addMetrics_run (h : self.cpuToSocket.get? cpu = some socket) {p : Pmu}
    {items : List (MetricName × ℚ)} :
    (items.foldlM (self.addMetric p cpu) acc).run files =
      .ok (items.foldl (place p socket) acc) files := by
  induction items generalizing acc with
  | nil => rfl
  | cons metric items ih =>
    have hstep : (self.addMetric p cpu acc metric).run files =
        .ok (place p socket acc metric) files := by
      rw [addMetric, item_ok_iff.mpr h]
      rfl
    rw [List.foldlM_cons, bind_of_ok hstep, ih]
    rfl

theorem measured_place {p p' : Pmu} {socket' : Socket} {metric : MetricName × ℚ}
    {name : MetricName} : measured (place p socket acc metric) name socket' p' =
      if name = metric.1 then
        if socket' = socket ∧ p' = p then some metric.2 else measured acc name socket' p'
      else measured acc name socket' p' := by
  rw [measured, place, Dict.get?_set]
  by_cases hname : name = metric.1
  · rw [if_pos hname, if_pos hname, Option.bind_some, at?_put, measured, hname]
    cases acc.get? metric.1 <;> rfl
  · rw [if_neg hname, if_neg hname, measured]

theorem measured_addMetrics {measurements : Measurements} {p p' : Pmu} {socket' : Socket}
    {name : MetricName} :
    measured (measurements.items.foldl (place p socket) acc) name socket' p' =
      (measurements.get? name).elim (measured acc name socket' p') fun value =>
        if socket' = socket ∧ p' = p then some value else measured acc name socket' p' :=
  Dict.foldl_items (s := fun acc name => measured acc name socket' p')
    (g := fun old value => if socket' = socket ∧ p' = p then some value else old)
    (fun _ _ _ => measured_place) measurements acc name

end AddMetric

/-- What was measured after some cpus of a PMU. -/
structure Measured (counters : UncorePerfCounters) (records : Pmu × Cpu → GroupRecord)
    (pmu : Pmu × List Event) (before : PerSocket) (cpus : List Cpu) (acc : PerSocket) : Prop where
  events : ∀ i name, (eventNames pmu.2)[i]? = some name → ∀ socket last,
    counters.lastOnSocket cpus socket = some last →
      measured acc name socket pmu.1 = some (kept (records (pmu.1, last)) name i)
  others : ∀ name socket p, p ≠ pmu.1 → measured acc name socket p = measured before name socket p

theorem readCpu_reads {pre : List Cpu} {before acc : PerSocket} {cpu : Cpu} {socket : Socket}
    (hne : eventNames pmu.2 ≠ []) (hnodup : (eventNames pmu.2).Nodup)
    (hlen : (eventNames pmu.2).length = (records (pmu.1, cpu)).values.length)
    (hscheduled : (records (pmu.1, cpu)).Scheduled)
    (hsocket : self.cpuToSocket.get? cpu = some socket)
    (hfile : files (pmu.1, cpu) = (records (pmu.1, cpu)).bytes ++ rest (pmu.1, cpu))
    (h : self.Measured records pmu before pre acc) :
    Reads [(pmu.1, cpu)] rest files (self.readCpu pmu acc cpu)
      (self.Measured records pmu before (pre ++ [cpu])) := by
  have hfactor := GroupRecord.scalingFactor_ne_zero_iff.mpr hscheduled
  obtain ⟨measurements, hrun, hcollected⟩ :=
    parseEventGroups_run (informs_uncore hfactor) hlen hnodup (rest (pmu.1, cpu))
  rw [← hfile] at hrun
  have hkept : ∀ i name, (eventNames pmu.2)[i]? = some name →
      measurements.get? name = some (kept (records (pmu.1, cpu)) name i) := by
    intro i name hname
    rw [kept]
    split
    · next heq =>
      rw [hcollected.extras hne name (by simp [heq]), heq, Dict.get?_set_self]
    · next hother => exact hcollected.get?_event hlen hname (by simpa using hother)
  refine (onFile_reads hrun).bind fun measurements' files' heq => ?_
  obtain rfl := heq
  refine ⟨_, addMetrics_run hsocket, fun i name hname socket' last hlast => ?_,
    fun name socket' p hp => ?_⟩
  · rw [measured_addMetrics, hkept i name hname, Option.elim_some]
    rw [lastOnSocket_concat, hsocket] at hlast
    split at hlast
    · next heq =>
      rw [if_pos ⟨(Option.some.inj heq).symm, rfl⟩, Option.some.inj hlast]
    · next hother =>
      rw [if_neg fun hand => hother (by rw [hand.1]), h.events i name hname socket' last hlast]
  · rw [measured_addMetrics, ← h.others name socket' p hp]
    cases measurements'.get? name with
    | none => rfl
    | some value => rw [Option.elim_some, if_neg fun hand => hp hand.2]

theorem eventNames_ne_nil {cpu : Cpu} (h : cpu ∈ self.groupEventLeaderFiles pmu.2) :
    eventNames pmu.2 ≠ [] := by
  intro hnil
  rw [groupEventLeaderFiles, List.map_eq_nil_iff.mp hnil, openEvents_nil] at h
  exact absurd h List.not_mem_nil

theorem apart_cpus : Apart (fun cpu => [(pmu.1, cpu)]) (self.groupEventLeaderFiles pmu.2) := by
  refine nodup_openEvents.imp fun hne k hk hk' => hne ?_
  have heq := (List.mem_singleton.mp hk).symm.trans (List.mem_singleton.mp hk')
  exact (Prod.mk.inj heq).2

theorem apart_pmus : Apart self.leaders self.pmuEvents.items := by
  refine (List.pairwise_map.mp self.pmuEvents.nodup).imp fun hne k hk hk' => hne ?_
  obtain ⟨_, _, rfl⟩ := List.mem_map.mp hk
  obtain ⟨_, _, heq⟩ := List.mem_map.mp hk'
  exact (Prod.mk.inj heq).1.symm

theorem leaders_eq_flatMap : self.leaders pmu =
    (self.groupEventLeaderFiles pmu.2).flatMap fun cpu => [(pmu.1, cpu)] :=
  List.map_eq_flatMap

/-- The groups of a PMU ran, on cpus of the topology. -/
def Runs (self : UncorePerfCounters) (records : Pmu × Cpu → GroupRecord) (pmu : Pmu × List Event) :
    Prop :=
  ∀ cpu ∈ self.groupEventLeaderFiles pmu.2,
    (records (pmu.1, cpu)).Scheduled ∧ ∃ socket, self.cpuToSocket.get? cpu = some socket

theorem readPmu_reads {before : PerSocket} (hnodup : (eventNames pmu.2).Nodup)
    (hlen : ∀ cpu ∈ self.groupEventLeaderFiles pmu.2,
      (records (pmu.1, cpu)).values.length = (eventNames pmu.2).length)
    (hruns : self.Runs records pmu) (hfiles : Holds (self.leaders pmu) records rest files) :
    Reads (self.leaders pmu) rest files (self.readPmu before pmu)
      (self.Measured records pmu before (self.groupEventLeaderFiles pmu.2)) := by
  have hstep : ∀ pre acc files, ∀ cpu ∈ self.groupEventLeaderFiles pmu.2,
      self.Measured records pmu before pre acc →
        (∀ k ∈ [(pmu.1, cpu)], files k = (records k).bytes ++ rest k) →
          Reads [(pmu.1, cpu)] rest files (self.readCpu pmu acc cpu)
            (self.Measured records pmu before (pre ++ [cpu])) := by
    intro pre acc files cpu hcpu h hfile
    obtain ⟨hscheduled, socket, hsocket⟩ := hruns cpu hcpu
    exact readCpu_reads (eventNames_ne_nil hcpu) hnodup (hlen cpu hcpu).symm hscheduled hsocket
      (hfile _ List.mem_cons_self) h
  have hstart : self.Measured records pmu before [] before :=
    ⟨fun _ _ _ _ _ hlast => (nomatch hlast), fun _ _ _ _ => rfl⟩
  have hfull : ∀ cpu ∈ self.groupEventLeaderFiles pmu.2, ∀ k ∈ [(pmu.1, cpu)],
      files k = (records k).bytes ++ rest k := fun cpu hcpu k hk => by
    rw [List.mem_singleton.mp hk]
    exact hfiles _ (List.mem_map_of_mem hcpu)
  have hread := Reads.foldlM apart_cpus hstep hstart hfull
  rwa [List.nil_append, ← leaders_eq_flatMap] at hread

/-- What was measured after some PMUs. -/
structure AllMeasured (counters : UncorePerfCounters) (records : Pmu × Cpu → GroupRecord)
    (pmus : List (Pmu × List Event)) (acc : PerSocket) : Prop where
  mem : ∀ pmu ∈ pmus, pmu ∈ counters.pmuEvents.items
  events : ∀ pmu ∈ pmus, ∀ i name, (eventNames pmu.2)[i]? = some name → ∀ socket last,
    counters.lastOnSocket (counters.groupEventLeaderFiles pmu.2) socket = some last →
      measured acc name socket pmu.1 = some (kept (records (pmu.1, last)) name i)

theorem AllMeasured.step {pre : List (Pmu × List Event)} {acc acc' : PerSocket}
    (h : self.AllMeasured records pre acc) (hpmu : pmu ∈ self.pmuEvents.items)
    (h' : self.Measured records pmu acc (self.groupEventLeaderFiles pmu.2) acc') :
    self.AllMeasured records (pre ++ [pmu]) acc' := by
  have hmem : ∀ pmu' ∈ pre ++ [pmu], pmu' ∈ self.pmuEvents.items := by
    intro pmu' hpmu'
    obtain hpmu' | hpmu' := List.mem_append.mp hpmu'
    · exact h.mem pmu' hpmu'
    · rwa [List.mem_singleton.mp hpmu']
  refine ⟨hmem, fun pmu' hpmu' i name hname socket last hlast => ?_⟩
  by_cases hsame : pmu'.1 = pmu.1
  · -- a PMU has one list of events
    have hitem : (pmu.1, pmu'.2) ∈ self.pmuEvents.items := hsame ▸ hmem pmu' hpmu'
    have hevents : pmu'.2 = pmu.2 := Dict.eq_of_mem_items hitem hpmu
    rw [hevents] at hname hlast
    rw [hsame]
    exact h'.events i name hname socket last hlast
  · rw [h'.others name socket pmu'.1 hsame]
    obtain hpre | hlast' := List.mem_append.mp hpmu'
    · exact h.events pmu' hpre i name hname socket last hlast
    · exact absurd (by rw [List.mem_singleton.mp hlast']) hsame

theorem getMeasurements_reads (hfed : self.Fed records rest files)
    (hruns : ∀ pmu ∈ self.pmuEvents.items, self.Runs records pmu) :
    Reads (self.pmuEvents.items.flatMap self.leaders) rest files self.getMeasurements
      (self.AllMeasured records self.pmuEvents.items) := by
  have hstep : ∀ pre acc files, ∀ pmu ∈ self.pmuEvents.items, self.AllMeasured records pre acc →
      (∀ k ∈ self.leaders pmu, files k = (records k).bytes ++ rest k) →
        Reads (self.leaders pmu) rest files (self.readPmu acc pmu)
          (self.AllMeasured records (pre ++ [pmu])) :=
    fun pre acc files pmu hpmu h hfull =>
      (readPmu_reads (hfed.nodup pmu hpmu) (hfed.length pmu hpmu) (hruns pmu hpmu) hfull).mono
        fun _ h' => h.step hpmu h'
  have hstart : self.AllMeasured records [] ∅ :=
    ⟨fun _ hpmu => (nomatch hpmu), fun _ hpmu => (nomatch hpmu)⟩
  exact Reads.foldlM apart_pmus hstep hstart fun pmu hpmu k hk =>
    hfed.holds k (List.mem_flatMap.mpr ⟨pmu, hpmu, hk⟩)

theorem frames_addMetrics {keys : List (Pmu × Cpu)} {p : Pmu} {cpu : Cpu}
    {items : List (MetricName × ℚ)} {acc : PerSocket} :
    Frames keys (items.foldlM (self.addMetric p cpu) acc) :=
  Frames.foldlM (fun _ _ _ => frames_liftExcept.bind fun _ => frames_pure) acc

theorem frames_readCpu {cpu : Cpu} {acc : PerSocket} :
    Frames [(pmu.1, cpu)] (self.readCpu pmu acc cpu) :=
  onFile_frames.bind fun _ => frames_addMetrics

theorem frames_readPmu {acc : PerSocket} : Frames (self.leaders pmu) (self.readPmu acc pmu) :=
  Frames.foldlM (fun _ _ hcpu => frames_readCpu.mono fun _ hk => by
    rw [List.mem_singleton.mp hk]
    exact List.mem_map_of_mem hcpu) acc

/-- A cpu whose group was read ran, and is in the topology. -/
theorem readCpu_ok {cpu : Cpu} {acc acc' : PerSocket} {files' : Pmu × Cpu → File}
    (hne : eventNames pmu.2 ≠ []) (hnodup : (eventNames pmu.2).Nodup)
    (hlen : (eventNames pmu.2).length = (records (pmu.1, cpu)).values.length)
    (hfile : files (pmu.1, cpu) = (records (pmu.1, cpu)).bytes ++ rest (pmu.1, cpu))
    (h : (self.readCpu pmu acc cpu).run files = .ok acc' files') :
    (records (pmu.1, cpu)).Scheduled ∧ ∃ socket, self.cpuToSocket.get? cpu = some socket := by
  obtain ⟨measurements, files'', hparse, hadd⟩ := bind_ok_iff.mp h
  obtain ⟨file, hparse, -⟩ := zoom_ok_iff.mp hparse
  rw [hfile] at hparse
  have hfactor : (records (pmu.1, cpu)).scalingFactor ≠ 0 := by
    intro hzero
    have hinfo := uncore_raises
    rw [← hzero] at hinfo
    obtain ⟨left, hleft⟩ := parseEventGroups_raises hinfo hlen hne (rest (pmu.1, cpu))
    rw [hleft] at hparse
    cases hparse
  refine ⟨GroupRecord.scalingFactor_ne_zero_iff.mp hfactor, ?_⟩
  obtain ⟨_, hrun, hcollected⟩ :=
    parseEventGroups_run (informs_uncore hfactor) hlen hnodup (rest (pmu.1, cpu))
  rw [hrun] at hparse
  cases hparse
  have hitem := hcollected.extras hne platformScalingUncoreFactor (by simp)
  rw [Dict.get?_set_self, Dict.get?_eq_some_iff] at hitem
  obtain ⟨metric, items, hitems⟩ := List.exists_cons_of_ne_nil (List.ne_nil_of_mem hitem)
  rw [hitems, List.foldlM_cons] at hadd
  obtain ⟨_, _, hadd, -⟩ := bind_ok_iff.mp hadd
  obtain ⟨socket, _, hsocket, -⟩ := bind_ok_iff.mp hadd
  exact ⟨socket, item_ok_iff.mp (liftExcept_ok_iff.mp hsocket).1⟩

theorem runs_of_ok {measurements : PerSocket} {files' : Pmu × Cpu → File}
    (hfed : self.Fed records rest files)
    (h : self.getMeasurements.run files = .ok measurements files') :
    ∀ pmu ∈ self.pmuEvents.items, self.Runs records pmu := by
  intro pmu hpmu cpu hcpu
  have hleader : (pmu.1, cpu) ∈ self.leaders pmu := List.mem_map_of_mem hcpu
  obtain ⟨acc, files₁, acc', files₂, hsame₁, hrun⟩ :=
    foldlM_ok_mem apart_pmus (fun _ _ _ => frames_readPmu) h pmu hpmu
  obtain ⟨acc'', files₃, acc''', files₄, hsame₃, hrun'⟩ :=
    foldlM_ok_mem apart_cpus (fun _ _ _ => frames_readCpu) hrun cpu hcpu
  have hfile : files₃ (pmu.1, cpu) = (records (pmu.1, cpu)).bytes ++ rest (pmu.1, cpu) := by
    rw [hsame₃ _ List.mem_cons_self, hsame₁ _ hleader]
    exact hfed.holds _ (List.mem_flatMap.mpr ⟨pmu, hpmu, hleader⟩)
  exact readCpu_ok (eventNames_ne_nil hcpu) (hfed.nodup pmu hpmu) (hfed.length pmu hpmu cpu hcpu).symm
    hfile hrun'

/-- The uncore reader decodes the records just when they are readable. -/
theorem decodes_iff (hfed : self.Fed records rest files) :
    self.Decodes records rest files ↔ self.Readable records := by
  constructor
  · intro h
    obtain ⟨measurements, files', hrun, hshows, -⟩ := h
    have hruns := runs_of_ok hfed hrun
    obtain ⟨_, _, hrun', hall, -⟩ := getMeasurements_reads hfed hruns
    rw [hrun] at hrun'
    cases hrun'
    intro pmu hpmu cpu hcpu
    obtain ⟨socket, hsocket, hshown⟩ := hshows pmu hpmu cpu hcpu
    refine ⟨(hruns pmu hpmu cpu hcpu).1, socket, hsocket, fun last hlast i name hname => ?_⟩
    have hkept := hall.events pmu hpmu i name hname socket last hlast
    exact Option.some.inj (hkept.symm.trans (hshown i name hname))
  · intro h
    have hruns : ∀ pmu ∈ self.pmuEvents.items, self.Runs records pmu := fun pmu hpmu cpu hcpu => by
      obtain ⟨hscheduled, socket, hsocket, -⟩ := h pmu hpmu cpu hcpu
      exact ⟨hscheduled, socket, hsocket⟩
    refine (getMeasurements_reads hfed hruns).mono fun measurements hall => ?_
    intro pmu hpmu cpu hcpu
    obtain ⟨_, socket, hsocket, hkept⟩ := h pmu hpmu cpu hcpu
    refine ⟨socket, hsocket, fun i name hname => ?_⟩
    have hmem : cpu ∈ (self.groupEventLeaderFiles pmu.2).filter fun cpu =>
        self.cpuToSocket.get? cpu = some socket :=
      List.mem_filter.mpr ⟨hcpu, by simp [hsocket]⟩
    have hlast := List.getLast?_eq_some_getLast (List.ne_nil_of_mem hmem)
    rw [hall.events pmu hpmu i name hname socket _ hlast, hkept _ hlast i name hname]

end UncorePerfCounters

/-! ## Both readers -/

/-- The cgroup reader decodes whatever it is fed. The uncore reader decodes just the records that
are readable. A record has a header of three words and two words for each event. -/
theorem readers_decode_iff (cgroup : PerfCounters) (cpuRecords : Cpu → GroupRecord)
    (cpuRest cpuFiles : Cpu → File) (uncore : UncorePerfCounters)
    (pmuRecords : Pmu × Cpu → GroupRecord) (pmuRest pmuFiles : Pmu × Cpu → File) :
    (cgroup.Fed cpuRecords cpuRest cpuFiles → cgroup.Decodes cpuRecords cpuRest cpuFiles) ∧
      (uncore.Fed pmuRecords pmuRest pmuFiles →
        (uncore.Decodes pmuRecords pmuRest pmuFiles ↔ uncore.Readable pmuRecords)) ∧
      ∀ record : GroupRecord, record.bytes.length = 24 + 16 * record.values.length :=
  ⟨PerfCounters.decodes, UncorePerfCounters.decodes_iff, fun _ => GroupRecord.length_bytes⟩

/-! ## A group that did not run yet -/

/-- One event that counted `raw`. -/
def oneValue (raw timeEnabled timeRunning : Struct.Word) : GroupRecord where
  nr := 1
  timeEnabled := timeEnabled
  timeRunning := timeRunning
  values := [(raw, 0)]
  nr_eq := rfl

/-- The cycles of a cgroup on two cpus. -/
def cycles : PerfCounters where
  eventNames := ["task_cycles"]
  onlineCpus := [0, 1]
  aggregateForAllCpusWithSum := true
  known := by decide

/-- The memory reads of two sockets, on one PMU. -/
def casReads : UncorePerfCounters where
  cpus := [0, 1]
  pmuEvents := Dict.set ∅ 13 [⟨"platform_cas_count_reads"⟩]
  topology := (Dict.set ∅ 0 (Dict.set ∅ 0 [0])).set 1 (Dict.set ∅ 0 [1])

/-- Half of the time the group was enabled it ran. -/
theorem readers_decode_iff_halfRun :
    cycles.Decodes (fun _ => oneValue 5 4 2) (fun _ => []) (fun _ => (oneValue 5 4 2).bytes ++ []) ∧
      (casReads.Decodes (fun _ => oneValue 5 4 2) (fun _ => [])
        (fun _ => (oneValue 5 4 2).bytes ++ []) ↔ casReads.Readable fun _ => oneValue 5 4 2) :=
  have h := readers_decode_iff cycles (fun _ => oneValue 5 4 2) (fun _ => [])
    (fun _ => (oneValue 5 4 2).bytes ++ []) casReads (fun _ => oneValue 5 4 2) (fun _ => [])
    (fun _ => (oneValue 5 4 2).bytes ++ [])
  ⟨h.1 ⟨by decide, by decide, fun _ _ => rfl⟩, h.2.1 ⟨by decide, by decide, fun _ _ => rfl⟩⟩

/-- The first reads come before the group ran: the uncore reader raises. -/
theorem unscheduled_raises :
    casReads.Fed (fun _ => oneValue 0 4 0) (fun _ => []) (fun _ => (oneValue 0 4 0).bytes ++ []) ∧
      ¬casReads.Decodes (fun _ => oneValue 0 4 0) (fun _ => [])
        (fun _ => (oneValue 0 4 0).bytes ++ []) := by
  refine ⟨⟨by decide, by decide, fun _ _ => rfl⟩, fun h => ?_⟩
  obtain ⟨_, _, hrun, -⟩ := h
  have hraises : raisesSuch (· = .AttributeError "PLATFORM_SCALING_UNCORE_FACTOR_AVG")
      (casReads.getMeasurements.run fun _ => (oneValue 0 4 0).bytes ++ []) = true := by
    decide +kernel
  rw [hrun] at hraises
  cases hraises

end Wca.Perf
