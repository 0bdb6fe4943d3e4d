import Wca.Perf.EventNames
import Wca.Perf.Readers

/-!
# Attributes of events

`_create_event_attributes` looks a name up in the tables of `perf_const`, and reads it as a raw event
when it is in none of them. What `filter_out_event_names_for_cpu` lets through is in a table that has
the cpu, or it is a raw event (`createEventAttributes_filtered`). Two names of the tables never stand
for one event (`named_injective`).
-/

namespace Wca.Perf

open Py EventNames

/-- `CPUCodeName` -/
inductive CPUCodeName where
  | unknown
  | haswell
  | broadwell
  | skylake
  | cascadeLake
  | cooperLake
  | iceLake
  deriving DecidableEq

/-- The exceptions that opening counters raises. -/
inductive OpenExc where
  | AssertionError
  | KeyError
  | Exception (msg : String)
  | MissingMeasurementException (msg : String)
  | UnableToOpenPerfEvents (msg : String)
  | OSError (msg : String)
  | eventName (e : EventExn)
  | builtin (e : Exn)
  deriving DecidableEq

/-! ## The tables -/

/-- `HardwareEventNameMap` -/
def hardwareEventNameMap : Dict MetricName ℕ where
  items := [("task_cycles", 0), ("task_instructions", 1), ("task_cache_misses", 3),
    ("task_cache_references", 2)]
  nodup := by decide

/-- An event of the cpus that have it. -/
def onCpus (cpus : List CPUCodeName) (event umask cmask : ℕ) : Dict CPUCodeName (ℕ × ℕ × ℕ) :=
  .ofItems (cpus.map fun cpu => (cpu, event, umask, cmask))

/-- `PREDEFINED_RAW_EVENTS`: the event, its mask and the counter mask for each cpu that has it. -/
def predefinedRawEvents : Dict MetricName (Dict CPUCodeName (ℕ × ℕ × ℕ)) where
  items := [
    ("task_stalled_mem_loads",
      (onCpus [.skylake, .cascadeLake] 0xA3 0x14 20).set .broadwell (0xA3, 0x06, 6)),
    ("task_offcore_requests_l3_miss_demand_data_rd", onCpus [.skylake, .cascadeLake] 0xB0 0x10 0),
    ("task_offcore_requests_demand_data_rd", onCpus [.skylake, .cascadeLake] 0xB0 0x01 0),
    ("task_offcore_requests_demand_rfo", onCpus [.skylake, .cascadeLake] 0xB0 0x04 0),
    ("task_offcore_requests_outstanding_l3_miss_demand_data_rd",
      onCpus [.skylake, .cascadeLake] 0x60 0x10 0),
    ("task_mem_load_retired_local_pmm", onCpus [.cascadeLake] 0xd1 0x80 0),
    ("task_mem_load_retired_local_dram", onCpus [.skylake, .cascadeLake] 0xd3 0x01 0),
    ("task_mem_load_retired_remote_dram", onCpus [.skylake, .cascadeLake] 0xd3 0x02 0),
    ("task_mem_inst_retired_loads", onCpus [.skylake, .cascadeLake] 0xd0 0x81 0),
    ("task_mem_inst_retired_stores", onCpus [.skylake, .cascadeLake] 0xd0 0x82 0),
    ("task_dtlb_load_misses", onCpus [.skylake, .cascadeLake] 0x08 0x0e 0)]
  nodup := by decide

/-! ## The attributes -/

/-- The fields of `PerfEventAttr` that are set; the others are 0. -/
structure PerfEventAttr where
  type : ℕ
  size : ℕ
  config : BitVec 64
  sampleType : ℕ
  readFormat : ℕ
  flags : ℕ
  config1 : BitVec 64
  deriving DecidableEq

def perfTypeHardware : ℕ := 0

def perfTypeRaw : ℕ := 4

def perfAttrSizeVer5 : ℕ := 0x70

def perfSampleIdentifier : ℕ := 1 <<< 16

def perfFormatGroup : ℕ := 1 <<< 3

def perfFormatTotalTimeEnabled : ℕ := 1 <<< 0

def perfFormatTotalTimeRunning : ℕ := 1 <<< 1

def perfFormatId : ℕ := 1 <<< 2

namespace AttrFlags

def disabled : ℕ := 1 <<< 0

def inherit : ℕ := 1 <<< 1

def excludeGuest : ℕ := 1 <<< 20

end AttrFlags

/-- `_get_event_config` -/
def getEventConfig (cpu : CPUCodeName) (cpus : Dict CPUCodeName (ℕ × ℕ × ℕ)) : Except OpenExc ℕ :=
  match cpus.get? cpu with
  | none => .error .KeyError
  | some (event, umask, cmask) => .ok (event ||| umask <<< 8 ||| cmask <<< 24)

/-- The type, `config` and `config1` of an event. The fields of the structure have 64 bits, whatever
the numbers are. -/
def eventEncoding (eventName : MetricName) (cpuCodeName : CPUCodeName) :
    Except OpenExc (ℕ × BitVec 64 × BitVec 64) :=
  match predefinedRawEvents.get? eventName with
  | some cpus => do
    let config ← getEventConfig cpuCodeName cpus
    return (perfTypeRaw, .ofNat 64 config, 0)
  | none =>
    match hardwareEventNameMap.get? eventName with
    | some config => .ok (perfTypeHardware, .ofNat 64 config, 0)
    | none =>
      if Str.contains "__r" eventName then do
        let (config, config1) ← Except.mapError OpenExc.eventName (parseRawEventName eventName)
        return (perfTypeRaw, .ofInt 64 config, .ofInt 64 config1)
      else .error (.Exception ("Unknown event name " ++ Str.repr eventName))

/-- `_create_event_attributes` -/
def createEventAttributes (eventName : MetricName) (disabled : Bool) (cpuCodeName : CPUCodeName) :
    Except OpenExc PerfEventAttr := do
  let (type, config, config1) ← eventEncoding eventName cpuCodeName
  let flags := AttrFlags.excludeGuest ||| AttrFlags.inherit
  return {
    type, config, config1
    size := perfAttrSizeVer5
    sampleType := perfSampleIdentifier
    readFormat := perfFormatGroup ||| perfFormatTotalTimeEnabled ||| perfFormatTotalTimeRunning |||
      perfFormatId
    flags := if disabled then flags ||| AttrFlags.disabled else flags }

/-- One turn over the names. -/
def filterOutEventName (cpuCodename : CPUCodeName) (filteredEventNames : List MetricName)
    (eventName : MetricName) : Except OpenExc (List MetricName) :=
  if eventName ∈ hardwareEventNameMap then .ok (filteredEventNames ++ [eventName])
  else
    match predefinedRawEvents.get? eventName with
    | some cpus =>
      if cpuCodename ∈ cpus then .ok (filteredEventNames ++ [eventName]) else .ok filteredEventNames
    | none =>
      if Str.contains "__r" eventName then .ok (filteredEventNames ++ [eventName])
      else .error (.Exception ("Unknown event name " ++ Str.repr eventName ++ "!"))

/-- `filter_out_event_names_for_cpu` -/
def filterOutEventNamesForCpu (eventNames : List MetricName) (cpuCodename : CPUCodeName) :
    Except OpenExc (List MetricName) :=
  eventNames.foldlM (filterOutEventName cpuCodename) []

/-! ## What a name stands for -/

/-- The tables have the event for the cpu. -/
def Tabled (eventName : MetricName) (cpu : CPUCodeName) : Prop :=
  eventName ∈ hardwareEventNameMap ∨ ∃ cpus ∈ predefinedRawEvents.get? eventName, cpu ∈ cpus

/-- A name that only its own text describes. -/
def IsRaw (eventName : MetricName) : Prop :=
  eventName ∉ hardwareEventNameMap ∧ eventName ∉ predefinedRawEvents ∧ Str.contains "__r" eventName = true

variable {name name' : MetricName} {cpu : CPUCodeName} {disabled : Bool}

/-- No name is in both tables. -/
theorem predefined_of_hardware (h : name ∈ hardwareEventNameMap) : predefinedRawEvents.get? name = none := by
  have hkeys : ∀ key ∈ hardwareEventNameMap.keys, predefinedRawEvents.get? key = none := by decide
  exact hkeys name h

theorem hardware_get? : (∃ config, hardwareEventNameMap.get? name = some config) ↔
    name ∈ hardwareEventNameMap :=
  Dict.mem_keys_iff_get?.symm

theorem getEventConfig_ok_iff {cpus : Dict CPUCodeName (ℕ × ℕ × ℕ)} :
    (∃ config, getEventConfig cpu cpus = .ok config) ↔ cpu ∈ cpus := by
  rw [getEventConfig, Dict.mem_def, Dict.mem_keys_iff_get?]
  cases cpus.get? cpu with
  | none => simp
  | some entry => simp

theorem eventEncoding_ok_iff : (∃ e, eventEncoding name cpu = .ok e) ↔
    Tabled name cpu ∨ IsRaw name ∧ ∃ config, parseRawEventName name = .ok config := by
  rw [eventEncoding, Tabled, IsRaw, ← hardware_get?]
  cases hpre : predefinedRawEvents.get? name with
  | some cpus =>
    have hmem : name ∈ predefinedRawEvents := Dict.mem_keys_iff_get?.mpr ⟨cpus, hpre⟩
    have hhard : ¬∃ config, hardwareEventNameMap.get? name = some config := by
      intro h
      rw [predefined_of_hardware (hardware_get?.mp h)] at hpre
      cases hpre
    have hcpu : (∃ cpus' ∈ some cpus, cpu ∈ cpus') ↔ cpu ∈ cpus := by simp
    simp only [hhard, false_or, hmem, not_true, false_and, and_false, or_false]
    rw [hcpu, ← getEventConfig_ok_iff]
    cases getEventConfig cpu cpus with
    | ok config => exact iff_of_true ⟨_, rfl⟩ ⟨config, rfl⟩
    | error e => exact iff_of_false except_not_returns except_not_returns
  | none =>
    have hmem : name ∉ predefinedRawEvents := Dict.get?_eq_none_iff.mp hpre
    cases hhard : hardwareEventNameMap.get? name with
    | some config => exact iff_of_true ⟨_, rfl⟩ (Or.inl (Or.inl ⟨config, rfl⟩))
    | none =>
      have hnone : ¬∃ cpus ∈ (none : Option (Dict CPUCodeName (ℕ × ℕ × ℕ))), cpu ∈ cpus := by simp
      simp only [reduceCtorEq, exists_false, hnone, or_false, false_or, hmem, not_false_iff, true_and]
      by_cases hraw : Str.contains "__r" name = true
      · simp only [hraw, if_true, true_and]
        cases parseRawEventName name with
        | ok config => exact iff_of_true ⟨_, rfl⟩ ⟨config, rfl⟩
        | error e => exact iff_of_false except_not_returns except_not_returns
      · simp [hraw]

theorem createEventAttributes_ok_iff : (∃ attr, createEventAttributes name disabled cpu = .ok attr) ↔
    Tabled name cpu ∨ IsRaw name ∧ ∃ config, parseRawEventName name = .ok config := by
  rw [← eventEncoding_ok_iff, createEventAttributes]
  cases eventEncoding name cpu with
  | ok e => exact iff_of_true ⟨_, rfl⟩ ⟨e, rfl⟩
  | error e => exact iff_of_false except_not_returns except_not_returns

theorem mem_namedEvents : name ∈ namedEvents ↔ name ∈ hardwareEventNameMap ∨ name ∈ predefinedRawEvents := by
  have hkeys : namedEvents = hardwareEventNameMap.keys ++ predefinedRawEvents.keys := by decide
  rw [hkeys, List.mem_append]
  rfl

/-- A name whose attributes can be created is known. -/
theorem known_of_createEventAttributes {attr : PerfEventAttr}
    (h : createEventAttributes name disabled cpu = .ok attr) : Known name := by
  obtain htabled | ⟨hraw, -⟩ := createEventAttributes_ok_iff.mp ⟨attr, h⟩
  · refine Or.inl (mem_namedEvents.mpr (htabled.imp_right ?_))
    rintro ⟨cpus, hcpus, -⟩
    exact Dict.mem_keys_iff_get?.mpr ⟨cpus, hcpus⟩
  · exact Or.inr (Str.contains_iff.mp hraw.2.2)

/-! ## Names that are let through -/

/-- A name that the filter lets through. -/
def Passes (cpu : CPUCodeName) (name : MetricName) : Prop := Tabled name cpu ∨ IsRaw name

instance (cpu : CPUCodeName) (name : MetricName) : Decidable (Passes cpu name) :=
  inferInstanceAs (Decidable ((_ ∨ _) ∨ _ ∧ _ ∧ _))

theorem known_iff : Known name ↔ name ∈ hardwareEventNameMap ∨ name ∈ predefinedRawEvents ∨
    Str.contains "__r" name = true := by
  rw [Known, mem_namedEvents, or_assoc, Str.contains_iff]
  rfl

theorem known_of_passes (h : Passes cpu name) : Known name := by
  obtain (htabled | ⟨cpus, hcpus, -⟩) | hraw := h
  · exact known_iff.mpr (Or.inl htabled)
  · exact known_iff.mpr (Or.inr (Or.inl (Dict.mem_keys_iff_get?.mpr ⟨cpus, hcpus⟩)))
  · exact known_iff.mpr (Or.inr (Or.inr hraw.2.2))

theorem filterOutEventName_ok_iff {acc acc' : List MetricName} :
    filterOutEventName cpu acc name = .ok acc' ↔
      Known name ∧ acc' = acc ++ [name].filter (Passes cpu ·) := by
  rw [filterOutEventName]
  have hkept : Passes cpu name → ((.ok (acc ++ [name]) : Except OpenExc (List MetricName)) = .ok acc' ↔
      Known name ∧ acc' = acc ++ [name].filter (Passes cpu ·)) := fun h => by
    rw [List.filter_singleton, decide_eq_true h, Except.ok.injEq]
    exact ⟨fun heq => ⟨known_of_passes h, heq.symm⟩, fun heq => heq.2.symm⟩
  by_cases hhard : name ∈ hardwareEventNameMap
  · rw [if_pos hhard]
    exact hkept (Or.inl (Or.inl hhard))
  · rw [if_neg hhard]
    cases hpre : predefinedRawEvents.get? name with
    | some cpus =>
      have hmem : name ∈ predefinedRawEvents := Dict.mem_keys_iff_get?.mpr ⟨cpus, hpre⟩
      by_cases hcpu : cpu ∈ cpus
      · simp only [hcpu, if_true]
        exact hkept (Or.inl (Or.inr ⟨cpus, hpre, hcpu⟩))
      · have hpasses : ¬Passes cpu name := by
          rintro ((htabled | ⟨cpus', hcpus', hcpu'⟩) | hraw)
          · exact hhard htabled
          · exact hcpu (Option.some.inj (hpre.symm.trans hcpus') ▸ hcpu')
          · exact hraw.2.1 hmem
        simp only [hcpu, if_false]
        rw [List.filter_singleton, decide_eq_false hpasses, Except.ok.injEq]
        exact ⟨fun heq => ⟨known_iff.mpr (Or.inr (Or.inl hmem)), by rw [← heq, cond_false, List.append_nil]⟩,
          fun heq => by rw [heq.2, cond_false, List.append_nil]⟩
    | none =>
      have hmem : name ∉ predefinedRawEvents := Dict.get?_eq_none_iff.mp hpre
      by_cases hraw : Str.contains "__r" name = true
      · simp only [hraw, if_true]
        exact hkept (Or.inr ⟨hhard, hmem, hraw⟩)
      · simp only [hraw]
        refine iff_of_false (fun h => (by cases h)) fun h => ?_
        obtain hknown | hknown | hknown := known_iff.mp h.1
        · exact hhard hknown
        · exact hmem hknown
        · exact hraw hknown

/-- The filter returns when every name is known, and then the names that pass, in their order. -/
theorem filterOutEventNamesForCpu_ok_iff {names filtered : List MetricName} :
    filterOutEventNamesForCpu names cpu = .ok filtered ↔
      (∀ name ∈ names, Known name) ∧ filtered = names.filter (Passes cpu ·) := by
  constructor
  · intro h
    refine except_foldlM_ok (I := fun pre filtered =>
      (∀ name ∈ pre, Known name) ∧ filtered = pre.filter (Passes cpu ·)) h ⟨by simp, rfl⟩ ?_
    rintro pre name post acc acc' - ⟨hknown, rfl⟩ hstep
    obtain ⟨hname, rfl⟩ := filterOutEventName_ok_iff.mp hstep
    refine ⟨fun name' hname' => ?_, by rw [List.filter_append]⟩
    obtain hpre | hlast := List.mem_append.mp hname'
    · exact hknown name' hpre
    · rwa [List.mem_singleton.mp hlast]
  · rintro ⟨hknown, rfl⟩
    have hstep : ∀ pre name post acc, names = pre ++ name :: post → acc = pre.filter (Passes cpu ·) →
        ∃ acc', filterOutEventName cpu acc name = .ok acc' ∧
          acc' = (pre ++ [name]).filter (Passes cpu ·) :=
      fun pre name post acc hl hI => ⟨_, filterOutEventName_ok_iff.mpr
        ⟨hknown name (by rw [hl]; simp), rfl⟩, by rw [List.filter_append, hI]⟩
    obtain ⟨r, hr, rfl⟩ := except_foldlM_run
      (I := fun pre acc => acc = pre.filter (Passes cpu ·)) rfl hstep
    exact hr

/-- What the filter lets through, `_create_event_attributes` takes: nothing but the text of a raw
event can be wrong. -/
theorem createEventAttributes_filtered {names filtered : List MetricName}
    (h : filterOutEventNamesForCpu names cpu = .ok filtered) {name : MetricName} (hname : name ∈ filtered) :
    (∃ attr, createEventAttributes name disabled cpu = .ok attr) ∨
      IsRaw name ∧ ∃ e, parseRawEventName name = .error e ∧
        createEventAttributes name disabled cpu = .error (.eventName e) := by
  obtain ⟨-, rfl⟩ := filterOutEventNamesForCpu_ok_iff.mp h
  obtain ⟨-, hpasses⟩ := List.mem_filter.mp hname
  obtain htabled | hraw := of_decide_eq_true hpasses
  · exact Or.inl (createEventAttributes_ok_iff.mpr (Or.inl htabled))
  · cases hparse : parseRawEventName name with
    | ok config => exact Or.inl (createEventAttributes_ok_iff.mpr (Or.inr ⟨hraw, config, hparse⟩))
    | error e =>
      refine Or.inr ⟨hraw, e, rfl, ?_⟩
      rw [createEventAttributes, eventEncoding, Dict.get?_eq_none_iff.mpr hraw.2.1,
        Dict.get?_eq_none_iff.mpr hraw.1, if_pos hraw.2.2, hparse]
      rfl

/-! ## Different names -/

theorem nodup_encodings (cpu : CPUCodeName) :
    ((namedEvents.filter fun name => (eventEncoding name cpu).isOk).map fun name =>
      (eventEncoding name cpu).toOption).Nodup := by
  cases cpu <;> decide

/-- Two names of the tables never stand for one event of a cpu. -/
theorem named_injective {e : ℕ × BitVec 64 × BitVec 64} (hname : name ∈ namedEvents)
    (hname' : name' ∈ namedEvents) (he : eventEncoding name cpu = .ok e)
    (he' : eventEncoding name' cpu = .ok e) : name = name' := by
  have hinj := List.inj_on_of_nodup_map (nodup_encodings cpu)
  exact hinj (List.mem_filter.mpr ⟨hname, by rw [he]; rfl⟩) (List.mem_filter.mpr ⟨hname', by rw [he']; rfl⟩)
    (by rw [he, he'])

end Wca.Perf
