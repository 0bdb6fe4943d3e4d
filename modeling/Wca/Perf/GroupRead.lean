import Wca.Py.Exec
import Wca.Py.Dict
import Wca.Py.Num
import Wca.Py.Struct

/-!
# Reading a group of events

The kernel answers a read of a group leader with one record: how many events there are, how long the
group was enabled and for how long it ran, and for every event its value and its id.
`_parse_event_groups` takes the record apart, scales the values and calls back after every event.

Words are 64 bits wide and read with the format `q`, as the source does.
-/

namespace Wca.Perf

open Py Py.Struct

/-- The exceptions that reading raises. -/
inductive Exc where
  | StructError
  | AssertionError
  | KeyError
  | AttributeError (name : String)
  deriving DecidableEq

abbrev MetricName := String

abbrev Measurements := Dict MetricName ℚ

/-- What a file still has to give. -/
abbrev File := List UInt8

/-! ## The record -/

/-- What the kernel answers for a group: the header counts the values. -/
structure GroupRecord where
  nr : Word
  timeEnabled : Word
  timeRunning : Word
  values : List (Word × Word)
  nr_eq : nr.toInt = values.length

/-- A value and its id. -/
def valueBytes (value : Word × Word) : File := pack value.1 ++ pack value.2

namespace GroupRecord

def bytes (record : GroupRecord) : File :=
  pack record.nr ++ pack record.timeEnabled ++ pack record.timeRunning ++
    record.values.flatMap valueBytes

theorem length_flatMap_valueBytes {values : List (Word × Word)} :
    (values.flatMap valueBytes).length = 16 * values.length := by
  induction values with
  | nil => rfl
  | cons value values ih =>
    simp [valueBytes, ih]
    omega

theorem length_bytes {record : GroupRecord} :
    record.bytes.length = 24 + 16 * record.values.length := by
  rw [bytes, List.length_append, length_flatMap_valueBytes]
  simp

end GroupRecord

/-! ## What the events counted -/

/-- The value of an event that could only be counted while the group ran. -/
def scaled (raw enabled running : ℤ) : ℚ :=
  if running = 0 ∨ enabled = 0 then 0
  else if enabled = running then raw
  else roundHalfEven (raw * enabled / running)

/-- How much more the event counts than was seen of it, zero where nothing was. -/
def factor (enabled running : ℤ) : ℚ := if running = 0 ∨ enabled = 0 then 0 else enabled / running

theorem factor_eq_zero_iff {enabled running : ℤ} :
    factor enabled running = 0 ↔ running = 0 ∨ enabled = 0 := by
  rw [factor]
  split
  · simp [*]
  · next h =>
    obtain ⟨hr, he⟩ := not_or.mp h
    simp [hr, he]

namespace GroupRecord

/-- What each event of the record counted. -/
def counts (record : GroupRecord) : List ℚ :=
  record.values.map fun value =>
    scaled value.1.toInt record.timeEnabled.toInt record.timeRunning.toInt

/-- What the event at a place counted. -/
def count (record : GroupRecord) (i : Nat) : ℚ := record.counts.getD i 0

def scalingFactor (record : GroupRecord) : ℚ :=
  factor record.timeEnabled.toInt record.timeRunning.toInt

/-- The group ran while it was enabled. -/
def Scheduled (record : GroupRecord) : Prop :=
  record.timeRunning ≠ 0 ∧ record.timeEnabled ≠ 0

instance (record : GroupRecord) : Decidable record.Scheduled :=
  inferInstanceAs (Decidable (_ ∧ _))

theorem scalingFactor_ne_zero_iff {record : GroupRecord} :
    record.scalingFactor ≠ 0 ↔ record.Scheduled := by
  have hword : ∀ word : Word, word.toInt = 0 ↔ word = 0 := fun word =>
    ⟨fun h => BitVec.eq_of_toInt_eq (by simpa using h), fun h => by simp [h]⟩
  rw [scalingFactor, Ne, factor_eq_zero_iff, hword, hword, not_or]
  rfl

theorem length_counts {record : GroupRecord} : record.counts.length = record.values.length :=
  List.length_map _

end GroupRecord

/-! ## `_parse_event_groups` -/

/-- `struct.unpack('q', file.read(8))[0]` -/
def readNumber : EStateM Exc File ℤ := do
  let file ← get
  set (file.drop 8)
  match unpack (file.take 8) with
  | some n => pure n
  | none => throw .StructError

/-- `_scale_counter_value`: the value and the scaling factor. -/
def scaleCounterValue (rawValue timeEnabled timeRunning : ℤ) : ℚ × ℚ :=
  -- the first few readings may contain only zeros
  if timeRunning = 0 then (0, 0)
  else if timeEnabled = 0 then (0, 0)
  else if timeRunning ≠ timeEnabled then
    let scalingFactor : ℚ := timeEnabled / timeRunning
    (roundHalfEven (rawValue * scalingFactor), scalingFactor)
  else (rawValue, 1)

/-- What is called with the scaling factors so far after every event, when there is something to
call. -/
abbrev ScalingInfo := List ℚ → Except Exc Measurements

/-- One turn of the loop of `_parse_event_groups`. -/
def parseEvent (getScalingInfo : Option ScalingInfo) (timeEnabled timeRunning : ℤ)
    (acc : Measurements × List ℚ) (eventName : MetricName) :
    EStateM Exc File (Measurements × List ℚ) := do
  let rawValue ← readNumber
  let measurement := scaleCounterValue rawValue timeEnabled timeRunning
  let measurements := acc.1.set eventName measurement.1
  -- a group that did not run says nothing of how values are scaled
  let scalingFactors := if measurement.2 ≠ 0 then acc.2 ++ [measurement.2] else acc.2
  let _ ← readNumber
  match getScalingInfo with
  | none => pure (measurements, scalingFactors)
  | some info => do
    let scaling ← Py.liftExcept (info scalingFactors)
    pure (measurements.update scaling, scalingFactors)

/-- `_parse_event_groups` -/
def parseEventGroups (eventNames : List MetricName) (getScalingInfo : Option ScalingInfo) :
    EStateM Exc File Measurements := do
  let size ← readNumber
  doIf (size ≠ eventNames.length) (throw .AssertionError)
  let timeEnabled ← readNumber
  let timeRunning ← readNumber
  let acc ← eventNames.foldlM (parseEvent getScalingInfo timeEnabled timeRunning) (∅, [])
  pure acc.1

theorem scaleCounterValue_eq {rawValue timeEnabled timeRunning : ℤ} :
    scaleCounterValue rawValue timeEnabled timeRunning =
      (scaled rawValue timeEnabled timeRunning, factor timeEnabled timeRunning) := by
  rw [scaleCounterValue, scaled, factor]
  by_cases hr : timeRunning = 0
  · simp [hr]
  by_cases he : timeEnabled = 0
  · simp [he]
  rw [if_neg hr, if_neg he, if_neg (not_or.mpr ⟨hr, he⟩), if_neg (not_or.mpr ⟨hr, he⟩)]
  by_cases hne : timeRunning = timeEnabled
  · simp [hne, he]
  · rw [if_pos hne, if_neg (Ne.symm hne)]
    simp only [mul_div_assoc]

theorem readNumber_run {word : Word} {rest : File} :
    readNumber.run (pack word ++ rest) = .ok word.toInt rest := by
  have htake : (pack word ++ rest).take 8 = pack word := List.take_left' length_pack
  have hdrop : (pack word ++ rest).drop 8 = rest := List.drop_left' length_pack
  rw [readNumber, bind_of_ok (get_run _), bind_of_ok (set_run _ _), htake, hdrop, unpack_pack]
  rfl

section Loop

variable {info : ScalingInfo} {timeEnabled timeRunning : ℤ}

/-- The scaling factors after some events: all alike, and none where the group did not run. -/
def noted (f : ℚ) (count : Nat) : List ℚ := if f = 0 then [] else List.replicate count f

theorem noted_succ {f : ℚ} {count : Nat} :
    (if f ≠ 0 then noted f count ++ [f] else noted f count) = noted f (count + 1) := by
  by_cases h : f = 0
  · simp [noted, h]
  · simp [noted, h, List.replicate_succ']

theorem parseEvent_bind (value : Word × Word) (rest : File) (measurements : Measurements)
    (count : Nat) (name : MetricName) :
    (parseEvent (some info) timeEnabled timeRunning
        (measurements, noted (factor timeEnabled timeRunning) count) name).run
      (valueBytes value ++ rest) =
    (Py.liftExcept ((info (noted (factor timeEnabled timeRunning) (count + 1))).map fun scaling =>
      ((measurements.set name (scaled value.1.toInt timeEnabled timeRunning)).update scaling,
        noted (factor timeEnabled timeRunning) (count + 1))) : EStateM Exc File _).run rest := by
  rw [parseEvent, valueBytes, List.append_assoc, bind_of_ok readNumber_run]
  simp only [scaleCounterValue_eq, noted_succ]
  rw [bind_of_ok readNumber_run]
  cases info (noted (factor timeEnabled timeRunning) (count + 1)) <;> rfl

/-- The callback gives the metrics `extra` after every event, and nothing else. -/
def Informs (info : ScalingInfo) (f : ℚ) (extra : List MetricName) (scaling : Nat → Measurements) :
    Prop :=
  ∀ count, info (noted f (count + 1)) = .ok (scaling (count + 1)) ∧
    ∀ name, name ∈ scaling (count + 1) ↔ name ∈ extra

/-- After the values were read, each event has its own under its name, unless the callback gave
the name another meaning, and what the callback gave last is there. -/
structure Collected (extra names : List MetricName) (counts : List ℚ)
    (before scaling after : Measurements) : Prop where
  events : ∀ p ∈ names.zip counts, p.1 ∉ extra → after.get? p.1 = some p.2
  extras : names ≠ [] → ∀ name ∈ extra, after.get? name = scaling.get? name
  others : ∀ name, name ∉ names → (names ≠ [] → name ∉ extra) →
    after.get? name = before.get? name

theorem Collected.step {extra names : List MetricName} {counts : List ℚ} {name : MetricName}
    {count : ℚ} {before first scaling after : Measurements} (hname : name ∉ names)
    (hfirst : ∀ x, x ∈ first ↔ x ∈ extra) (hlast : names = [] → scaling = first)
    (h : Collected extra names counts ((before.set name count).update first) scaling after) :
    Collected extra (name :: names) (count :: counts) before scaling after := by
  have hpass : ∀ x, x ∉ extra →
      ((before.set name count).update first).get? x = (before.set name count).get? x := by
    intro x hx
    rw [Dict.get?_update, Dict.get?_eq_none_iff.mpr (mt (hfirst x).mp hx), Option.none_or]
  constructor
  · intro p hp hx
    obtain rfl | hp := List.mem_cons.mp hp
    · rw [h.others _ hname fun _ => hx, hpass _ hx, Dict.get?_set, if_pos rfl]
    · exact h.events p hp hx
  · intro _ x hx
    cases names with
    | cons _ _ => exact h.extras (List.cons_ne_nil _ _) x hx
    | nil =>
      obtain ⟨v, hv⟩ := Dict.mem_keys_iff_get?.mp ((hfirst x).mpr hx)
      rw [h.others x List.not_mem_nil fun hne => absurd rfl hne, Dict.get?_update, hlast rfl, hv,
        Option.some_or]
  · intro x hx hextra
    obtain ⟨hne, hx⟩ := not_or.mp (mt List.mem_cons.mpr hx)
    have hextra := hextra (List.cons_ne_nil _ _)
    rw [h.others x hx fun _ => hextra, hpass x hextra, Dict.get?_set_of_ne hne]

/-- The loop, over the values of a record. -/
theorem parseEvents_run {extra : List MetricName} {scaling : Nat → Measurements}
    (hinforms : Informs info (factor timeEnabled timeRunning) extra scaling) (rest : File) :
    ∀ (names : List MetricName) (values : List (Word × Word)) (measurements : Measurements)
      (count : Nat), names.length = values.length → names.Nodup → ∃ after,
      (names.foldlM (parseEvent (some info) timeEnabled timeRunning)
          (measurements, noted (factor timeEnabled timeRunning) count)).run
        (values.flatMap valueBytes ++ rest) =
          .ok (after, noted (factor timeEnabled timeRunning) (count + values.length)) rest ∧
      Collected extra names
        (values.map fun value => scaled value.1.toInt timeEnabled timeRunning) measurements
        (scaling (count + values.length)) after := by
  intro names
  induction names with
  | nil =>
    intro values measurements count hlen _
    obtain rfl := List.length_eq_zero_iff.mp hlen.symm
    exact ⟨measurements, rfl, ⟨fun p hp => (nomatch hp), fun h => absurd rfl h, fun _ _ _ => rfl⟩⟩
  | cons name names ih =>
    intro values measurements count hlen hnodup
    cases values with
    | nil => simp at hlen
    | cons value values =>
      obtain ⟨hname, hnodup⟩ := List.nodup_cons.mp hnodup
      obtain ⟨hinfo, hextra⟩ := hinforms count
      have hstep := @parseEvent_bind info timeEnabled timeRunning value
        (values.flatMap valueBytes ++ rest) measurements count name
      rw [hinfo] at hstep
      obtain ⟨after, hrun, hafter⟩ := ih values
        ((measurements.set name (scaled value.1.toInt timeEnabled timeRunning)).update
          (scaling (count + 1))) (count + 1) (by simpa using hlen) hnodup
      rw [Nat.add_right_comm, Nat.add_assoc] at hrun hafter
      refine ⟨after, ?_, hafter.step hname hextra ?_⟩
      · rw [List.foldlM_cons, List.flatMap_cons, List.append_assoc, bind_of_ok hstep]
        exact hrun
      · intro hnil
        obtain rfl := hnil
        simp at hlen
        simp [hlen]

variable {record : GroupRecord} {names : List MetricName}

theorem parseEventGroups_bind (hlen : names.length = record.values.length) {rest : File} :
    (parseEventGroups names (some info)).run (record.bytes ++ rest) =
      (do
        let acc ← names.foldlM (parseEvent (some info) record.timeEnabled.toInt
          record.timeRunning.toInt) (∅, [])
        pure acc.1 : EStateM Exc File Measurements).run
        (record.values.flatMap valueBytes ++ rest) := by
  have hsize : ¬record.nr.toInt ≠ names.length := by rw [record.nr_eq, hlen]; simp
  have hassert : (doIf (record.nr.toInt ≠ names.length)
      (throw .AssertionError : EStateM Exc File PUnit)) = pure ⟨⟩ := by simp [hsize]
  simp only [parseEventGroups, GroupRecord.bytes, List.append_assoc]
  rw [bind_of_ok readNumber_run, hassert, pure_bind, bind_of_ok readNumber_run,
    bind_of_ok readNumber_run]

/-- A record is read to its end and no further. -/
theorem parseEventGroups_run {extra : List MetricName} {scaling : Nat → Measurements}
    (hinforms : Informs info record.scalingFactor extra scaling)
    (hlen : names.length = record.values.length) (hnodup : names.Nodup) (rest : File) : ∃ after,
    (parseEventGroups names (some info)).run (record.bytes ++ rest) = .ok after rest ∧
      Collected extra names record.counts ∅ (scaling names.length) after := by
  obtain ⟨after, hrun, hafter⟩ :=
    parseEvents_run hinforms rest names record.values ∅ 0 hlen hnodup
  have hstart : noted (factor record.timeEnabled.toInt record.timeRunning.toInt) 0 = [] := by
    simp [noted]
  rw [hstart] at hrun
  rw [Nat.zero_add, ← hlen] at hafter
  refine ⟨after, ?_, hafter⟩
  rw [parseEventGroups_bind hlen, bind_of_ok hrun]
  rfl

theorem Collected.get?_event {extra : List MetricName} {before scaling after : Measurements}
    (h : Collected extra names record.counts before scaling after)
    (hlen : names.length = record.values.length) {i : Nat} {name : MetricName}
    (hname : names[i]? = some name) (hextra : name ∉ extra) :
    after.get? name = some (record.count i) := by
  obtain ⟨hi, hname⟩ := List.getElem?_eq_some_iff.mp hname
  have hi' : i < record.counts.length := by rwa [GroupRecord.length_counts, ← hlen]
  have hzip : (name, record.count i) ∈ names.zip record.counts := by
    refine List.mem_iff_getElem.mpr ⟨i, by simp [hi, hi'], ?_⟩
    rw [List.getElem_zip, hname, GroupRecord.count, List.getD_eq_getElem?_getD,
      List.getElem?_eq_getElem hi', Option.getD_some]
  exact h.events _ hzip hextra

/-- What the callback raises at the first event ends the reading. -/
theorem parseEventGroups_raises {e : Exc} (hinfo : info (noted record.scalingFactor 1) = .error e)
    (hlen : names.length = record.values.length) (hne : names ≠ []) (rest : File) : ∃ left,
    (parseEventGroups names (some info)).run (record.bytes ++ rest) = .error e left := by
  obtain ⟨name, names, rfl⟩ := List.exists_cons_of_ne_nil hne
  cases hvalues : record.values with
  | nil => simp [hvalues] at hlen
  | cons value values =>
    have hstep := @parseEvent_bind info record.timeEnabled.toInt record.timeRunning.toInt value
      (values.flatMap valueBytes ++ rest) ∅ 0 name
    have hstart : noted (factor record.timeEnabled.toInt record.timeRunning.toInt) 0 = [] := by
      simp [noted]
    rw [Nat.zero_add, ← GroupRecord.scalingFactor, hinfo, GroupRecord.scalingFactor, hstart] at hstep
    refine ⟨values.flatMap valueBytes ++ rest, ?_⟩
    rw [parseEventGroups_bind hlen, hvalues, List.foldlM_cons, List.flatMap_cons, List.append_assoc,
      bind_assoc, bind_of_error hstep]

end Loop

end Wca.Perf
