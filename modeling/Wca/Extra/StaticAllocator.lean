import Wca.Allocators
import Wca.Py.Dict

/-!
# `StaticAllocator`

The rules are applied one by one: the allocations of a rule are put on top of those so far, for the
tasks that it matches. `mergeRules` is associative with the empty dictionary as identity, and what is
left after all rules is what the last rule says (`buildAllocationsFromRules_lastRule`).
-/

namespace Wca

open Py

/-! ## Merging -/

section Merge

variable {T V : Type} [DecidableEq T]

def mergeRules (existingTasksAllocations newTasksAllocations : Dict TaskId (Dict T V)) :
    Dict TaskId (Dict T V) :=
  let merged : Dict TaskId (Dict T V) := newTasksAllocations.items.foldl
    (fun merged p =>
      merged.set p.1 (((existingTasksAllocations.get? p.1).getD ∅).update p.2)) ∅
  existingTasksAllocations.items.foldl
    (fun merged p => if p.1 ∉ merged then merged.set p.1 p.2 else merged) merged

/-- The value of a type for a task. -/
def entryOf (tasksAllocations : Dict TaskId (Dict T V)) (task : TaskId) (t : T) : Option V :=
  (tasksAllocations.get? task).bind fun a => a.get? t

variable (a b c : Dict TaskId (Dict T V)) (task : TaskId) (t : T)

/-- The first loop makes a dictionary out of the new tasks only. -/
theorem mergeRules_eq : mergeRules a b = a.items.foldl
    (fun merged p => if p.1 ∉ merged then merged.set p.1 p.2 else merged)
    (b.map fun task new => ((a.get? task).getD ∅).update new) := by
  rw [mergeRules, ← Dict.foldl_set_map fun task new => ((a.get? task).getD ∅).update new]

theorem get?_mergeRules : (mergeRules a b).get? task =
    ((b.get? task).map fun new => ((a.get? task).getD ∅).update new).or (a.get? task) := by
  have hstep : ∀ (merged : Dict TaskId (Dict T V)) (p : TaskId × Dict T V) (k : TaskId),
      (if p.1 ∉ merged then merged.set p.1 p.2 else merged).get? k =
        if k = p.1 then (merged.get? k).or (some p.2) else merged.get? k := by
    intro merged p k
    by_cases hk : k = p.1
    · rw [if_pos hk, hk]
      split
      · case isTrue hp => rw [Dict.get?_set_self, Dict.get?_eq_none_iff.mpr hp, Option.none_or]
      · case isFalse hp =>
        obtain ⟨v, hv⟩ := Dict.mem_keys_iff_get?.mp (not_not.mp hp)
        rw [hv, Option.some_or]
    · rw [if_neg hk]
      split
      · exact Dict.get?_set_of_ne hk
      · rfl
  rw [mergeRules_eq, Dict.foldl_items (s := Dict.get?) (g := fun v w => v.or (some w)) hstep,
    Dict.get?_map]
  cases a.get? task <;> simp

theorem keys_mergeRules : (mergeRules a b).keys = b.keys ++ a.keys.filter (· ∉ b.keys) := by
  have hstep : ∀ (merged : Dict TaskId (Dict T V)) (p : TaskId × Dict T V),
      (if p.1 ∉ merged then merged.set p.1 p.2 else merged).keys =
        if p.1 ∈ merged.keys then merged.keys else merged.keys ++ [p.1] := by
    intro merged p
    by_cases hp : p.1 ∈ merged
    · rw [if_pos (Dict.mem_def.mp hp), if_neg (not_not_intro hp)]
    · rw [if_pos hp, Dict.keys_set]
  rw [mergeRules_eq, Dict.keys_foldl hstep a.nodup, Dict.keys_map]
  rfl

/-- The value of the new allocations comes first. -/
theorem entry_mergeRules :
    entryOf (mergeRules a b) task t = (entryOf b task t).or (entryOf a task t) := by
  rw [entryOf, entryOf, entryOf, get?_mergeRules]
  cases b.get? task with
  | none => rfl
  | some new =>
    rw [Option.map_some, Option.some_or, Option.bind_some, Option.bind_some, Dict.get?_update]
    cases a.get? task with
    | none => rfl
    | some existing => rfl

theorem empty_mergeRules : mergeRules ∅ b = b := by
  refine Dict.ext_get? ?_ fun task => ?_
  · rw [keys_mergeRules]
    exact List.append_nil _
  · rw [get?_mergeRules]
    cases b.get? task with
    | none => rfl
    | some new => exact congrArg some (Dict.empty_update new)

theorem mergeRules_empty : mergeRules a ∅ = a := by
  refine Dict.ext_get? ?_ fun task => ?_
  · rw [keys_mergeRules]
    exact List.filter_eq_self.mpr fun task _ => by simp [Dict.keys]
  · rw [get?_mergeRules]
    rfl

theorem mergeRules_assoc : mergeRules (mergeRules a b) c = mergeRules a (mergeRules b c) := by
  refine Dict.ext_get? ?_ fun task => ?_
  · simp only [keys_mergeRules, List.filter_append, List.filter_filter, List.append_assoc]
    congr 2
    refine List.filter_congr fun task _ => ?_
    by_cases hb : task ∈ b.keys <;> by_cases hc : task ∈ c.keys <;> simp [hb, hc]
  · simp only [get?_mergeRules]
    cases c.get? task with
    | none => rfl
    | some new =>
      cases b.get? task with
      | none => simp [Dict.empty_update]
      | some old =>
        cases a.get? task with
        | none => simp [Dict.empty_update]
        | some oldest => simp [Dict.update_assoc]

end Merge

/-! ## Rules -/

/-- A value in a rule: one that an allocation may have, or a dictionary. -/
inductive RuleValue where
  | raw (value : RawValue)
  | dict (fields : Dict String (Option String))
  deriving DecidableEq

abbrev RuleAllocations := Dict AllocationType RuleValue

/-- A rule as it is read from YAML, where any field may be missing and the allocations may be null. -/
structure Rule where
  allocations : Option (Option RuleAllocations) := none
  taskId : Option TaskId := none
  labels : Option (Dict String String) := none

/-- `RDTAllocation(**fields)`. -/
def rdtAllocation (fields : Dict String (Option String)) : Except Exn RDTAllocation :=
  match fields.keys.find? (· ∉ ["name", "l3", "mb"]) with
  | some key =>
    .error (.TypeError s!"__init__() got an unexpected keyword argument '{key}'")
  | none => .ok {
      name := (fields.get? "name").join
      l3 := (fields.get? "l3").join
      mb := (fields.get? "mb").join }

namespace Rule

/-- The allocations of a rule that is not ignored. -/
def newTaskAllocations (rule : Rule) : Option RuleAllocations :=
  match rule.allocations with
  | none => none
  | some none => none
  | some (some allocations) => if allocations.len = 0 then none else some allocations

end Rule

/-- The conversion of a dictionary at `rdt`, in its place. -/
def convertRdt (newTaskAllocations : RuleAllocations) : Except Exn RuleAllocations :=
  match newTaskAllocations.get? .RDT with
  | some (.dict fields) => do
    let rdt ← rdtAllocation fields
    pure (newTaskAllocations.set .RDT (.raw (.rdt rdt)))
  | _ => .ok newTaskAllocations

section Allocate

/-! `re.match` raises when the text of the pattern cannot be compiled. -/

variable (reMatch : String → String → Except Exn Bool) (sets : SetOrder String)
  (tasksData : Dict TaskId (Dict String String))

/-- What is done at a name that a task and a rule have in common. -/
def addIfMatch (labels : Dict String String) (p : TaskId × Dict String String) (ids : List TaskId)
    (labelName : String) : Except Exn (List TaskId) := do
  let pattern ← labels.item labelName
  let value ← p.2.item labelName
  let isMatch ← reMatch pattern value
  pure (if isMatch then ids.insert p.1 else ids)

def addMatching (labels : Dict String String) (ids : List TaskId)
    (p : TaskId × Dict String String) : Except Exn (List TaskId) :=
  (sets.order (p.2.keys.filter (· ∈ labels))).foldlM (addIfMatch reMatch labels p) ids

/-- The tasks that a rule is for, in the order in which they are gone through. -/
def matchTaskIds (rule : Rule) : Except Exn (List TaskId) :=
  match rule.taskId, rule.labels with
  | some taskId, _ => .ok [taskId]
  | none, some labels => do
    let ids ← tasksData.items.foldlM (addMatching reMatch sets labels) []
    pure (sets.order ids)
  | none, none => .ok tasksData.keys

def applyRule (tasksAllocations : Dict TaskId RuleAllocations) (rule : Rule) :
    Except Exn (Dict TaskId RuleAllocations) :=
  match rule.newTaskAllocations with
  | none => .ok tasksAllocations
  | some raw => do
    let newTaskAllocations ← convertRdt raw
    let ids ← matchTaskIds reMatch sets tasksData rule
    let ruleTasksAllocations : Dict TaskId RuleAllocations :=
      ids.foldl (fun d id => d.set id newTaskAllocations) ∅
    pure (mergeRules tasksAllocations ruleTasksAllocations)

/-- `_build_allocations_from_rules`. The rules are changed in one way only: what is converted stays
converted, so that the next call finds no dictionary there. -/
def buildAllocationsFromRules (rules : List Rule) : Except Exn (Dict TaskId RuleAllocations) :=
  rules.foldlM (applyRule reMatch sets tasksData) ∅

/-! ## What a rule says -/

/-- A label of the task has a value that the pattern of the rule matches. -/
def LabelsMatch (labels data : Dict String String) : Prop :=
  ∃ name pattern value, labels.get? name = some pattern ∧ data.get? name = some value ∧
    reMatch pattern value = .ok true

/-- Every pattern that is tried can be compiled. -/
def PatternsCompile (labels data : Dict String String) : Prop :=
  ∀ name pattern value, labels.get? name = some pattern → data.get? name = some value →
    ∃ isMatch, reMatch pattern value = .ok isMatch

namespace Rule

def Matches (rule : Rule) (task : TaskId) : Prop :=
  match rule.taskId, rule.labels with
  | some taskId, _ => task = taskId
  | none, some labels =>
    ∃ data, tasksData.get? task = some data ∧ LabelsMatch reMatch labels data
  | none, none => task ∈ tasksData.keys

/-- The allocation that the fields of a dictionary are. -/
def rdtOf (fields : Dict String (Option String)) : RDTAllocation where
  name := (fields.get? "name").join
  l3 := (fields.get? "l3").join
  mb := (fields.get? "mb").join

/-- The value that a rule sets, with a dictionary at `rdt` converted. -/
def valueOf (rule : Rule) (t : AllocationType) : Option RuleValue :=
  (rule.allocations.join.bind fun a => a.get? t).map fun v =>
    match t, v with
    | .RDT, .dict fields => .raw (.rdt (rdtOf fields))
    | _, v => v

/-- A rule that raises nothing: the fields at `rdt` are those of `RDTAllocation`, and the patterns
are regular expressions. -/
structure Applicable (rule : Rule) : Prop where
  fields : ∀ a fields, rule.newTaskAllocations = some a → a.get? .RDT = some (.dict fields) →
    ∀ key ∈ fields.keys, key ∈ ["name", "l3", "mb"]
  patterns : ∀ labels task data, rule.newTaskAllocations ≠ none → rule.taskId = none →
    rule.labels = some labels → tasksData.get? task = some data → PatternsCompile reMatch labels data

end Rule

/-- The value of the last rule that is for the task and sets the type. -/
def LastRule (rules : List Rule) (task : TaskId) (t : AllocationType) (v : RuleValue) : Prop :=
  ∃ before rule after, rules = before ++ rule :: after ∧ rule.Matches reMatch tasksData task ∧
    rule.valueOf t = some v ∧
      ∀ later ∈ after, later.Matches reMatch tasksData task → later.valueOf t = none

variable {reMatch sets tasksData}

theorem rdtAllocation_ok_iff {fields : Dict String (Option String)} {rdt : RDTAllocation} :
    rdtAllocation fields = .ok rdt ↔
      (∀ key ∈ fields.keys, key ∈ ["name", "l3", "mb"]) ∧ rdt = Rule.rdtOf fields := by
  rw [rdtAllocation]
  split
  · case h_1 key hfind =>
    refine iff_of_false (fun h => by cases h) fun h => ?_
    have hkey := List.find?_some hfind
    exact of_decide_eq_true hkey (h.1 key (List.mem_of_find?_eq_some hfind))
  · case h_2 hfind =>
    have hall : ∀ key ∈ fields.keys, key ∈ ["name", "l3", "mb"] := by
      intro key hkey
      simpa only [decide_not, Bool.not_eq_true, Bool.not_eq_false', decide_eq_true_eq] using
        List.find?_eq_none.mp hfind key hkey
    rw [Except.ok.injEq, eq_comm]
    exact (and_iff_right hall).symm

theorem newTaskAllocations_some {rule : Rule} {a : RuleAllocations}
    (h : rule.newTaskAllocations = some a) : rule.allocations = some (some a) := by
  rw [Rule.newTaskAllocations] at h
  split at h
  · cases h
  · cases h
  · case h_3 ha =>
    split at h
    · cases h
    · rw [ha, ← h]

/-- A rule that is ignored sets nothing. -/
theorem valueOf_of_ignored {rule : Rule} (h : rule.newTaskAllocations = none) (t : AllocationType) :
    rule.valueOf t = none := by
  rw [Rule.newTaskAllocations] at h
  rw [Rule.valueOf]
  split at h
  · case h_1 ha => rw [ha]; rfl
  · case h_2 ha => rw [ha]; rfl
  · case h_3 a ha =>
    split at h
    · case isTrue hlen =>
      have hempty : a.items = [] := List.eq_nil_of_length_eq_zero hlen
      rw [ha, Option.join_some, Option.bind_some, Dict.get?, hempty]
      rfl
    · cases h

theorem convertRdt_ok {a r : RuleAllocations} (h : convertRdt a = .ok r) {rule : Rule}
    (ha : rule.newTaskAllocations = some a) (t : AllocationType) : r.get? t = rule.valueOf t := by
  rw [Rule.valueOf, newTaskAllocations_some ha, Option.join_some, Option.bind_some]
  rw [convertRdt] at h
  split at h
  · case h_1 fields hfields =>
    obtain ⟨rdt, hrdt, h⟩ := except_bind_ok_iff.mp h
    obtain ⟨-, rfl⟩ := rdtAllocation_ok_iff.mp hrdt
    cases h
    by_cases ht : t = .RDT
    · rw [ht, Dict.get?_set_self, hfields]
      rfl
    · rw [Dict.get?_set_of_ne ht]
      cases a.get? t with
      | none => rfl
      | some v => cases t <;> trivial
  · case h_2 hno =>
    cases h
    cases hv : a.get? t with
    | none => rfl
    | some v =>
      cases v with
      | raw value => cases t <;> rfl
      | dict fields =>
        cases t with
        | RDT => exact absurd hv (hno fields)
        | _ => rfl

theorem convertRdt_returns_iff {a : RuleAllocations} : (∃ r, convertRdt a = .ok r) ↔
    ∀ fields, a.get? .RDT = some (.dict fields) →
      ∀ key ∈ fields.keys, key ∈ ["name", "l3", "mb"] := by
  rw [convertRdt]
  split
  · case h_1 fields hfields =>
    constructor
    · intro h fields' hfields'
      obtain ⟨r, h⟩ := h
      obtain ⟨rdt, hrdt, -⟩ := except_bind_ok_iff.mp h
      rw [hfields, Option.some.injEq, RuleValue.dict.injEq] at hfields'
      exact hfields' ▸ (rdtAllocation_ok_iff.mp hrdt).1
    · intro h
      refine ⟨_, except_bind_ok_iff.mpr ⟨_, rdtAllocation_ok_iff.mpr ⟨h fields hfields, rfl⟩, rfl⟩⟩
  · case h_2 hno =>
    exact iff_of_true ⟨a, rfl⟩ fun fields hfields => absurd hfields (hno fields)

/-! ## Which tasks are matched -/

variable {labels : Dict String String}

theorem mem_labelNames {data : Dict String String} {name : String} :
    name ∈ sets.order (data.keys.filter (· ∈ labels)) ↔
      ∃ pattern value, labels.get? name = some pattern ∧ data.get? name = some value := by
  rw [sets.mem_order, List.mem_filter, decide_eq_true_eq, Dict.mem_def, Dict.mem_keys_iff_get?,
    Dict.mem_keys_iff_get?]
  constructor
  · rintro ⟨⟨value, hvalue⟩, pattern, hpattern⟩
    exact ⟨pattern, value, hpattern, hvalue⟩
  · rintro ⟨pattern, value, hpattern, hvalue⟩
    exact ⟨⟨value, hvalue⟩, pattern, hpattern⟩

theorem addMatching_ok {ids ids' : List TaskId} {p : TaskId × Dict String String}
    (h : addMatching reMatch sets labels ids p = .ok ids') (task : TaskId) :
    task ∈ ids' ↔ task ∈ ids ∨ task = p.1 ∧ LabelsMatch reMatch labels p.2 := by
  have hloop := except_foldlM_ok (I := fun names ids' => task ∈ ids' ↔ task ∈ ids ∨ task = p.1 ∧
    ∃ name ∈ names, ∃ pattern value, labels.get? name = some pattern ∧
      p.2.get? name = some value ∧ reMatch pattern value = .ok true) h (by simp) ?_
  · rw [hloop, LabelsMatch]
    refine or_congr_right (and_congr_right fun _ => exists_congr fun name => ?_)
    refine and_iff_right_of_imp fun hmatch => ?_
    obtain ⟨pattern, value, hpattern, hvalue, -⟩ := hmatch
    exact mem_labelNames.mpr ⟨pattern, value, hpattern, hvalue⟩
  · intro pre name post b b' _ hI hstep
    obtain ⟨pattern, hpattern, hstep⟩ := except_bind_ok_iff.mp hstep
    obtain ⟨value, hvalue, hstep⟩ := except_bind_ok_iff.mp hstep
    obtain ⟨isMatch, hmatch, hstep⟩ := except_bind_ok_iff.mp hstep
    rw [Dict.item_ok_iff] at hpattern hvalue
    cases hstep
    have hname : (∃ pattern value, labels.get? name = some pattern ∧
        p.2.get? name = some value ∧ reMatch pattern value = .ok true) ↔ isMatch = true := by
      constructor
      · rintro ⟨pattern', value', hpattern', hvalue', hmatch'⟩
        rw [hpattern, Option.some.injEq] at hpattern'
        rw [hvalue, Option.some.injEq] at hvalue'
        rw [← hpattern', ← hvalue', hmatch, Except.ok.injEq] at hmatch'
        exact hmatch'
      · intro htrue
        exact ⟨pattern, value, hpattern, hvalue, htrue ▸ hmatch⟩
    simp only [List.mem_append, List.mem_singleton, or_and_right, exists_or, exists_eq_left, hname]
    cases isMatch with
    | false => simpa using hI
    | true =>
      rw [if_pos rfl, List.mem_insert_iff, hI]
      tauto

theorem addMatching_returns_iff {ids : List TaskId} {p : TaskId × Dict String String} :
    (∃ ids', addMatching reMatch sets labels ids p = .ok ids') ↔
      PatternsCompile reMatch labels p.2 := by
  constructor
  · rintro ⟨ids', h⟩ name pattern value hpattern hvalue
    obtain ⟨b, b', hstep⟩ := except_foldlM_ok_mem h name
      (mem_labelNames.mpr ⟨pattern, value, hpattern, hvalue⟩)
    rw [addIfMatch, Dict.item_ok_iff.mpr hpattern, except_ok_bind, Dict.item_ok_iff.mpr hvalue,
      except_ok_bind] at hstep
    obtain ⟨isMatch, hmatch, -⟩ := except_bind_ok_iff.mp hstep
    exact ⟨isMatch, hmatch⟩
  · intro h
    obtain ⟨ids', hids', -⟩ := except_foldlM_returns (I := fun _ => True)
      (l := sets.order (p.2.keys.filter (· ∈ labels))) (f := addIfMatch reMatch labels p) (b := ids)
      trivial fun name hname b _ => by
        obtain ⟨pattern, value, hpattern, hvalue⟩ := mem_labelNames.mp hname
        obtain ⟨isMatch, hmatch⟩ := h name pattern value hpattern hvalue
        refine ⟨if isMatch then b.insert p.1 else b, ?_, trivial⟩
        rw [addIfMatch, Dict.item_ok_iff.mpr hpattern, except_ok_bind,
          Dict.item_ok_iff.mpr hvalue, except_ok_bind, hmatch, except_ok_bind]
        rfl
    exact ⟨ids', hids'⟩

theorem matchTaskIds_ok {rule : Rule} {ids : List TaskId}
    (h : matchTaskIds reMatch sets tasksData rule = .ok ids) (task : TaskId) :
    task ∈ ids ↔ rule.Matches reMatch tasksData task := by
  rw [matchTaskIds] at h
  rw [Rule.Matches]
  split at h
  · cases h
    exact List.mem_singleton
  · case h_2 labels _ _ =>
    obtain ⟨ids', hids', h⟩ := except_bind_ok_iff.mp h
    cases h
    rw [sets.mem_order]
    have hloop := except_foldlM_ok (I := fun items ids => task ∈ ids ↔
      ∃ data, (task, data) ∈ items ∧ LabelsMatch reMatch labels data) hids' (by simp) ?_
    · rw [hloop]
      simp only [Dict.get?_eq_some_iff]
    · intro pre p post b b' _ hI hstep
      rw [addMatching_ok hstep, hI]
      simp only [List.mem_append, List.mem_singleton, or_and_right, exists_or]
      refine or_congr_right ⟨?_, ?_⟩
      · rintro ⟨rfl, hmatch⟩
        exact ⟨p.2, rfl, hmatch⟩
      · rintro ⟨data, rfl, hmatch⟩
        exact ⟨rfl, hmatch⟩
  · cases h
    rfl

theorem matchTaskIds_returns_iff {rule : Rule} :
    (∃ ids, matchTaskIds reMatch sets tasksData rule = .ok ids) ↔
      (rule.taskId = none → ∀ labels task data, rule.labels = some labels →
        tasksData.get? task = some data → PatternsCompile reMatch labels data) := by
  rw [matchTaskIds]
  split
  · case h_1 taskId htask => exact iff_of_true ⟨_, rfl⟩ fun hnone => by cases htask.symm.trans hnone
  · case h_2 labels htask hlabels =>
    constructor
    · rintro ⟨ids, h⟩ - labels' task data hlabels' hdata
      rw [hlabels, Option.some.injEq] at hlabels'
      subst hlabels'
      obtain ⟨ids', hids', -⟩ := except_bind_ok_iff.mp h
      obtain ⟨b, b', hstep⟩ := except_foldlM_ok_mem hids' _ (Dict.get?_eq_some_iff.mp hdata)
      exact addMatching_returns_iff.mp ⟨b', hstep⟩
    · intro h
      obtain ⟨ids', hids', -⟩ := except_foldlM_returns (I := fun _ => True)
        (l := tasksData.items) (f := addMatching reMatch sets labels) (b := []) trivial
        fun p hp b _ => by
          obtain ⟨b', hb'⟩ := addMatching_returns_iff.mpr
            (h htask labels p.1 p.2 hlabels (Dict.get?_eq_some_iff.mpr hp))
          exact ⟨b', hb', trivial⟩
      rw [hids']
      exact ⟨_, rfl⟩
  · case h_3 htask hlabels =>
    refine iff_of_true ⟨_, rfl⟩ fun _ labels _ _ hsome => ?_
    cases hlabels.symm.trans hsome

/-! ## One rule -/

theorem get?_foldl_set {ids : List TaskId} {a : RuleAllocations} (task : TaskId) :
    (ids.foldl (fun d id => d.set id a) (∅ : Dict TaskId RuleAllocations)).get? task =
      if task ∈ ids then some a else none := by
  suffices hgo : ∀ d : Dict TaskId RuleAllocations, (ids.foldl (fun d id => d.set id a) d).get? task =
      if task ∈ ids then some a else d.get? task from hgo ∅
  induction ids with
  | nil => exact fun d => (if_neg List.not_mem_nil).symm
  | cons id ids ih =>
    intro d
    rw [List.foldl_cons, ih]
    by_cases hmem : task ∈ ids
    · rw [if_pos hmem, if_pos (List.mem_cons_of_mem _ hmem)]
    · rw [if_neg hmem, Dict.get?_set]
      exact if_congr (by simp [hmem]) rfl rfl

variable {tasksAllocations r : Dict TaskId RuleAllocations} {rule : Rule}

/-- A rule leaves what it does not match. -/
theorem applyRule_frame (h : applyRule reMatch sets tasksData tasksAllocations rule = .ok r)
    {task : TaskId} (hno : ¬ rule.Matches reMatch tasksData task) :
    r.get? task = tasksAllocations.get? task := by
  rw [applyRule] at h
  split at h
  · cases h
    rfl
  · obtain ⟨a, -, h⟩ := except_bind_ok_iff.mp h
    obtain ⟨ids, hids, h⟩ := except_bind_ok_iff.mp h
    cases h
    rw [get?_mergeRules, get?_foldl_set, if_neg fun hmem => hno ((matchTaskIds_ok hids task).mp hmem)]
    rfl

/-- Where a rule matches, what it sets comes first. -/
theorem applyRule_entry (h : applyRule reMatch sets tasksData tasksAllocations rule = .ok r)
    {task : TaskId} (hmatch : rule.Matches reMatch tasksData task) (t : AllocationType) :
    entryOf r task t = (rule.valueOf t).or (entryOf tasksAllocations task t) := by
  rw [applyRule] at h
  split at h
  · case h_1 hignored =>
    cases h
    rw [valueOf_of_ignored hignored, Option.none_or]
  · case h_2 raw hraw =>
    obtain ⟨a, ha, h⟩ := except_bind_ok_iff.mp h
    obtain ⟨ids, hids, h⟩ := except_bind_ok_iff.mp h
    cases h
    rw [entry_mergeRules, ← convertRdt_ok ha hraw, entryOf, get?_foldl_set,
      if_pos ((matchTaskIds_ok hids task).mpr hmatch)]
    rfl

theorem applyRule_returns_iff :
    (∃ r, applyRule reMatch sets tasksData tasksAllocations rule = .ok r) ↔
      rule.Applicable reMatch tasksData := by
  rw [applyRule]
  split
  · case h_1 hignored =>
    refine iff_of_true ⟨_, rfl⟩ ⟨fun a fields ha => ?_, fun _ _ _ hne => absurd hignored hne⟩
    cases hignored.symm.trans ha
  · case h_2 raw hraw =>
    constructor
    · rintro ⟨r, h⟩
      obtain ⟨a, ha, h⟩ := except_bind_ok_iff.mp h
      obtain ⟨ids, hids, -⟩ := except_bind_ok_iff.mp h
      refine ⟨fun raw' fields hraw' => ?_, fun labels task data _ htask hlabels hdata => ?_⟩
      · rw [hraw, Option.some.injEq] at hraw'
        exact hraw' ▸ convertRdt_returns_iff.mp ⟨a, ha⟩ fields
      · exact matchTaskIds_returns_iff.mp ⟨ids, hids⟩ htask labels task data hlabels hdata
    · intro h
      obtain ⟨a, ha⟩ := convertRdt_returns_iff.mpr fun fields => h.fields raw fields hraw
      obtain ⟨ids, hids⟩ := matchTaskIds_returns_iff.mpr fun htask labels task data =>
        h.patterns labels task data (by rw [hraw]; exact Option.some_ne_none _) htask
      exact ⟨_, except_bind_ok_iff.mpr ⟨a, ha, except_bind_ok_iff.mpr ⟨ids, hids, rfl⟩⟩⟩

/-! ## The last rule -/

variable {rules : List Rule} {task : TaskId} {t : AllocationType} {v : RuleValue}

/-- One more rule either sets the type for the task, or changes nothing about it. -/
theorem lastRule_concat_iff : LastRule reMatch tasksData (rules ++ [rule]) task t v ↔
    (rule.Matches reMatch tasksData task ∧ rule.valueOf t = some v) ∨
      ((rule.Matches reMatch tasksData task → rule.valueOf t = none) ∧
        LastRule reMatch tasksData rules task t v) := by
  constructor
  · rintro ⟨before, rule', after, hsplit, hmatch, hvalue, hlater⟩
    obtain rfl | ⟨after, last, rfl⟩ := after.eq_nil_or_concat
    · obtain ⟨-, he⟩ := List.append_inj' hsplit rfl
      cases he
      exact .inl ⟨hmatch, hvalue⟩
    · rw [List.concat_eq_append] at hsplit hlater
      rw [← List.cons_append, ← List.append_assoc] at hsplit
      obtain ⟨hrules, he⟩ := List.append_inj' hsplit rfl
      cases he
      exact .inr ⟨hlater rule (by simp), before, rule', after, hrules, hmatch, hvalue,
        fun later hmem => hlater later (List.mem_append_left _ hmem)⟩
  · rintro (⟨hmatch, hvalue⟩ | ⟨hno, before, rule', after, hrules, hmatch, hvalue, hlater⟩)
    · exact ⟨rules, rule, [], rfl, hmatch, hvalue, fun _ hmem => by cases hmem⟩
    · refine ⟨before, rule', after ++ [rule], by rw [hrules]; simp, hmatch, hvalue, ?_⟩
      intro later hmem
      obtain hmem | hmem := List.mem_append.mp hmem
      · exact hlater later hmem
      · exact List.mem_singleton.mp hmem ▸ hno

/-- There is a last rule where some rule is for the task and sets the type. -/
theorem exists_lastRule_iff : (∃ v, LastRule reMatch tasksData rules task t v) ↔
    ∃ rule ∈ rules, rule.Matches reMatch tasksData task ∧ rule.valueOf t ≠ none := by
  induction rules using List.reverseRecOn with
  | nil => simp [LastRule]
  | append_singleton rules rule ih =>
    simp only [Option.ne_none_iff_exists'] at ih ⊢
    simp only [lastRule_concat_iff, List.mem_append, List.mem_singleton, or_and_right, exists_or,
      exists_eq_left, exists_and_left, ih]
    constructor
    · rintro (hset | ⟨-, hlast⟩)
      · exact .inr hset
      · exact .inl hlast
    · rintro (hlast | hset)
      · by_cases hset : rule.Matches reMatch tasksData task ∧ ∃ v, rule.valueOf t = some v
        · exact .inl hset
        · refine .inr ⟨fun hmatch => ?_, hlast⟩
          exact Option.eq_none_iff_forall_ne_some.mpr fun v hv => hset ⟨hmatch, v, hv⟩
      · exact .inl hset

/-- The invariant of the loop over the rules. -/
theorem entry_buildAllocationsFromRules
    (h : buildAllocationsFromRules reMatch sets tasksData rules = .ok r) (task : TaskId)
    (t : AllocationType) (v : RuleValue) :
    entryOf r task t = some v ↔ LastRule reMatch tasksData rules task t v := by
  refine except_foldlM_ok (I := fun pre r => entryOf r task t = some v ↔
    LastRule reMatch tasksData pre task t v) h ?_ fun pre rule post a a' _ hI hstep => ?_
  · refine iff_of_false (fun h => by cases h) fun h => ?_
    obtain ⟨before, rule, after, hnil, -⟩ := h
    simp at hnil
  · rw [lastRule_concat_iff, ← hI]
    by_cases hmatch : rule.Matches reMatch tasksData task
    · rw [applyRule_entry hstep hmatch]
      cases rule.valueOf t <;> simp [hmatch]
    · rw [entryOf, applyRule_frame hstep hmatch]
      simp [hmatch, entryOf]

theorem buildAllocationsFromRules_returns_iff :
    (∃ r, buildAllocationsFromRules reMatch sets tasksData rules = .ok r) ↔
      ∀ rule ∈ rules, rule.Applicable reMatch tasksData := by
  constructor
  · rintro ⟨r, h⟩ rule hmem
    obtain ⟨a, a', hstep⟩ := except_foldlM_ok_mem h rule hmem
    exact applyRule_returns_iff.mp ⟨a', hstep⟩
  · intro h
    obtain ⟨r, hr, -⟩ := except_foldlM_returns (I := fun _ => True)
      (f := applyRule reMatch sets tasksData) (b := ∅) trivial fun rule hmem a _ => by
        obtain ⟨a', ha'⟩ := applyRule_returns_iff.mpr (h rule hmem)
        exact ⟨a', ha', trivial⟩
    exact ⟨r, hr⟩

variable (reMatch sets tasksData rules) in
/-- Whenever every rule can be applied, a task has of every type what the last rule says that is for
the task and sets the type. -/
theorem buildAllocationsFromRules_lastRule :
    ((∃ r, buildAllocationsFromRules reMatch sets tasksData rules = .ok r) ↔
      ∀ rule ∈ rules, rule.Applicable reMatch tasksData) ∧
    (∀ r, buildAllocationsFromRules reMatch sets tasksData rules = .ok r → ∀ task t,
      (∀ v, entryOf r task t = some v ↔ LastRule reMatch tasksData rules task t v) ∧
      (entryOf r task t = none ↔
        ∀ rule ∈ rules, rule.Matches reMatch tasksData task → rule.valueOf t = none)) ∧
    (∀ tasksAllocations rule r, applyRule reMatch sets tasksData tasksAllocations rule = .ok r →
      ∀ task, ¬ rule.Matches reMatch tasksData task → r.get? task = tasksAllocations.get? task) ∧
    (∀ a b c : Dict TaskId RuleAllocations,
      mergeRules (mergeRules a b) c = mergeRules a (mergeRules b c)) ∧
    ∀ a : Dict TaskId RuleAllocations, mergeRules ∅ a = a ∧ mergeRules a ∅ = a := by
  refine ⟨buildAllocationsFromRules_returns_iff, fun r h task t => ⟨?_, ?_⟩,
    fun _ _ _ h _ hno => applyRule_frame h hno, mergeRules_assoc,
    fun a => ⟨empty_mergeRules a, mergeRules_empty a⟩⟩
  · exact entry_buildAllocationsFromRules h task t
  · have hsome : (∃ v, entryOf r task t = some v) ↔ ∃ rule ∈ rules,
        rule.Matches reMatch tasksData task ∧ rule.valueOf t ≠ none := by
      simp only [entry_buildAllocationsFromRules h, exists_lastRule_iff]
    rw [← not_iff_not, ← ne_eq, Option.ne_none_iff_exists', hsome]
    push Not
    rfl

/-- A default for all tasks, one for the task of an identifier and one for a label. -/
example :
    let quota (n : ℤ) : RuleAllocations := Dict.ofItems [(.QUOTA, .raw (.num (.int n)))]
    let rules : List Rule := [{ allocations := some (some (quota 2)) },
      { taskId := some "t2_task_id", allocations := some (some (quota 3)) },
      { labels := some (Dict.ofItems [("foo", "bar")]), allocations := some (some (quota 1)) }]
    let tasksData := Dict.ofItems [("t1_task_id", Dict.ofItems [("foo", "bar")]), ("t2_task_id", ∅)]
    (buildAllocationsFromRules (fun pattern value => .ok (pattern = value)) ⟨id, .refl⟩
      tasksData rules).toOption = some (Dict.ofItems [("t1_task_id", quota 1), ("t2_task_id", quota 3)]) :=
  by decide +kernel

end Allocate

end Wca
