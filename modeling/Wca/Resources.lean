import Mathlib.Data.Bool.AllAny
import Wca.Py.Dict
import Wca.Py.Float

/-!
# Resources of pods

`calculate_pod_resources` adds up what the containers of a pod request, and what they are limited to.
The quantities are those of Kubernetes; the sums are exact as long as the tables have the resources and
the suffixes, but there is never a disk (`calculatePodResources_exact_iff`).
-/

namespace Wca

open Py Str

/-! ## The tables -/

def MEMORY_UNITS : Dict String ℚ := Dict.ofItems [
  ("Ki", 1024), ("Mi", 1024 ^ 2), ("Gi", 1024 ^ 3), ("Ti", 1024 ^ 4),
  ("K", 1000), ("M", 1000 ^ 2), ("G", 1000 ^ 3), ("T", 1000 ^ 4)]

def CPU_UNITS : Dict String ℚ := Dict.ofItems [("m", 1 / 1000)]

def RESOURCE_TYPES : List String := ["requests", "limits"]

def MAPPING : Dict String String := Dict.ofItems [
  ("requests_memory", "mem"), ("ephemeral-storage", "disk"), ("requests_cpu", "cpus")]

def UNITS : Dict String (Dict String ℚ) := Dict.ofItems [
  ("memory", MEMORY_UNITS), ("ephemeral-storage", MEMORY_UNITS), ("cpu", CPU_UNITS)]

/-! ## `calculate_pod_resources` -/

/-- A container of a pod, with its resources of every type where it has any. -/
structure ContainerSpec (V : Type) where
  resources : Option (Dict String (Dict String V)) := none

/-- The value of a resource: the first unit that the text ends with is split off. -/
def resourceValueOf (resourceName resourceValue : String) : Except Exn Flt :=
  match UNITS.get? resourceName with
  | none => .error (.AttributeError "'NoneType' object has no attribute 'items'")
  | some units =>
    match units.items.find? fun p => endsWith p.1 resourceValue with
    | some (unit, multiplier) => do
      let value ← float (splitFirst unit resourceValue)
      pure (value.mul (.rat multiplier))
    | none => float resourceValue

def resourceKey (resourceType resourceName : String) : String := resourceType ++ "_" ++ resourceName

/-- The body of the innermost loop. -/
def addResource (resourceType : String) (resources : Dict String Flt) (p : String × String) :
    Except Exn (Dict String Flt) := do
  let value ← resourceValueOf p.1 p.2
  let key := resourceKey resourceType p.1
  match resources.get? key with
  | some old => pure (resources.set key (old.add value))
  | none => pure (resources.set key value)

/-- The loops over the types of a container and their resources. -/
def addContainer (resources : Dict String Flt) (container : ContainerSpec String) :
    Except Exn (Dict String Flt) :=
  match container.resources with
  | none => .ok resources
  | some containerResources =>
    RESOURCE_TYPES.foldlM (fun resources resourceType =>
      match containerResources.get? resourceType with
      | none => .ok resources
      | some values => values.items.foldlM (addResource resourceType) resources) resources

def calculatePodResources (containersSpec : List (ContainerSpec String)) :
    Except Exn (Dict String Flt) := do
  let resources ← containersSpec.foldlM addContainer ∅
  let mappedResources : Dict String Flt := MAPPING.items.foldl (fun mapped p =>
    match resources.get? p.1 with
    | some value => mapped.set p.2 value
    | none => mapped) ∅
  pure (resources.update mappedResources)

/-! ## Quantities -/

/-- The suffixes of a quantity. -/
inductive SIUnit where
  | n | u | m | k | M | G | T | P | E | Ki | Mi | Gi | Ti | Pi | Ei
  deriving DecidableEq

namespace SIUnit

def text : SIUnit → String
  | n => "n" | u => "u" | m => "m" | k => "k" | M => "M" | G => "G" | T => "T" | P => "P" | E => "E"
  | Ki => "Ki" | Mi => "Mi" | Gi => "Gi" | Ti => "Ti" | Pi => "Pi" | Ei => "Ei"

def multiplier : SIUnit → ℚ
  | n => 1 / 1000 ^ 3 | u => 1 / 1000 ^ 2 | m => 1 / 1000 | k => 1000 | M => 1000 ^ 2
  | G => 1000 ^ 3 | T => 1000 ^ 4 | P => 1000 ^ 5 | E => 1000 ^ 6
  | Ki => 1024 | Mi => 1024 ^ 2 | Gi => 1024 ^ 3 | Ti => 1024 ^ 4 | Pi => 1024 ^ 5 | Ei => 1024 ^ 6

end SIUnit

/-- A quantity: a number with an exponent, or with a suffix, or neither. -/
structure Quantity where
  decimal : Decimal
  unit : Option SIUnit
  not_both : unit ≠ none → decimal.exponent = none

namespace Quantity

def text (q : Quantity) : String := q.decimal.text ++ (q.unit.map SIUnit.text).getD ""

def value (q : Quantity) : ℚ := q.decimal.value * (q.unit.map SIUnit.multiplier).getD 1

/-- The tables have the resource and the suffix. -/
def Supported (resourceName : String) (q : Quantity) : Prop :=
  (resourceName ∈ ["memory", "ephemeral-storage"] ∧ q.unit ∈
    [none, some .Ki, some .Mi, some .Gi, some .Ti, some .M, some .G, some .T]) ∨
  (resourceName = "cpu" ∧ q.unit ∈ [none, some .m])

instance (resourceName : String) (q : Quantity) : Decidable (q.Supported resourceName) :=
  inferInstanceAs (Decidable (_ ∨ _))

end Quantity

/-! ## One value -/

section OneValue

variable {q : Quantity} {units : Dict String ℚ}

/-- The texts of the tables, and what is needed of them to tell the suffixes apart. -/
theorem unit_or (U : SIUnit) : ∀ p ∈ MEMORY_UNITS.items ++ CPU_UNITS.items,
    p.1.toList.length = U.text.toList.length ∨
      p.1.toList.getLast? ≠ U.text.toList.getLast? ∧ p.1.toList ≠ [] ∧ U.text.toList ≠ [] := by
  cases U <;> decide +kernel

/-- Without a suffix no unit is split off. -/
theorem find?_endsWith_none (hunits : units.items ⊆ MEMORY_UNITS.items ++ CPU_UNITS.items)
    (hq : q.unit = none) : (units.items.find? fun p => endsWith p.1 q.text) = none := by
  refine List.find?_eq_none.mpr fun p hp hends => ?_
  have hletter : ∀ p ∈ MEMORY_UNITS.items ++ CPU_UNITS.items,
      p.1.toList.getLast?.any (fun c => !c.isDigit && c != '.') = true := by decide +kernel
  obtain ⟨c, hlast, hc⟩ := (Option.any_eq_true _ _).mp (hletter p (hunits hp))
  obtain ⟨hdigit, hdot⟩ : c.isDigit = false ∧ c ≠ '.' := by simpa using hc
  obtain ⟨pre, x, hchars, hx⟩ := q.decimal.exists_concat
  obtain ⟨l, hl⟩ := List.isSuffixOf_iff_suffix.mp hends
  have hne : p.1.toList ≠ [] := by
    intro hnil
    rw [hnil] at hlast
    cases hlast
  have htext : q.text.toList = pre ++ [x] := by
    rw [Quantity.text, hq, Option.map_none, Option.getD_none, String.append_empty, Decimal.text,
      String.toList_ofList, hchars]
  have hcx := congrArg List.getLast? (hl.trans htext)
  rw [List.getLast?_append_of_ne_nil _ hne, hlast, List.getLast?_concat, Option.some.injEq] at hcx
  obtain hx | hx := hx
  · exact ne_of_isDigit hx hdigit hcx.symm
  · exact hdot (hcx.trans hx)

/-- With a suffix it is the unit of that text. -/
theorem find?_endsWith_some (hunits : units.items ⊆ MEMORY_UNITS.items ++ CPU_UNITS.items)
    {U : SIUnit} (hq : q.unit = some U) : (units.items.find? fun p => endsWith p.1 q.text) =
      (units.get? U.text).map fun multiplier => (U.text, multiplier) := by
  have hcongr : (units.items.find? fun p => endsWith p.1 q.text) =
      units.items.find? fun p => decide (p.1 = U.text) := by
    rw [← List.head?_filter, ← List.head?_filter]
    refine congrArg List.head? (List.filter_congr fun p hp => Bool.eq_iff_iff.mpr ?_)
    rw [endsWith, List.isSuffixOf_iff_suffix, decide_eq_true_eq, Quantity.text, hq, Option.map_some,
      Option.getD_some, String.toList_append, suffix_append_iff (unit_or U p (hunits hp)),
      String.toList_inj]
  rw [hcongr, Dict.get?, Option.map_map]
  cases hfind : units.items.find? fun p => decide (p.1 = U.text) with
  | none => rfl
  | some p =>
    have hp := List.find?_some hfind
    rw [decide_eq_true_eq] at hp
    exact congrArg some (Prod.ext hp rfl)

/-- What is before the suffix is the number. -/
theorem splitFirst_text {U : SIUnit} (hq : q.unit = some U) :
    splitFirst U.text q.text = q.decimal.text := by
  have hhead : ∃ c cs, U.text.toList = c :: cs ∧ c.isDigit = false ∧ c ∉ ['.', '+', '-'] := by
    cases U <;> exact ⟨_, _, rfl, rfl, by decide⟩
  obtain ⟨c, cs, hU, hdigit, hne⟩ := hhead
  have hexponent := q.not_both (by rw [hq]; exact Option.some_ne_none U)
  rw [splitFirst, Quantity.text, hq, Option.map_some, Option.getD_some, String.toList_append, hU,
    Decimal.text, String.toList_ofList,
    beforeChars_append (q.decimal.not_mem_chars hexponent hdigit hne)]

theorem units_subset : ∀ p ∈ UNITS.items, p.2.items ⊆ MEMORY_UNITS.items ++ CPU_UNITS.items := by
  decide +kernel

/-- The tables have the right multipliers. -/
theorem multiplier_of_get? {resourceName : String} (hunits : UNITS.get? resourceName = some units)
    {U : SIUnit} {multiplier : ℚ} (h : units.get? U.text = some multiplier) :
    multiplier = U.multiplier := by
  have hall : ∀ p ∈ UNITS.items, ∀ m ∈ p.2.get? U.text, m = U.multiplier := by
    cases U <;> decide +kernel
  exact hall _ (Dict.get?_eq_some_iff.mp hunits) _ h

theorem units_get?_iff {resourceName : String} : UNITS.get? resourceName = some units ↔
    (resourceName ∈ ["memory", "ephemeral-storage"] ∧ units = MEMORY_UNITS) ∨
      (resourceName = "cpu" ∧ units = CPU_UNITS) := by
  have hitems : UNITS.items =
      [("memory", MEMORY_UNITS), ("ephemeral-storage", MEMORY_UNITS), ("cpu", CPU_UNITS)] := by
    decide +kernel
  rw [Dict.get?_eq_some_iff, hitems]
  simp [or_and_right, or_assoc]

/-- A resource that the tables have, with a suffix of its table or none. -/
theorem supported_iff {resourceName : String} : q.Supported resourceName ↔
    ∃ units, UNITS.get? resourceName = some units ∧
      ∀ U, q.unit = some U → ∃ multiplier, units.get? U.text = some multiplier := by
  have hmemory : (∀ U, q.unit = some U → ∃ multiplier, MEMORY_UNITS.get? U.text = some multiplier) ↔
      q.unit ∈ [none, some .Ki, some .Mi, some .Gi, some .Ti, some .M, some .G, some .T] := by
    cases q.unit with
    | none => simp
    | some U =>
      simp only [Option.some.injEq, forall_eq', ← Option.isSome_iff_exists]
      cases U <;> decide +kernel
  have hcpu : (∀ U, q.unit = some U → ∃ multiplier, CPU_UNITS.get? U.text = some multiplier) ↔
      q.unit ∈ [none, some .m] := by
    cases q.unit with
    | none => simp
    | some U =>
      simp only [Option.some.injEq, forall_eq', ← Option.isSome_iff_exists]
      cases U <;> decide +kernel
  rw [Quantity.Supported, ← hmemory, ← hcpu]
  constructor
  · rintro (⟨hname, hunit⟩ | ⟨hname, hunit⟩)
    · exact ⟨MEMORY_UNITS, units_get?_iff.mpr (.inl ⟨hname, rfl⟩), hunit⟩
    · exact ⟨CPU_UNITS, units_get?_iff.mpr (.inr ⟨hname, rfl⟩), hunit⟩
  · rintro ⟨units, hunits, hunit⟩
    obtain ⟨hname, rfl⟩ | ⟨hname, rfl⟩ := units_get?_iff.mp hunits
    · exact .inl ⟨hname, hunit⟩
    · exact .inr ⟨hname, hunit⟩

theorem resourceValueOf_supported {resourceName : String} (h : q.Supported resourceName) :
    resourceValueOf resourceName q.text = .ok (.rat q.value) := by
  obtain ⟨units, hunits, hunit⟩ := supported_iff.mp h
  have hsub := units_subset _ (Dict.get?_eq_some_iff.mp hunits)
  rw [resourceValueOf, hunits]
  dsimp only
  cases hq : q.unit with
  | none =>
    rw [find?_endsWith_none hsub hq]
    dsimp only
    rw [Quantity.text, Quantity.value, hq, Option.map_none, Option.getD_none, Option.map_none,
      Option.getD_none, String.append_empty, mul_one, float_text]
  | some U =>
    obtain ⟨multiplier, hmultiplier⟩ := hunit U hq
    rw [find?_endsWith_some hsub hq, hmultiplier, Option.map_some]
    dsimp only
    rw [splitFirst_text hq, float_text, except_ok_bind, Flt.mul_rat,
      multiplier_of_get? hunits hmultiplier, Quantity.value, hq]
    rfl

theorem resourceValueOf_error {resourceName : String} (h : ¬ q.Supported resourceName) :
    ∃ e, resourceValueOf resourceName q.text = .error e := by
  rw [resourceValueOf]
  cases hunits : UNITS.get? resourceName with
  | none => exact ⟨_, rfl⟩
  | some units =>
    have hsub := units_subset _ (Dict.get?_eq_some_iff.mp hunits)
    have hunit : ∃ U, q.unit = some U ∧ units.get? U.text = none := by
      by_contra hno
      push Not at hno
      exact h (supported_iff.mpr ⟨units, hunits, fun U hU => Option.ne_none_iff_exists'.mp (hno U hU)⟩)
    obtain ⟨U, hU, hnone⟩ := hunit
    have hbad : (∃ c ∈ U.text.toList, Foreign c) ∨ U.text = "E" := by
      rw [← List.any_iff_exists_prop]
      cases U <;> decide +kernel
    have hspace : ∀ c ∈ U.text.toList, isSpace c = false := by
      rw [← List.all_iff_forall_prop]
      cases U <;> decide +kernel
    obtain ⟨msg, hmsg⟩ := float_append_error q.decimal
      (q.not_both (by rw [hU]; exact Option.some_ne_none U)) hspace hbad
    dsimp only
    rw [find?_endsWith_some hsub hU, hnone]
    refine ⟨.ValueError msg, ?_⟩
    rw [Quantity.text, hU]
    exact hmsg

end OneValue

/-! ## The loops -/

section Loops

variable {V : Type}

def entriesOfType (containerResources : Dict String (Dict String V)) (resourceType : String) :
    List (String × String × V) :=
  match containerResources.get? resourceType with
  | none => []
  | some values => values.items.map fun p => (resourceType, p)

/-- What the loops go through: the type, the name and the value of every resource. -/
def ContainerSpec.entries (container : ContainerSpec V) : List (String × String × V) :=
  match container.resources with
  | none => []
  | some containerResources => RESOURCE_TYPES.flatMap (entriesOfType containerResources)

/-- The value of an entry, if it is one of the resource. -/
def valueFor (resourceType resourceName : String) (e : String × String × V) : Option V :=
  if e.1 = resourceType ∧ e.2.1 = resourceName then some e.2.2 else none

/-- What the API sends for quantities. -/
def ContainerSpec.texts (container : ContainerSpec Quantity) : ContainerSpec String where
  resources := container.resources.map fun containerResources =>
    containerResources.map fun _ values => values.map fun _ q => q.text

/-- The quantities of one resource in the containers. -/
def quantities (containers : List (ContainerSpec V)) (resourceType resourceName : String) : List V :=
  containers.filterMap fun container => do
    let values ← (← container.resources).get? resourceType
    values.get? resourceName

/-- The value that is shown for quantities: the sum, unless there are none. -/
def total (qs : List Quantity) : Option Flt :=
  if qs = [] then none else some (.rat (qs.map Quantity.value).sum)

theorem total_concat (qs : List Quantity) (q : Quantity) : total (qs ++ [q]) =
    some (match total qs with
      | some old => old.add (.rat q.value)
      | none => .rat q.value) := by
  rw [total, if_neg (by simp), total]
  cases qs with
  | nil => simp
  | cons q' qs =>
    rw [if_neg (List.cons_ne_nil _ _), List.map_append, List.sum_append]
    simp

theorem addContainer_eq (resources : Dict String Flt) (container : ContainerSpec String) :
    addContainer resources container =
      container.entries.foldlM (fun resources e => addResource e.1 resources e.2) resources := by
  rw [addContainer, ContainerSpec.entries]
  cases container.resources with
  | none => rfl
  | some containerResources =>
    dsimp only
    rw [foldlM_flatMap]
    congr 1
    funext resources resourceType
    rw [entriesOfType]
    cases containerResources.get? resourceType with
    | none => rfl
    | some values => rw [List.foldlM_map]

theorem entries_texts (container : ContainerSpec Quantity) : container.texts.entries =
    container.entries.map fun e => (e.1, e.2.1, e.2.2.text) := by
  rw [ContainerSpec.entries, ContainerSpec.entries, ContainerSpec.texts]
  cases container.resources with
  | none => rfl
  | some containerResources =>
    dsimp only [Option.map_some]
    rw [List.map_flatMap]
    congr 1
    funext resourceType
    rw [entriesOfType, entriesOfType, Dict.get?_map]
    cases containerResources.get? resourceType with
    | none => rfl
    | some values =>
      dsimp only [Option.map_some]
      rw [Dict.items_map, List.map_map, List.map_map]
      rfl

theorem filterMap_entriesOfType (containerResources : Dict String (Dict String V))
    (other resourceType resourceName : String) :
    (entriesOfType containerResources other).filterMap (valueFor resourceType resourceName) =
      if other = resourceType then
        ((containerResources.get? resourceType).bind fun values => values.get? resourceName).toList
      else [] := by
  rw [entriesOfType]
  by_cases hother : other = resourceType
  · rw [if_pos hother, hother]
    cases containerResources.get? resourceType with
    | none => rfl
    | some values =>
      dsimp only
      rw [List.filterMap_map, Option.bind_some, ← Dict.filterMap_items]
      refine List.filterMap_congr fun p _ => ?_
      simp [valueFor]
  · rw [if_neg hother, List.filterMap_eq_nil_iff]
    intro e he
    refine if_neg fun hboth => hother ?_
    cases hget : containerResources.get? other with
    | none =>
      rw [hget] at he
      cases he
    | some values =>
      rw [hget] at he
      obtain ⟨p, -, rfl⟩ := List.mem_map.mp he
      exact hboth.1

/-- A container has at most one value of a resource. -/
theorem filterMap_entries (container : ContainerSpec V) {resourceType : String}
    (htype : resourceType ∈ RESOURCE_TYPES) (resourceName : String) :
    container.entries.filterMap (valueFor resourceType resourceName) =
      (do
        let values ← (← container.resources).get? resourceType
        values.get? resourceName).toList := by
  rw [ContainerSpec.entries]
  cases container.resources with
  | none => rfl
  | some containerResources =>
    dsimp only
    rw [List.filterMap_flatMap]
    simp only [filterMap_entriesOfType]
    obtain rfl | rfl : resourceType = "requests" ∨ resourceType = "limits" := by
      simpa [RESOURCE_TYPES] using htype
    · simp [RESOURCE_TYPES]
    · simp [RESOURCE_TYPES]

/-- The quantities of a resource are those of its entries. -/
theorem quantities_eq (containers : List (ContainerSpec V)) {resourceType : String}
    (htype : resourceType ∈ RESOURCE_TYPES) (resourceName : String) :
    quantities containers resourceType resourceName =
      (containers.flatMap ContainerSpec.entries).filterMap (valueFor resourceType resourceName) := by
  rw [quantities, List.filterMap_flatMap]
  simp only [filterMap_entries _ htype]
  induction containers with
  | nil => rfl
  | cons container containers ih =>
    rw [List.filterMap_cons, List.flatMap_cons, ← ih]
    cases (do
      let values ← (← container.resources).get? resourceType
      values.get? resourceName) <;> rfl

theorem mem_entries {container : ContainerSpec V} {e : String × String × V}
    (h : e ∈ container.entries) : e.1 ∈ RESOURCE_TYPES := by
  rw [ContainerSpec.entries] at h
  cases hres : container.resources with
  | none =>
    rw [hres] at h
    cases h
  | some containerResources =>
    rw [hres] at h
    obtain ⟨resourceType, htype, h⟩ := List.mem_flatMap.mp h
    rw [entriesOfType] at h
    cases hget : containerResources.get? resourceType with
    | none =>
      rw [hget] at h
      cases h
    | some values =>
      rw [hget] at h
      obtain ⟨p, -, rfl⟩ := List.mem_map.mp h
      exact htype

end Loops

/-! ## The sums -/

section Sums

variable {resourceType resourceName : String} {q : Quantity}

/-- The keys of two resources differ. -/
theorem resourceKey_inj {t t' n n' : String} (ht : t ∈ RESOURCE_TYPES) (ht' : t' ∈ RESOURCE_TYPES) :
    resourceKey t n = resourceKey t' n' ↔ t = t' ∧ n = n' := by
  refine ⟨fun h => ?_, fun h => by rw [h.1, h.2]⟩
  have hchars := congrArg String.toList h
  simp only [resourceKey, String.toList_append] at hchars
  obtain rfl | rfl : t = "requests" ∨ t = "limits" := by simpa [RESOURCE_TYPES] using ht
  · obtain rfl | rfl : t' = "requests" ∨ t' = "limits" := by simpa [RESOURCE_TYPES] using ht'
    · exact ⟨rfl, String.toList_inj.mp (List.append_cancel_left hchars)⟩
    · cases (List.cons.inj hchars).1
  · obtain rfl | rfl : t' = "requests" ∨ t' = "limits" := by simpa [RESOURCE_TYPES] using ht'
    · cases (List.cons.inj hchars).1
    · exact ⟨rfl, String.toList_inj.mp (List.append_cancel_left hchars)⟩

/-- What the dictionary shows for the entries gone through. -/
structure SumsOf (pre : List (String × String × Quantity)) (resources : Dict String Flt) : Prop where
  sums : ∀ resourceType ∈ RESOURCE_TYPES, ∀ resourceName,
    resources.get? (resourceKey resourceType resourceName) =
      total (pre.filterMap (valueFor resourceType resourceName))
  keys : ∀ key ∈ resources.keys, ∃ resourceType ∈ RESOURCE_TYPES, ∃ resourceName,
    key = resourceKey resourceType resourceName

theorem SumsOf.step {pre : List (String × String × Quantity)} {resources : Dict String Flt}
    (hI : SumsOf pre resources) {e : String × String × Quantity} (htype : e.1 ∈ RESOURCE_TYPES)
    (hsupported : e.2.2.Supported e.2.1) :
    ∃ resources', addResource e.1 resources (e.2.1, e.2.2.text) = .ok resources' ∧
      SumsOf (pre ++ [e]) resources' := by
  have hsum := hI.sums e.1 htype e.2.1
  refine ⟨resources.set (resourceKey e.1 e.2.1) (match resources.get? (resourceKey e.1 e.2.1) with
    | some old => old.add (.rat e.2.2.value)
    | none => .rat e.2.2.value), ?_, fun resourceType htype' resourceName => ?_, fun key hkey => ?_⟩
  · rw [addResource, resourceValueOf_supported hsupported, except_ok_bind]
    dsimp only
    cases resources.get? (resourceKey e.1 e.2.1) <;> rfl
  · have hlast : [e].filterMap (valueFor resourceType resourceName) =
        (valueFor resourceType resourceName e).toList := by
      rw [List.filterMap_cons]
      cases valueFor resourceType resourceName e <;> rfl
    rw [Dict.get?_set, List.filterMap_append, hlast]
    by_cases hsame : resourceType = e.1 ∧ resourceName = e.2.1
    · obtain ⟨rfl, rfl⟩ := hsame
      rw [if_pos rfl, valueFor, if_pos ⟨rfl, rfl⟩, Option.toList_some, total_concat, hsum]
    · rw [if_neg fun he => hsame ((resourceKey_inj htype' htype).mp he), hI.sums _ htype',
        valueFor, if_neg fun he => hsame ⟨he.1.symm, he.2.symm⟩,
        Option.toList_none, List.append_nil]
  · obtain rfl | hkey := Dict.mem_keys_set.mp hkey
    · exact ⟨e.1, htype, e.2.1, rfl⟩
    · exact hI.keys key hkey

/-- The first letter of a key tells the type. -/
theorem head?_resourceKey (htype : resourceType ∈ RESOURCE_TYPES) :
    (resourceKey resourceType resourceName).toList.head? ∈ [some 'r', some 'l'] := by
  obtain rfl | rfl : resourceType = "requests" ∨ resourceType = "limits" := by
    simpa [RESOURCE_TYPES] using htype
  · simp [resourceKey]
  · simp [resourceKey]

theorem SumsOf.get?_eq_none {pre : List (String × String × Quantity)} {resources : Dict String Flt}
    (hI : SumsOf pre resources) (key : String) (hkey : key.toList.head? ∉ [some 'r', some 'l']) :
    resources.get? key = none := by
  rw [Dict.get?_eq_none_iff]
  intro hmem
  obtain ⟨resourceType, htype, resourceName, rfl⟩ := hI.keys key hmem
  exact hkey (head?_resourceKey htype)

/-- The loops over all containers return when the tables have everything, and then sum up. -/
theorem foldlM_addContainer_iff (containers : List (ContainerSpec Quantity)) :
    ((∃ resources, (containers.map ContainerSpec.texts).foldlM addContainer ∅ = .ok resources) ↔
      ∀ e ∈ containers.flatMap ContainerSpec.entries, e.2.2.Supported e.2.1) ∧
    ∀ resources, (containers.map ContainerSpec.texts).foldlM addContainer ∅ = .ok resources →
      SumsOf (containers.flatMap ContainerSpec.entries) resources := by
  have hloop : (containers.map ContainerSpec.texts).foldlM addContainer ∅ =
      (containers.flatMap ContainerSpec.entries).foldlM
        (fun resources e => addResource e.1 resources (e.2.1, e.2.2.text)) ∅ := by
    rw [foldlM_flatMap, List.foldlM_map]
    congr 1
    funext resources container
    rw [addContainer_eq, entries_texts, List.foldlM_map]
  rw [hloop]
  have hsupported : ∀ resources, (containers.flatMap ContainerSpec.entries).foldlM
      (fun resources e => addResource e.1 resources (e.2.1, e.2.2.text)) ∅ = .ok resources →
        ∀ e ∈ containers.flatMap ContainerSpec.entries, e.2.2.Supported e.2.1 := by
    intro resources h e he
    obtain ⟨b, b', hstep⟩ := except_foldlM_ok_mem h e he
    by_contra hno
    obtain ⟨x, hx⟩ := resourceValueOf_error hno
    rw [addResource, hx] at hstep
    cases hstep
  have hrun : (∀ e ∈ containers.flatMap ContainerSpec.entries, e.2.2.Supported e.2.1) →
      ∃ resources, (containers.flatMap ContainerSpec.entries).foldlM
        (fun resources e => addResource e.1 resources (e.2.1, e.2.2.text)) ∅ = .ok resources ∧
          SumsOf (containers.flatMap ContainerSpec.entries) resources := by
    intro hall
    refine except_foldlM_run (I := SumsOf) ⟨fun _ _ _ => rfl, fun _ hkey => nomatch hkey⟩
      fun pre e post resources hl hI => ?_
    have he : e ∈ containers.flatMap ContainerSpec.entries := by rw [hl]; simp
    obtain ⟨container, -, hmem⟩ := List.mem_flatMap.mp he
    exact hI.step (mem_entries hmem) (hall e he)
  refine ⟨⟨fun h => ?_, fun h => ?_⟩, fun resources h => ?_⟩
  · obtain ⟨resources, h⟩ := h
    exact hsupported resources h
  · obtain ⟨resources, h, -⟩ := hrun h
    exact ⟨resources, h⟩
  · obtain ⟨resources', h', hsums⟩ := hrun (hsupported resources h)
    rw [h, Except.ok.injEq] at h'
    exact h' ▸ hsums

/-- The keys that are mapped are added, and nothing is taken for the disk. -/
theorem calculatePodResources_ok {containersSpec : List (ContainerSpec String)}
    {resources r : Dict String Flt} (hloop : containersSpec.foldlM addContainer ∅ = .ok resources)
    (hr : calculatePodResources containersSpec = .ok r) (key : String) : r.get? key =
      (if key = "cpus" then resources.get? "requests_cpu"
        else if key = "disk" then resources.get? "ephemeral-storage"
        else if key = "mem" then resources.get? "requests_memory" else none).or
      (resources.get? key) := by
  rw [calculatePodResources, hloop] at hr
  cases hr
  have hitems : MAPPING.items =
      [("requests_memory", "mem"), ("ephemeral-storage", "disk"), ("requests_cpu", "cpus")] := by
    decide +kernel
  have hstep : ∀ (mapped : Dict String Flt) (original mappedResource : String),
      (match resources.get? original with
        | some value => mapped.set mappedResource value
        | none => mapped).get? key =
      if key = mappedResource then (resources.get? original).or (mapped.get? key)
      else mapped.get? key := by
    intro mapped original mappedResource
    cases resources.get? original with
    | none => simp
    | some value => exact Dict.get?_set
  have hempty : (∅ : Dict String Flt).get? key = none := rfl
  rw [Dict.get?_update, hitems]
  congr 1
  simp only [List.foldl_cons, List.foldl_nil, hstep, hempty, Option.or_none]
  by_cases hcpus : key = "cpus"
  · subst hcpus
    simp
  · by_cases hdisk : key = "disk"
    · subst hdisk
      simp
    · rw [if_neg hcpus, if_neg hdisk, if_neg hcpus, if_neg hdisk]

end Sums

/-! ## The result -/

/-- Every entry is the exact sum of the quantities, and the names of Mesos show the requests. -/
structure ExactSums (containers : List (ContainerSpec Quantity)) (r : Dict String Flt) : Prop where
  entries : ∀ resourceType ∈ RESOURCE_TYPES, ∀ resourceName,
    r.get? (resourceKey resourceType resourceName) =
      total (quantities containers resourceType resourceName)
  cpus : r.get? "cpus" = total (quantities containers "requests" "cpu")
  mem : r.get? "mem" = total (quantities containers "requests" "memory")
  disk : r.get? "disk" = total (quantities containers "requests" "ephemeral-storage")

/-- The values that the loops go through are the quantities of all resources. -/
theorem supported_entries_iff {containers : List (ContainerSpec Quantity)} :
    (∀ e ∈ containers.flatMap ContainerSpec.entries, e.2.2.Supported e.2.1) ↔
      ∀ resourceType ∈ RESOURCE_TYPES, ∀ resourceName,
        ∀ q ∈ quantities containers resourceType resourceName, q.Supported resourceName := by
  constructor
  · intro h resourceType htype resourceName q hq
    rw [quantities_eq containers htype] at hq
    obtain ⟨e, he, hvalue⟩ := List.mem_filterMap.mp hq
    rw [valueFor] at hvalue
    split at hvalue
    · case isTrue hsame =>
      cases hvalue
      exact hsame.2 ▸ h e he
    · cases hvalue
  · intro h e he
    obtain ⟨container, -, hmem⟩ := List.mem_flatMap.mp he
    have htype := mem_entries hmem
    refine h e.1 htype e.2.1 e.2.2 ?_
    rw [quantities_eq containers htype]
    exact List.mem_filterMap.mpr ⟨e, he, if_pos ⟨rfl, rfl⟩⟩

/-- The result is there and exact just when the tables have every resource and suffix, and no container
requests ephemeral storage. -/
theorem calculatePodResources_exact_iff (containers : List (ContainerSpec Quantity)) :
    (∃ r, calculatePodResources (containers.map ContainerSpec.texts) = .ok r ∧
      ExactSums containers r) ↔
    (∀ resourceType ∈ RESOURCE_TYPES, ∀ resourceName,
      ∀ q ∈ quantities containers resourceType resourceName, q.Supported resourceName) ∧
    quantities containers "requests" "ephemeral-storage" = [] := by
  obtain ⟨hreturns, hsums⟩ := foldlM_addContainer_iff containers
  rw [← supported_entries_iff, ← hreturns]
  constructor
  · rintro ⟨r, hr, hexact⟩
    obtain ⟨resources, hloop, -⟩ := except_bind_ok_iff.mp hr
    refine ⟨⟨resources, hloop⟩, ?_⟩
    have hdisk := calculatePodResources_ok hloop hr "disk"
    rw [hexact.disk, (hsums _ hloop).get?_eq_none "ephemeral-storage" (by decide),
      (hsums _ hloop).get?_eq_none "disk" (by decide), total] at hdisk
    by_contra hne
    rw [if_neg hne] at hdisk
    cases hdisk
  · rintro ⟨⟨resources, hloop⟩, hnone⟩
    have hsum := hsums resources hloop
    obtain ⟨r, hr⟩ : ∃ r, calculatePodResources (containers.map ContainerSpec.texts) = .ok r := by
      rw [calculatePodResources, hloop]
      exact ⟨_, rfl⟩
    have hget := calculatePodResources_ok hloop hr
    have hrequests : ∀ resourceName, resources.get? (resourceKey "requests" resourceName) =
        total (quantities containers "requests" resourceName) := fun resourceName => by
      rw [hsum.sums _ (by decide), quantities_eq containers (by decide)]
    refine ⟨r, hr, fun resourceType htype resourceName => ?_, ?_, ?_, ?_⟩
    · have hne : ∀ other : String, other.toList.head? ∉ [some 'r', some 'l'] →
          resourceKey resourceType resourceName ≠ other :=
        fun other hother he => hother (he ▸ head?_resourceKey htype)
      rw [hget, if_neg (hne "cpus" (by decide)), if_neg (hne "disk" (by decide)),
        if_neg (hne "mem" (by decide)), Option.none_or, hsum.sums _ htype,
        quantities_eq containers htype]
    · rw [hget, if_pos rfl, hsum.get?_eq_none "cpus" (by decide), Option.or_none]
      exact hrequests "cpu"
    · rw [hget, if_neg (by decide), if_neg (by decide), if_pos rfl,
        hsum.get?_eq_none "mem" (by decide), Option.or_none]
      exact hrequests "memory"
    · rw [hget, if_neg (by decide), if_pos rfl, hsum.get?_eq_none "ephemeral-storage" (by decide),
        hsum.get?_eq_none "disk" (by decide), hnone]
      rfl

/-- Two containers, with milli-cpus and with memory in two forms. -/
example : (calculatePodResources [
      ⟨some (Dict.ofItems [("requests", Dict.ofItems [("cpu", "250m"), ("memory", "67108864")])])⟩,
      ⟨some (Dict.ofItems [("requests", Dict.ofItems [("cpu", "100m"), ("memory", "32Mi")])])⟩]).map
    (fun r => (r.get? "cpus", r.get? "mem")) =
      .ok (some (.rat (35 / 100)), some (.rat (67108864 + 32 * 1024 ^ 2))) := by decide +kernel

/-! ## Pods for which it fails -/

/-- A whole number with a suffix. -/
def Quantity.ofDigit (digit : Digits) (hne : digit.chars ≠ []) (unit : Option SIUnit) : Quantity :=
  ⟨⟨none, digit, none, none, .inl hne⟩, unit, fun _ => rfl⟩

/-- A container that requests one of a resource. -/
def requestsOne (resourceName : String) (unit : Option SIUnit) : ContainerSpec Quantity where
  resources := some (Dict.ofItems [("requests", Dict.ofItems
    [(resourceName, .ofDigit ⟨['1'], List.forall_mem_singleton.mpr rfl⟩ (by decide) unit)])])

/-- A device, a kilobyte and a request for ephemeral storage. -/
theorem pod_resources_fail :
    calculatePodResources [(requestsOne "nvidia.com/gpu" none).texts] =
      .error (.AttributeError "'NoneType' object has no attribute 'items'") ∧
    calculatePodResources [(requestsOne "memory" (some .k)).texts] =
      .error (.ValueError "could not convert string to float: '1k'") ∧
    ∃ r, calculatePodResources [(requestsOne "ephemeral-storage" none).texts] = .ok r ∧
      r.get? "disk" = none ∧ ¬ ExactSums [requestsOne "ephemeral-storage" none] r := by
  have hdisk : (calculatePodResources [(requestsOne "ephemeral-storage" none).texts]).map
      (fun r => r.get? "disk") = .ok none := by decide +kernel
  refine ⟨by decide +kernel, by decide +kernel, ?_⟩
  cases hr : calculatePodResources [(requestsOne "ephemeral-storage" none).texts] with
  | error e =>
    rw [hr] at hdisk
    cases hdisk
  | ok r =>
    rw [hr] at hdisk
    have hnone : r.get? "disk" = none := Except.ok.inj hdisk
    refine ⟨r, rfl, hnone, fun hexact => ?_⟩
    have htotal := hexact.disk
    rw [hnone] at htotal
    exact absurd htotal (by decide +kernel)

end Wca
