import Wca.Runners.Allocation
import Wca.AllocationsDict

/-!
# The algebra of changesets

What the comparison of two leaves gives, for every kind of leaf (`calculateChangeset_leaf`), and
from it what the comparison of two nests of dictionaries gives (`changeset_algebra`).
-/

namespace Wca

open Py AllocationsDict

/-! ## RDT leaves -/

namespace RDTAllocationValue

/-- The requested lines can be compared with the current ones whenever they are. -/
def ComparableWith (new current : RDTAllocationValue) : Prop :=
  current.getResgroupName = new.getResgroupName →
    Covers current.rdtAllocation.l3 new.rdtAllocation.l3 ∧
    Covers current.rdtAllocation.mb new.rdtAllocation.mb

def WellFormed (v : RDTAllocationValue) : Prop :=
  WellFormedLine v.rdtAllocation.l3 ∧ WellFormedLine v.rdtAllocation.mb

/-- The group differs, or some requested domain does. -/
def Differs (new current : RDTAllocationValue) : Prop :=
  current.getResgroupName ≠ new.getResgroupName ∨
    LineDiffers current.rdtAllocation.l3 new.rdtAllocation.l3 ∨
    LineDiffers current.rdtAllocation.mb new.rdtAllocation.mb

/-- A line of the target: the new one where it is given, and in the same group the current one
where it is not. -/
def MergedLine (sameGroup : Prop) (current new target : Option String) : Prop :=
  (truthy new = true → target = new) ∧ (truthy new = false → sameGroup → target = current)

/-- A line of a changeset in the same group: the new one if it differs. -/
def ChangedLine (current new changed : Option String) : Prop :=
  (LineDiffers current new → changed = new) ∧ (¬ LineDiffers current new → changed = none)

/-- The target has the group of the new value. -/
def Merged (new current target : RDTAllocationValue) : Prop :=
  let sameGroup := current.getResgroupName = new.getResgroupName
  target.getResgroupName = new.getResgroupName ∧
    MergedLine sameGroup current.rdtAllocation.l3 new.rdtAllocation.l3 target.rdtAllocation.l3 ∧
    MergedLine sameGroup current.rdtAllocation.mb new.rdtAllocation.mb target.rdtAllocation.mb

/-- The changeset has the name of the new value, its allocation on a move and the lines that differ
in the same group. -/
def Change (new current change : RDTAllocationValue) : Prop :=
  (current.getResgroupName ≠ new.getResgroupName → change.rdtAllocation = new.rdtAllocation) ∧
  (current.getResgroupName = new.getResgroupName →
    change.rdtAllocation.name = new.rdtAllocation.name ∧
    ChangedLine current.rdtAllocation.l3 new.rdtAllocation.l3 change.rdtAllocation.l3 ∧
    ChangedLine current.rdtAllocation.mb new.rdtAllocation.mb change.rdtAllocation.mb)

/-- The value without the group it moves from. -/
def settle (v : RDTAllocationValue) : RDTAllocationValue := { v with sourceResgroup := none }

theorem truthy_of_lineDiffers {current new : Option String} (h : LineDiffers current new) :
    truthy new = true := by
  obtain ⟨c, n, rc, rn, domain, value, newValue, -, rfl, -, hrn, -, hnv, -⟩ := h
  unfold truthy
  rw [decide_eq_true_eq]
  rintro rfl
  cases hrn
  cases hnv

@[simp] theorem truthy_none : truthy none = false := rfl

theorem orElse_self (a : Option String) : orElse a a = a := ite_self a

theorem orElse_of_truthy {a b : Option String} (h : truthy a = true) : orElse a b = a := if_pos h

theorem orElse_of_not_truthy {a b : Option String} (h : truthy a = false) : orElse a b = b :=
  if_neg (by simp [h])

theorem orElse_orElse (a b : Option String) : orElse a (orElse a b) = orElse a b := by
  cases h : truthy a with
  | true => rw [orElse_of_truthy h, orElse_of_truthy h]
  | false => rw [orElse_of_not_truthy h, orElse_of_not_truthy h]

theorem mergedLine_orElse (sameGroup : Prop) (current new : Option String) :
    MergedLine sameGroup current new (orElse new current) :=
  ⟨orElse_of_truthy, fun h _ => orElse_of_not_truthy h⟩

theorem wellFormedLine_orElse {a b : Option String} (ha : WellFormedLine a) (hb : WellFormedLine b) :
    WellFormedLine (orElse a b) := by
  unfold orElse
  split
  · exact ha
  · exact hb

/-- The new line compares as equal with the merged one. -/
theorem covers_orElse {current new : Option String} (h : Covers current new) :
    Covers (orElse new current) new := by
  cases ht : truthy new with
  | true => rw [orElse_of_truthy ht]; exact covers_self new
  | false => rw [orElse_of_not_truthy ht]; exact h

theorem not_lineDiffers_orElse {current new : Option String} :
    ¬ LineDiffers (orElse new current) new := by
  intro h
  rw [orElse_of_truthy (truthy_of_lineDiffers h)] at h
  exact not_lineDiffers_self new h

/-- The comparison with a value of the same group, once the lines can be compared. -/
theorem mergeInto_ok {new current : RDTAllocationValue} (hn : new.WellFormed)
    (hc : current.WellFormed) (hl3 : Covers current.rdtAllocation.l3 new.rdtAllocation.l3)
    (hmb : Covers current.rdtAllocation.mb new.rdtAllocation.mb) :
    ∃ newL3 newMb, ChangedLine current.rdtAllocation.l3 new.rdtAllocation.l3 newL3 ∧
      ChangedLine current.rdtAllocation.mb new.rdtAllocation.mb newMb ∧
      new.mergeInto current = .ok (
        current.copy {
          name := current.rdtAllocation.name
          l3 := orElse new.rdtAllocation.l3 current.rdtAllocation.l3
          mb := orElse new.rdtAllocation.mb current.rdtAllocation.mb } none none,
        if truthy newL3 ∨ truthy newMb then
          some (current.copy { name := new.rdtAllocation.name, l3 := newL3, mb := newMb } none none)
        else none) := by
  obtain ⟨b₁, h₁, hb₁⟩ := isRdtSuballocationChanged_of_covers hc.1 hn.1 hl3
  obtain ⟨b₂, h₂, hb₂⟩ := isRdtSuballocationChanged_of_covers hc.2 hn.2 hmb
  refine ⟨if b₁ then new.rdtAllocation.l3 else none, if b₂ then new.rdtAllocation.mb else none,
    ⟨fun h => if_pos (hb₁.mpr h), fun h => if_neg fun hb => h (hb₁.mp hb)⟩,
    ⟨fun h => if_pos (hb₂.mpr h), fun h => if_neg fun hb => h (hb₂.mp hb)⟩, ?_⟩
  simp only [mergeInto, h₁, h₂, except_ok_bind, except_pure]

/-- A changed line is given exactly if there is a difference. -/
theorem ChangedLine.truthy_iff {current new changed : Option String}
    (h : ChangedLine current new changed) : truthy changed = true ↔ LineDiffers current new := by
  by_cases hd : LineDiffers current new
  · rw [h.1 hd]
    exact ⟨fun _ => hd, truthy_of_lineDiffers⟩
  · rw [h.2 hd]
    simp [hd]

theorem mergeInto_of_not_lineDiffers {new current : RDTAllocationValue} (hn : new.WellFormed)
    (hc : current.WellFormed) (hl3 : Covers current.rdtAllocation.l3 new.rdtAllocation.l3)
    (hmb : Covers current.rdtAllocation.mb new.rdtAllocation.mb)
    (hdl3 : ¬ LineDiffers current.rdtAllocation.l3 new.rdtAllocation.l3)
    (hdmb : ¬ LineDiffers current.rdtAllocation.mb new.rdtAllocation.mb) :
    new.mergeInto current = .ok (
      current.copy {
        name := current.rdtAllocation.name
        l3 := orElse new.rdtAllocation.l3 current.rdtAllocation.l3
        mb := orElse new.rdtAllocation.mb current.rdtAllocation.mb } none none, none) := by
  obtain ⟨newL3, newMb, h₁, h₂, h⟩ := mergeInto_ok hn hc hl3 hmb
  rw [h, h₁.2 hdl3, h₂.2 hdmb]
  simp

theorem calculateChangeset_of_sameGroup {new current : RDTAllocationValue}
    (h : current.getResgroupName = new.getResgroupName) :
    new.calculateChangeset (some current) = new.mergeInto current := by
  rw [calculateChangeset, if_neg (not_not.mpr h)]

theorem calculateChangeset_of_move {new current : RDTAllocationValue}
    (h : current.getResgroupName ≠ new.getResgroupName) :
    new.calculateChangeset (some current) = .ok (new.moveFrom current.getResgroupName) := by
  rw [calculateChangeset, if_pos h]

/-- The value compared with itself is unchanged. -/
theorem calculateChangeset_self {new : RDTAllocationValue} (hn : new.WellFormed) :
    new.calculateChangeset (some new) = .ok (new.settle, none) := by
  rw [calculateChangeset_of_sameGroup rfl, mergeInto_of_not_lineDiffers hn hn (covers_self _)
    (covers_self _) (not_lineDiffers_self _) (not_lineDiffers_self _)]
  simp only [orElse_self]
  rfl

/-- The value compared with its merge into a value of the same group is unchanged. -/
theorem calculateChangeset_merged {new current : RDTAllocationValue} (hn : new.WellFormed)
    (hc : current.WellFormed) (hg : current.getResgroupName = new.getResgroupName)
    (hl3 : Covers current.rdtAllocation.l3 new.rdtAllocation.l3)
    (hmb : Covers current.rdtAllocation.mb new.rdtAllocation.mb) :
    let target := current.copy {
      name := current.rdtAllocation.name
      l3 := orElse new.rdtAllocation.l3 current.rdtAllocation.l3
      mb := orElse new.rdtAllocation.mb current.rdtAllocation.mb } none none
    new.calculateChangeset (some target) = .ok (target, none) := by
  intro target
  have ht : target.WellFormed :=
    ⟨wellFormedLine_orElse hn.1 hc.1, wellFormedLine_orElse hn.2 hc.2⟩
  have hsame : target.getResgroupName = new.getResgroupName := hg
  rw [calculateChangeset_of_sameGroup hsame, mergeInto_of_not_lineDiffers hn ht (covers_orElse hl3)
    (covers_orElse hmb) not_lineDiffers_orElse not_lineDiffers_orElse]
  simp only [target, copy, orElse_orElse]
  rfl

theorem calculateChangeset_spec {new current : RDTAllocationValue} (hn : new.WellFormed)
    (hc : current.WellFormed) (h : new.ComparableWith current) :
    ∃ target change, new.calculateChangeset (some current) = .ok (target, change) ∧
      Merged new current target ∧ (change.isSome = true ↔ Differs new current) ∧
      (∀ d, change = some d → Change new current d) ∧
      ∃ again, new.calculateChangeset (some target) = .ok (again, none) ∧
        again.settle = target.settle := by
  by_cases hg : current.getResgroupName = new.getResgroupName
  · obtain ⟨hl3, hmb⟩ := h hg
    obtain ⟨newL3, newMb, h₁, h₂, hm⟩ := mergeInto_ok hn hc hl3 hmb
    have hdiff : Differs new current ↔ truthy newL3 = true ∨ truthy newMb = true := by
      rw [h₁.truthy_iff, h₂.truthy_iff, Differs]
      simp [hg]
    refine ⟨_, _, (calculateChangeset_of_sameGroup hg).trans hm, ?_, ?_, ?_, _,
      calculateChangeset_merged hn hc hg hl3 hmb, rfl⟩
    · exact ⟨hg, mergedLine_orElse _ _ _, mergedLine_orElse _ _ _⟩
    · rw [hdiff]
      split <;> simp_all
    · intro d hd
      split at hd
      · cases hd
        exact ⟨fun hne => absurd hg hne, fun _ => ⟨rfl, h₁, h₂⟩⟩
      · cases hd
  · refine ⟨_, _, calculateChangeset_of_move hg, ?_, ?_, ?_, _, calculateChangeset_self hn, rfl⟩
    · exact ⟨rfl, ⟨fun _ => rfl, fun _ hs => absurd hs hg⟩, ⟨fun _ => rfl, fun _ hs => absurd hs hg⟩⟩
    · exact ⟨fun _ => .inl hg, fun _ => rfl⟩
    · intro d hd
      cases hd
      exact ⟨fun _ => rfl, fun hs => absurd hs hg⟩

end RDTAllocationValue

/-! ## Leaves of every kind -/

namespace LeafValue

/-- A rational number, a text in the list format, or lines that can be parsed. -/
def WellFormed : LeafValue → Prop
  | quota v => ∃ q, v.value.val = .rat q
  | shares v => ∃ q, v.value.val = .rat q
  | memoryMigrate v => ∃ q, v.value.val = .rat q
  | migratePages v => ∃ q, v.value.val = .rat q
  | cpuset v => ∃ s, decodeListformat v.value = .ok s
  | rdt v => v.WellFormed

/-- The two are of one kind, and RDT values of one group can be compared. -/
def ComparableWith : LeafValue → LeafValue → Prop
  | quota _, quota _ => True
  | shares _, shares _ => True
  | memoryMigrate _, memoryMigrate _ => True
  | migratePages _, migratePages _ => True
  | cpuset v, cpuset c => v.resource = c.resource
  | rdt v, rdt c => v.ComparableWith c
  | _, _ => False

/-- `==` of the class of the first value. -/
def eq (self other : LeafValue) : Except Exc Bool :=
  match self, other with
  | cpuset v, cpuset c => v.eq c
  | rdt v, rdt c => .ok (v.rdtAllocation = c.rdtAllocation)
  | v, c =>
    match v.boxed?, c.boxed? with
    | some v, some c => .ok (v.eq c)
    | _, _ => .error (.builtin (.AssertionError ""))

/-- The new leaf needs an action. -/
def Differs : LeafValue → LeafValue → Prop
  | rdt v, rdt c => v.Differs c
  | v, c => v.eq c = .ok false

/-- What the target has at a leaf of the new value, over the current one if there is one. -/
def Merged (new : LeafValue) (current : Option LeafValue) (target : LeafValue) : Prop :=
  match new, current, target with
  | rdt v, some (rdt c), rdt t => v.Merged c t
  | rdt v, none, rdt t => t = v
  | rdt _, _, _ => False
  | v, _, t => v.eq t = .ok true

/-- What the changeset has at a leaf that differs. -/
def Change (new : LeafValue) (current : Option LeafValue) (change : LeafValue) : Prop :=
  match new, current, change with
  | rdt v, some (rdt c), rdt d => v.Change c d
  | v, _, d => d = v

/-- The leaf without the group it moves from. -/
def settle : LeafValue → LeafValue
  | rdt v => rdt v.settle
  | v => v

/-- What one leaf contributes to a comparison that returns. -/
structure Compared (new current target : LeafValue) (change : Option LeafValue) : Prop where
  returns : new.calculateChangeset current = .ok (target, change)
  merged : new.Merged (some current) target
  differs : change.isSome = true ↔ new.Differs current
  change : ∀ d, change = some d → new.Change (some current) d
  again : ∃ again, new.calculateChangeset target = .ok (again, none) ∧ again.settle = target.settle

/-! ### Numbers -/

theorem calculateChangeset_of_boxed {new current : LeafValue} {v : BoxedNumeric}
    (h : new.boxed? = some v) : new.calculateChangeset current = new.numericChangeset current v := by
  cases new <;> cases h <;> rfl

theorem eq_of_boxed {a b : LeafValue} {v c : BoxedNumeric} (ha : a.boxed? = some v)
    (hb : b.boxed? = some c) : a.eq b = .ok (v.eq c) := by
  cases a <;> cases ha <;> cases b <;> cases hb <;> rfl

theorem differs_of_boxed {a b : LeafValue} {v c : BoxedNumeric} (ha : a.boxed? = some v)
    (hb : b.boxed? = some c) : a.Differs b ↔ v.eq c = false := by
  have heq := eq_of_boxed ha hb
  cases a <;> cases ha <;> simp [Differs, heq]

theorem merged_of_boxed {a t : LeafValue} {c : Option LeafValue} {v w : BoxedNumeric}
    (ha : a.boxed? = some v) (ht : t.boxed? = some w) : a.Merged c t ↔ v.eq w = true := by
  have heq := eq_of_boxed ha ht
  cases a <;> cases ha <;> simp [Merged, heq]

theorem change_self_of_boxed {a : LeafValue} {c : Option LeafValue} {v : BoxedNumeric}
    (ha : a.boxed? = some v) : a.Change c a := by
  cases a <;> first | rfl | cases ha

theorem WellFormed.boxed {a : LeafValue} {v : BoxedNumeric} (h : a.WellFormed)
    (ha : a.boxed? = some v) : v.eq v = true := by
  cases a <;> cases ha <;> obtain ⟨q, hq⟩ := h <;>
    (unfold BoxedNumeric.eq; rw [hq]; exact Flt.isclose_self)

theorem compared_of_boxed {new current : LeafValue} {v c : BoxedNumeric} (hw : new.WellFormed)
    (hv : new.boxed? = some v) (hc : current.boxed? = some c) :
    ∃ target change, Compared new current target change := by
  have hself := hw.boxed hv
  have hnum : ∀ {t : LeafValue} {w : BoxedNumeric}, t.boxed? = some w →
      new.calculateChangeset t = .ok (if v.eq w then (t, none) else (new, some new)) := by
    intro t w ht
    rw [calculateChangeset_of_boxed hv]
    simp only [numericChangeset, ht]
  cases heq : v.eq c with
  | true =>
    have hkeep := hnum hc
    rw [heq, if_pos rfl] at hkeep
    refine ⟨current, none, hkeep, ?_, ?_, fun d hd => (nomatch hd), current, hkeep, rfl⟩
    · rw [merged_of_boxed hv hc, heq]
    · rw [differs_of_boxed hv hc, heq]
      simp
  | false =>
    have hnew := hnum hc
    rw [heq, if_neg Bool.false_ne_true] at hnew
    have hagain := hnum hv
    rw [hself, if_pos rfl] at hagain
    refine ⟨new, some new, hnew, ?_, ?_, fun d hd => ?_, new, hagain, rfl⟩
    · rw [merged_of_boxed hv hv, hself]
    · rw [differs_of_boxed hv hc, heq]
      simp
    · cases hd
      exact change_self_of_boxed hv

/-! ### Cpusets -/

theorem eq_cpuset {v c : ListFormatBasedAllocationValue} {s s' : Finset ℤ}
    (hr : v.resource = c.resource) (hv : decodeListformat v.value = .ok s)
    (hc : decodeListformat c.value = .ok s') : v.eq c = .ok (s = s') := by
  simp only [ListFormatBasedAllocationValue.eq, assert_of hr, hv, hc, liftM_ok, except_ok_bind,
    except_pure]

theorem calculateChangeset_cpuset {v c : ListFormatBasedAllocationValue} {b : Bool}
    (h : v.eq c = .ok b) : (cpuset v).calculateChangeset (cpuset c) =
      .ok (if b then (cpuset c, none) else (cpuset v, some (cpuset v))) := by
  simp only [calculateChangeset, ListFormatBasedAllocationValue.calculateChangeset, h,
    except_ok_bind, except_pure]
  cases b <;> rfl

theorem compared_cpuset {v c : ListFormatBasedAllocationValue} (hv : (cpuset v).WellFormed)
    (hc : (cpuset c).WellFormed) (hr : v.resource = c.resource) :
    ∃ target change, Compared (cpuset v) (cpuset c) target change := by
  obtain ⟨s, hs⟩ := hv
  obtain ⟨s', hs'⟩ := hc
  have heq := eq_cpuset hr hs hs'
  have hself : v.eq v = .ok true := by rw [eq_cpuset rfl hs hs]; simp
  by_cases h : s = s'
  · rw [decide_eq_true h] at heq
    have hkeep := calculateChangeset_cpuset heq
    refine ⟨cpuset c, none, hkeep, heq, ?_, fun d hd => (nomatch hd), cpuset c, hkeep, rfl⟩
    simp [Differs, eq, heq]
  · rw [decide_eq_false h] at heq
    refine ⟨cpuset v, some (cpuset v), calculateChangeset_cpuset heq, hself, ?_, fun d hd => ?_,
      cpuset v, calculateChangeset_cpuset hself, rfl⟩
    · simp [Differs, eq, heq]
    · cases hd
      rfl

/-! ### All leaves -/

theorem compared_rdt {v c : RDTAllocationValue} (hv : v.WellFormed) (hc : c.WellFormed)
    (h : v.ComparableWith c) : ∃ target change, Compared (rdt v) (rdt c) target change := by
  obtain ⟨t, d, hcalc, hmerged, hdiffers, hchange, again, hagain, hsettle⟩ :=
    RDTAllocationValue.calculateChangeset_spec hv hc h
  refine ⟨rdt t, d.map rdt, ?_, hmerged, ?_, ?_, rdt again, ?_, ?_⟩
  · simp only [calculateChangeset, hcalc, except_ok_bind, except_pure]
  · rw [Option.isSome_map]
    exact hdiffers
  · intro d' hd'
    obtain ⟨d₀, hd₀, rfl⟩ := Option.map_eq_some_iff.mp hd'
    exact hchange d₀ hd₀
  · simp only [calculateChangeset, hagain, except_ok_bind, except_pure, Option.map_none]
  · exact congrArg rdt hsettle

/-- The comparison of two leaves that can be compared. -/
theorem calculateChangeset_leaf {new current : LeafValue} (hn : new.WellFormed)
    (hc : current.WellFormed) (h : new.ComparableWith current) :
    ∃ target change, Compared new current target change := by
  cases new with
  | quota v => cases current <;> first | exact compared_of_boxed hn rfl rfl | cases h
  | shares v => cases current <;> first | exact compared_of_boxed hn rfl rfl | cases h
  | memoryMigrate v => cases current <;> first | exact compared_of_boxed hn rfl rfl | cases h
  | migratePages v => cases current <;> first | exact compared_of_boxed hn rfl rfl | cases h
  | cpuset v =>
    cases current with
    | cpuset c => exact compared_cpuset hn hc h
    | _ => cases h
  | rdt v =>
    cases current with
    | rdt c => exact compared_rdt hn hc h
    | _ => cases h

/-- A leaf compared with itself is unchanged. -/
theorem calculateChangeset_self {new : LeafValue} (hn : new.WellFormed) :
    ∃ again, new.calculateChangeset new = .ok (again, none) ∧ again.settle = new.settle := by
  have hboxed : ∀ v, new.boxed? = some v → ∃ again, new.calculateChangeset new = .ok (again, none) ∧
      again.settle = new.settle := by
    intro v hv
    refine ⟨new, ?_, rfl⟩
    rw [calculateChangeset_of_boxed hv]
    simp only [numericChangeset, hv, hn.boxed hv, if_true]
  cases new with
  | quota v => exact hboxed _ rfl
  | shares v => exact hboxed _ rfl
  | memoryMigrate v => exact hboxed _ rfl
  | migratePages v => exact hboxed _ rfl
  | cpuset v =>
    obtain ⟨s, hs⟩ := hn
    refine ⟨cpuset v, ?_, rfl⟩
    rw [calculateChangeset_cpuset (eq_cpuset rfl hs hs)]
    simp
  | rdt v =>
    refine ⟨rdt v.settle, ?_, rfl⟩
    simp only [calculateChangeset, RDTAllocationValue.calculateChangeset_self hn, except_ok_bind,
      except_pure, Option.map_none]

theorem merged_self {new : LeafValue} (hn : new.WellFormed) : new.Merged none new := by
  have hboxed : ∀ v, new.boxed? = some v → new.Merged none new := fun v hv =>
    (merged_of_boxed hv hv).mpr (hn.boxed hv)
  cases new with
  | quota v => exact hboxed _ rfl
  | shares v => exact hboxed _ rfl
  | memoryMigrate v => exact hboxed _ rfl
  | migratePages v => exact hboxed _ rfl
  | cpuset v =>
    obtain ⟨s, hs⟩ := hn
    change v.eq v = .ok true
    rw [eq_cpuset rfl hs hs]
    simp
  | rdt v => exact rfl

theorem change_self (new : LeafValue) : new.Change none new := by
  cases new <;> rfl

end LeafValue

/-! ## The nest of dictionaries -/

open LeafValue

/-- What a comparison does at one place of the nest. -/
def LeafSpec (new current target change : Option LeafValue) : Prop :=
  match new with
  | none => target = current ∧ change = none
  | some v => (∃ w, target = some w ∧ v.Merged current w) ∧
      (change.isSome = true ↔ ∀ c, current = some c → v.Differs c) ∧
      ∀ d, change = some d → v.Change current d

theorem LeafSpec.fresh {v : LeafValue} (hv : v.WellFormed) : LeafSpec (some v) none (some v) (some v) := by
  refine ⟨⟨v, rfl, merged_self hv⟩, ⟨fun _ _ h => (nomatch h), fun _ => rfl⟩, fun d hd => ?_⟩
  cases hd
  exact change_self v

theorem LeafSpec.compared {v c t : LeafValue} {d : Option LeafValue} (h : Compared v c t d) :
    LeafSpec (some v) (some c) (some t) d := by
  refine ⟨⟨t, rfl, h.merged⟩, ?_, h.change⟩
  rw [h.differs]
  exact ⟨fun hd c' hc' => by cases hc'; exact hd, fun hd => hd c rfl⟩

/-- Both nests are well formed, and a key of both has values that can be compared. -/
structure Comparable (new current : TasksAllocationsValues) : Prop where
  wellFormedNew : ∀ task t v, leaf new task t = some v → v.WellFormed
  wellFormedCurrent : ∀ task t c, leaf current task t = some c → c.WellFormed
  both : ∀ task t v c, leaf new task t = some v → leaf current task t = some c → v.ComparableWith c

/-- The values of one task. -/
theorem calculateChangeset_task (new current : TaskAllocationsValues)
    (hn : ∀ t v, new.get? t = some v → v.WellFormed)
    (hc : ∀ t c, current.get? t = some c → c.WellFormed)
    (h : ∀ t v c, new.get? t = some v → current.get? t = some c → v.ComparableWith c) :
    ∃ target change, calculateChangeset new current = .ok (target, change) ∧
      (∀ t, LeafSpec (new.get? t) (current.get? t) (target.get? t) (entry change t)) ∧
      (change = none ↔ ∀ t, entry change t = none) ∧
      ∃ again, calculateChangeset new target = .ok (again, none) ∧
        ∀ t, (again.get? t).map settle = (target.get? t).map settle := by
  have hleaf : ∀ t v c, new.get? t = some v → current.get? t = some c →
      ∃ w d, Compared v c w d := fun t v c hv hcur =>
    calculateChangeset_leaf (hn t v hv) (hc t c hcur) (h t v c hv hcur)
  obtain ⟨target, change, hcalc⟩ := calculateChangeset_returns new current
    fun t v c hv hcur => by
      obtain ⟨w, d, hw⟩ := hleaf t v c hv hcur
      exact ⟨_, hw.returns⟩
  have hspec := isChangeset_of_ok hcalc
  -- the two ways a type of the new values gets into the target
  have hplace : ∀ t v, new.get? t = some v → ∃ w, target.get? t = some w ∧
      LeafSpec (some v) (current.get? t) (some w) (entry change t) ∧
      ∃ again, calculateChangeset v w = .ok (again, none) ∧ again.settle = w.settle := by
    intro t v hv
    have hp := hspec.present t v hv
    unfold EntryOf at hp
    cases hcur : current.get? t with
    | none =>
      rw [hcur] at hp
      rw [hp.1, hp.2]
      exact ⟨v, rfl, .fresh (hn t v hv), calculateChangeset_self (hn t v hv)⟩
    | some c =>
      rw [hcur] at hp
      obtain ⟨w, hw, htarget⟩ := hp
      obtain ⟨w', d', hcmp⟩ := hleaf t v c hv hcur
      have hsame := hw.symm.trans hcmp.returns
      simp only [Except.ok.injEq, Prod.mk.injEq] at hsame
      obtain ⟨rfl, rfl⟩ := hsame
      exact ⟨w, htarget, .compared hcmp, hcmp.again⟩
  refine ⟨target, change, hcalc, fun t => ?_, ⟨fun hnone t => by rw [hnone]; rfl,
    hspec.none_of_entries⟩, ?_⟩
  · cases hv : new.get? t with
    | none => exact hspec.absent t hv
    | some v =>
      obtain ⟨w, hw, hls, -⟩ := hplace t v hv
      rw [hw]
      exact hls
  · obtain ⟨again, hagain, habsent, hpresent⟩ :=
      calculateChangeset_unchanged new target fun t v hv => by
        obtain ⟨w, hw, -, a, ha, -⟩ := hplace t v hv
        exact ⟨w, a, hw, ha⟩
    refine ⟨again, hagain, fun t => ?_⟩
    cases hv : new.get? t with
    | none => rw [habsent t hv]
    | some v =>
      obtain ⟨w, hw, -, a, ha, hsettle⟩ := hplace t v hv
      rw [hpresent t v w a hv hw ha, hw]
      exact congrArg some hsettle

/-- The values of one task compared with themselves are unchanged. -/
theorem calculateChangeset_task_self {new : TaskAllocationsValues}
    (hn : ∀ t v, new.get? t = some v → v.WellFormed) :
    ∃ again, calculateChangeset new new = .ok (again, none) ∧
      ∀ t, (again.get? t).map settle = (new.get? t).map settle := by
  obtain ⟨again, hagain, habsent, hpresent⟩ :=
    calculateChangeset_unchanged new new fun t v hv => by
      obtain ⟨a, ha, -⟩ := LeafValue.calculateChangeset_self (hn t v hv)
      exact ⟨v, a, hv, ha⟩
  refine ⟨again, hagain, fun t => ?_⟩
  cases hv : new.get? t with
  | none => rw [habsent t hv, hv]
  | some v =>
    obtain ⟨a, ha, hsettle⟩ := LeafValue.calculateChangeset_self (hn t v hv)
    rw [hpresent t v v a hv hv ha]
    exact congrArg some hsettle

/-- What the target and the changeset of a comparison of two nests are. -/
structure ChangesetOf (new current target : TasksAllocationsValues)
    (changeset : Option TasksAllocationsValues) : Prop where
  tasks : ∀ task, task ∈ target ↔ task ∈ current ∨ task ∈ new
  types : ∀ task t, (leaf target task t).isSome = true ↔
    (leaf current task t).isSome = true ∨ (leaf new task t).isSome = true
  absent : ∀ task t, leaf new task t = none → leaf target task t = leaf current task t
  merged : ∀ task t v, leaf new task t = some v →
    ∃ w, leaf target task t = some w ∧ v.Merged (leaf current task t) w
  changed : ∀ task t, (changedLeaf changeset task t).isSome = true ↔
    ∃ v, leaf new task t = some v ∧ ∀ c, leaf current task t = some c → v.Differs c
  change : ∀ task t v d, leaf new task t = some v → changedLeaf changeset task t = some d →
    v.Change (leaf current task t) d
  eq_none : changeset = none ↔ (∀ task ∈ new.keys, task ∈ current) ∧
    ∀ task t v, leaf new task t = some v → ∃ c, leaf current task t = some c ∧ ¬ v.Differs c

/-- From what is done at each place to the whole nest. -/
theorem ChangesetOf.of_leafSpec {new current target : TasksAllocationsValues}
    {changeset : Option TasksAllocationsValues}
    (htasks : ∀ task, task ∈ target ↔ task ∈ current ∨ task ∈ new)
    (hleaf : ∀ task t, LeafSpec (leaf new task t) (leaf current task t) (leaf target task t)
      (changedLeaf changeset task t))
    (hnone : changeset = none ↔ (∀ task ∈ new.keys, task ∈ current) ∧
      ∀ task t, changedLeaf changeset task t = none) :
    ChangesetOf new current target changeset := by
  have hchanged : ∀ task t, (changedLeaf changeset task t).isSome = true ↔
      ∃ v, leaf new task t = some v ∧ ∀ c, leaf current task t = some c → v.Differs c := by
    intro task t
    have h := hleaf task t
    cases hv : leaf new task t with
    | none =>
      rw [hv] at h
      rw [h.2]
      simp
    | some v =>
      rw [hv] at h
      rw [h.2.1]
      simp
  refine ⟨htasks, fun task t => ?_, fun task t hv => ?_, fun task t v hv => ?_, hchanged,
    fun task t v d hv hd => ?_, ?_⟩
  · have h := hleaf task t
    cases hv : leaf new task t with
    | none => rw [hv] at h; rw [h.1]; simp
    | some v =>
      rw [hv] at h
      obtain ⟨w, hw, -⟩ := h.1
      rw [hw]
      simp
  · have h := hleaf task t
    rw [hv] at h
    exact h.1
  · have h := hleaf task t
    rw [hv] at h
    exact h.1
  · have h := hleaf task t
    rw [hv] at h
    exact h.2.2 d hd
  · rw [hnone]
    refine and_congr_right fun _ => ?_
    constructor
    · intro h task t v hv
      have hc := (hchanged task t).not.mp (by rw [h task t]; simp)
      push Not at hc
      exact hc v hv
    · intro h task t
      rw [← Option.not_isSome_iff_eq_none, hchanged]
      rintro ⟨v, hv, hd⟩
      obtain ⟨c, hc, hnd⟩ := h task t v hv
      exact hnd (hd c hc)

/-- Comparing two nests returns a target and a changeset as `ChangesetOf` says, and comparing again
with the target changes nothing: the target stays, up to the groups that RDT values move from. -/
theorem changeset_algebra {new current : TasksAllocationsValues} (h : Comparable new current) :
    ∃ target changeset, calculateChangeset new current = .ok (target, changeset) ∧
      ChangesetOf new current target changeset ∧
      ∃ again, calculateChangeset new target = .ok (again, none) ∧
        (∀ task, task ∈ again ↔ task ∈ target) ∧
        ∀ task t, (leaf again task t).map settle = (leaf target task t).map settle := by
  have hwell : ∀ k m, new.get? k = some m → ∀ t v, m.get? t = some v → v.WellFormed :=
    fun k m hm t v hv => h.wellFormedNew k t v (by rw [leaf, hm]; exact hv)
  have htask := fun k m c (hm : new.get? k = some m) (hc : current.get? k = some c) =>
    calculateChangeset_task m c (hwell k m hm)
      (fun t v hv => h.wellFormedCurrent k t v (by rw [leaf, hc]; exact hv))
      fun t v w hv hw => h.both k t v w (by rw [leaf, hm]; exact hv) (by rw [leaf, hc]; exact hw)
  obtain ⟨target, changeset, hcalc⟩ := calculateChangeset_returns new current
    fun k m c hm hc => by
      obtain ⟨t, d, hr, -⟩ := htask k m c hm hc
      exact ⟨_, hr⟩
  have hspec := isChangeset_of_ok hcalc
  -- a task of the new nest, with the comparison of its values to those of the target
  have hplace : ∀ k m, new.get? k = some m → ∃ w, target.get? k = some w ∧
      (∀ t, LeafSpec (m.get? t) (leaf current k t) (w.get? t) (changedLeaf changeset k t)) ∧
      (k ∈ current → (∀ t, changedLeaf changeset k t = none) → entry changeset k = none) ∧
      ∃ again, calculateChangeset m w = .ok (again, none) ∧
        ∀ t, (again.get? t).map settle = (w.get? t).map settle := by
    intro k m hm
    have hp := hspec.present k m hm
    unfold EntryOf at hp
    cases hc : current.get? k with
    | none =>
      rw [hc] at hp
      refine ⟨m, hp.1, fun t => ?_, fun hk => absurd hk (Dict.get?_eq_none_iff.mp hc),
        calculateChangeset_task_self (hwell k m hm)⟩
      rw [leaf, hc, changedLeaf, hp.2]
      cases hv : m.get? t with
      | none => exact ⟨rfl, hv⟩
      | some v =>
        change LeafSpec (some v) none (some v) (m.get? t)
        rw [hv]
        exact .fresh (hwell k m hm t v hv)
    | some c =>
      rw [hc] at hp
      obtain ⟨w, hw, htarget⟩ := hp
      obtain ⟨w', d', hr, hleaf, hnone, hagain⟩ := htask k m c hm hc
      have hsame := hw.symm.trans hr
      simp only [Except.ok.injEq, Prod.mk.injEq] at hsame
      obtain ⟨rfl, rfl⟩ := hsame
      refine ⟨w, htarget, fun t => ?_, fun _ => hnone.mpr, hagain⟩
      rw [leaf, hc]
      exact hleaf t
  refine ⟨target, changeset, hcalc, .of_leafSpec (fun k => ?_) (fun k t => ?_) ⟨?_, ?_⟩, ?_⟩
  · rw [Dict.mem_def, Dict.mem_def, Dict.mem_def, Dict.mem_keys_iff_get?, Dict.mem_keys_iff_get?,
      Dict.mem_keys_iff_get?]
    cases hm : new.get? k with
    | none => rw [(hspec.absent k hm).1]; simp
    | some m =>
      obtain ⟨w, hw, -⟩ := hplace k m hm
      rw [hw]
      simp
  · cases hm : new.get? k with
    | none =>
      obtain ⟨h₁, h₂⟩ := hspec.absent k hm
      rw [leaf, hm, leaf, leaf, h₁, changedLeaf, h₂]
      exact ⟨rfl, rfl⟩
    | some m =>
      obtain ⟨w, hw, hleaf, -⟩ := hplace k m hm
      rw [leaf, hm, leaf.eq_1 target, hw]
      exact hleaf t
  · rintro rfl
    refine ⟨fun k hk => ?_, fun k t => rfl⟩
    obtain ⟨m, hm⟩ := Dict.mem_keys_iff_get?.mp hk
    have hp := hspec.present k m hm
    unfold EntryOf at hp
    cases hc : current.get? k with
    | none => rw [hc] at hp; cases hp.2
    | some c => exact Dict.mem_keys_iff_get?.mpr ⟨c, hc⟩
  · rintro ⟨hsub, hchanged⟩
    refine hspec.none_of_entries fun k => ?_
    cases hm : new.get? k with
    | none => exact (hspec.absent k hm).2
    | some m =>
      obtain ⟨w, -, -, hentry, -⟩ := hplace k m hm
      exact hentry (hsub k (Dict.mem_keys_iff_get?.mpr ⟨m, hm⟩)) (hchanged k)
  · obtain ⟨again, hagain, habsent, hpresent⟩ :=
      calculateChangeset_unchanged new target fun k m hm => by
        obtain ⟨w, hw, -, -, a, ha, -⟩ := hplace k m hm
        exact ⟨w, a, hw, ha⟩
    refine ⟨again, hagain, fun k => ?_, fun k t => ?_⟩
    · rw [Dict.mem_def, Dict.mem_def, Dict.mem_keys_iff_get?, Dict.mem_keys_iff_get?]
      cases hm : new.get? k with
      | none => rw [habsent k hm]
      | some m =>
        obtain ⟨w, hw, -, -, a, ha, -⟩ := hplace k m hm
        rw [hpresent k m w a hm hw ha, hw]
        simp
    · cases hm : new.get? k with
      | none => rw [leaf, habsent k hm]; rfl
      | some m =>
        obtain ⟨w, hw, -, -, a, ha, hsettle⟩ := hplace k m hm
        rw [leaf, hpresent k m w a hm hw ha, leaf, hw]
        exact hsettle t

/-! ## Two small nests -/

section

open SmallHost

namespace SmallHost

def quotaOf (value : ℚ) : LeafValue := .quota {
  value := .float (.rat value)
  maxValue := .rat 1
  cgroup := (container "t1" "a").cgroup
  subcgroups := [] }

def cpusOf (value : String) : LeafValue := .cpuset {
  value := value
  resource := .CPUSET_CPUS
  cgroup := (container "t1" "a").cgroup
  subcgroups := []
  maxValue := 3 }

def rdtOf (name l3 : String) : LeafValue := .rdt {
  containerName := "t1"
  rdtAllocation := ⟨some name, some l3, none⟩
  resgroup := some ⟨"a"⟩
  getPids := container "t1" "a"
  platformSockets := 1
  rdtInformation := rdtInformation
  rdtGroups := 0 }

def valuesOf (quota : ℚ) (cpus name l3 : String) : TasksAllocationsValues :=
  Dict.ofItems [("t1", Dict.ofItems [
    (.QUOTA, quotaOf quota), (.CPUSET_CPUS, cpusOf cpus), (.RDT, rdtOf name l3)])]

theorem leaf_valuesOf {quota : ℚ} {cpus name l3 task : String} {t : AllocationType} {v : LeafValue}
    (h : leaf (valuesOf quota cpus name l3) task t = some v) :
    t = .QUOTA ∧ v = quotaOf quota ∨ t = .CPUSET_CPUS ∧ v = cpusOf cpus ∨
      t = .RDT ∧ v = rdtOf name l3 := by
  obtain ⟨m, hm, hv⟩ := Option.bind_eq_some_iff.mp h
  obtain ⟨-, rfl⟩ := Prod.mk.inj (List.mem_singleton.mp (Dict.get?_eq_some_iff.mp hm))
  have hmem : (t, v) ∈ [(.QUOTA, quotaOf quota), (.CPUSET_CPUS, cpusOf cpus), (.RDT, rdtOf name l3)] :=
    Dict.get?_eq_some_iff.mp hv
  simpa using hmem

theorem valuesOf_wellFormed {quota : ℚ} {cpus name l3 : String}
    (hcpus : ∃ s, decodeListformat cpus = .ok s) (hl3 : ∃ row, parseSchemataFileRow l3 = .ok row)
    (task : TaskId) (t : AllocationType) (v : LeafValue)
    (h : leaf (valuesOf quota cpus name l3) task t = some v) : v.WellFormed := by
  rcases leaf_valuesOf h with ⟨-, rfl⟩ | ⟨-, rfl⟩ | ⟨-, rfl⟩
  · exact ⟨quota, rfl⟩
  · exact hcpus
  · refine ⟨fun l hl => ?_, fun l hl => nomatch hl⟩
    cases hl
    exact hl3

end SmallHost

/-- Quota and mask change; the cpus, written in another way, do not. -/
theorem changeset_algebra_sample :
    ∃ target changeset,
      calculateChangeset (valuesOf (1/2) "0,1" "a" "L3:0=f") (valuesOf 1 "0-1" "a" "L3:0=fff;1=ff") =
        .ok (target, changeset) ∧
      ChangesetOf (valuesOf (1/2) "0,1" "a" "L3:0=f") (valuesOf 1 "0-1" "a" "L3:0=fff;1=ff")
        target changeset := by
  obtain ⟨target, changeset, hcalc, hspec, -⟩ :=
    @changeset_algebra (valuesOf (1/2) "0,1" "a" "L3:0=f") (valuesOf 1 "0-1" "a" "L3:0=fff;1=ff") {
      wellFormedNew := valuesOf_wellFormed (except_exists_of_isOk (by decide +kernel))
        (except_exists_of_isOk (by decide +kernel))
      wellFormedCurrent := valuesOf_wellFormed (except_exists_of_isOk (by decide +kernel))
        (except_exists_of_isOk (by decide +kernel))
      both := fun task t v c hv hc => by
        rcases leaf_valuesOf hv with ⟨rfl, rfl⟩ | ⟨rfl, rfl⟩ | ⟨rfl, rfl⟩ <;>
          rcases leaf_valuesOf hc with ⟨ht, rfl⟩ | ⟨ht, rfl⟩ | ⟨ht, rfl⟩ <;> cases ht
        · trivial
        · rfl
        · refine fun _ => ⟨fun n hn => ?_, fun n hn => nomatch hn⟩
          cases hn
          refine ⟨_, rfl, fun rc rn hrc hrn => ?_⟩
          have hrc' : rc = Dict.ofItems [("0", "fff"), ("1", "ff")] :=
            Except.ok.inj (hrc.symm.trans (by decide +kernel))
          have hrn' : rn = Dict.ofItems [("0", "f")] :=
            Except.ok.inj (hrn.symm.trans (by decide +kernel))
          rw [hrc', hrn']
          decide }
  exact ⟨target, changeset, hcalc, hspec⟩

end

end Wca
