import Wca.Allocators

/-!
# Allocation values

An allocation value is compared with the current one, validated and performed. `AllocationsDict`
is the dictionary of such values that is one itself: its comparison goes through the new values in
order and updates a copy of the current dictionary (the target) and an empty one (the changeset).
-/

namespace Wca

open Py

/-- `AllocationValue`: validating works on the objects `H` that values share, performing on the
whole world `W`. -/
class AllocationValue (V : Type) (H W : outParam Type) where
  /-- the merged value as target, and the difference as changeset -/
  calculateChangeset (new current : V) : Except Exc (V × Option V)
  validate (value : V) : EStateM Exc H Unit
  performAllocations (value : V) : EStateM Exc W Unit

export AllocationValue (calculateChangeset validate performAllocations)

/-! ## `AllocationsDict` -/

abbrev AllocationsDict (K V : Type) := Dict K V

namespace AllocationsDict

variable {K V H W : Type} [DecidableEq K] [AllocationValue V H W]

/-- The body of the loop over the new values; the accumulator is the target and the changeset. -/
def changesetStep (current : AllocationsDict K V) (acc : AllocationsDict K V × AllocationsDict K V)
    (item : K × V) : Except Exc (AllocationsDict K V × AllocationsDict K V) :=
  match current.get? item.1 with
  | none => .ok (acc.1.set item.1 item.2, acc.2.set item.1 item.2)
  | some currentValue => do
    let (targetValue, valueChangeset) ← calculateChangeset item.2 currentValue
    pure (acc.1.set item.1 targetValue,
      match valueChangeset with
      | some value => acc.2.set item.1 value
      | none => acc.2)

/-- An empty changeset is `None`. -/
def noneIfEmpty (changeset : AllocationsDict K V) : Option (AllocationsDict K V) :=
  if changeset.items = [] then none else some changeset

instance : AllocationValue (AllocationsDict K V) H W where
  calculateChangeset new current := do
    let (target, changeset) ← new.items.foldlM (changesetStep current) (current, ∅)
    pure (target, noneIfEmpty changeset)
  validate d := forM d.values validate
  performAllocations d := forM d.values performAllocations

end AllocationsDict

/-! ## `BoxedNumeric` -/

def VALUE_CHANGE_SENSITIVITY : ℚ := 5 / 100

/-- A number with the range it has to be in. -/
structure BoxedNumeric where
  value : Number
  minValue : Flt := .rat 0
  maxValue : Flt := .inf
  valueChangeSensitivity : ℚ := VALUE_CHANGE_SENSITIVITY
  deriving DecidableEq

namespace BoxedNumeric

/-- `==`: equal up to the sensitivity of the first. -/
def eq (self other : BoxedNumeric) : Bool :=
  Flt.isclose self.value.val other.value.val self.valueChangeSensitivity

def validate (self : BoxedNumeric) : Except Exc Unit :=
  if self.value.val.lt self.minValue ∨ self.maxValue.lt self.value.val then
    invalid (.notInRange self.value.val self.minValue self.maxValue)
  else .ok ()

theorem validate_ok_iff {v : BoxedNumeric} : v.validate = .ok () ↔
    v.value.val.lt v.minValue = false ∧ v.maxValue.lt v.value.val = false := by
  unfold validate
  split
  · rename_i h
    constructor
    · intro hc
      cases hc
    · rintro ⟨h₁, h₂⟩
      rw [h₁, h₂] at h
      simp at h
  · rename_i h
    rw [not_or, Bool.not_eq_true, Bool.not_eq_true] at h
    exact ⟨fun _ => h, fun _ => rfl⟩

end BoxedNumeric

end Wca
