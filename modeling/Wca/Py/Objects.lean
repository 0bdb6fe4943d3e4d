import Wca.Py.Dict
import Mathlib.Data.Set.Disjoint
import Mathlib.Order.CompletePartialOrder

/-!
# Dictionaries as objects

A heap of dictionaries, whose values are leaves or references to dictionaries. A program may write to
a dictionary that others refer to, so what is known of one nested dictionary is known together with
the addresses it is made of (`Owns`), or that it is read at (`Within`).
-/

namespace Py.Objects

abbrev Addr := Nat

inductive Value (L : Type) where
  | leaf (l : L)
  | ref (a : Addr)
  deriving DecidableEq

abbrev Heap (K L : Type) := List (Dict K (Value L))

variable {K L : Type}

/-- The dictionary at an address. -/
def deref (h : Heap K L) (a : Addr) : Dict K (Value L) := h.getD a ∅

/-- Some addresses have the same dictionaries. -/
def Agree (h h' : Heap K L) (S : Set Addr) : Prop := ∀ a ∈ S, deref h' a = deref h a

theorem Agree.mono {h h' : Heap K L} {S T : Set Addr} (hagree : Agree h h' T) (hST : S ⊆ T) :
    Agree h h' S := fun a ha => hagree a (hST ha)

theorem Agree.refl (h : Heap K L) (S : Set Addr) : Agree h h S := fun _ _ => rfl

theorem Agree.trans {h h' h'' : Heap K L} {S : Set Addr} (h₁ : Agree h h' S)
    (h₂ : Agree h' h'' S) : Agree h h'' S := fun a ha => (h₂ a ha).trans (h₁ a ha)

variable [DecidableEq K]

/-- What is at the end of a path of keys. -/
def lookup (h : Heap K L) : Value L → List K → Option (Value L)
  | v, [] => some v
  | .leaf _, _ :: _ => none
  | .ref a, k :: path => ((deref h a).get? k).bind fun v => lookup h v path

@[simp] theorem lookup_nil {h : Heap K L} {v : Value L} : lookup h v [] = some v := by
  cases v <;> rfl

@[simp] theorem lookup_leaf {h : Heap K L} {l : L} {k : K} {path : List K} :
    lookup h (.leaf l) (k :: path) = none := rfl

@[simp] theorem lookup_ref {h : Heap K L} {a : Addr} {k : K} {path : List K} :
    lookup h (.ref a) (k :: path) = ((deref h a).get? k).bind fun v => lookup h v path := rfl

/-! ## Programs -/

section Programs

variable {ε : Type}

/-- `{}`: a dictionary of its own. -/
def alloc : EStateM ε (Heap K L) Addr := fun h => .ok h.length (h ++ [∅])

def getDict (a : Addr) : EStateM ε (Heap K L) (Dict K (Value L)) := do
  let h ← get
  pure (deref h a)

/-- `d[k] = v` -/
def setItem (a : Addr) (k : K) (v : Value L) : EStateM ε (Heap K L) PUnit :=
  modify fun h => h.modify a fun d => d.set k v

omit [DecidableEq K] in
@[simp] theorem wp_alloc {Q : Addr → Heap K L → Prop} {E : ε → Heap K L → Prop} {h : Heap K L} :
    wp alloc Q E h ↔ Q h.length (h ++ [∅]) := Iff.rfl

omit [DecidableEq K] in
@[simp] theorem wp_getDict {a : Addr} {Q : Dict K (Value L) → Heap K L → Prop}
    {E : ε → Heap K L → Prop} {h : Heap K L} : wp (getDict a) Q E h ↔ Q (deref h a) h := Iff.rfl

@[simp] theorem wp_setItem {a : Addr} {k : K} {v : Value L} {Q : PUnit → Heap K L → Prop}
    {E : ε → Heap K L → Prop} {h : Heap K L} :
    wp (setItem a k v) Q E h ↔ Q ⟨⟩ (h.modify a fun d => d.set k v) := Iff.rfl

end Programs

variable {h h' : Heap K L} {a : Addr}

omit [DecidableEq K] in
/-- A new dictionary is empty, as is what is read where there is none. -/
@[simp] theorem deref_alloc : deref (h ++ [∅]) a = deref h a := by
  rw [deref, deref, List.getD_eq_getElem?_getD, List.getD_eq_getElem?_getD, List.getElem?_append]
  split
  · rfl
  · next hle =>
    rw [List.getElem?_eq_none (not_lt.mp hle)]
    cases a - h.length <;> rfl

omit [DecidableEq K] in
theorem deref_of_length_le (ha : h.length ≤ a) : deref h a = ∅ := by
  rw [deref, List.getD_eq_getElem?_getD, List.getElem?_eq_none ha]
  rfl

theorem deref_set_self {k : K} {v : Value L} (ha : a < h.length) :
    deref (h.modify a fun d => d.set k v) a = (deref h a).set k v := by
  simp [deref, ha]

theorem deref_set_of_ne {a' : Addr} {k : K} {v : Value L} (hne : a' ≠ a) :
    deref (h.modify a fun d => d.set k v) a' = deref h a' := by
  simp [deref, hne.symm]

/-! ## What is read -/

/-- A value with some levels of dictionaries, all of them at the addresses, and leaves that satisfy
`P` below. -/
def Within (P : L → Prop) (h : Heap K L) : ℕ → Value L → Set Addr → Prop
  | 0, v, _ => ∃ l, v = .leaf l ∧ P l
  | levels + 1, v, S => ∃ a ∈ S, v = .ref a ∧
    ∀ k w, (deref h a).get? k = some w → Within P h levels w S

variable {P : L → Prop} {S T : Set Addr} {levels : ℕ} {v : Value L}

theorem Within.congr (hv : Within P h levels v S) (hagree : Agree h h' S) :
    Within P h' levels v S := by
  induction levels generalizing v with
  | zero => exact hv
  | succ levels ih =>
    obtain ⟨a, ha, rfl, hitems⟩ := hv
    refine ⟨a, ha, rfl, fun k w hw => ?_⟩
    rw [hagree a ha] at hw
    exact ih (hitems k w hw)

theorem Within.mono (hv : Within P h levels v S) (hST : S ⊆ T) : Within P h levels v T := by
  induction levels generalizing v with
  | zero => exact hv
  | succ levels ih =>
    obtain ⟨a, ha, rfl, hitems⟩ := hv
    exact ⟨a, hST ha, rfl, fun k w hw => ih (hitems k w hw)⟩

theorem Within.lookup_congr (hv : Within P h levels v S) (hagree : Agree h h' S) (path : List K) :
    lookup h' v path = lookup h v path := by
  induction path generalizing levels v with
  | nil => rw [lookup_nil, lookup_nil]
  | cons k path ih =>
    cases levels with
    | zero =>
      obtain ⟨l, rfl, -⟩ := hv
      rfl
    | succ levels =>
      obtain ⟨a, ha, rfl, hitems⟩ := hv
      rw [lookup_ref, lookup_ref, hagree a ha]
      cases hw : (deref h a).get? k with
      | none => rfl
      | some w => exact ih (hitems k w hw)

/-- A leaf is as deep as there are levels. -/
theorem Within.leaf_of_lookup (hv : Within P h levels v S) {path : List K} {l : L}
    (hl : lookup h v path = some (.leaf l)) : path.length = levels ∧ P l := by
  induction path generalizing levels v with
  | nil =>
    rw [lookup_nil] at hl
    cases hl
    cases levels with
    | zero =>
      obtain ⟨l', hl', hP⟩ := hv
      cases hl'
      exact ⟨rfl, hP⟩
    | succ levels =>
      obtain ⟨a, -, hnot, -⟩ := hv
      cases hnot
  | cons k path ih =>
    cases levels with
    | zero =>
      obtain ⟨l', rfl, -⟩ := hv
      cases hl
    | succ levels =>
      obtain ⟨a, -, rfl, hitems⟩ := hv
      rw [lookup_ref] at hl
      obtain ⟨w, hw, hl⟩ := Option.bind_eq_some_iff.mp hl
      obtain ⟨hlength, hP⟩ := ih (hitems k w hw) hl
      exact ⟨congrArg (· + 1) hlength, hP⟩

/-! ## What is owned -/

/-- A value whose dictionaries are at some of the addresses, and at others for other keys, so that a
write to one of them changes nothing elsewhere. -/
def Owns (P : L → Prop) (h : Heap K L) : ℕ → Value L → Set Addr → Prop
  | 0, v, _ => ∃ l, v = .leaf l ∧ P l
  | levels + 1, v, S => ∃ a ∈ S, v = .ref a ∧ ∃ part : K → Set Addr,
    (∀ k, part k ⊆ S \ {a}) ∧ (∀ k k', k ≠ k' → Disjoint (part k) (part k')) ∧
      ∀ k w, (deref h a).get? k = some w → Owns P h levels w (part k)

theorem Owns.mono (hv : Owns P h levels v S) (hST : S ⊆ T) : Owns P h levels v T := by
  cases levels with
  | zero => exact hv
  | succ levels =>
    obtain ⟨a, ha, rfl, part, hpart, hdisjoint, hitems⟩ := hv
    exact ⟨a, hST ha, rfl, part, fun k => (hpart k).trans (Set.sdiff_subset_sdiff_left hST), hdisjoint,
      hitems⟩

theorem Owns.congr (hv : Owns P h levels v S) (hagree : Agree h h' S) : Owns P h' levels v S := by
  induction levels generalizing v S with
  | zero => exact hv
  | succ levels ih =>
    obtain ⟨a, ha, rfl, part, hpart, hdisjoint, hitems⟩ := hv
    refine ⟨a, ha, rfl, part, hpart, hdisjoint, fun k w hw => ?_⟩
    rw [hagree a ha] at hw
    exact ih (hitems k w hw) (hagree.mono ((hpart k).trans Set.sdiff_subset))

theorem Owns.within (hv : Owns P h levels v S) : Within P h levels v S := by
  induction levels generalizing v S with
  | zero => exact hv
  | succ levels ih =>
    obtain ⟨a, ha, rfl, part, hpart, -, hitems⟩ := hv
    exact ⟨a, ha, rfl, fun k w hw =>
      (ih (hitems k w hw)).mono ((hpart k).trans Set.sdiff_subset)⟩

/-- A dictionary of its own. -/
theorem Owns.empty (hempty : deref h a = ∅) : Owns P h (levels + 1) (.ref a) {a} := by
  refine ⟨a, rfl, rfl, fun _ => ∅, fun _ => Set.empty_subset _, fun _ _ _ => Set.disjoint_empty _,
    fun k w hw => ?_⟩
  rw [hempty] at hw
  cases hw

/-- A program puts something at one key of an owned dictionary: it may write to what was there before
and to new addresses. The other keys show what they showed. -/
theorem Owns.put {part : K → Set Addr} {k : K} {w : Value L} {N R : Set Addr} (ha : a ∈ S)
    (hpart : ∀ k, part k ⊆ S \ {a}) (hdisjoint : ∀ k k', k ≠ k' → Disjoint (part k) (part k'))
    (hitems : ∀ k w, (deref h a).get? k = some w → Owns P h levels w (part k))
    (hitem : (deref h' a).get? k = some w) (hw : Owns P h' levels w R)
    (hothers : ∀ k' ≠ k, (deref h' a).get? k' = (deref h a).get? k') (hR : R ⊆ part k ∪ N)
    (hnew : Disjoint S N) (hagree : Agree h h' (S \ ({a} ∪ part k))) :
    Owns P h' (levels + 1) (.ref a) (S ∪ N) ∧
      ∀ k' ≠ k, ∀ path, lookup h' (.ref a) (k' :: path) = lookup h (.ref a) (k' :: path) := by
  have hsub : ∀ k, part k ⊆ S := fun k => (hpart k).trans Set.sdiff_subset
  have hagree' : ∀ k' ≠ k, Agree h h' (part k') := by
    intro k' hk'
    refine hagree.mono fun x hx => ⟨hsub k' hx, ?_⟩
    rintro (rfl | hxk)
    · exact (hpart k' hx).2 rfl
    · exact Set.disjoint_left.mp (hdisjoint k' k hk') hx hxk
  have hitems' : ∀ k' ≠ k, ∀ w', (deref h' a).get? k' = some w' → Owns P h levels w' (part k') :=
    fun k' hk' w' hw' => hitems k' w' ((hothers k' hk').symm.trans hw')
  constructor
  · refine ⟨a, .inl ha, rfl, Function.update part k R, fun k' => ?_, fun k₁ k₂ hne => ?_,
      fun k' w' hw' => ?_⟩
    · by_cases hk' : k' = k
      · rw [hk', Function.update_self]
        intro x hx
        obtain hxk | hxN := hR hx
        · exact ⟨.inl (hsub k hxk), (hpart k hxk).2⟩
        · exact ⟨.inr hxN, fun hxa => Set.disjoint_left.mp hnew (hxa ▸ ha) hxN⟩
      · rw [Function.update_of_ne hk']
        exact (hpart k').trans (Set.sdiff_subset_sdiff_left Set.subset_union_left)
    · -- what is put is apart from the other parts
      have hapart : ∀ k' ≠ k, Disjoint R (part k') := fun k' hk' =>
        (Disjoint.sup_left (hdisjoint k k' hk'.symm)
          (hnew.symm.mono_right (hsub k'))).mono_left hR
      by_cases h₁ : k₁ = k
      · rw [h₁, Function.update_self, Function.update_of_ne (h₁ ▸ hne.symm)]
        exact hapart k₂ (h₁ ▸ hne.symm)
      · rw [Function.update_of_ne h₁]
        by_cases h₂ : k₂ = k
        · rw [h₂, Function.update_self]
          exact (hapart k₁ h₁).symm
        · rw [Function.update_of_ne h₂]
          exact hdisjoint k₁ k₂ hne
    · by_cases hk' : k' = k
      · rw [hk', hitem] at hw'
        cases hw'
        rw [hk', Function.update_self]
        exact hw
      · rw [Function.update_of_ne hk']
        exact (hitems' k' hk' w' hw').congr (hagree' k' hk')
  · intro k' hk' path
    rw [lookup_ref, lookup_ref, hothers k' hk']
    cases hw' : (deref h a).get? k' with
    | none => rfl
    | some w' => exact (hitems k' w' hw').within.lookup_congr (hagree' k' hk') path

end Py.Objects
