import Wca.Allocators

/-!
# Resources of nodes and tasks

Amounts by dimension, exact rationals. Reads and writes share one memory bandwidth: with both
dimensions there, a request for one takes from the other too, by the ratio of the node's two
bandwidths. `demand` is what a request takes in a dimension, and `subtractAepAware` takes it.
-/

namespace Wca.Scheduler

open Py

inductive ResourceType where
  | MEM
  | CPU
  | MEMBW_WRITE
  | MEMBW_READ
  | WSS
  /-- only for internal use -/
  | MEMBW
  /-- only for internal use -/
  | MEMBW_FLAT
  deriving DecidableEq, Repr

open ResourceType

abbrev NodeName := String

abbrev TaskName := String

abbrev AppName := String

abbrev Resources := Dict ResourceType ℚ

namespace Resources

/-- The amount in a dimension; it is only read where the dimension was found to be there. -/
def amount (r : Resources) (d : ResourceType) : ℚ := (r.get? d).getD 0

theorem amount_of_mem {r : Resources} {d : ResourceType} {v : ℚ} (h : (d, v) ∈ r.items) :
    r.amount d = v := by
  rw [amount, Dict.get?_eq_some_iff.mpr h, Option.getD_some]

theorem amount_of_get? {r : Resources} {d : ResourceType} {v : ℚ} (h : r.get? d = some v) :
    r.amount d = v := by
  rw [amount, h, Option.getD_some]

theorem amount_of_not_mem {r : Resources} {d : ResourceType} (h : d ∉ r) : r.amount d = 0 := by
  rw [amount, Dict.get?_eq_none_iff.mpr h, Option.getD_none]

theorem mem_items_amount {r : Resources} {d : ResourceType} (h : d ∈ r) :
    (d, r.amount d) ∈ r.items := by
  obtain ⟨v, hv⟩ := Dict.mem_keys.mp h
  rw [amount_of_mem hv]
  exact hv

/-- A map of the amounts has the same dimensions. -/
theorem mem_map {r : Resources} {f : ResourceType → ℚ → ℚ} {d : ResourceType} :
    d ∈ r.map f ↔ d ∈ r := by
  rw [Dict.mem_def, Dict.mem_def, Dict.mem_keys_iff_get?, Dict.mem_keys_iff_get?, Dict.get?_map]
  cases r.get? d <;> simp

theorem amount_map {r : Resources} {f : ResourceType → ℚ → ℚ} {d : ResourceType} (h : d ∈ r) :
    amount (r.map f) d = f d (r.amount d) := by
  obtain ⟨v, hv⟩ := Dict.mem_keys_iff_get?.mp h
  rw [amount_of_get? hv, amount, Dict.get?_map, hv, Option.map_some, Option.getD_some]

/-- `set(a.keys()) == set(b.keys())`. -/
def SameKeys (a b : Resources) : Prop := (∀ d ∈ a.keys, d ∈ b) ∧ ∀ d ∈ b.keys, d ∈ a

instance (a b : Resources) : Decidable (SameKeys a b) := inferInstanceAs (Decidable (_ ∧ _))

theorem SameKeys.iff {a b : Resources} (h : SameKeys a b) (d : ResourceType) : d ∈ a ↔ d ∈ b :=
  ⟨h.1 d, h.2 d⟩

theorem SameKeys.symm {a b : Resources} (h : SameKeys a b) : SameKeys b a := ⟨h.2, h.1⟩

theorem sameKeys_of_iff {a b : Resources} (h : ∀ d, d ∈ a ↔ d ∈ b) : SameKeys a b :=
  ⟨fun d => (h d).mp, fun d => (h d).mpr⟩

theorem sameKeys_map {a : Resources} {f : ResourceType → ℚ → ℚ} : SameKeys (a.map f) a :=
  sameKeys_of_iff fun _ => mem_map

theorem SameKeys.trans {a b c : Resources} (h : SameKeys a b) (h' : SameKeys b c) : SameKeys a c :=
  sameKeys_of_iff fun d => (h.iff d).trans (h'.iff d)

/-- `a / b` of two numbers. -/
def truediv (a b : ℚ) : Except Exc ℚ :=
  if b = 0 then .error (.builtin (.ZeroDivisionError "division by zero")) else .ok (a / b)

theorem truediv_ok_iff {a b q : ℚ} : truediv a b = .ok q ↔ b ≠ 0 ∧ q = a / b := by
  unfold truediv
  split <;> simp_all [eq_comm]

/-- Reads and writes are both dimensions. -/
def HasMembw (r : Resources) : Prop := MEMBW_READ ∈ r ∧ MEMBW_WRITE ∈ r

instance (r : Resources) : Decidable r.HasMembw := inferInstanceAs (Decidable (_ ∧ _))

theorem SameKeys.hasMembw {a b : Resources} (h : SameKeys a b) : a.HasMembw ↔ b.HasMembw :=
  and_congr (h.iff _) (h.iff _)

/-- `__bool__`: nothing is missing, up to the tolerance. -/
def bool (self : Resources) : Bool := self.values.all fun val => 0 < val || |val| < 1 / 10000

/-- The loop over the dimensions other than those of the memory bandwidth. -/
def subtractOthers (self b : Resources) : Resources :=
  self.map fun key v => if key = MEMBW_READ ∨ key = MEMBW_WRITE then v else v - b.amount key

/-- `subtract_aep_aware`: every dimension by itself, but reads and writes mirror each other. -/
def subtractAepAware (self b : Resources) (membwReadWriteRatio : ℚ) : Except Exc Resources := do
  assert (self.SameKeys b) "two different set of keys for resources"
  let x := self.subtractOthers b
  if x.HasMembw then
    let readInWrites ← truediv (b.amount MEMBW_READ) membwReadWriteRatio
    let read := x.amount MEMBW_READ - b.amount MEMBW_READ - b.amount MEMBW_WRITE * membwReadWriteRatio
    let write := x.amount MEMBW_WRITE - b.amount MEMBW_WRITE - readInWrites
    pure ((x.set MEMBW_READ read).set MEMBW_WRITE write)
  else pure x

/-- What a request takes from a node in a dimension. -/
def demand (ratio : ℚ) (b : Resources) (d : ResourceType) : ℚ :=
  if d = MEMBW_READ ∨ d = MEMBW_WRITE then
    if b.HasMembw then
      if d = MEMBW_READ then b.amount MEMBW_READ + b.amount MEMBW_WRITE * ratio
      else b.amount MEMBW_WRITE + b.amount MEMBW_READ / ratio
    else 0
  else b.amount d

theorem demand_of_ne {ratio : ℚ} {b : Resources} {d : ResourceType} (hr : d ≠ MEMBW_READ)
    (hw : d ≠ MEMBW_WRITE) : demand ratio b d = b.amount d := by
  rw [demand, if_neg (not_or.mpr ⟨hr, hw⟩)]

theorem demand_read {ratio : ℚ} {b : Resources} (h : b.HasMembw) :
    demand ratio b MEMBW_READ = b.amount MEMBW_READ + b.amount MEMBW_WRITE * ratio := by
  rw [demand, if_pos (.inl rfl), if_pos h, if_pos rfl]

theorem demand_write {ratio : ℚ} {b : Resources} (h : b.HasMembw) :
    demand ratio b MEMBW_WRITE = b.amount MEMBW_WRITE + b.amount MEMBW_READ / ratio := by
  rw [demand, if_pos (.inr rfl), if_pos h, if_neg (by decide)]

theorem hasMembw_subtractOthers {self b : Resources} :
    (self.subtractOthers b).HasMembw ↔ self.HasMembw := sameKeys_map.hasMembw

theorem amount_subtractOthers {self b : Resources} {d : ResourceType} (h : d ∈ self)
    (hd : d = MEMBW_READ ∨ d = MEMBW_WRITE) : (self.subtractOthers b).amount d = self.amount d := by
  rw [subtractOthers, amount_map h, if_pos hd]

/-- Once reads and writes are set, the demand was taken in every dimension. -/
theorem set_read_write {self b : Resources} {ratio : ℚ} (h : self.HasMembw) :
    ((self.subtractOthers b).set MEMBW_READ (self.amount MEMBW_READ - demand ratio b MEMBW_READ)).set
        MEMBW_WRITE (self.amount MEMBW_WRITE - demand ratio b MEMBW_WRITE) =
      self.map fun d v => v - demand ratio b d := by
  obtain ⟨hr, hw⟩ := hasMembw_subtractOthers.mpr h
  refine Dict.ext ?_
  rw [Dict.items_set_of_mem (Dict.mem_keys_set.mpr (.inr hw)), Dict.items_set_of_mem hr,
    List.map_map, subtractOthers, Dict.items_map, Dict.items_map, List.map_map]
  refine List.map_congr_left fun p hp => ?_
  obtain ⟨d, v⟩ := p
  have hv : self.amount d = v := amount_of_mem hp
  by_cases hdr : d = MEMBW_READ
  · subst hdr
    simp [hv]
  · by_cases hdw : d = MEMBW_WRITE
    · subst hdw
      simp [hv]
    · simp [demand_of_ne hdr hdw, hdr, hdw]

theorem subtractOthers_eq {self b : Resources} {ratio : ℚ} (h : ¬b.HasMembw) :
    self.subtractOthers b = self.map fun d v => v - demand ratio b d := by
  refine congrArg (fun f => Dict.map f self) (funext₂ fun d v => ?_)
  rw [demand, if_neg h]
  split
  · exact (sub_zero v).symm
  · rfl

/-- The subtraction goes through for equal dimensions and a ratio that is not zero, and takes the
demand of the request in every dimension. -/
theorem subtractAepAware_ok_iff {self b r : Resources} {ratio : ℚ} :
    subtractAepAware self b ratio = .ok r ↔
      self.SameKeys b ∧ (self.HasMembw → ratio ≠ 0) ∧
        r = self.map fun d v => v - demand ratio b d := by
  rw [subtractAepAware, except_seq_ok_iff, assert_ok_iff]
  refine and_congr_right fun hkeys => ?_
  by_cases h : self.HasMembw
  · have hb : b.HasMembw := hkeys.hasMembw.mp h
    rw [if_pos (hasMembw_subtractOthers.mpr h), except_bind_ok_iff, ← set_read_write h,
      demand_read hb, demand_write hb, amount_subtractOthers h.1 (.inl rfl),
      amount_subtractOthers h.2 (.inr rfl), ← sub_sub, ← sub_sub]
    constructor
    · rintro ⟨q, hq, hr⟩
      obtain ⟨hne, rfl⟩ := truediv_ok_iff.mp hq
      exact ⟨fun _ => hne, (Except.ok.inj hr).symm⟩
    · rintro ⟨hne, rfl⟩
      exact ⟨_, truediv_ok_iff.mpr ⟨hne h, rfl⟩, rfl⟩
  · rw [if_neg (mt hasMembw_subtractOthers.mp h), subtractOthers_eq (mt hkeys.hasMembw.mpr h)]
    exact ⟨fun hr => ⟨fun h' => absurd h' h, (Except.ok.inj hr).symm⟩, fun hr => congrArg _ hr.2.symm⟩

/-- No amount is negative. -/
def NonNeg (r : Resources) : Prop := ∀ v ∈ r.values, 0 ≤ v

instance (r : Resources) : Decidable r.NonNeg := inferInstanceAs (Decidable (∀ v ∈ r.values, 0 ≤ v))

theorem NonNeg.amount {r : Resources} (h : r.NonNeg) (d : ResourceType) : 0 ≤ r.amount d := by
  by_cases hd : d ∈ r
  · exact h _ (Dict.mem_values.mpr ⟨d, mem_items_amount hd⟩)
  · rw [amount_of_not_mem hd]

/-- A request without negative amounts takes nothing negative. -/
theorem NonNeg.demand {r : Resources} {ratio : ℚ} (h : r.NonNeg) (hratio : 0 ≤ ratio)
    (d : ResourceType) : 0 ≤ demand ratio r d := by
  have hread := h.amount MEMBW_READ
  have hwrite := h.amount MEMBW_WRITE
  rw [Resources.demand]
  split
  · split
    · split
      · exact add_nonneg hread (mul_nonneg hwrite hratio)
      · exact add_nonneg hwrite (div_nonneg hread hratio)
    · exact le_refl 0
  · exact h.amount d

theorem bool_iff {r : Resources} : r.bool = true ↔ ∀ d ∈ r, -(1 / 10000) < r.amount d := by
  have hval : ∀ val : ℚ, (0 < val ∨ |val| < 1 / 10000) ↔ -(1 / 10000) < val := by
    intro val
    rw [abs_lt]
    constructor
    · rintro (h | h)
      · linarith
      · exact h.1
    · intro h
      rcases lt_or_ge 0 val with hpos | hneg
      · exact .inl hpos
      · exact .inr ⟨h, by linarith⟩
  simp only [bool, List.all_eq_true, Bool.or_eq_true, decide_eq_true_eq, hval]
  constructor
  · intro h d hd
    exact h _ (Dict.mem_values.mpr ⟨d, mem_items_amount hd⟩)
  · intro h v hv
    obtain ⟨d, hd⟩ := Dict.mem_values.mp hv
    have := h d (Dict.mem_keys.mpr ⟨v, hd⟩)
    rwa [amount_of_mem hd] at this

end Resources

end Wca.Scheduler
