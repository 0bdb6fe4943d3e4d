import Wca.Scheduler.FitRefinement

/-!
# Fractions of a capacity

Nodes are compared by the fraction of each dimension that is taken. For that, reads and writes are
replaced by one number: the reads, and the writes in units of reads. The check that a task fits
takes the two apart, and a node that has no bandwidth left has half of the flat bandwidth taken.
-/

namespace Wca.Scheduler

open Py ResourceType Resources

namespace Resources

/-- Reads and writes in one number. -/
def flat (ratio : ℚ) (r : Resources) : ℚ := r.amount MEMBW_READ + ratio * r.amount MEMBW_WRITE

/-- Resources with the flat bandwidth in place of reads and writes. -/
def flattened (ratio : Option ℚ) (r : Resources) : Resources :=
  match ratio with
  | none => r
  | some ratio =>
    if MEMBW_READ ∈ r then
      Dict.set ((r.erase MEMBW_READ).erase MEMBW_WRITE) MEMBW_FLAT (r.flat ratio)
    else r

variable {r a b fraction : Resources} {ratio : ℚ} {d : ResourceType}

theorem mem_erase {k : ResourceType} : d ∈ r.erase k ↔ d ≠ k ∧ d ∈ r := by
  rw [Dict.mem_def, Dict.mem_def, Dict.mem_keys_iff_get?, Dict.mem_keys_iff_get?, Dict.get?_erase]
  by_cases h : d = k <;> simp [h]

theorem amount_erase_of_ne {k : ResourceType} (h : d ≠ k) : amount (r.erase k) d = r.amount d := by
  rw [amount, amount, Dict.get?_erase, if_neg h]

@[simp] theorem flattened_none : r.flattened none = r := rfl

theorem flattened_of_not_mem (h : MEMBW_READ ∉ r) (ratio : Option ℚ) : r.flattened ratio = r := by
  cases ratio with
  | none => rfl
  | some ratio => exact if_neg h

theorem mem_flattened (h : MEMBW_READ ∈ r) :
    d ∈ r.flattened (some ratio) ↔ d = MEMBW_FLAT ∨ (d ≠ MEMBW_READ ∧ d ≠ MEMBW_WRITE ∧ d ∈ r) := by
  rw [flattened, if_pos h, Dict.mem_def, Dict.mem_keys_set, ← Dict.mem_def, mem_erase, mem_erase]
  exact or_congr_right ⟨fun hd => ⟨hd.2.1, hd.1, hd.2.2⟩, fun hd => ⟨hd.2.1, hd.1, hd.2.2⟩⟩

theorem amount_flattened_flat (h : MEMBW_READ ∈ r) :
    (r.flattened (some ratio)).amount MEMBW_FLAT = r.flat ratio := by
  rw [flattened, if_pos h, amount_set, if_pos rfl]

theorem amount_flattened_of_ne (hread : d ≠ MEMBW_READ) (hwrite : d ≠ MEMBW_WRITE)
    (hflat : d ≠ MEMBW_FLAT) (ratio : Option ℚ) : (r.flattened ratio).amount d = r.amount d := by
  cases ratio with
  | none => rfl
  | some ratio =>
    unfold flattened
    dsimp only
    split
    · rw [amount_set, if_neg hflat, amount_erase_of_ne hwrite, amount_erase_of_ne hread]
    · rfl

theorem SameKeys.flattened (h : a.SameKeys b) (ratio : Option ℚ) :
    (a.flattened ratio).SameKeys (b.flattened ratio) := by
  cases ratio with
  | none => exact h
  | some ratio =>
    by_cases hread : MEMBW_READ ∈ a
    · refine sameKeys_of_iff fun d => ?_
      rw [mem_flattened hread, mem_flattened ((h.iff _).mp hread), h.iff d]
    · rw [flattened_of_not_mem hread, flattened_of_not_mem (mt (h.iff _).mpr hread)]
      exact h

/-- What is taken of each dimension. -/
def fractions (ratio : Option ℚ) (a b : Resources) : Resources :=
  (a.flattened ratio).map fun d v => v / (b.flattened ratio).amount d

theorem amount_fractions {ratio : Option ℚ} (h : d ∈ a.flattened ratio) :
    (fractions ratio a b).amount d = (a.flattened ratio).amount d / (b.flattened ratio).amount d :=
  amount_map h

end Resources

theorem flatMembwReadWrite_ok_iff {a r : Resources} {ratio : ℚ} (ha : MembwPaired a) :
    flatMembwReadWrite a ratio = .ok r ↔ r = a.flattened (some ratio) := by
  unfold flatMembwReadWrite flattened
  dsimp only
  split
  · next h =>
    rw [except_seq_ok_iff, assert_ok_iff, and_iff_right (ha.mp h)]
    exact ⟨fun hr => (Except.ok.inj hr).symm, fun hr => congrArg Except.ok hr.symm⟩
  · exact ⟨fun hr => (Except.ok.inj hr).symm, fun hr => congrArg Except.ok hr.symm⟩

/-- Each amount is divided by that of the other resources. -/
theorem comprehendM_truediv_ok_iff {a b fraction : Resources} :
    (a.comprehendM fun d v => truediv v (b.amount d)) = .ok fraction ↔
      (∀ d ∈ a, b.amount d ≠ 0) ∧ fraction = a.map fun d v => v / b.amount d := by
  constructor
  · intro h
    have hne : ∀ d ∈ a, b.amount d ≠ 0 := by
      intro d hd
      obtain ⟨w, hw, -⟩ := (Dict.comprehendM_ok h).2 d _ (mem_items_amount hd)
      exact (truediv_ok_iff.mp hw).1
    refine ⟨hne, Dict.ext ?_⟩
    rw [Dict.items_map]
    refine List.forall₂_eq_eq_eq ▸ List.forall₂_map_right_iff.mpr ?_
    refine (Dict.comprehendM_ok_iff.mp h).flip.imp ?_
    rintro q p ⟨hq, hkey⟩
    exact Prod.ext hkey (truediv_ok_iff.mp hq).2
  · rintro ⟨hne, rfl⟩
    rw [Dict.comprehendM_ok_iff, Dict.items_map, List.forall₂_map_right_iff]
    refine List.forall₂_same.mpr fun p hp => ⟨?_, rfl⟩
    exact truediv_ok_iff.mpr ⟨hne p.1 (Dict.mem_keys.mpr ⟨p.2, hp⟩), rfl⟩

/-- The division goes through for equal dimensions and where there is something to take of each. -/
theorem divideResources_ok_iff {a b fraction : Resources} {ratio : Option ℚ} (ha : MembwPaired a) :
    divideResources a b ratio = .ok fraction ↔ a.SameKeys b ∧
      (∀ d ∈ a.flattened ratio, (b.flattened ratio).amount d ≠ 0) ∧ fraction = fractions ratio a b := by
  rw [divideResources, except_seq_ok_iff, assert_ok_iff]
  refine and_congr_right fun hkeys => ?_
  cases ratio with
  | none => exact comprehendM_truediv_ok_iff
  | some ratio =>
    have hb : MembwPaired b := (hkeys.iff _).symm.trans (ha.trans (hkeys.iff _))
    simp only [(flatMembwReadWrite_ok_iff ha).mpr rfl, (flatMembwReadWrite_ok_iff hb).mpr rfl,
      except_ok_bind]
    exact comprehendM_truediv_ok_iff

/-! ## The flat fraction and the coupled check -/

section Coupled

variable {capacity load : Resources}

theorem membwPaired_of_hasMembw (h : capacity.HasMembw) : MembwPaired capacity :=
  ⟨fun _ => h.2, fun _ => h.1⟩

theorem ratio_of_positive (h : capacity.HasMembw) (hwrite : 0 < capacity.amount MEMBW_WRITE) :
    calculateReadWriteRatio capacity =
      .ok (some (capacity.amount MEMBW_READ / capacity.amount MEMBW_WRITE)) :=
  (calculateReadWriteRatio_ok_iff (membwPaired_of_hasMembw h)).mpr (.inl ⟨h, ne_of_gt hwrite, rfl⟩)

/-- The flat bandwidth of a capacity is twice its reads. -/
theorem flat_capacity (hwrite : 0 < capacity.amount MEMBW_WRITE) :
    capacity.flat (capacity.amount MEMBW_READ / capacity.amount MEMBW_WRITE) =
      2 * capacity.amount MEMBW_READ := by
  rw [flat, div_mul_cancel₀ _ (ne_of_gt hwrite), two_mul]

/-- The reads that a load leaves, by its flat bandwidth. -/
theorem free_read {ratio : ℚ} (h : load.HasMembw) :
    capacity.amount MEMBW_READ - demand ratio load MEMBW_READ =
      capacity.amount MEMBW_READ - load.flat ratio := by
  rw [demand_read h, flat, mul_comm]

/-- The writes that a load leaves are the reads that it leaves, in units of writes. -/
theorem free_write (h : load.HasMembw) (hread : 0 < capacity.amount MEMBW_READ)
    (hwrite : 0 < capacity.amount MEMBW_WRITE) :
    capacity.amount MEMBW_WRITE -
        demand (capacity.amount MEMBW_READ / capacity.amount MEMBW_WRITE) load MEMBW_WRITE =
      (capacity.amount MEMBW_READ -
          load.flat (capacity.amount MEMBW_READ / capacity.amount MEMBW_WRITE)) *
        (capacity.amount MEMBW_WRITE / capacity.amount MEMBW_READ) := by
  have hread := ne_of_gt hread
  have hwrite := ne_of_gt hwrite
  rw [demand_write h, flat]
  field_simp
  ring

/-- At most half of the flat bandwidth is taken just where neither reads nor writes are missing, and
half of it where none of either is left. -/
theorem flatFraction_coupled (hboth : capacity.HasMembw) (hread : 0 < capacity.amount MEMBW_READ)
    (hwrite : 0 < capacity.amount MEMBW_WRITE) : ∃ ratio,
      ratio = capacity.amount MEMBW_READ / capacity.amount MEMBW_WRITE ∧
      calculateReadWriteRatio capacity = .ok (some ratio) ∧
      (∀ fraction answer, divideResources load capacity (some ratio) = .ok fraction →
        enoughResourcesOnNode capacity load (some ratio) = .ok answer →
        (fraction.amount MEMBW_FLAT ≤ 1 / 2 ↔
          MEMBW_READ ∉ answer.brokenCapacities ∧ MEMBW_WRITE ∉ answer.brokenCapacities) ∧
        (fraction.amount MEMBW_FLAT = 1 / 2 ↔
          answer.free.amount MEMBW_READ = 0 ∧ answer.free.amount MEMBW_WRITE = 0)) ∧
      (load.SameKeys capacity → (∀ d ∈ capacity, capacity.amount d ≠ 0) → ∃ fraction answer,
        divideResources load capacity (some ratio) = .ok fraction ∧
        enoughResourcesOnNode capacity load (some ratio) = .ok answer) := by
  refine ⟨_, rfl, ratio_of_positive hboth hwrite, fun fraction answer hdivide hanswer => ?_,
    fun hkeys hne => ?_⟩
  · obtain ⟨hsame, hfree, hbroken, -⟩ := enoughResourcesOnNode_ok (membwPaired_of_hasMembw hboth)
      (ratio_of_positive hboth hwrite) hanswer
    have hload : load.HasMembw := hsame.hasMembw.mp hboth
    obtain ⟨-, -, rfl⟩ := (divideResources_ok_iff (membwPaired_of_hasMembw hload)).mp hdivide
    have hfraction : amount (fractions
        (some (capacity.amount MEMBW_READ / capacity.amount MEMBW_WRITE)) load capacity) MEMBW_FLAT =
          load.flat (capacity.amount MEMBW_READ / capacity.amount MEMBW_WRITE) /
            (2 * capacity.amount MEMBW_READ) := by
      rw [amount_fractions ((mem_flattened hload.1).mpr (.inl rfl)), amount_flattened_flat hload.1,
        amount_flattened_flat hboth.1, flat_capacity hwrite]
    have hleft : answer.free.amount MEMBW_READ = capacity.amount MEMBW_READ -
        load.flat (capacity.amount MEMBW_READ / capacity.amount MEMBW_WRITE) := by
      rw [hfree, amount_map hboth.1]
      exact free_read hload
    have hleftWrite : answer.free.amount MEMBW_WRITE = answer.free.amount MEMBW_READ *
        (capacity.amount MEMBW_WRITE / capacity.amount MEMBW_READ) := by
      rw [hleft, hfree, amount_map hboth.2]
      exact free_write hload hread hwrite
    have hmissing : ∀ d ∈ capacity, d ∉ answer.brokenCapacities ↔ 0 ≤ answer.free.amount d := by
      intro d hd
      rw [hbroken, Dict.mem_def, Dict.mem_keys]
      simp only [mem_brokenCapacities, not_exists, not_and]
      constructor
      · intro h
        by_contra hneg
        exact h _ (hfree ▸ mem_map.mpr hd) (not_le.mp hneg) rfl
      · exact fun h _ _ hneg => absurd h (not_le.mpr hneg)
    have hscale : 0 < capacity.amount MEMBW_WRITE / capacity.amount MEMBW_READ := div_pos hwrite hread
    have htwice : 0 < 2 * capacity.amount MEMBW_READ := by linarith
    rw [hmissing _ hboth.1, hmissing _ hboth.2, hleftWrite, hfraction, div_le_iff₀ htwice,
      div_eq_iff (ne_of_gt htwice)]
    constructor
    · rw [mul_nonneg_iff_of_pos_right hscale, and_self, hleft]
      constructor <;> intro h <;> linarith
    · rw [mul_eq_zero, or_iff_left (ne_of_gt hscale), and_self, hleft]
      constructor <;> intro h <;> linarith
  · have hload : load.HasMembw := hkeys.symm.hasMembw.mp hboth
    have hflat : ∀ d ∈ load.flattened (some (capacity.amount MEMBW_READ / capacity.amount MEMBW_WRITE)),
        (capacity.flattened (some (capacity.amount MEMBW_READ / capacity.amount MEMBW_WRITE))).amount d
          ≠ 0 := by
      intro d hd
      by_cases hdFlat : d = MEMBW_FLAT
      · rw [hdFlat, amount_flattened_flat hboth.1, flat_capacity hwrite]
        linarith
      · obtain ⟨hdRead, hdWrite, hd⟩ := ((mem_flattened hload.1).mp hd).resolve_left hdFlat
        rw [amount_flattened_of_ne hdRead hdWrite hdFlat]
        exact hne d ((hkeys.iff d).mp hd)
    obtain ⟨free, hfree⟩ : ∃ free, subtractResources capacity load
        (some (capacity.amount MEMBW_READ / capacity.amount MEMBW_WRITE)) = .ok free :=
      ⟨_, (subtractResources_some_iff (membwPaired_of_hasMembw hboth)).mpr
        ⟨hkeys.symm, fun _ => ne_of_gt (div_pos hread hwrite), rfl⟩⟩
    exact ⟨_, _, (divideResources_ok_iff (membwPaired_of_hasMembw hload)).mpr ⟨hkeys, hflat, rfl⟩,
      except_bind_ok_iff.mpr ⟨free, hfree, rfl⟩⟩

end Coupled

/-! ## The ratio of a node with something of everything -/

/-- The ratio of reads to writes, where they are dimensions. -/
def ratioOf (r : Resources) : Option ℚ :=
  if MEMBW_READ ∈ r then some (r.amount MEMBW_READ / r.amount MEMBW_WRITE) else none

/-- There is something of every dimension of a node once reads and writes are made one. -/
theorem flattened_pos {r : Resources} (hpos : ∀ d ∈ r, 0 < r.amount d) (hpaired : MembwPaired r)
    {d : ResourceType} (hd : d ∈ r.flattened (ratioOf r)) :
    0 < (r.flattened (ratioOf r)).amount d := by
  unfold ratioOf at hd ⊢
  by_cases hread : MEMBW_READ ∈ r
  · rw [if_pos hread] at hd ⊢
    by_cases hflat : d = MEMBW_FLAT
    · rw [hflat, amount_flattened_flat hread, flat_capacity (hpos _ (hpaired.mp hread))]
      linarith [hpos _ hread]
    · obtain ⟨hdRead, hdWrite, hd⟩ := ((mem_flattened hread).mp hd).resolve_left hflat
      rw [amount_flattened_of_ne hdRead hdWrite hflat]
      exact hpos d hd
  · rw [if_neg hread] at hd ⊢
    exact hpos d hd

theorem ratio_ok_of_positive {r : Resources} (hpos : ∀ d ∈ r, 0 < r.amount d)
    (hpaired : MembwPaired r) : calculateReadWriteRatio r = .ok (ratioOf r) := by
  rw [calculateReadWriteRatio_ok_iff hpaired, ratioOf]
  by_cases hread : MEMBW_READ ∈ r
  · rw [if_pos hread]
    exact .inl ⟨⟨hread, hpaired.mp hread⟩, ne_of_gt (hpos _ (hpaired.mp hread)), rfl⟩
  · rw [if_neg hread]
    exact .inr ⟨fun h => hread h.1, rfl⟩

theorem isSome_ratioOf {r : Resources} : (ratioOf r).isSome ↔ MEMBW_READ ∈ r := by
  unfold ratioOf
  split <;> simp_all

/-! A node with 8 to read and 2 to write, and loads of it. -/

def buildResources (cpu mem membwRead membwWrite : ℚ) : Resources :=
  .ofItems [(CPU, cpu), (MEM, mem), (MEMBW_READ, membwRead), (MEMBW_WRITE, membwWrite)]

theorem flatFraction_coupled_full : ∃ ratio,
    ratio = (buildResources 2 2 8 2).amount MEMBW_READ / (buildResources 2 2 8 2).amount MEMBW_WRITE ∧
      calculateReadWriteRatio (buildResources 2 2 8 2) = .ok (some ratio) ∧
      (∀ fraction answer,
        divideResources (buildResources 3 3 4 1) (buildResources 2 2 8 2) (some ratio) = .ok fraction →
        enoughResourcesOnNode (buildResources 2 2 8 2) (buildResources 3 3 4 1) (some ratio) =
          .ok answer →
        (fraction.amount MEMBW_FLAT ≤ 1 / 2 ↔
          MEMBW_READ ∉ answer.brokenCapacities ∧ MEMBW_WRITE ∉ answer.brokenCapacities) ∧
        (fraction.amount MEMBW_FLAT = 1 / 2 ↔
          answer.free.amount MEMBW_READ = 0 ∧ answer.free.amount MEMBW_WRITE = 0)) ∧
      ((buildResources 3 3 4 1).SameKeys (buildResources 2 2 8 2) →
        (∀ d ∈ buildResources 2 2 8 2, (buildResources 2 2 8 2).amount d ≠ 0) → ∃ fraction answer,
        divideResources (buildResources 3 3 4 1) (buildResources 2 2 8 2) (some ratio) = .ok fraction ∧
        enoughResourcesOnNode (buildResources 2 2 8 2) (buildResources 3 3 4 1) (some ratio) =
          .ok answer) :=
  flatFraction_coupled (by decide +kernel) (by decide +kernel) (by decide +kernel)

/-- Of a node whose bandwidth is used up half of the flat bandwidth is taken, and all of it of one
that lacks reads and writes. -/
theorem flatFraction_of_fullNode :
    calculateReadWriteRatio (buildResources 2 2 8 2) = .ok (some 4) ∧
      ((divideResources (buildResources 3 3 4 1) (buildResources 2 2 8 2) (some 4)).map fun fraction =>
        decide (fraction.amount MEMBW_FLAT = 1)) = .ok false ∧
      ((enoughResourcesOnNode (buildResources 2 2 8 2) (buildResources 3 3 4 1) (some 4)).map
        fun answer => (answer.free.amount MEMBW_READ, answer.free.amount MEMBW_WRITE)) = .ok (0, 0) ∧
      ((divideResources (buildResources 2 2 8 2) (buildResources 2 2 8 2) (some 4)).map fun fraction =>
        decide (fraction.amount MEMBW_FLAT ≤ 1)) = .ok true ∧
      ((enoughResourcesOnNode (buildResources 2 2 8 2) (buildResources 2 2 8 2) (some 4)).map
        fun answer => decide (MEMBW_READ ∈ answer.brokenCapacities)) = .ok true := by
  decide +kernel

end Wca.Scheduler
