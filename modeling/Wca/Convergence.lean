import Wca.Changeset
import Wca.ListFormat
import Mathlib.Algebra.Order.Floor.Ring
import Mathlib.Tactic.FieldSimp

/-!
# Requests read back

A request for quota, shares and cpusets is performed, the allocations of the container are read
back, and the request is compared with them. Rounding stays under the sensitivity of the
comparison. The one thing that does not settle is a quota so small that the minimum of the kernel
is more than the sensitivity above it (`Clamped`).
-/

namespace Wca

open Py

/-! ## Rounding -/

/-- The configured period. -/
def AllocationConfiguration.period (c : AllocationConfiguration) : ℚ :=
  match c.cpuQuotaPeriod.val with
  | .rat p => p
  | _ => 0

/-- The quota is under the minimum of the kernel, and by more than the sensitivity. -/
def Clamped (cgroup : Cgroup) (quota : ℚ) : Prop :=
  let wholeQuota := cgroup.allocationConfiguration.period * cgroup.platform.cpus
  quota * wholeQuota < QUOTA_MINIMUM_VALUE ∧
    VALUE_CHANGE_SENSITIVITY < QUOTA_MINIMUM_VALUE / wholeQuota - quota

/-- Close numbers of a normal size are those within the sensitivity. -/
theorem isclose_iff_abs_le_sensitivity {x y : ℚ} (hx : |x| ≤ 1000000) (hy : |y| ≤ 1000000) :
    Flt.isclose (.rat x) (.rat y) VALUE_CHANGE_SENSITIVITY = true ↔
      |y - x| ≤ VALUE_CHANGE_SENSITIVITY := by
  have hrel : ∀ z : ℚ, |z| ≤ 1000000 → |Flt.relTol * z| ≤ VALUE_CHANGE_SENSITIVITY := by
    intro z hz
    rw [abs_mul, Flt.relTol, VALUE_CHANGE_SENSITIVITY, abs_of_pos (by norm_num : (0 : ℚ) < _)]
    linarith
  exact Flt.isclose_iff_abs_le (by norm_num [VALUE_CHANGE_SENSITIVITY]) (hrel x hx) (hrel y hy)

/-- The number that is written for a fraction `x` of `m`. -/
def written (minimum : ℤ) (x m : ℚ) : ℤ := if ⌊x * m⌋ < minimum then minimum else ⌊x * m⌋

/-- What is read back for a quota `x` below 1, with the whole quota `m`. -/
theorem abs_quota_sub_le_iff {x m : ℚ} (hm : 1000 ≤ m) :
    |(written QUOTA_MINIMUM_VALUE x m : ℚ) / m - x| ≤ VALUE_CHANGE_SENSITIVITY ↔
      ¬ (x * m < QUOTA_MINIMUM_VALUE ∧
        VALUE_CHANGE_SENSITIVITY < QUOTA_MINIMUM_VALUE / m - x) := by
  have hmin : (QUOTA_MINIMUM_VALUE : ℚ) = 1000 := rfl
  rw [hmin]
  set quota := written QUOTA_MINIMUM_VALUE x m with hquota
  unfold written at hquota
  have hm0 : 0 < m := by linarith
  have hiff : ⌊x * m⌋ < QUOTA_MINIMUM_VALUE ↔ x * m < 1000 := by
    rw [Int.floor_lt, hmin]
  by_cases h : x * m < 1000
  · have hq : (quota : ℚ) = 1000 := by rw [hquota, if_pos (hiff.mpr h), hmin]
    have hx : x < 1000 / m := (lt_div_iff₀ hm0).mpr h
    rw [hq, abs_of_pos (by linarith), not_and, not_lt]
    exact ⟨fun hle _ => hle, fun hle => hle h⟩
  · have hq : (quota : ℚ) = ⌊x * m⌋ := by rw [hquota, if_neg (mt hiff.mp h)]
    have hlo : x - 1 / 1000 ≤ quota / m := by
      rw [le_div_iff₀ hm0, hq]
      have := Int.lt_floor_add_one (x * m)
      nlinarith
    have hhi : (quota : ℚ) / m ≤ x := by
      rw [div_le_iff₀ hm0, hq]
      exact Int.floor_le (x * m)
    constructor
    · exact fun _ hc => h hc.1
    · intro _
      rw [abs_le, VALUE_CHANGE_SENSITIVITY]
      constructor <;> linarith

/-- A quota up to 1 is read back as one. -/
theorem abs_quota_le {x m : ℚ} (h0 : 0 ≤ x) (h1 : x ≤ 1) (hm : 1000 ≤ m) :
    |(written QUOTA_MINIMUM_VALUE x m : ℚ) / m| ≤ 1 := by
  have hm0 : 0 < m := by linarith
  have hmin : QUOTA_MINIMUM_VALUE = 1000 := rfl
  have hfl : (⌊x * m⌋ : ℚ) ≤ x * m := Int.floor_le _
  have hnn : 0 ≤ ⌊x * m⌋ := Int.floor_nonneg.mpr (by positivity)
  unfold written
  split_ifs
  · rw [hmin, abs_of_nonneg (by positivity), div_le_one hm0]
    exact_mod_cast hm
  · rw [abs_of_nonneg (by positivity), div_le_one hm0]
    nlinarith

/-- What is read back for shares `x` with the unit `m`. -/
theorem abs_shares_sub_le {x m : ℚ} (hx : 0 ≤ x) (hm : 1000 ≤ m) :
    |(written MIN_SHARES x m : ℚ) / m - x| ≤ VALUE_CHANGE_SENSITIVITY := by
  set shares := written MIN_SHARES x m with hshares
  unfold written at hshares
  have hm0 : 0 < m := by linarith
  have hfl : (⌊x * m⌋ : ℚ) ≤ x * m := Int.floor_le _
  have hlt := Int.lt_floor_add_one (x * m)
  have hlo : (⌊x * m⌋ : ℚ) ≤ shares := by
    have : ⌊x * m⌋ ≤ shares := by
      rw [hshares]
      split_ifs <;> omega
    exact_mod_cast this
  have hhi : (shares : ℚ) ≤ x * m + 2 := by
    have : shares ≤ ⌊x * m⌋ + 2 := by
      have h0 : 0 ≤ ⌊x * m⌋ := Int.floor_nonneg.mpr (by positivity)
      have h2 : MIN_SHARES = 2 := rfl
      rw [hshares]
      split_ifs <;> omega
    have : (shares : ℚ) ≤ ⌊x * m⌋ + 2 := by exact_mod_cast this
    linarith
  rw [abs_le, VALUE_CHANGE_SENSITIVITY]
  constructor
  · have : x - 1 / 1000 ≤ shares / m := by
      rw [le_div_iff₀ hm0]
      nlinarith
    linarith
  · have : (shares : ℚ) / m ≤ x + 2 / 1000 := by
      rw [div_le_iff₀ hm0]
      nlinarith
    linarith

/-! ## What an action leaves in the files -/

/-- The content of the files that allocations of a type are kept in. -/
def view : AllocationType → CgroupFiles → ℤ × ℤ × String
  | .QUOTA, f => (f.cpuQuota, f.cpuPeriod, "")
  | .SHARES, f => (f.cpuShares, 0, "")
  | .CPUSET_CPUS, f => (0, 0, f.cpusetCpus)
  | .CPUSET_MEMS, f => (0, 0, f.cpusetMems)
  | .CPUSET_MEMORY_MIGRATE, f => (f.memoryMigrate, 0, "")
  | .RDT, _ | .MIGRATE_PAGES, _ => (0, 0, "")

/-- What is in the files of a type in a cgroup. -/
def viewAt (t : AllocationType) (path : String) (c : Cgroups) : Option (ℤ × ℤ × String) :=
  (c.get? path).map (view t)

/-- The files of all other types are as they were. -/
def OnlyType (t : AllocationType) (c c' : Cgroups) : Prop :=
  ∀ t', t' ≠ t → ∀ path, viewAt t' path c' = viewAt t' path c

theorem OnlyType.refl (t : AllocationType) (c : Cgroups) : OnlyType t c c := fun _ _ _ => rfl

theorem OnlyType.trans {t : AllocationType} {c c' c'' : Cgroups} (h : OnlyType t c c')
    (h' : OnlyType t c' c'') : OnlyType t c c'' := fun t' ht path =>
  (h' t' ht path).trans (h t' ht path)

/-- The files of one cgroup are replaced. -/
structure Replaced (path : String) (f f' : CgroupFiles) (c c' : Cgroups) : Prop where
  before : c.get? path = some f
  after : c'.get? path = some f'
  other : ∀ p, p ≠ path → c'.get? p = c.get? p

theorem Replaced.set {path : String} {f f' : CgroupFiles} {c : Cgroups} (h : c.get? path = some f) :
    Replaced path f f' c (c.set path f') :=
  ⟨h, Dict.get?_set_self, fun _ hp => Dict.get?_set_of_ne hp⟩

theorem Replaced.trans {path : String} {f f' f'' : CgroupFiles} {c c' c'' : Cgroups}
    (h : Replaced path f f' c c') (h' : Replaced path f' f'' c' c'') :
    Replaced path f f'' c c'' :=
  ⟨h.before, h'.after, fun p hp => (h'.other p hp).trans (h.other p hp)⟩

theorem Replaced.onlyType {path : String} {f f' : CgroupFiles} {c c' : Cgroups}
    {t : AllocationType} (h : Replaced path f f' c c') (hv : ∀ t', t' ≠ t → view t' f' = view t' f) :
    OnlyType t c c' := by
  intro t' ht p
  by_cases hp : p = path
  · rw [viewAt, viewAt, hp, h.before, h.after, Option.map_some, Option.map_some, hv t' ht]
  · rw [viewAt, viewAt, h.other p hp]

namespace Cgroup

variable {cgroup : Cgroup} {c c' : Cgroups}

theorem write_ok {resource : CgroupResource} {value : Number} {u : Unit}
    (h : (cgroup.write resource value).run c = .ok u c') :
    ∃ f n, value = .int n ∧ Replaced cgroup.cgroupPath f (f.setNumber n resource) c c' := by
  rw [write, bind_ok_iff] at h
  obtain ⟨_, _, hget, h⟩ := h
  cases hget
  split at h
  · cases h
  · rename_i f n hf
    cases h
    exact ⟨f, n, rfl, .set hf⟩
  · cases h

theorem read_ok {resource : CgroupResource} {n : ℤ} (h : cgroup.read resource c = .ok n) :
    ∃ f, c.get? cgroup.cgroupPath = some f ∧ f.number resource = n := by
  rw [read, except_bind_ok_iff] at h
  obtain ⟨f, hf, h⟩ := h
  cases h
  unfold readRaw at hf
  split at hf
  · cases hf
  · cases hf
    exact ⟨f, by assumption, rfl⟩

theorem setShares_ok {value : Number} {u : Unit} (h : (cgroup.setShares value).run c = .ok u c') :
    ∃ f shares, (value.mul cgroup.allocationConfiguration.cpuSharesUnit).toInt = .ok shares ∧
      Replaced cgroup.cgroupPath f
        { f with cpuShares := if shares < MIN_SHARES then MIN_SHARES else shares } c c' := by
  rw [setShares, bind_ok_iff] at h
  obtain ⟨shares, c₁, hs, h⟩ := h
  obtain ⟨hint, rfl⟩ := run_liftM_ok_iff.mp hs
  obtain ⟨f, n, hn, hr⟩ := write_ok h
  cases hn
  exact ⟨f, shares, liftM_ok_iff.mp hint, hr⟩

theorem setQuota_ok {value : Number} {u : Unit} (h : (cgroup.setQuota value).run c = .ok u c') :
    ∃ f quota, ∃ period : ℤ, cgroup.denormalizeQuota value = .ok quota ∧
      Flt.rat period = cgroup.allocationConfiguration.cpuQuotaPeriod.val ∧
      Replaced cgroup.cgroupPath f { f with cpuQuota := quota, cpuPeriod := period } c c' := by
  rw [setQuota, bind_ok_iff] at h
  obtain ⟨_, _, hget, h⟩ := h
  cases hget
  rw [bind_ok_iff] at h
  obtain ⟨currentPeriod, c₁, hrd, h⟩ := h
  obtain ⟨hread, rfl⟩ := run_liftM_ok_iff.mp hrd
  obtain ⟨f, hf, rfl⟩ := read_ok hread
  rw [bind_ok_iff] at h
  obtain ⟨_, c₂, hperiod, h⟩ := h
  rw [bind_ok_iff] at h
  obtain ⟨quota, c₃, hq, h⟩ := h
  obtain ⟨hquota, rfl⟩ := run_liftM_ok_iff.mp hq
  obtain ⟨f₂, n, hn, hr⟩ := write_ok h
  cases hn
  rcases doIf_ok_iff.mp hperiod with ⟨-, hperiod⟩ | ⟨hp, rfl⟩
  · obtain ⟨f₁, n, hn, hr₁⟩ := write_ok hperiod
    have h₁ : f₁ = f := Option.some.inj (hr₁.before.symm.trans hf)
    have h₂ : f₂ = f₁.setNumber n .CPU_PERIOD := Option.some.inj (hr.before.symm.trans hr₁.after)
    subst h₁ h₂
    exact ⟨f₁, quota, n, hquota, by rw [hn]; rfl, hr₁.trans hr⟩
  · have h₂ : f₂ = f := Option.some.inj (hr.before.symm.trans hf)
    subst h₂
    exact ⟨f₂, quota, f₂.cpuPeriod, hquota, not_not.mp hp, hr⟩

theorem writeListformat_ok {resource : CpusetResource} {s : Finset ℤ} {u : Unit}
    (h : (cgroup.writeListformat resource s).run c = .ok u c') :
    ∃ f, Replaced cgroup.cgroupPath f (f.setText (encodeListformat s) resource) c c' := by
  rw [writeListformat, bind_ok_iff] at h
  obtain ⟨_, _, hget, h⟩ := h
  cases hget
  split at h
  · cases h
  · rename_i f hf
    cases h
    exact ⟨f, .set hf⟩

end Cgroup

/-! ## Performing -/

/-- The cgroups that cpusets are written to. -/
def Container.cpusetCgroups (container : Container) : List Cgroup :=
  if container.subcgroups = [] then [container.cgroup] else container.subcgroups

def CpusetResource.type : CpusetResource → AllocationType
  | .CPUSET_CPUS => .CPUSET_CPUS
  | .CPUSET_MEMS => .CPUSET_MEMS

@[simp] theorem view_setText (f : CgroupFiles) (s : String) (resource : CpusetResource) :
    view resource.type (f.setText s resource) = (0, 0, s) := by
  cases resource <;> rfl

theorem view_setText_of_ne {f : CgroupFiles} {s : String} {resource : CpusetResource}
    {t : AllocationType} (h : t ≠ resource.type) : view t (f.setText s resource) = view t f := by
  cases resource <;> cases t <;> first | rfl | exact absurd rfl h

theorem onCgroups_ok {α : Type} {x : EStateM Exc Cgroups α} {h h' : Host} {a : α}
    (hx : (Host.onCgroups x).run h = .ok a h') :
    x.run h.cgroups = .ok a h'.cgroups ∧ h'.resctrl = h.resctrl := by
  obtain ⟨c, hc, rfl⟩ := zoom_ok_iff.mp hx
  exact ⟨hc, rfl⟩

theorem onHost_ok {α : Type} {x : EStateM Exc Host α} {w w' : World} {a : α}
    (hx : (World.onHost x).run w = .ok a w') : x.run w.host = .ok a w'.host := by
  obtain ⟨h, hh, rfl⟩ := zoom_ok_iff.mp hx
  exact hh

theorem QuotaAllocationValue.performAllocations_ok {v : QuotaAllocationValue} {h h' : Host}
    {u : Unit} (hp : v.performAllocations.run h = .ok u h')
    (hne : ∀ s ∈ v.subcgroups, s.cgroupPath ≠ v.cgroup.cgroupPath) :
    OnlyType .QUOTA h.cgroups h'.cgroups ∧ ∃ quota period : ℤ,
      v.cgroup.denormalizeQuota v.value = .ok quota ∧
      Flt.rat period = v.cgroup.allocationConfiguration.cpuQuotaPeriod.val ∧
      viewAt .QUOTA v.cgroup.cgroupPath h'.cgroups = some (quota, period, "") := by
  rw [QuotaAllocationValue.performAllocations, bind_ok_iff] at hp
  obtain ⟨_, h₁, hown, hsubs⟩ := hp
  obtain ⟨f, quota, period, hquota, hperiod, hr⟩ := Cgroup.setQuota_ok (onCgroups_ok hown).1
  have hquotaOnly : ∀ {f : CgroupFiles} {q p : ℤ} {t'}, t' ≠ AllocationType.QUOTA →
      view t' { f with cpuQuota := q, cpuPeriod := p } = view t' f := by
    intro f q p t' ht
    cases t' <;> first | rfl | exact absurd rfl ht
  -- the subcgroups are other cgroups, and only their quota is set
  have hinv : wp (forM v.subcgroups fun s =>
        Host.onCgroups (s.setQuota (.float (.rat QUOTA_NORMALIZED_MAX))))
      (fun _ t => OnlyType .QUOTA h.cgroups t.cgroups ∧
        viewAt .QUOTA v.cgroup.cgroupPath t.cgroups = some (quota, period, ""))
      (fun _ _ => True) h₁ := by
    refine wp_forM_inv ⟨hr.onlyType fun _ => hquotaOnly, ?_⟩ fun s hs t ht => wp_of_ok ?_
    · rw [viewAt, hr.after]
      rfl
    · intro _ t' hrun
      obtain ⟨f', q', p', -, -, hr'⟩ := Cgroup.setQuota_ok (onCgroups_ok hrun).1
      refine ⟨ht.1.trans (hr'.onlyType fun _ => hquotaOnly), ?_⟩
      rw [viewAt, hr'.other _ (hne s hs).symm]
      exact ht.2
  obtain ⟨honly, hview⟩ := hinv.ok hsubs
  exact ⟨honly, quota, period, hquota, hperiod, hview⟩

theorem SharesAllocationValue.performAllocations_ok {v : SharesAllocationValue} {h h' : Host}
    {u : Unit} (hp : v.performAllocations.run h = .ok u h') :
    OnlyType .SHARES h.cgroups h'.cgroups ∧ ∃ shares,
      (v.value.mul v.cgroup.allocationConfiguration.cpuSharesUnit).toInt = .ok shares ∧
      viewAt .SHARES v.cgroup.cgroupPath h'.cgroups =
        some (if shares < MIN_SHARES then MIN_SHARES else shares, 0, "") := by
  obtain ⟨f, shares, hshares, hr⟩ := Cgroup.setShares_ok (onCgroups_ok hp).1
  refine ⟨hr.onlyType fun t' ht => ?_, shares, hshares, ?_⟩
  · cases t' <;> first | rfl | exact absurd rfl ht
  · rw [viewAt, hr.after]
    rfl

theorem ListFormatBasedAllocationValue.performAllocations_ok {v : ListFormatBasedAllocationValue}
    {h h' : Host} {u : Unit} (hp : v.performAllocations.run h = .ok u h') :
    OnlyType v.resource.type h.cgroups h'.cgroups ∧ ∃ s, decodeListformat v.value = .ok s ∧
      ∀ cgroup ∈ (if v.subcgroups = [] then [v.cgroup] else v.subcgroups),
        viewAt v.resource.type cgroup.cgroupPath h'.cgroups = some (0, 0, encodeListformat s) := by
  rw [ListFormatBasedAllocationValue.performAllocations, bind_ok_iff] at hp
  obtain ⟨s, h₁, hs, hp⟩ := hp
  obtain ⟨hdecode, rfl⟩ := run_liftM_ok_iff.mp hs
  have hwrite : ∀ {cgroup : Cgroup} {t t' : Host} {u : Unit},
      (Host.onCgroups (cgroup.writeListformat v.resource s)).run t = .ok u t' →
      ∃ f, Replaced cgroup.cgroupPath f (f.setText (encodeListformat s) v.resource) t.cgroups
        t'.cgroups := fun hrun => Cgroup.writeListformat_ok (onCgroups_ok hrun).1
  split at hp
  · rename_i hne
    have hinv : wp (forM v.subcgroups fun subcgroup =>
          Host.onCgroups (subcgroup.writeListformat v.resource s))
        (fun _ t => OnlyType v.resource.type h₁.cgroups t.cgroups ∧ ∀ cgroup ∈ v.subcgroups,
          viewAt v.resource.type cgroup.cgroupPath t.cgroups = some (0, 0, encodeListformat s))
        (fun _ _ => True) h₁ := by
      refine wp_forM (I := fun (pre : List Cgroup) (t : Host) => OnlyType v.resource.type h₁.cgroups t.cgroups ∧
        ∀ cgroup ∈ pre, viewAt v.resource.type cgroup.cgroupPath t.cgroups =
          some (0, 0, encodeListformat s)) ⟨.refl _ _, fun _ hm => (nomatch hm)⟩ ?_
      intro pre a post t _ ht
      refine wp_of_ok fun _ t' hrun => ?_
      obtain ⟨f, hr⟩ := hwrite hrun
      refine ⟨ht.1.trans (hr.onlyType fun _ => view_setText_of_ne), fun cgroup hm => ?_⟩
      by_cases hpath : cgroup.cgroupPath = a.cgroupPath
      · rw [viewAt, hpath, hr.after, Option.map_some, view_setText]
      · rcases List.mem_append.mp hm with hm | hm
        · rw [viewAt, hr.other _ hpath]
          exact ht.2 cgroup hm
        · rw [List.mem_singleton] at hm
          exact absurd (by rw [hm]) hpath
    obtain ⟨honly, hview⟩ := hinv.ok hp
    rw [if_neg hne]
    exact ⟨honly, s, liftM_ok_iff.mp hdecode, hview⟩
  · rename_i he
    obtain ⟨f, hr⟩ := hwrite hp
    rw [if_pos (not_not.mp he)]
    refine ⟨hr.onlyType fun _ => view_setText_of_ne, s, liftM_ok_iff.mp hdecode, fun cgroup hm => ?_⟩
    rw [List.mem_singleton] at hm
    rw [viewAt, hm, hr.after, Option.map_some, view_setText]

/-! ## A whole request -/

/-- What is in the files after a value was performed that was built from a raw one. -/
def Settled (container : Container) (t : AllocationType) (raw : RawValue) (c : Cgroups) : Prop :=
  let cgroup := container.cgroup
  let config := cgroup.allocationConfiguration
  match t, raw with
  | .QUOTA, .num q => ∃ quota period : ℤ, cgroup.denormalizeQuota q = .ok quota ∧
      Flt.rat period = config.cpuQuotaPeriod.val ∧
      viewAt .QUOTA cgroup.cgroupPath c = some (quota, period, "")
  | .SHARES, .num q => ∃ shares, (q.mul config.cpuSharesUnit).toInt = .ok shares ∧
      viewAt .SHARES cgroup.cgroupPath c =
        some (if shares < MIN_SHARES then MIN_SHARES else shares, 0, "")
  | .CPUSET_CPUS, .str text | .CPUSET_MEMS, .str text => ∃ s, decodeListformat text = .ok s ∧
      ∀ cgroup ∈ container.cpusetCgroups,
        viewAt t cgroup.cgroupPath c = some (0, 0, encodeListformat s)
  | _, _ => True

theorem Settled.of_onlyType {container : Container} {t t' : AllocationType} {raw : RawValue}
    {c c' : Cgroups} (h : Settled container t raw c) (hc : OnlyType t' c c') (ht : t ≠ t') :
    Settled container t raw c' := by
  unfold Settled at h ⊢
  split at h
  · obtain ⟨quota, period, h₁, h₂, h₃⟩ := h
    exact ⟨quota, period, h₁, h₂, (hc _ ht _).trans h₃⟩
  · obtain ⟨shares, h₁, h₂⟩ := h
    exact ⟨shares, h₁, (hc _ ht _).trans h₂⟩
  · obtain ⟨s, h₁, h₂⟩ := h
    exact ⟨s, h₁, fun cgroup hm => (hc _ ht _).trans (h₂ cgroup hm)⟩
  · obtain ⟨s, h₁, h₂⟩ := h
    exact ⟨s, h₁, fun cgroup hm => (hc _ ht _).trans (h₂ cgroup hm)⟩
  · trivial

/-- The types that the files of the cpu and cpuset controllers hold. -/
def cgroupTypes : List AllocationType := [.QUOTA, .SHARES, .CPUSET_CPUS, .CPUSET_MEMS]

theorem numeric_ok {raw : RawValue} {n : Number} (h : numeric raw = .ok n) : raw = .num n := by
  cases raw <;> cases h
  rfl

/-- Performing a value that was built for the container. -/
theorem construct_performAllocations_ok {container : Container} {registry : Option RDTContext}
    {t : AllocationType} {raw : RawValue} {v : LeafValue} {w w' : World} {u : Unit}
    (ht : t ∈ cgroupTypes) (hv : construct registry container t raw = .ok v)
    (hne : ∀ s ∈ container.subcgroups, s.cgroupPath ≠ container.cgroup.cgroupPath)
    (hp : (performAllocations v).run w = .ok u w') :
    OnlyType t w.host.cgroups w'.host.cgroups ∧ Settled container t raw w'.host.cgroups := by
  simp only [cgroupTypes, List.mem_cons, List.not_mem_nil, or_false] at ht
  rcases ht with rfl | rfl | rfl | rfl
  · obtain ⟨q, hq, hret⟩ := except_bind_ok_iff.mp hv
    cases hret
    obtain ⟨n, hn, hret⟩ := except_bind_ok_iff.mp hq
    cases hret
    rw [numeric_ok hn]
    exact QuotaAllocationValue.performAllocations_ok (onHost_ok hp) hne
  · obtain ⟨q, hq, hret⟩ := except_bind_ok_iff.mp hv
    cases hret
    obtain ⟨n, hn, hret⟩ := except_bind_ok_iff.mp hq
    cases hret
    rw [numeric_ok hn]
    exact SharesAllocationValue.performAllocations_ok (onHost_ok hp)
  · obtain ⟨q, hq, hret⟩ := except_bind_ok_iff.mp hv
    cases hret
    cases raw with
    | str text =>
      cases hq
      exact ListFormatBasedAllocationValue.performAllocations_ok (onHost_ok hp)
    | _ => cases hq
  · obtain ⟨q, hq, hret⟩ := except_bind_ok_iff.mp hv
    cases hret
    cases raw with
    | str text =>
      cases hq
      exact ListFormatBasedAllocationValue.performAllocations_ok (onHost_ok hp)
    | _ => cases hq

/-- Build, validate and perform a request for a container, then build the values that are read
back. -/
def requestAndReadBack (container : Container) (registry : Option RDTContext)
    (request : TaskAllocations) :
    EStateM Exc World (TaskAllocationsValues × TaskAllocationsValues) := do
  let values ← TaskAllocationsValues.create request container registry
  World.onHeap (validate values)
  performAllocations values
  let w ← get
  let current ← container.getAllocations w.host
  let currentValues ← TaskAllocationsValues.create current container registry
  pure (values, currentValues)

/-- After the whole request every entry of it is settled. -/
theorem performAllocations_settled {container : Container} {registry : Option RDTContext}
    {request : TaskAllocations} {values : TaskAllocationsValues} {w w' : World} {u : Unit}
    (htypes : ∀ t ∈ request.keys, t ∈ cgroupTypes)
    (hne : ∀ s ∈ container.subcgroups, s.cgroupPath ≠ container.cgroup.cgroupPath)
    (hcreate : TaskAllocationsValues.create request container registry = .ok values)
    (hp : (performAllocations values).run w = .ok u w') :
    ∀ t raw, request.get? t = some raw → Settled container t raw w'.host.cgroups := by
  obtain ⟨hkeys, hbuilt⟩ := Dict.comprehendM_ok hcreate
  have hvalue : ∀ t v, (t, v) ∈ values.items → ∃ raw, request.get? t = some raw ∧
      construct registry container t raw = .ok v := by
    intro t v hv
    have hk : t ∈ request.keys := hkeys ▸ Dict.mem_keys.mpr ⟨v, hv⟩
    obtain ⟨raw, hraw⟩ := Dict.mem_keys.mp hk
    obtain ⟨v', hv', hget⟩ := hbuilt t raw hraw
    have : v' = v := Option.some.inj (hget.symm.trans (Dict.get?_eq_some_iff.mpr hv))
    exact ⟨raw, Dict.get?_eq_some_iff.mpr hraw, this ▸ hv'⟩
  -- the loop over the values, as one over the items
  have hinv : wp (forM values.items fun p => performAllocations p.2)
      (fun _ w => ∀ p ∈ values.items, ∀ raw, request.get? p.1 = some raw →
        Settled container p.1 raw w.host.cgroups) (fun _ _ => True) w := by
    refine wp_forM (I := fun (pre : List (AllocationType × LeafValue)) (w : World) =>
      ∀ p ∈ pre, ∀ raw, request.get? p.1 = some raw → Settled container p.1 raw w.host.cgroups)
      (fun _ hp => (nomatch hp)) ?_
    rintro pre ⟨t, v⟩ post w₁ hl hpre
    refine wp_of_ok fun _ w₂ hrun => ?_
    obtain ⟨raw, hraw, hcon⟩ := hvalue t v (by rw [hl]; simp)
    have ht := htypes t (Dict.mem_keys_iff_get?.mpr ⟨raw, hraw⟩)
    obtain ⟨honly, hset⟩ := construct_performAllocations_ok ht hcon hne hrun
    intro p hp raw' hraw'
    rcases List.mem_append.mp hp with hp | hp
    · have hfresh := (Dict.nodup_of_items_append hl).1
      exact (hpre p hp raw' hraw').of_onlyType honly fun he =>
        hfresh (he ▸ List.mem_map.mpr ⟨p, hp, rfl⟩)
    · rw [List.mem_singleton] at hp
      subst hp
      rw [hraw] at hraw'
      cases hraw'
      exact hset
  have hrun : (forM values.items fun p => performAllocations p.2).run w = .ok u w' := by
    have : (forM (values.items.map Prod.snd) performAllocations : EStateM Exc World Unit) =
        forM values.items fun p => performAllocations p.2 := List.forM_map
    rw [← this]
    exact hp
  intro t raw hraw
  obtain ⟨v, -, hv⟩ := hbuilt t raw (Dict.get?_eq_some_iff.mp hraw)
  exact hinv.ok hrun (t, v) (Dict.get?_eq_some_iff.mp hv) raw hraw

/-! ## Reading back -/

theorem Cgroup.getAllocations_ok {cgroup : Cgroup} {c : Cgroups} {a : TaskAllocations}
    (h : cgroup.getAllocations c = .ok a) : ∃ quota shares cpus mems,
      cgroup.getNormalizedQuota c = .ok quota ∧ cgroup.getNormalizedShares c = .ok shares ∧
      cgroup.readListformat .CPUSET_CPUS c = .ok cpus ∧
      cgroup.readListformat .CPUSET_MEMS c = .ok mems ∧
      a.get? .QUOTA = some (.num (.float quota)) ∧ a.get? .SHARES = some (.num (.float shares)) ∧
      a.get? .CPUSET_CPUS = some (.str cpus) ∧ a.get? .CPUSET_MEMS = some (.str mems) := by
  unfold Cgroup.getAllocations at h
  obtain ⟨quota, hquota, h⟩ := except_bind_ok_iff.mp h
  obtain ⟨shares, hshares, h⟩ := except_bind_ok_iff.mp h
  obtain ⟨cpus, hcpus, h⟩ := except_bind_ok_iff.mp h
  obtain ⟨mems, hmems, h⟩ := except_bind_ok_iff.mp h
  obtain ⟨memoryMigrate, -, h⟩ := except_bind_ok_iff.mp h
  obtain rfl := Except.ok.inj h
  refine ⟨quota, shares, cpus, mems, hquota, hshares, hcpus, hmems, ?_⟩
  simp [Dict.ofItems, Dict.get?_set]

theorem Container.getSubcgroupsCpusetAllocations_ok {container : Container} {c : Cgroups}
    {a : TaskAllocations} (h : container.getSubcgroupsCpusetAllocations c = .ok a) :
    (container.subcgroups = [] → a = ∅) ∧ (container.subcgroups ≠ [] →
      ∃ cgroup ∈ container.subcgroups, ∃ cpus mems,
        cgroup.readListformat .CPUSET_CPUS c = .ok cpus ∧
        cgroup.readListformat .CPUSET_MEMS c = .ok mems ∧
        a = Dict.ofItems [(.CPUSET_CPUS, .str cpus), (.CPUSET_MEMS, .str mems)]) := by
  unfold Container.getSubcgroupsCpusetAllocations at h
  cases hsub : container.subcgroups with
  | nil =>
    rw [hsub] at h
    cases h
    exact ⟨fun _ => rfl, fun hne => absurd rfl hne⟩
  | cons cgroup rest =>
    rw [hsub] at h
    refine ⟨fun he => (nomatch he), fun _ => ⟨cgroup, List.mem_cons_self, ?_⟩⟩
    obtain ⟨read, hread, h⟩ := except_bind_ok_iff.mp h
    rw [List.mapM_cons] at hread
    obtain ⟨first, hfirst, hread⟩ := except_bind_ok_iff.mp hread
    obtain ⟨others, -, hread⟩ := except_bind_ok_iff.mp hread
    cases hread
    obtain ⟨cpus, hcpus, hfirst⟩ := except_bind_ok_iff.mp hfirst
    obtain ⟨mems, hmems, hfirst⟩ := except_bind_ok_iff.mp hfirst
    cases hfirst
    cases h
    exact ⟨cpus, mems, hcpus, hmems, rfl⟩

/-- Where the allocations of a container are read. -/
theorem Container.getAllocations_ok {container : Container} {h : Host} {a : TaskAllocations}
    (hread : container.getAllocations h = .ok a) :
    (∃ quota, container.cgroup.getNormalizedQuota h.cgroups = .ok quota ∧
      a.get? .QUOTA = some (.num (.float quota))) ∧
    (∃ shares, container.cgroup.getNormalizedShares h.cgroups = .ok shares ∧
      a.get? .SHARES = some (.num (.float shares))) ∧
    ∀ resource : CpusetResource, ∃ cgroup ∈ container.cpusetCgroups, ∃ text,
      cgroup.readListformat resource h.cgroups = .ok text ∧
      a.get? resource.type = some (.str text) := by
  unfold Container.getAllocations at hread
  obtain ⟨own, hown, hread⟩ := except_bind_ok_iff.mp hread
  obtain ⟨sub, hsub, hread⟩ := except_bind_ok_iff.mp hread
  obtain ⟨quota, shares, cpus, mems, hquota, hshares, hcpus, hmems, gquota, gshares, gcpus, gmems⟩ :=
    Cgroup.getAllocations_ok hown
  -- an entry for RDT comes on top of these and hides none
  have hget : ∀ t, t ≠ .RDT → a.get? t = (sub.get? t).or (own.get? t) := by
    intro t ht
    rw [← Dict.get?_update]
    split at hread
    · split at hread
      · cases hread
      · obtain ⟨rdt, -, hread⟩ := except_bind_ok_iff.mp hread
        cases hread
        exact Dict.get?_set_of_ne ht
    · cases hread
      rfl
  obtain ⟨hnil, hcons⟩ := Container.getSubcgroupsCpusetAllocations_ok hsub
  by_cases hs : container.subcgroups = []
  · have hcgroup : container.cgroup ∈ container.cpusetCgroups := by
      simp [Container.cpusetCgroups, hs]
    rw [hnil hs] at hget
    refine ⟨⟨quota, hquota, by rw [hget _ (by decide), gquota]; rfl⟩,
      ⟨shares, hshares, by rw [hget _ (by decide), gshares]; rfl⟩, fun resource => ?_⟩
    cases resource with
    | CPUSET_CPUS => exact ⟨_, hcgroup, cpus, hcpus, by rw [hget _ (by decide)]; exact gcpus⟩
    | CPUSET_MEMS => exact ⟨_, hcgroup, mems, hmems, by rw [hget _ (by decide)]; exact gmems⟩
  · obtain ⟨cgroup, hcgroup, cpus', mems', hcpus', hmems', rfl⟩ := hcons hs
    have hcgroup' : cgroup ∈ container.cpusetCgroups := by
      rw [Container.cpusetCgroups, if_neg hs]
      exact hcgroup
    refine ⟨⟨quota, hquota, by rw [hget _ (by decide)]; exact gquota⟩,
      ⟨shares, hshares, by rw [hget _ (by decide)]; exact gshares⟩, fun resource => ?_⟩
    cases resource with
    | CPUSET_CPUS => exact ⟨_, hcgroup', cpus', hcpus', by rw [hget _ (by decide)]; rfl⟩
    | CPUSET_MEMS => exact ⟨_, hcgroup', mems', hmems', by rw [hget _ (by decide)]; rfl⟩

theorem readRaw_of_viewAt {cgroup : Cgroup} {c : Cgroups} {t : AllocationType}
    {content : ℤ × ℤ × String} (h : viewAt t cgroup.cgroupPath c = some content) :
    ∃ f, cgroup.readRaw c = .ok f ∧ view t f = content := by
  obtain ⟨f, hf, hv⟩ := Option.map_eq_some_iff.mp h
  refine ⟨f, ?_, hv⟩
  simp only [Cgroup.readRaw, hf]

theorem getNormalizedQuota_of_viewAt {cgroup : Cgroup} {c : Cgroups} {quota period : ℤ}
    (h : viewAt .QUOTA cgroup.cgroupPath c = some (quota, period, "")) (hp : period ≠ 0)
    (hn : cgroup.platform.cpus ≠ 0) :
    cgroup.getNormalizedQuota c = .ok (if quota = QUOTA_NOT_SET then .rat QUOTA_NORMALIZED_MAX
      else .rat (quota / period / cgroup.platform.cpus)) := by
  obtain ⟨f, hf, hv⟩ := readRaw_of_viewAt h
  simp only [view, Prod.mk.injEq] at hv
  obtain ⟨rfl, rfl, -⟩ := hv
  simp only [Cgroup.getNormalizedQuota, Cgroup.read, hf, except_ok_bind, except_pure,
    CgroupFiles.number]
  split
  · rfl
  · rw [Flt.truediv_rat (by exact_mod_cast hp), liftM_ok, except_ok_bind,
      Flt.truediv_rat (by exact_mod_cast hn), liftM_ok]

theorem getNormalizedShares_of_viewAt {cgroup : Cgroup} {c : Cgroups} {shares : ℤ} {m : ℚ}
    (h : viewAt .SHARES cgroup.cgroupPath c = some (shares, 0, ""))
    (hm : cgroup.allocationConfiguration.cpuSharesUnit.val = .rat m) (hm0 : m ≠ 0) :
    cgroup.getNormalizedShares c = .ok (.rat (shares / m)) := by
  obtain ⟨f, hf, hv⟩ := readRaw_of_viewAt h
  simp only [view, Prod.mk.injEq] at hv
  obtain ⟨rfl, -⟩ := hv
  simp only [Cgroup.getNormalizedShares, Cgroup.read, hf, except_ok_bind, except_pure,
    CgroupFiles.number, hm]
  rw [Flt.truediv_rat hm0, liftM_ok]

theorem readListformat_of_viewAt {cgroup : Cgroup} {c : Cgroups} {resource : CpusetResource}
    {s : Finset ℤ} (hs : ∀ n ∈ s, 0 ≤ n)
    (h : viewAt resource.type cgroup.cgroupPath c = some (0, 0, encodeListformat s)) :
    cgroup.readListformat resource c = .ok (encodeListformat s) := by
  obtain ⟨f, hf, hv⟩ := readRaw_of_viewAt h
  have htext : f.text resource = encodeListformat s := by
    cases resource <;> simp only [CpusetResource.type, view, Prod.mk.injEq] at hv <;> exact hv.2.2
  simp only [Cgroup.readListformat, hf, except_ok_bind, htext, strip_encodeListformat hs,
    decodeListformat_encodeListformat hs, liftM_ok, except_pure]

/-! ## Comparing again -/

/-- The unit of shares and the whole quota are at least 1000. -/
theorem AllocationConfiguration.Declared.bounds {c : AllocationConfiguration} (h : c.Declared) :
    c.cpuQuotaPeriod.val = .rat c.period ∧ 1000 ≤ c.period ∧ c.period ≤ 1000000 ∧
      ∃ m, c.cpuSharesUnit.val = .rat m ∧ 1000 ≤ m := by
  obtain ⟨⟨p, hp, hlo, hhi⟩, m, hm, hmlo, -⟩ := h
  have hperiod : c.period = p := by rw [AllocationConfiguration.period, hp]
  exact ⟨by rw [hperiod, hp], by rw [hperiod]; exact hlo, by rw [hperiod]; exact hhi, m, hm, hmlo⟩

theorem validate_range {v : BoxedNumeric} {x : ℚ} (hx : v.value.val = .rat x)
    (h : v.validate = .ok ()) (hmin : v.minValue = .rat 0) :
    0 ≤ x ∧ ∀ m, v.maxValue = .rat m → x ≤ m := by
  unfold BoxedNumeric.validate at h
  split at h
  · cases h
  · rename_i hn
    rw [not_or, hx, hmin, Flt.lt_rat, not_lt] at hn
    refine ⟨hn.1, fun m hm => ?_⟩
    have := hn.2
    rw [hm, Flt.lt_rat, not_lt] at this
    exact this

/-- The whole quota of a cgroup: the period on all cpus. -/
def wholeQuota (cgroup : Cgroup) : ℚ :=
  cgroup.allocationConfiguration.period * cgroup.platform.cpus

theorem le_wholeQuota {cgroup : Cgroup} (hcfg : cgroup.allocationConfiguration.Declared)
    (hcpus : 1 ≤ cgroup.platform.cpus) : 1000 ≤ wholeQuota cgroup := by
  obtain ⟨-, hlo, -⟩ := hcfg.bounds
  have hn : (1 : ℚ) ≤ cgroup.platform.cpus := by exact_mod_cast hcpus
  unfold wholeQuota
  nlinarith

theorem denormalizeQuota_eq {cgroup : Cgroup} {q : Number} {x : ℚ}
    (hcfg : cgroup.allocationConfiguration.Declared) (hcpus : 1 ≤ cgroup.platform.cpus)
    (hx : q.val = .rat x) (h0 : 0 ≤ x) :
    cgroup.denormalizeQuota q = .ok (if 1 ≤ x then QUOTA_NOT_SET else
      written QUOTA_MINIMUM_VALUE x (wholeQuota cgroup)) := by
  have hm := le_wholeQuota hcfg hcpus
  have hge : q.val.ge (.rat QUOTA_NORMALIZED_MAX) = true ↔ 1 ≤ x := by
    rw [hx, Flt.ge_rat]
    rfl
  have hval : ((q.mul cgroup.allocationConfiguration.cpuQuotaPeriod).mul
      (.int cgroup.platform.cpus)).val = .rat (x * wholeQuota cgroup) := by
    rw [Number.val_mul, Number.val_mul, hx, hcfg.bounds.1, wholeQuota, ← mul_assoc]
    rfl
  have hnn : 0 ≤ x * wholeQuota cgroup := by positivity
  simp only [Cgroup.denormalizeQuota, hge, Cgroup.int, Number.toInt_eq hval hnn, liftM_ok,
    except_ok_bind, except_pure]
  split <;> rfl

/-- What is read back for a quota is close to it unless it was clamped. -/
theorem quota_isclose_iff {cgroup : Cgroup} {c : Cgroups} {q : Number} {x : ℚ} {quota period : ℤ}
    {y : Flt} (hcfg : cgroup.allocationConfiguration.Declared) (hcpus : 1 ≤ cgroup.platform.cpus)
    (hx : q.val = .rat x) (h0 : 0 ≤ x) (h1 : x ≤ 1)
    (hquota : cgroup.denormalizeQuota q = .ok quota)
    (hperiod : Flt.rat period = cgroup.allocationConfiguration.cpuQuotaPeriod.val)
    (hview : viewAt .QUOTA cgroup.cgroupPath c = some (quota, period, ""))
    (hread : cgroup.getNormalizedQuota c = .ok y) :
    Flt.isclose q.val y VALUE_CHANGE_SENSITIVITY = true ↔ ¬ Clamped cgroup x := by
  have hm := le_wholeQuota hcfg hcpus
  have hp : (period : ℚ) = cgroup.allocationConfiguration.period :=
    Flt.rat.inj (hperiod.trans hcfg.bounds.1)
  have hp0 : period ≠ 0 := by
    rintro rfl
    have := hcfg.bounds.2.1
    rw [← hp] at this
    norm_num at this
  have hmin : (QUOTA_MINIMUM_VALUE : ℚ) = 1000 := rfl
  rw [getNormalizedQuota_of_viewAt hview hp0 (by omega)] at hread
  rw [denormalizeQuota_eq hcfg hcpus hx h0] at hquota
  cases hquota
  cases hread
  by_cases hmax : 1 ≤ x
  · have hx1 : x = 1 := le_antisymm h1 hmax
    rw [if_pos hmax, if_pos rfl, hx, hx1, QUOTA_NORMALIZED_MAX]
    refine ⟨fun _ hc => ?_, fun _ => Flt.isclose_self⟩
    have hlt := hc.1
    rw [one_mul, hmin] at hlt
    exact absurd hlt (not_lt.mpr hm)
  · have hset : written QUOTA_MINIMUM_VALUE x (wholeQuota cgroup) ≠ QUOTA_NOT_SET := by
      have hnot : QUOTA_NOT_SET = -1 := rfl
      have hmin : QUOTA_MINIMUM_VALUE = 1000 := rfl
      unfold written
      split_ifs <;> omega
    rw [if_neg hmax, if_neg hset, hp, div_div, hx]
    refine (isclose_iff_abs_le_sensitivity ?_ ?_).trans (abs_quota_sub_le_iff hm)
    · rw [abs_of_nonneg h0]
      linarith
    · exact (abs_quota_le h0 h1 hm).trans (by norm_num)

/-- What is read back for shares is close to them. -/
theorem shares_isclose {cgroup : Cgroup} {c : Cgroups} {q : Number} {x : ℚ} {shares : ℤ} {y : Flt}
    (hcfg : cgroup.allocationConfiguration.Declared) (hx : q.val = .rat x) (h0 : 0 ≤ x)
    (hshares : (q.mul cgroup.allocationConfiguration.cpuSharesUnit).toInt = .ok shares)
    (hview : viewAt .SHARES cgroup.cgroupPath c =
      some (if shares < MIN_SHARES then MIN_SHARES else shares, 0, ""))
    (hread : cgroup.getNormalizedShares c = .ok y) :
    Flt.isclose q.val y VALUE_CHANGE_SENSITIVITY = true := by
  obtain ⟨-, -, -, m, hm, hlo⟩ := hcfg.bounds
  have hval : (q.mul cgroup.allocationConfiguration.cpuSharesUnit).val = .rat (x * m) := by
    rw [Number.val_mul, hx, hm]
    rfl
  rw [Number.toInt_eq hval (by positivity)] at hshares
  cases hshares
  rw [getNormalizedShares_of_viewAt hview hm (by positivity)] at hread
  cases hread
  rw [hx]
  exact Flt.isclose_of_abs_le (abs_shares_sub_le h0 hlo)

/-- A set that passes validation has natural numbers only. -/
theorem nonneg_of_validate {v : ListFormatBasedAllocationValue} {s : Finset ℤ}
    (h : v.validate = .ok ()) (hmin : v.minValue = 0) (hs : decodeListformat v.value = .ok s) :
    ∀ n ∈ s, 0 ≤ n := by
  obtain ⟨ids, hids, hrange⟩ := ListFormatBasedAllocationValue.validate_ok_iff.mp h
  rw [hs] at hids
  cases hids
  intro n hn
  by_cases he : v.value = ""
  · rw [he] at hs
    cases hs
    cases hn
  · rw [← hmin]
    exact ((hrange he).2 n hn).1

section

variable {container : Container} {registry : Option RDTContext} {h : Host}
  {current : TaskAllocations}

/-- A cpuset that is read back from the files it was written to compares as equal. -/
theorem compare_cpuset (resource : CpusetResource) {text : String} {s : Finset ℤ}
    (hs : decodeListformat text = .ok s) (hnn : ∀ n ∈ s, 0 ≤ n)
    (hview : ∀ cgroup ∈ container.cpusetCgroups,
      viewAt resource.type cgroup.cgroupPath h.cgroups = some (0, 0, encodeListformat s))
    (hread : container.getAllocations h = .ok current) :
    ∃ text', current.get? resource.type = some (.str text') ∧
      ∀ v c : ListFormatBasedAllocationValue, v.resource = resource → v.value = text →
        c.resource = resource → c.value = text' →
        (LeafValue.cpuset v).calculateChangeset (.cpuset c) = .ok (.cpuset c, none) := by
  obtain ⟨cgroup, hcgroup, text', htext, hget⟩ := (Container.getAllocations_ok hread).2.2 resource
  rw [readListformat_of_viewAt hnn (hview cgroup hcgroup)] at htext
  cases htext
  refine ⟨_, hget, fun v c hv hvalue hc hvalue' => ?_⟩
  have hs' : decodeListformat c.value = .ok s := by
    rw [hvalue']
    exact decodeListformat_encodeListformat hnn
  rw [LeafValue.calculateChangeset_cpuset
    (LeafValue.eq_cpuset (hv.trans hc.symm) (hvalue ▸ hs) hs')]
  simp

/-- A number compares with the one that is read back by being close to it. -/
theorem compare_boxed {v c : LeafValue} {a b : BoxedNumeric} (ha : v.boxed? = some a)
    (hb : c.boxed? = some b) : v.calculateChangeset c =
      .ok (if a.eq b then (c, none) else (v, some v)) := by
  rw [LeafValue.calculateChangeset_of_boxed ha]
  simp only [LeafValue.numericChangeset, hb]

/-- One entry of the request, once it is settled and read back. -/
theorem compare_entry {t : AllocationType} {raw : RawValue} {v : LeafValue} {s s' : Heap}
    (hcfg : container.cgroup.allocationConfiguration.Declared)
    (hcpus : 1 ≤ container.cgroup.platform.cpus) (ht : t ∈ cgroupTypes)
    (hrat : ∀ q, raw = .num q → ∃ x, q.val = .rat x)
    (hv : construct registry container t raw = .ok v) (hval : (validate v).run s = .ok () s')
    (hsettled : Settled container t raw h.cgroups)
    (hread : container.getAllocations h = .ok current) :
    ∃ raw', current.get? t = some raw' ∧ ∀ c, construct registry container t raw' = .ok c →
      ∃ target change, calculateChangeset v c = .ok (target, change) ∧
        (change = none ↔ ∀ q x, t = .QUOTA → raw = .num q → q.val = .rat x →
          ¬ Clamped container.cgroup x) := by
  simp only [cgroupTypes, List.mem_cons, List.not_mem_nil, or_false] at ht
  rcases ht with rfl | rfl | rfl | rfl
  · obtain ⟨value, hcreate, hret⟩ := except_bind_ok_iff.mp hv
    cases hret
    obtain ⟨q, hq, hret⟩ := except_bind_ok_iff.mp hcreate
    cases hret
    cases numeric_ok hq
    obtain ⟨x, hx⟩ := hrat q rfl
    obtain ⟨h0, h1⟩ := validate_range hx (run_liftM_ok_iff.mp hval).1 rfl
    obtain ⟨⟨y, hy, hget⟩, -⟩ := Container.getAllocations_ok hread
    obtain ⟨quota, period, hquota, hperiod, hview⟩ := hsettled
    have hclose := quota_isclose_iff hcfg hcpus hx h0 (h1 1 rfl) hquota hperiod hview hy
    refine ⟨_, hget, fun c hc => ?_⟩
    cases hc
    refine ⟨_, _, compare_boxed rfl rfl, ?_⟩
    have hiff : (∀ q' x', AllocationType.QUOTA = .QUOTA → RawValue.num q = .num q' →
        q'.val = .rat x' → ¬ Clamped container.cgroup x') ↔ ¬ Clamped container.cgroup x := by
      constructor
      · exact fun hall => hall q x rfl rfl hx
      · rintro hn q' x' - he hx'
        cases he
        rw [hx] at hx'
        cases hx'
        exact hn
    rw [hiff, ← hclose]
    change (if Flt.isclose q.val y VALUE_CHANGE_SENSITIVITY = true then _ else _ : _ × _).2 = none ↔ _
    split <;> simp_all
  · obtain ⟨value, hcreate, hret⟩ := except_bind_ok_iff.mp hv
    cases hret
    obtain ⟨q, hq, hret⟩ := except_bind_ok_iff.mp hcreate
    cases hret
    cases numeric_ok hq
    obtain ⟨x, hx⟩ := hrat q rfl
    obtain ⟨h0, -⟩ := validate_range hx (run_liftM_ok_iff.mp hval).1 rfl
    obtain ⟨-, ⟨y, hy, hget⟩, -⟩ := Container.getAllocations_ok hread
    obtain ⟨shares, hshares, hview⟩ := hsettled
    have hclose := shares_isclose hcfg hx h0 hshares hview hy
    refine ⟨_, hget, fun c hc => ⟨c, none, ?_, by simp⟩⟩
    cases hc
    refine (compare_boxed rfl rfl).trans ?_
    rw [if_pos]
    exact hclose
  · cases raw with
    | str text =>
      cases hv
      obtain ⟨set, hset, hview⟩ := hsettled
      have hnn := nonneg_of_validate (run_liftM_ok_iff.mp hval).1 rfl hset
      obtain ⟨text', hget, hcmp⟩ := compare_cpuset .CPUSET_CPUS hset hnn hview hread
      refine ⟨_, hget, fun c hc => ?_⟩
      cases hc
      exact ⟨_, none, hcmp _ _ rfl rfl rfl rfl, by simp⟩
    | _ => cases hv
  · cases raw with
    | str text =>
      cases hv
      obtain ⟨set, hset, hview⟩ := hsettled
      have hnn := nonneg_of_validate (run_liftM_ok_iff.mp hval).1 rfl hset
      obtain ⟨text', hget, hcmp⟩ := compare_cpuset .CPUSET_MEMS hset hnn hview hread
      refine ⟨_, hget, fun c hc => ?_⟩
      cases hc
      exact ⟨_, none, hcmp _ _ rfl rfl rfl rfl, by simp⟩
    | _ => cases hv

end

/-- A request for quota, shares and cpusets that is performed and read back is not repeated, unless
its quota was clamped. -/
theorem request_settles {container : Container} {registry : Option RDTContext}
    {request : TaskAllocations} {values currentValues : TaskAllocationsValues} {w w' : World}
    (hcfg : container.cgroup.allocationConfiguration.Declared)
    (hcpus : 1 ≤ container.cgroup.platform.cpus)
    (hne : ∀ s ∈ container.subcgroups, s.cgroupPath ≠ container.cgroup.cgroupPath)
    (htypes : ∀ t ∈ request.keys, t ∈ cgroupTypes)
    (hrat : ∀ t q, request.get? t = some (.num q) → ∃ x, q.val = .rat x)
    (hrun : (requestAndReadBack container registry request).run w = .ok (values, currentValues) w') :
    ∃ target changeset, calculateChangeset values currentValues = .ok (target, changeset) ∧
      (changeset = none ↔ ∀ q x, request.get? .QUOTA = some (.num q) → q.val = .rat x →
        ¬ Clamped container.cgroup x) := by
  rw [requestAndReadBack, bind_ok_iff] at hrun
  obtain ⟨values', w₁, hcreate, hrun⟩ := hrun
  obtain ⟨hcreate', rfl⟩ := run_liftM_ok_iff.mp hcreate
  rw [bind_ok_iff] at hrun
  obtain ⟨_, w₂, hvalidate, hrun⟩ := hrun
  rw [bind_ok_iff] at hrun
  obtain ⟨_, w₃, hperform, hrun⟩ := hrun
  rw [bind_ok_iff] at hrun
  obtain ⟨_, _, hget, hrun⟩ := hrun
  cases hget
  rw [bind_ok_iff] at hrun
  obtain ⟨current, w₄, hread, hrun⟩ := hrun
  obtain ⟨hread', rfl⟩ := run_liftM_ok_iff.mp hread
  rw [bind_ok_iff] at hrun
  obtain ⟨currentValues', w₅, hcurrent, hrun⟩ := hrun
  obtain ⟨hcurrent', rfl⟩ := run_liftM_ok_iff.mp hcurrent
  cases hrun
  obtain ⟨heap, hvalid, -⟩ := zoom_ok_iff.mp hvalidate
  obtain ⟨hkeys, hbuilt⟩ := Dict.comprehendM_ok hcreate'
  obtain ⟨-, hbuilt'⟩ := Dict.comprehendM_ok hcurrent'
  -- every entry of the request has a value, is valid, was settled and is read back
  have hentry : ∀ t raw, request.get? t = some raw → ∃ v c target change,
      values.get? t = some v ∧ currentValues.get? t = some c ∧
      calculateChangeset v c = .ok (target, change) ∧
      (change = none ↔ ∀ q x, t = .QUOTA → raw = .num q → q.val = .rat x →
        ¬ Clamped container.cgroup x) := by
    intro t raw hraw
    obtain ⟨v, hv, hvget⟩ := hbuilt t raw (Dict.get?_eq_some_iff.mp hraw)
    obtain ⟨s, s', hval⟩ := forM_ok_mem hvalid v
      (Dict.mem_values.mpr ⟨t, Dict.get?_eq_some_iff.mp hvget⟩)
    obtain ⟨raw', hraw', hcmp⟩ := compare_entry hcfg hcpus
      (htypes t (Dict.mem_keys_iff_get?.mpr ⟨raw, hraw⟩)) (fun q hq => hrat t q (hq ▸ hraw)) hv hval
      (performAllocations_settled htypes hne hcreate' hperform t raw hraw) hread'
    obtain ⟨c, hc, hcget⟩ := hbuilt' t raw' (Dict.get?_eq_some_iff.mp hraw')
    obtain ⟨target, change, hcalc, hiff⟩ := hcmp c hc
    exact ⟨v, c, target, change, hvget, hcget, hcalc, hiff⟩
  have hraw : ∀ t v, values.get? t = some v → ∃ raw, request.get? t = some raw := fun t v hv =>
    Dict.mem_keys_iff_get?.mp (hkeys ▸ Dict.mem_keys_iff_get?.mpr ⟨v, hv⟩)
  obtain ⟨target, changeset, hcalc⟩ := AllocationsDict.calculateChangeset_returns values currentValues
    fun t v c hv hc => by
      obtain ⟨raw, hr⟩ := hraw t v hv
      obtain ⟨v', c', target, change, hv', hc', hcalc, -⟩ := hentry t raw hr
      rw [hv] at hv'
      rw [hc] at hc'
      cases hv'
      cases hc'
      exact ⟨_, hcalc⟩
  have hspec := AllocationsDict.isChangeset_of_ok hcalc
  have hplace : ∀ t raw, request.get? t = some raw →
      (AllocationsDict.entry changeset t = none ↔ ∀ q x, t = .QUOTA → raw = .num q →
        q.val = .rat x → ¬ Clamped container.cgroup x) := by
    intro t raw hr
    obtain ⟨v, c, target', change, hv, hc, hcalc', hiff⟩ := hentry t raw hr
    have hp := hspec.present t v hv
    simp only [AllocationsDict.EntryOf, hc, hcalc', Except.ok.injEq, Prod.mk.injEq] at hp
    obtain ⟨_, ⟨-, hchange⟩, -⟩ := hp
    rw [← hchange]
    exact hiff
  refine ⟨target, changeset, hcalc, ?_, ?_⟩
  · rintro rfl q x hq hx
    exact (hplace .QUOTA _ hq).mp rfl q x rfl rfl hx
  · intro hall
    refine hspec.none_of_entries fun t => ?_
    cases hr : request.get? t with
    | none =>
      refine (hspec.absent t ?_).2
      rw [Dict.get?_eq_none_iff, hkeys, ← Dict.get?_eq_none_iff]
      exact hr
    | some raw =>
      refine (hplace t raw hr).mpr fun q x ht hq hx => ?_
      subst ht hq
      exact hall q x hr hx

section

open SmallHost

theorem declared_default : ({} : AllocationConfiguration).Declared where
  cpuQuotaPeriod := ⟨1000, rfl, by norm_num, by norm_num⟩
  cpuSharesUnit := ⟨1000, rfl, by norm_num, by norm_num⟩

/-- A request for a quota and cpus, and what is read back. -/
def requestOf (quota : ℚ) : TaskAllocations := Dict.ofItems [
  (.QUOTA, .num (.float (.rat quota))), (.SHARES, .num (.float (.rat 2))),
  (.CPUSET_CPUS, .str "0-1,3")]

/-- A quota of a half on four cpus settles. -/
theorem request_settles_half : ∃ values currentValues w' target,
    (requestAndReadBack (container "t1" "a") registry (requestOf (1/2))).run (world [("t1", "a")]) =
        .ok (values, currentValues) w' ∧
      calculateChangeset values currentValues = .ok (target, none) := by
  obtain ⟨⟨values, currentValues⟩, w', hrun, -⟩ := exists_of_returnsSuch
    (r := (requestAndReadBack (container "t1" "a") registry (requestOf (1/2))).run
      (world [("t1", "a")]))
    (p := fun _ _ => true) (by decide +kernel)
  have hrat : ∀ t q, (requestOf (1/2)).get? t = some (.num q) → ∃ x, q.val = .rat x := by
    intro t q hq
    cases t <;> cases hq
    · exact ⟨_, rfl⟩
    · exact ⟨_, rfl⟩
  obtain ⟨target, changeset, hcalc, hiff⟩ := request_settles declared_default (by decide)
    (fun s hs => absurd hs List.not_mem_nil) (by decide) hrat hrun
  have hnone : changeset = none := hiff.mpr fun q x hq hx => by
    cases hq
    cases hx
    rintro ⟨hlt, -⟩
    revert hlt
    decide +kernel
  subst hnone
  exact ⟨values, currentValues, w', target, hrun, hcalc⟩

/-- A comparison returns with a changeset. -/
def changes {α : Type} : Except Exc (α × Option α) → Bool
  | .ok (_, some _) => true
  | _ => false

theorem exists_of_changes {α : Type} {r : Except Exc (α × Option α)} (h : changes r = true) :
    ∃ target changeset, r = .ok (target, some changeset) := by
  unfold changes at h
  split at h
  · exact ⟨_, _, rfl⟩
  · cases h

/-- A quota of a tenth on four cpus is clamped to a quarter, and asked for again. -/
theorem request_repeats_tenth : ∃ values currentValues w' target changeset,
    (requestAndReadBack (container "t1" "a") registry (requestOf (1/10))).run (world [("t1", "a")]) =
        .ok (values, currentValues) w' ∧
      calculateChangeset values currentValues = .ok (target, some changeset) := by
  obtain ⟨⟨values, currentValues⟩, w', hrun, hcalc⟩ := exists_of_returnsSuch
    (r := (requestAndReadBack (container "t1" "a") registry (requestOf (1/10))).run
      (world [("t1", "a")]))
    (p := fun v _ => changes (calculateChangeset v.1 v.2)) (by decide +kernel)
  obtain ⟨target, changeset, h⟩ := exists_of_changes hcalc
  exact ⟨values, currentValues, w', target, changeset, hrun, h⟩

end

end Wca
