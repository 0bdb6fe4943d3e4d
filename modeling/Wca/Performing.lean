import Wca.Reading
import Wca.Room

/-!
# When performing returns

Performing a changeset on a host where all directories are there, and where there is room for the groups
that are asked for, returns exactly when every value can be written (`Workable`).
-/

namespace Wca

open Py World Resctrl

/-! ## Control files -/

theorem Replaced.mem {path p : String} {f f' : CgroupFiles} {c c' : Cgroups}
    (h : Replaced path f f' c c') (hp : p ∈ c) : p ∈ c' := by
  rw [Dict.mem_def, Dict.mem_keys_iff_get?] at hp ⊢
  by_cases he : p = path
  · exact ⟨f', he ▸ h.after⟩
  · rw [h.other p he]
    exact hp

/-- The directory is there, and the configuration is one that the kernel takes: an integral period, and
a unit of shares. -/
structure Cgroup.Ready (cgroup : Cgroup) (c : Cgroups) : Prop where
  there : cgroup.cgroupPath ∈ c
  period : ∃ period : ℤ, cgroup.allocationConfiguration.cpuQuotaPeriod = .int period
  unit : ∃ m, cgroup.allocationConfiguration.cpuSharesUnit.val = .rat m

/-- No directory is removed. -/
def KeepsDirectories (c c' : Cgroups) : Prop := ∀ path ∈ c, path ∈ c'

theorem Replaced.keepsDirectories {path : String} {f f' : CgroupFiles} {c c' : Cgroups}
    (h : Replaced path f f' c c') : KeepsDirectories c c' := fun _ hp => h.mem hp

theorem Cgroup.Ready.mono {cgroup : Cgroup} {c c' : Cgroups} (h : cgroup.Ready c)
    (hc : KeepsDirectories c c') : cgroup.Ready c' := ⟨hc _ h.there, h.period, h.unit⟩

namespace Cgroup

variable {cgroup : Cgroup} {c : Cgroups}

theorem write_returns_iff (h : cgroup.cgroupPath ∈ c) (resource : CgroupResource) {value : Number} :
    (∃ c', (cgroup.write resource value).run c = .ok () c') ↔ ∃ n, value = .int n := by
  constructor
  · rintro ⟨c', hrun⟩
    obtain ⟨_, n, hn, -⟩ := write_ok hrun
    exact ⟨n, hn⟩
  · rintro ⟨n, rfl⟩
    obtain ⟨f, hf⟩ := Dict.mem_keys_iff_get?.mp (Dict.mem_def.mp h)
    refine ⟨c.set cgroup.cgroupPath (f.setNumber n resource), ?_⟩
    rw [write, bind_of_ok (get_run c), hf]
    rfl

theorem writeListformat_returns (h : cgroup.cgroupPath ∈ c) (resource : CpusetResource) (ids : Finset ℤ) :
    ∃ c', (cgroup.writeListformat resource ids).run c = .ok () c' := by
  obtain ⟨f, hf⟩ := Dict.mem_keys_iff_get?.mp (Dict.mem_def.mp h)
  refine ⟨c.set cgroup.cgroupPath (f.setText (encodeListformat ids) resource), ?_⟩
  rw [writeListformat, bind_of_ok (get_run c), hf]
  rfl

theorem setShares_returns_iff (h : cgroup.Ready c) {value : Number} :
    (∃ c', (cgroup.setShares value).run c = .ok () c') ↔ ∃ q, value.val = .rat q := by
  obtain ⟨m, hunit⟩ := h.unit
  rw [← Number.mul_toInt_returns_iff hunit]
  constructor
  · rintro ⟨c', hrun⟩
    obtain ⟨_, shares, hshares, -⟩ := setShares_ok hrun
    exact ⟨shares, hshares⟩
  · rintro ⟨shares, hshares⟩
    obtain ⟨c', hrun⟩ := (write_returns_iff h.there .CPU_SHARES).mpr
      ⟨if shares < MIN_SHARES then MIN_SHARES else shares, rfl⟩
    have hint : int (value.mul cgroup.allocationConfiguration.cpuSharesUnit) = .ok shares :=
      liftM_ok_iff.mpr hshares
    refine ⟨c', ?_⟩
    rw [setShares, bind_of_ok (run_liftM_ok_iff.mpr ⟨hint, rfl⟩)]
    exact hrun

/-- There is a quota for every number but a nan and the negative infinity. -/
theorem denormalizeQuota_returns_iff (h : cgroup.Ready c) {value : Number} :
    (∃ quota, cgroup.denormalizeQuota value = .ok quota) ↔ value.val = .inf ∨ ∃ q, value.val = .rat q := by
  obtain ⟨period, hperiod⟩ := h.period
  have hint : (∃ n, ((value.mul cgroup.allocationConfiguration.cpuQuotaPeriod).mul
      (.int cgroup.platform.cpus)).toInt = .ok n) ↔ ∃ q, value.val = .rat q := by
    rw [Number.mul_toInt_returns_iff rfl, Number.val_mul, hperiod]
    exact Flt.mul_rat_eq_rat
  unfold denormalizeQuota
  split
  · rename_i hge
    refine iff_of_true ⟨_, rfl⟩ ?_
    cases hv : value.val with
    | inf => exact .inl rfl
    | rat q => exact .inr ⟨q, rfl⟩
    | nan | negInf =>
      rw [hv] at hge
      cases hge
  · rename_i hge
    have hinf : value.val ≠ .inf := by
      intro hv
      rw [hv] at hge
      exact hge rfl
    rw [or_iff_right hinf, ← hint]
    constructor
    · rintro ⟨_, hquota⟩
      obtain ⟨n, hn, -⟩ := except_bind_ok_iff.mp hquota
      exact ⟨n, liftM_ok_iff.mp hn⟩
    · rintro ⟨n, hn⟩
      exact ⟨_, except_bind_ok_iff.mpr ⟨n, liftM_ok_iff.mpr hn, rfl⟩⟩

theorem setQuota_returns_iff (h : cgroup.Ready c) {value : Number} :
    (∃ c', (cgroup.setQuota value).run c = .ok () c') ↔ value.val = .inf ∨ ∃ q, value.val = .rat q := by
  rw [← denormalizeQuota_returns_iff h]
  constructor
  · rintro ⟨c', hrun⟩
    obtain ⟨_, quota, _, hquota, -⟩ := setQuota_ok hrun
    exact ⟨quota, hquota⟩
  · rintro ⟨quota, hquota⟩
    obtain ⟨f, hf⟩ := Dict.mem_keys_iff_get?.mp (Dict.mem_def.mp h.there)
    have hread : cgroup.read .CPU_PERIOD c = .ok f.cpuPeriod := by
      simp only [read, readRaw, hf, except_ok_bind, except_pure, CgroupFiles.number]
    obtain ⟨c₁, hperiodrun, hin⟩ : ∃ c₁, (doIf (Flt.rat f.cpuPeriod ≠
        cgroup.allocationConfiguration.cpuQuotaPeriod.val)
          (cgroup.write .CPU_PERIOD cgroup.allocationConfiguration.cpuQuotaPeriod)).run c = .ok () c₁ ∧
        cgroup.cgroupPath ∈ c₁ := by
      by_cases hp : Flt.rat f.cpuPeriod ≠ cgroup.allocationConfiguration.cpuQuotaPeriod.val
      · obtain ⟨c₁, hrun⟩ := (write_returns_iff h.there .CPU_PERIOD).mpr h.period
        obtain ⟨_, _, -, hr⟩ := write_ok hrun
        exact ⟨c₁, by rw [doIf_of hp]; exact hrun, hr.mem h.there⟩
      · exact ⟨c, by rw [doIf_of_not hp]; rfl, h.there⟩
    obtain ⟨c', hrun⟩ := (write_returns_iff hin .CPU_QUOTA).mpr ⟨quota, rfl⟩
    refine ⟨c', ?_⟩
    rw [setQuota, bind_of_ok (get_run c), bind_of_ok (run_liftM_ok_iff.mpr ⟨hread, rfl⟩),
      bind_of_ok hperiodrun, bind_of_ok (run_liftM_ok_iff.mpr ⟨hquota, rfl⟩)]
    exact hrun

end Cgroup

/-- Control files were written, and nothing else happened. -/
structure Host.Kept (h h' : Host) : Prop where
  resctrl : h'.resctrl = h.resctrl
  directories : KeepsDirectories h.cgroups h'.cgroups

theorem Host.Kept.refl (h : Host) : h.Kept h := ⟨rfl, fun _ hp => hp⟩

theorem Host.Kept.trans {h h' h'' : Host} (hk : h.Kept h') (hk' : h'.Kept h'') : h.Kept h'' :=
  ⟨hk'.resctrl.trans hk.resctrl, fun path hp => hk'.directories path (hk.directories path hp)⟩

theorem onCgroups_returns_iff {α : Type} {x : EStateM Exc Cgroups α} {h : Host} {a : α} :
    (∃ h', (Host.onCgroups x).run h = .ok a h') ↔ ∃ c', x.run h.cgroups = .ok a c' := by
  constructor
  · rintro ⟨h', hrun⟩
    exact ⟨h'.cgroups, (onCgroups_ok hrun).1⟩
  · rintro ⟨c', hrun⟩
    exact ⟨_, zoom_ok_iff.mpr ⟨c', hrun, rfl⟩⟩

theorem onCgroups_kept {x : EStateM Exc Cgroups Unit} {h h' : Host} {u : Unit}
    (hx : ∀ c c' u, x.run c = .ok u c' → KeepsDirectories c c')
    (hrun : (Host.onCgroups x).run h = .ok u h') : h.Kept h' := by
  obtain ⟨hc, hresctrl⟩ := onCgroups_ok hrun
  exact ⟨hresctrl, hx _ _ _ hc⟩

/-- The files of one cgroup after another are written. -/
theorem forM_onCgroups_returns {x : Cgroup → EStateM Exc Cgroups Unit} {cgroups : List Cgroup} {h : Host}
    (hreturns : ∀ s c, s.Ready c → ∃ c', (x s).run c = .ok () c')
    (hx : ∀ s c c' u, (x s).run c = .ok u c' → KeepsDirectories c c')
    (hready : ∀ s ∈ cgroups, s.Ready h.cgroups) :
    ∃ h', (forM cgroups fun s => Host.onCgroups (x s)).run h = .ok ⟨⟩ h' := by
  have hall : (∃ h', (forM cgroups fun s => Host.onCgroups (x s)).run h = .ok ⟨⟩ h') ↔
      ∀ s ∈ cgroups, True := by
    refine forM_returns_iff (I := fun post t => ∀ s ∈ post, s.Ready t.cgroups) hready
      fun s post t ht => ⟨?_, fun t' hrun s' hs' => ?_⟩
    · exact iff_of_true (onCgroups_returns_iff.mpr (hreturns s _ (ht s List.mem_cons_self))) trivial
    · exact (ht s' (List.mem_cons_of_mem _ hs')).mono (onCgroups_kept (hx s) hrun).directories
  exact hall.mpr fun _ _ => trivial

theorem forM_onCgroups_kept {x : Cgroup → EStateM Exc Cgroups Unit} {cgroups : List Cgroup} {h h' : Host}
    {u : PUnit} (hx : ∀ s c c' u, (x s).run c = .ok u c' → KeepsDirectories c c')
    (hrun : (forM cgroups fun s => Host.onCgroups (x s)).run h = .ok u h') : h.Kept h' :=
  forM_ok_inv (I := fun t => h.Kept t) hrun (.refl h) fun s _ _ _ ht hs =>
    ht.trans (onCgroups_kept (hx s) hs)

namespace Cgroup

variable {cgroup : Cgroup} {c c' : Cgroups} {u : Unit}

theorem write_keeps {resource : CgroupResource} {value : Number}
    (h : (cgroup.write resource value).run c = .ok u c') : KeepsDirectories c c' := by
  obtain ⟨f, n, -, hr⟩ := write_ok h
  exact hr.keepsDirectories

theorem setShares_keeps {value : Number} (h : (cgroup.setShares value).run c = .ok u c') :
    KeepsDirectories c c' := by
  obtain ⟨f, shares, -, hr⟩ := setShares_ok h
  exact hr.keepsDirectories

theorem setQuota_keeps {value : Number} (h : (cgroup.setQuota value).run c = .ok u c') :
    KeepsDirectories c c' := by
  obtain ⟨f, quota, period, -, -, hr⟩ := setQuota_ok h
  exact hr.keepsDirectories

theorem writeListformat_keeps {resource : CpusetResource} {ids : Finset ℤ}
    (h : (cgroup.writeListformat resource ids).run c = .ok u c') : KeepsDirectories c c' := by
  obtain ⟨f, hr⟩ := writeListformat_ok h
  exact hr.keepsDirectories

end Cgroup

theorem QuotaAllocationValue.performAllocations_kept {v : QuotaAllocationValue} {h h' : Host} {u : Unit}
    (hrun : v.performAllocations.run h = .ok u h') : h.Kept h' := by
  obtain ⟨_, h₁, hown, hsubs⟩ := bind_ok_iff.mp hrun
  exact (onCgroups_kept (fun _ _ _ => Cgroup.setQuota_keeps) hown).trans
    (forM_onCgroups_kept (fun _ _ _ _ => Cgroup.setQuota_keeps) hsubs)

theorem QuotaAllocationValue.performAllocations_returns_iff {v : QuotaAllocationValue} {h : Host}
    (hown : v.cgroup.Ready h.cgroups) (hsubs : ∀ s ∈ v.subcgroups, s.Ready h.cgroups) :
    (∃ h', v.performAllocations.run h = .ok () h') ↔
      v.value.val = .inf ∨ ∃ q, v.value.val = .rat q := by
  rw [← Cgroup.setQuota_returns_iff hown, ← onCgroups_returns_iff]
  constructor
  · rintro ⟨h', hrun⟩
    obtain ⟨_, h₁, hown', -⟩ := bind_ok_iff.mp hrun
    exact ⟨h₁, hown'⟩
  · rintro ⟨h₁, hown'⟩
    have hkept := onCgroups_kept (fun _ _ _ => Cgroup.setQuota_keeps) hown'
    obtain ⟨h', hrun⟩ := forM_onCgroups_returns
      (x := fun s => s.setQuota (.float (.rat QUOTA_NORMALIZED_MAX)))
      (fun s c hs => (Cgroup.setQuota_returns_iff hs).mpr (.inr ⟨_, rfl⟩))
      (fun _ _ _ _ => Cgroup.setQuota_keeps) fun s hs => (hsubs s hs).mono hkept.directories
    exact ⟨h', bind_ok_iff.mpr ⟨_, h₁, hown', hrun⟩⟩

theorem ListFormatBasedAllocationValue.performAllocations_kept {v : ListFormatBasedAllocationValue}
    {h h' : Host} {u : Unit} (hrun : v.performAllocations.run h = .ok u h') : h.Kept h' := by
  obtain ⟨ids, h₁, hids, hwrite⟩ := bind_ok_iff.mp hrun
  obtain ⟨-, rfl⟩ := run_liftM_ok_iff.mp hids
  split at hwrite
  · exact forM_onCgroups_kept (fun _ _ _ _ => Cgroup.writeListformat_keeps) hwrite
  · exact onCgroups_kept (fun _ _ _ => Cgroup.writeListformat_keeps) hwrite

theorem ListFormatBasedAllocationValue.performAllocations_returns_iff {v : ListFormatBasedAllocationValue}
    {h : Host} (hown : v.cgroup.Ready h.cgroups) (hsubs : ∀ s ∈ v.subcgroups, s.Ready h.cgroups) :
    (∃ h', v.performAllocations.run h = .ok () h') ↔ ∃ ids, decodeListformat v.value = .ok ids := by
  constructor
  · rintro ⟨h', hrun⟩
    obtain ⟨ids, h₁, hids, -⟩ := bind_ok_iff.mp hrun
    exact ⟨ids, liftM_ok_iff.mp (run_liftM_ok_iff.mp hids).1⟩
  · rintro ⟨ids, hids⟩
    have hdecode : decode v.value = .ok ids := liftM_ok_iff.mpr hids
    unfold performAllocations
    rw [bind_of_ok (run_liftM_ok_iff.mpr ⟨hdecode, rfl⟩)]
    split
    · exact forM_onCgroups_returns (x := fun s => s.writeListformat v.resource ids)
        (fun s c hs => Cgroup.writeListformat_returns hs.there _ _)
        (fun _ _ _ _ => Cgroup.writeListformat_keeps) hsubs
    · exact onCgroups_returns_iff.mpr (Cgroup.writeListformat_returns hown.there _ _)

/-! ## Values of every kind -/

theorem onHost_returns_iff {α : Type} {x : EStateM Exc Host α} {w : World} {a : α} :
    (∃ w', (World.onHost x).run w = .ok a w') ↔ ∃ h', x.run w.host = .ok a h' := by
  constructor
  · rintro ⟨w', hrun⟩
    exact ⟨w'.host, onHost_ok hrun⟩
  · rintro ⟨h', hrun⟩
    exact ⟨_, zoom_ok_iff.mpr ⟨h', hrun, rfl⟩⟩

namespace LeafValue

/-- The cgroups that the value writes to are ready. -/
def Attached (c : Cgroups) : LeafValue → Prop
  | quota v => v.cgroup.Ready c ∧ ∀ s ∈ v.subcgroups, s.Ready c
  | shares v => v.cgroup.Ready c
  | memoryMigrate v => v.cgroup.Ready c
  | cpuset v => v.cgroup.Ready c ∧ ∀ s ∈ v.subcgroups, s.Ready c
  | migratePages _ | rdt _ => True

/-- The value can be written: it has a number that the control file takes, ids, a node that pages can
be moved to unless there are no processes, or a group that the kernel accepts. -/
def Workable (r : Resctrl) : LeafValue → Prop
  | quota v => v.value.val = .inf ∨ ∃ q, v.value.val = .rat q
  | shares v => ∃ q, v.value.val = .rat q
  | memoryMigrate v => ∃ n, v.value = .int n
  | migratePages v => (exponent? v.value).isSome = true ∨ v.container.getPids false r = []
  | cpuset v => ∃ ids, decodeListformat v.value = .ok ids
  | rdt v => v.Grantable

theorem Attached.mono {c c' : Cgroups} {v : LeafValue} (h : v.Attached c) (hc : KeepsDirectories c c') :
    v.Attached c' := by
  cases v with
  | quota v => exact ⟨h.1.mono hc, fun s hs => (h.2 s hs).mono hc⟩
  | shares v => exact Cgroup.Ready.mono h hc
  | memoryMigrate v => exact Cgroup.Ready.mono h hc
  | cpuset v => exact ⟨h.1.mono hc, fun s hs => (h.2 s hs).mono hc⟩
  | migratePages _ | rdt _ => trivial

/-- No process changes its cgroup. -/
theorem workable_congr {r r' : Resctrl} (h : kinds r' = kinds r) (v : LeafValue) :
    v.Workable r' ↔ v.Workable r := by
  cases v with
  | migratePages v =>
    change _ ∨ v.container.getPids false r' = [] ↔ _
    rw [Container.getPids_congr h]
    rfl
  | _ => exact Iff.rfl

end LeafValue

theorem migratePages_returns_iff {pids : List Pid} {node : Number} (numaNodes : Nat) :
    (∃ calls, migratePages pids node numaNodes = .ok calls) ↔ (exponent? node).isSome = true ∨ pids = [] := by
  unfold migratePages
  cases exponent? node with
  | some n => simp
  | none => by_cases h : pids = [] <;> simp [h]

theorem MigratePagesAllocationValue.performAllocations_returns_iff {v : MigratePagesAllocationValue}
    {w : World} : (∃ w', (LeafValue.migratePages v).performAllocations.run w = .ok () w') ↔
      (LeafValue.migratePages v).Workable w.host.resctrl := by
  change _ ↔ _ ∨ _
  rw [← migratePages_returns_iff v.platform.numaNodes]
  unfold LeafValue.performAllocations
  dsimp only
  rw [bind_of_ok (get_run w)]
  constructor
  · rintro ⟨w', hrun⟩
    obtain ⟨calls, w₁, hcalls, -⟩ := bind_ok_iff.mp hrun
    exact ⟨calls, (run_liftM_ok_iff.mp hcalls).1⟩
  · rintro ⟨calls, hcalls⟩
    have hperform : v.performAllocations w.host.resctrl = .ok calls := hcalls
    rw [bind_of_ok (run_liftM_ok_iff.mpr ⟨hperform, rfl⟩)]
    exact ⟨_, rfl⟩

/-- What the run goes on with: the values that are left find their directories and their groups. -/
structure Leftover (w₀ : World) (leaves : List LeafValue) (w : World) : Prop where
  attached : ∀ v ∈ leaves, v.Attached w.host.cgroups
  roomy : Roomy w.host.resctrl (leaves.filterMap LeafValue.rdt?)
  kinds : kinds w.host.resctrl = kinds w₀.host.resctrl

/-- A value of a cgroup leaves the groups alone. -/
theorem Leftover.kept {w₀ w w' : World} {v : LeafValue} {leaves : List LeafValue}
    (h : Leftover w₀ (v :: leaves) w) (hrdt : v.rdt? = none) (hk : w.host.Kept w'.host) :
    Leftover w₀ leaves w' := by
  have hroomy := h.roomy
  rw [List.filterMap_cons_none hrdt] at hroomy
  refine ⟨fun u hu => (h.attached u (List.mem_cons_of_mem _ hu)).mono hk.directories, ?_, ?_⟩
  · rw [hk.resctrl]
    exact hroomy
  · rw [hk.resctrl]
    exact h.kinds

/-- Performing the first of the values that are left. -/
theorem Leftover.step {w₀ w : World} {v : LeafValue} {leaves : List LeafValue}
    (h : Leftover w₀ (v :: leaves) w) :
    ((∃ w', v.performAllocations.run w = .ok () w') ↔ v.Workable w₀.host.resctrl) ∧
      ∀ w', v.performAllocations.run w = .ok () w' → Leftover w₀ leaves w' := by
  rw [← LeafValue.workable_congr h.kinds]
  have hattached := h.attached v List.mem_cons_self
  cases v with
  | quota v =>
    refine ⟨onHost_returns_iff.trans
      (QuotaAllocationValue.performAllocations_returns_iff hattached.1 hattached.2), fun w' hrun => ?_⟩
    exact h.kept rfl (QuotaAllocationValue.performAllocations_kept (onHost_ok hrun))
  | shares v =>
    refine ⟨onHost_returns_iff.trans (onCgroups_returns_iff.trans
      (Cgroup.setShares_returns_iff hattached)), fun w' hrun => ?_⟩
    exact h.kept rfl (onCgroups_kept (fun _ _ _ => Cgroup.setShares_keeps) (onHost_ok hrun))
  | memoryMigrate v =>
    refine ⟨onHost_returns_iff.trans (onCgroups_returns_iff.trans
      (Cgroup.write_returns_iff hattached.there _)), fun w' hrun => ?_⟩
    exact h.kept rfl (onCgroups_kept (fun _ _ _ => Cgroup.write_keeps) (onHost_ok hrun))
  | cpuset v =>
    refine ⟨onHost_returns_iff.trans
      (ListFormatBasedAllocationValue.performAllocations_returns_iff hattached.1 hattached.2),
      fun w' hrun => ?_⟩
    exact h.kept rfl (ListFormatBasedAllocationValue.performAllocations_kept (onHost_ok hrun))
  | migratePages v =>
    refine ⟨MigratePagesAllocationValue.performAllocations_returns_iff, fun w' hrun => ?_⟩
    obtain ⟨_, w₁, hget, hrest⟩ := bind_ok_iff.mp hrun
    cases hget
    obtain ⟨calls, w₂, hcalls, hset⟩ := bind_ok_iff.mp hrest
    obtain ⟨-, rfl⟩ := run_liftM_ok_iff.mp hcalls
    cases hset
    exact h.kept rfl (.refl _)
  | rdt v =>
    have hroomy : Roomy w.host.resctrl (v :: leaves.filterMap LeafValue.rdt?) := h.roomy
    obtain ⟨hreturns, hafter⟩ := RDTAllocationValue.performAllocations_step hroomy
    refine ⟨hreturns, fun w' hrun => ?_⟩
    obtain ⟨hroomy', hkinds, hcgroups⟩ := hafter w' hrun
    refine ⟨fun u hu => ?_, hroomy', hkinds.trans h.kinds⟩
    rw [hcgroups]
    exact h.attached u (List.mem_cons_of_mem _ hu)

/-- **All values.** By induction on the values that are left. -/
theorem forM_performAllocations_returns_iff {leaves : List LeafValue} {w : World}
    (h : Leftover w leaves w) :
    (∃ w', (forM leaves LeafValue.performAllocations).run w = .ok ⟨⟩ w') ↔
      ∀ v ∈ leaves, v.Workable w.host.resctrl :=
  forM_returns_iff (I := fun post t => Leftover w post t) h fun _ _ _ ht => ht.step

/-- The values of a nest, in the order in which they are performed. -/
def leavesOf (values : TasksAllocationsValues) : List LeafValue := values.values.flatMap Dict.values

theorem performAllocations_eq_forM (values : TasksAllocationsValues) :
    performAllocations values = forM (leavesOf values) LeafValue.performAllocations :=
  (forM_flatMap _ _ _).symm

theorem mem_leavesOf {values : TasksAllocationsValues} {v : LeafValue} :
    v ∈ leavesOf values ↔ ∃ task t, AllocationsDict.leaf values task t = some v := by
  simp only [leavesOf, List.mem_flatMap, Dict.mem_values, AllocationsDict.leaf_mem]
  constructor
  · rintro ⟨m, ⟨task, hm⟩, t, hv⟩
    exact ⟨task, t, m, hm, hv⟩
  · rintro ⟨task, t, m, hm, hv⟩
    exact ⟨m, ⟨task, hm⟩, t, hv⟩

/-- Values of the list are from different places. -/
theorem pairwise_leavesOf {values : TasksAllocationsValues} {R : LeafValue → LeafValue → Prop}
    (hR : ∀ task t v task' t' v', AllocationsDict.leaf values task t = some v →
      AllocationsDict.leaf values task' t' = some v' → task ≠ task' ∨ t ≠ t' → R v v') :
    (leavesOf values).Pairwise R := by
  have hkeys : values.items.Pairwise fun p q => p.1 ≠ q.1 := List.pairwise_map.mp values.nodup
  refine List.pairwise_flatMap.mpr ⟨fun m hm => ?_, List.pairwise_map.mpr (hkeys.imp_of_mem ?_)⟩
  · obtain ⟨task, htask⟩ := Dict.mem_values.mp hm
    have htypes : m.items.Pairwise fun p q => p.1 ≠ q.1 := List.pairwise_map.mp m.nodup
    refine List.pairwise_map.mpr (htypes.imp_of_mem fun hp hq hne => ?_)
    exact hR task _ _ task _ _ (AllocationsDict.leaf_mem.mpr ⟨m, htask, hp⟩)
      (AllocationsDict.leaf_mem.mpr ⟨m, htask, hq⟩) (.inr hne)
  · intro p q hp hq hne v hv v' hv'
    obtain ⟨t, ht⟩ := Dict.mem_values.mp hv
    obtain ⟨t', ht'⟩ := Dict.mem_values.mp hv'
    exact hR p.1 t v q.1 t' v' (AllocationsDict.leaf_mem.mpr ⟨p.2, hp, ht⟩)
      (AllocationsDict.leaf_mem.mpr ⟨q.2, hq, ht'⟩) (.inl hne)

end Wca
