import Wca.Creation
import Wca.Convergence

/-!
# Values of what is read

The current allocations are read from the kernel and made into values before the `try` block. The
checks are those for an allocator's output, and they refuse some of what a kernel may report:
`createCurrent_returns_iff` says what.
-/

namespace Wca

open Py AllocationsDict

/-! ## What the kernel reports -/

/-- Contents of control files as the kernel reports them. -/
structure CgroupFiles.Reported (f : CgroupFiles) : Prop where
  quota : f.cpuQuota = QUOTA_NOT_SET ∨ QUOTA_MINIMUM_VALUE ≤ f.cpuQuota
  period : 0 < f.cpuPeriod
  shares : MIN_SHARES ≤ f.cpuShares
  memoryMigrate : f.memoryMigrate = 0 ∨ f.memoryMigrate = 1
  ids : ∀ resource, ∃ ids, decodeListformat (Str.strip (f.text resource)) = .ok ids ∧
    ∀ id ∈ ids, 0 ≤ id

namespace Container

variable (self : Container)

/-- The cgroup whose cpuset is reported as that of the container. -/
def shownCgroup : Cgroup := self.subcgroups.headD self.cgroup

/-- The directories of the container are there. -/
def Readable (h : Host) : Prop :=
  self.cgroup.cgroupPath ∈ h.cgroups ∧ (∀ s ∈ self.subcgroups, s.cgroupPath ∈ h.cgroups) ∧
    (self.platform.rdtInformation.any (·.isControlEnabled) = true →
      ∀ g, self.resgroup = some g → g.name ∈ h.resctrl.groups)

end Container

namespace AllocationRunner

/-- A container that was created for this platform, and put into a group by a sync. -/
structure Watches (runner : AllocationRunner) (c : Container) (h : Host) : Prop where
  platform : c.platform = runner.platform
  declared : c.cgroup.allocationConfiguration.Declared
  resgroup : runner.rdtEnabled = true → ∃ g, c.resgroup = some g
  reported : ∀ cgroup ∈ c.cgroup :: c.subcgroups, ∀ f, h.cgroups.get? cgroup.cgroupPath = some f →
    f.Reported

/-- A platform that was initialized, and no more groups than it can have. -/
structure Healthy (runner : AllocationRunner) (h : Host) : Prop where
  rdt : runner.platform.rdtInformation.isSome = runner.rdtEnabled
  closids : ∀ i, runner.platform.rdtInformation = some i → ∃ n, i.numClosids = some n ∧
    (h.resctrl.groups.len : ℤ) ≤ n
  cpus : 1 ≤ runner.platform.cpus
  watches : ∀ p ∈ runner.containers.items, runner.Watches p.2.2 h

/-- What is reported for the container is within the range for allocators: a quota up to the whole
platform, cpus and memory nodes numbered below their counts, and lines that pass the validators. -/
structure Fits (runner : AllocationRunner) (c : Container) (h : Host) : Prop where
  quota : ∀ f, h.cgroups.get? c.cgroup.cgroupPath = some f →
    f.cpuQuota ≤ f.cpuPeriod * runner.platform.cpus
  cpus : ∀ f ids, h.cgroups.get? c.shownCgroup.cgroupPath = some f →
    decodeListformat (Str.strip f.cpusetCpus) = .ok ids → ∀ id ∈ ids, id < runner.platform.cpus
  mems : ∀ f ids, h.cgroups.get? c.shownCgroup.cgroupPath = some f →
    decodeListformat (Str.strip f.cpusetMems) = .ok ids → ∀ id ∈ ids, id < runner.platform.nodeCpus.len
  schemata : ∀ i g group, runner.platform.rdtInformation = some i → i.isControlEnabled = true →
    c.resgroup = some g → h.resctrl.groups.get? g.name = some group →
    RDTAllocationValue.checkL3 runner.platform.sockets i
      ((group.schemata.get? "L3").map (Resctrl.showRow "L3")) = .ok () ∧
    RDTAllocationValue.checkMb runner.platform.sockets i
      ((group.schemata.get? "MB").map (Resctrl.showRow "MB")) = .ok ()

/-- The values of the current allocations. -/
def createCurrent (self : AllocationRunner) : EStateM Exc World TasksAllocationsValues := do
  let w ← get
  let currentAllocations ← getTasksAllocations self.containers w.host
  World.onHeap (self.create currentAllocations)

end AllocationRunner

/-! ## The allocations of one container -/

/-- The quota that is reported, as a fraction of the platform. -/
def CgroupFiles.quota (f : CgroupFiles) (cpus : Nat) : ℚ :=
  if f.cpuQuota = QUOTA_NOT_SET then QUOTA_NORMALIZED_MAX else f.cpuQuota / f.cpuPeriod / cpus

/-- The allocations of a cgroup, and those of subcgroups, as dictionaries. -/
def cgroupAllocations (quota shares cpus mems memoryMigrate : RawValue) : TaskAllocations :=
  Dict.ofItems [(.QUOTA, quota), (.SHARES, shares), (.CPUSET_CPUS, cpus), (.CPUSET_MEMS, mems),
    (.CPUSET_MEMORY_MIGRATE, memoryMigrate)]

def cpusetAllocations (cpus mems : RawValue) : TaskAllocations :=
  Dict.ofItems [(.CPUSET_CPUS, cpus), (.CPUSET_MEMS, mems)]

theorem get?_cgroupAllocations (quota shares cpus mems memoryMigrate : RawValue)
    (t : AllocationType) : (cgroupAllocations quota shares cpus mems memoryMigrate).get? t =
      match t with
      | .QUOTA => some quota
      | .SHARES => some shares
      | .CPUSET_CPUS => some cpus
      | .CPUSET_MEMS => some mems
      | .CPUSET_MEMORY_MIGRATE => some memoryMigrate
      | .RDT | .MIGRATE_PAGES => none := by
  simp only [cgroupAllocations, Dict.ofItems, List.foldl_cons, List.foldl_nil, Dict.get?_set,
    Dict.get?_empty]
  cases t <;> rfl

theorem get?_cpusetAllocations (cpus mems : RawValue) (t : AllocationType) :
    (cpusetAllocations cpus mems).get? t =
      match t with
      | .CPUSET_CPUS => some cpus
      | .CPUSET_MEMS => some mems
      | _ => none := by
  simp only [cpusetAllocations, Dict.ofItems, List.foldl_cons, List.foldl_nil, Dict.get?_set,
    Dict.get?_empty]
  cases t <;> rfl

theorem Cgroup.getAllocations_of_reported {cgroup : Cgroup} {c : Cgroups} {f : CgroupFiles}
    (hf : c.get? cgroup.cgroupPath = some f) (hr : f.Reported) (hcpus : 1 ≤ cgroup.platform.cpus)
    {m : ℚ} (hm : cgroup.allocationConfiguration.cpuSharesUnit.val = .rat m) (hm0 : 1000 ≤ m)
    {cpus mems : Finset ℤ} (hc : decodeListformat (Str.strip f.cpusetCpus) = .ok cpus)
    (hmems : decodeListformat (Str.strip f.cpusetMems) = .ok mems) :
    cgroup.getAllocations c = .ok (cgroupAllocations
      (.num (.float (.rat (f.quota cgroup.platform.cpus)))) (.num (.float (.rat (f.cpuShares / m))))
      (.str (encodeListformat cpus)) (.str (encodeListformat mems))
      (.num (.int f.memoryMigrate))) := by
  have hraw : cgroup.readRaw c = .ok f := by simp only [Cgroup.readRaw, hf]
  have hquota : cgroup.getNormalizedQuota c = .ok (.rat (f.quota cgroup.platform.cpus)) := by
    have hview : viewAt .QUOTA cgroup.cgroupPath c = some (f.cpuQuota, f.cpuPeriod, "") := by
      rw [viewAt, hf]
      rfl
    rw [getNormalizedQuota_of_viewAt hview (ne_of_gt hr.period) (by omega), CgroupFiles.quota]
    split <;> rfl
  have hshares : cgroup.getNormalizedShares c = .ok (.rat (f.cpuShares / m)) :=
    getNormalizedShares_of_viewAt (by rw [viewAt, hf]; rfl) hm (by linarith)
  simp only [Cgroup.getAllocations, hquota, hshares, Cgroup.readListformat, Cgroup.read, hraw,
    except_ok_bind, CgroupFiles.text, CgroupFiles.number, hc, hmems, liftM_ok, except_pure,
    cgroupAllocations]

theorem Cgroup.readListformat_of_reported {cgroup : Cgroup} {c : Cgroups} {f : CgroupFiles}
    {resource : CpusetResource} {ids : Finset ℤ} (hf : c.get? cgroup.cgroupPath = some f)
    (hids : decodeListformat (Str.strip (f.text resource)) = .ok ids) :
    cgroup.readListformat resource c = .ok (encodeListformat ids) := by
  simp only [Cgroup.readListformat, Cgroup.readRaw, hf, except_ok_bind, hids, liftM_ok, except_pure]

/-- The cpusets of the subcgroups: those of the first one, once all can be read. -/
theorem Container.getSubcgroupsCpusetAllocations_of_reported {container : Container} {c : Cgroups}
    (hr : ∀ s ∈ container.subcgroups, ∃ f, c.get? s.cgroupPath = some f ∧ f.Reported) :
    (container.subcgroups = [] ∧ container.getSubcgroupsCpusetAllocations c = .ok ∅) ∨
    ∃ f cpus mems, c.get? container.shownCgroup.cgroupPath = some f ∧
      decodeListformat (Str.strip f.cpusetCpus) = .ok cpus ∧
      decodeListformat (Str.strip f.cpusetMems) = .ok mems ∧
      container.getSubcgroupsCpusetAllocations c =
        .ok (cpusetAllocations (.str (encodeListformat cpus)) (.str (encodeListformat mems))) := by
  have hread : ∀ s ∈ container.subcgroups, ∃ texts : String × String, (do
      let cpus ← s.readListformat .CPUSET_CPUS c
      let mems ← s.readListformat .CPUSET_MEMS c
      pure (cpus, mems)) = .ok texts := by
    intro s hs
    obtain ⟨f, hf, hrep⟩ := hr s hs
    obtain ⟨cpus, hcpus, -⟩ := hrep.ids .CPUSET_CPUS
    obtain ⟨mems, hmems, -⟩ := hrep.ids .CPUSET_MEMS
    rw [Cgroup.readListformat_of_reported hf hcpus, Cgroup.readListformat_of_reported hf hmems]
    exact ⟨_, rfl⟩
  obtain ⟨texts, htexts⟩ := except_mapM_returns hread
  unfold Container.getSubcgroupsCpusetAllocations
  rw [htexts, except_ok_bind]
  cases hsub : container.subcgroups with
  | nil =>
    rw [hsub] at htexts
    cases htexts
    exact .inl ⟨rfl, rfl⟩
  | cons s rest =>
    obtain ⟨f, hf, hrep⟩ := hr s (by rw [hsub]; exact List.mem_cons_self)
    obtain ⟨cpus, hcpus, -⟩ := hrep.ids .CPUSET_CPUS
    obtain ⟨mems, hmems, -⟩ := hrep.ids .CPUSET_MEMS
    rw [hsub, List.mapM_cons] at htexts
    obtain ⟨first, hfirst, hrest⟩ := except_bind_ok_iff.mp htexts
    obtain ⟨others, -, hret⟩ := except_bind_ok_iff.mp hrest
    cases hret
    rw [Cgroup.readListformat_of_reported hf hcpus, Cgroup.readListformat_of_reported hf hmems]
      at hfirst
    cases hfirst
    refine .inr ⟨f, cpus, mems, ?_, hcpus, hmems, rfl⟩
    rw [Container.shownCgroup, hsub]
    exact hf

theorem Container.getSubcgroupsCpusetAllocations_of_missing {container : Container} {c : Cgroups}
    (hr : ∀ s ∈ container.subcgroups, ∀ f, c.get? s.cgroupPath = some f → f.Reported)
    (hm : ∃ s ∈ container.subcgroups, s.cgroupPath ∉ c) :
    ∃ path, container.getSubcgroupsCpusetAllocations c = .error (.MissingAllocationException path) := by
  have hmissing : ∀ s : Cgroup, c.get? s.cgroupPath = none → (do
      let cpus ← s.readListformat .CPUSET_CPUS c
      let mems ← s.readListformat .CPUSET_MEMS c
      pure (cpus, mems)) = .error (.MissingAllocationException s.cgroupPath) := by
    intro s hs
    simp only [Cgroup.readListformat, Cgroup.readRaw, hs, except_error_bind]
  unfold Container.getSubcgroupsCpusetAllocations
  cases hread : container.subcgroups.mapM fun subcgroup => (do
      let cpus ← subcgroup.readListformat .CPUSET_CPUS c
      let mems ← subcgroup.readListformat .CPUSET_MEMS c
      pure (cpus, mems)) with
  | ok r =>
    obtain ⟨s, hs, hpath⟩ := hm
    obtain ⟨_, -, hok⟩ := forall₂_exists_right (except_mapM_ok_iff.mp hread) hs
    rw [hmissing s (Dict.get?_eq_none_iff.mpr (Dict.mem_def.not.mp hpath))] at hok
    cases hok
  | error e =>
    obtain ⟨s, hs, he⟩ := except_mapM_error hread
    cases hf : c.get? s.cgroupPath with
    | none =>
      rw [hmissing s hf] at he
      cases he
      exact ⟨_, rfl⟩
    | some f =>
      obtain ⟨cpus, hcpus, -⟩ := (hr s hs f hf).ids .CPUSET_CPUS
      obtain ⟨mems, hmems, -⟩ := (hr s hs f hf).ids .CPUSET_MEMS
      rw [Cgroup.readListformat_of_reported hf hcpus, Cgroup.readListformat_of_reported hf hmems] at he
      cases he

/-- The cgroups of a watched container can be read when their directories are there. -/
theorem AllocationRunner.Watches.reads_cgroups {self : AllocationRunner} {c : Container} {h : Host}
    (hw : self.Watches c h) (hcpus1 : 1 ≤ self.platform.cpus) (hown : c.cgroup.cgroupPath ∈ h.cgroups) :
    ∃ f m cpus mems, h.cgroups.get? c.cgroup.cgroupPath = some f ∧ f.Reported ∧ (1000 : ℚ) ≤ m ∧
      decodeListformat (Str.strip f.cpusetCpus) = .ok cpus ∧
      decodeListformat (Str.strip f.cpusetMems) = .ok mems ∧
      c.cgroup.getAllocations h.cgroups = .ok (cgroupAllocations
        (.num (.float (.rat (f.quota self.platform.cpus)))) (.num (.float (.rat (f.cpuShares / m))))
        (.str (encodeListformat cpus)) (.str (encodeListformat mems)) (.num (.int f.memoryMigrate))) := by
  obtain ⟨f, hf⟩ := Dict.mem_keys_iff_get?.mp (Dict.mem_def.mp hown)
  have hrep := hw.reported c.cgroup List.mem_cons_self f hf
  obtain ⟨-, -, -, m, hm, hm0⟩ := hw.declared.bounds
  obtain ⟨cpus, hcpus, -⟩ := hrep.ids .CPUSET_CPUS
  obtain ⟨mems, hmems, -⟩ := hrep.ids .CPUSET_MEMS
  have hplatform : c.cgroup.platform = self.platform := hw.platform
  have hget := Cgroup.getAllocations_of_reported hf hrep (hplatform ▸ hcpus1) hm hm0 hcpus hmems
  rw [hplatform] at hget
  exact ⟨f, m, cpus, mems, hf, hrep, hm0, hcpus, hmems, hget⟩

theorem AllocationRunner.Watches.subcgroups_reported {self : AllocationRunner} {c : Container}
    {h : Host} (hw : self.Watches c h) (hsubs : ∀ s ∈ c.subcgroups, s.cgroupPath ∈ h.cgroups) :
    ∀ s ∈ c.subcgroups, ∃ f, h.cgroups.get? s.cgroupPath = some f ∧ f.Reported := by
  intro s hs
  obtain ⟨f, hf⟩ := Dict.mem_keys_iff_get?.mp (Dict.mem_def.mp (hsubs s hs))
  exact ⟨f, hf, hw.reported s (List.mem_cons_of_mem _ hs) f hf⟩

/-- The allocations that are read for a container. -/
structure Reads (runner : AllocationRunner) (c : Container) (h : Host) (a : TaskAllocations) : Prop where
  quota : ∃ f, h.cgroups.get? c.cgroup.cgroupPath = some f ∧ f.Reported ∧
    a.get? .QUOTA = some (.num (.float (.rat (f.quota runner.platform.cpus))))
  shares : ∃ q : ℚ, 0 ≤ q ∧ a.get? .SHARES = some (.num (.float (.rat q)))
  cpuset : ∃ f cpus mems, h.cgroups.get? c.shownCgroup.cgroupPath = some f ∧ f.Reported ∧
    decodeListformat (Str.strip f.cpusetCpus) = .ok cpus ∧
    decodeListformat (Str.strip f.cpusetMems) = .ok mems ∧
    a.get? .CPUSET_CPUS = some (.str (encodeListformat cpus)) ∧
    a.get? .CPUSET_MEMS = some (.str (encodeListformat mems))
  memoryMigrate : ∃ n : ℤ, (n = 0 ∨ n = 1) ∧ a.get? .CPUSET_MEMORY_MIGRATE = some (.num (.int n))
  migratePages : a.get? .MIGRATE_PAGES = none
  rdt : ∀ raw, a.get? .RDT = some raw → ∃ i g group, runner.platform.rdtInformation = some i ∧
    i.isControlEnabled = true ∧ c.resgroup = some g ∧ h.resctrl.groups.get? g.name = some group ∧
    raw = .rdt {
      name := some g.name
      l3 := (group.schemata.get? "L3").map (Resctrl.showRow "L3")
      mb := (group.schemata.get? "MB").map (Resctrl.showRow "MB") }
  control : ∀ i, runner.platform.rdtInformation = some i → i.isControlEnabled = true → .RDT ∈ a

theorem AllocationRunner.Healthy.reads {self : AllocationRunner} {h : Host} (hh : self.Healthy h)
    {p : TaskId × Task × Container} (hp : p ∈ self.containers.items) (hr : p.2.2.Readable h) :
    ∃ a, p.2.2.getAllocations h = .ok a ∧ Reads self p.2.2 h a := by
  have hw := hh.watches p hp
  generalize p.2.2 = c at hw hr
  obtain ⟨hown, hsubs, hgroup⟩ := hr
  obtain ⟨f, m, cpus, mems, hf, hrep, hm0, hcpus, hmems, hget⟩ := hw.reads_cgroups hh.cpus hown
  have hshares : 0 ≤ (f.cpuShares : ℚ) / m := by
    have : (2 : ℚ) ≤ f.cpuShares := by exact_mod_cast hrep.shares
    positivity
  -- the cpusets that are shown, on top of the allocations of the cgroup
  obtain ⟨a, hread, hshown⟩ : ∃ a, (do
      let allocations ← c.cgroup.getAllocations h.cgroups
      let sub ← c.getSubcgroupsCpusetAllocations h.cgroups
      pure (allocations.update sub) : Except Exc TaskAllocations) = .ok a ∧
      ∃ fs cpus mems, h.cgroups.get? c.shownCgroup.cgroupPath = some fs ∧ fs.Reported ∧
        decodeListformat (Str.strip fs.cpusetCpus) = .ok cpus ∧
        decodeListformat (Str.strip fs.cpusetMems) = .ok mems ∧
        a.get? .QUOTA = some (.num (.float (.rat (f.quota self.platform.cpus)))) ∧
        a.get? .SHARES = some (.num (.float (.rat (f.cpuShares / m)))) ∧
        a.get? .CPUSET_CPUS = some (.str (encodeListformat cpus)) ∧
        a.get? .CPUSET_MEMS = some (.str (encodeListformat mems)) ∧
        a.get? .CPUSET_MEMORY_MIGRATE = some (.num (.int f.memoryMigrate)) ∧
        a.get? .MIGRATE_PAGES = none ∧ a.get? .RDT = none := by
    rcases Container.getSubcgroupsCpusetAllocations_of_reported
        (hw.subcgroups_reported hsubs) with
      ⟨hnil, hsub⟩ | ⟨fs, cpus', mems', hfs, hcpus', hmems', hsub⟩
    · refine ⟨_, by rw [hget, hsub]; rfl, f, cpus, mems, ?_, hrep, hcpus, hmems, ?_⟩
      · rw [Container.shownCgroup, hnil]
        exact hf
      · simp [Dict.get?_update, get?_cgroupAllocations]
    · have hmem : c.shownCgroup ∈ c.cgroup :: c.subcgroups := by
        rw [Container.shownCgroup]
        cases c.subcgroups <;> simp
      refine ⟨_, by rw [hget, hsub]; rfl, fs, cpus', mems', hfs, hw.reported _ hmem fs hfs, hcpus',
        hmems', ?_⟩
      simp [Dict.get?_update, get?_cgroupAllocations, get?_cpusetAllocations]
  obtain ⟨fs, cpus', mems', hfs, hfsrep, hcpus', hmems', gquota, gshares, gcpus, gmems, gmigrate, gpages,
    grdt⟩ := hshown
  obtain ⟨own, hown', hread⟩ := except_bind_ok_iff.mp hread
  obtain ⟨sub, hsub, hret⟩ := except_bind_ok_iff.mp hread
  cases hret
  by_cases hcontrol : c.platform.rdtInformation.any (·.isControlEnabled) = true
  · obtain ⟨i, hi, hon⟩ := (Option.any_eq_true _ _).mp hcontrol
    rw [hw.platform] at hi
    obtain ⟨g, hg⟩ := hw.resgroup (by rw [← hh.rdt, hi]; rfl)
    obtain ⟨group, hgroup'⟩ := Dict.mem_keys_iff_get?.mp (Dict.mem_def.mp (hgroup hcontrol g hg))
    have hrun : c.getAllocations h = .ok ((own.update sub).set .RDT (.rdt {
        name := some g.name
        l3 := (group.schemata.get? "L3").map (Resctrl.showRow "L3")
        mb := (group.schemata.get? "MB").map (Resctrl.showRow "MB") })) := by
      unfold Container.getAllocations
      rw [hown', except_ok_bind, hsub, except_ok_bind, if_pos hcontrol, hg]
      simp only [ResGroup.getAllocations, hgroup', except_ok_bind, except_pure]
    refine ⟨_, hrun, ⟨f, hf, hrep, ?_⟩, ⟨_, hshares, ?_⟩, ⟨fs, cpus', mems', hfs, hfsrep, hcpus', hmems',
      ?_, ?_⟩, ⟨_, hrep.memoryMigrate, ?_⟩, ?_, fun raw hraw => ⟨i, g, group, hi, hon, hg, hgroup', ?_⟩,
      fun _ _ _ => Dict.mem_keys_set.mpr (.inl rfl)⟩
    · rw [Dict.get?_set_of_ne (by decide), gquota]
    · rw [Dict.get?_set_of_ne (by decide), gshares]
    · rw [Dict.get?_set_of_ne (by decide), gcpus]
    · rw [Dict.get?_set_of_ne (by decide), gmems]
    · rw [Dict.get?_set_of_ne (by decide), gmigrate]
    · rw [Dict.get?_set_of_ne (by decide), gpages]
    · rw [Dict.get?_set_self] at hraw
      exact (Option.some.inj hraw).symm
  · have hrun : c.getAllocations h = .ok (own.update sub) := by
      unfold Container.getAllocations
      rw [hown', except_ok_bind, hsub, except_ok_bind, if_neg hcontrol, except_pure]
    refine ⟨_, hrun, ⟨f, hf, hrep, gquota⟩, ⟨_, hshares, gshares⟩, ⟨fs, cpus', mems', hfs, hfsrep, hcpus',
      hmems', gcpus, gmems⟩, ⟨_, hrep.memoryMigrate, gmigrate⟩, gpages, fun raw hraw => ?_,
      fun i hi hon => absurd ?_ hcontrol⟩
    · rw [grdt] at hraw
      cases hraw
    · rw [hw.platform, hi]
      exact hon

/-- A container with a directory missing is one that is left out. -/
theorem AllocationRunner.Healthy.missing {self : AllocationRunner} {h : Host} (hh : self.Healthy h)
    {p : TaskId × Task × Container} (hp : p ∈ self.containers.items) (hr : ¬ p.2.2.Readable h) :
    ∃ path, p.2.2.getAllocations h = .error (.MissingAllocationException path) := by
  have hw := hh.watches p hp
  generalize p.2.2 = c at hw hr
  by_cases hown : c.cgroup.cgroupPath ∈ h.cgroups
  · by_cases hsubs : ∀ s ∈ c.subcgroups, s.cgroupPath ∈ h.cgroups
    · -- all cgroups are there, so the control group is not
      have hcontrol : ¬ (c.platform.rdtInformation.any (·.isControlEnabled) = true →
          ∀ g, c.resgroup = some g → g.name ∈ h.resctrl.groups) := fun hg => hr ⟨hown, hsubs, hg⟩
      push Not at hcontrol
      obtain ⟨hon, g, hg, hmissing⟩ := hcontrol
      obtain ⟨_, _, _, _, -, -, -, -, -, hown'⟩ := hw.reads_cgroups hh.cpus hown
      obtain ⟨sub, hsub⟩ : ∃ sub, c.getSubcgroupsCpusetAllocations h.cgroups = .ok sub := by
        rcases Container.getSubcgroupsCpusetAllocations_of_reported (hw.subcgroups_reported hsubs) with
          ⟨-, hsub⟩ | ⟨_, _, _, -, -, -, hsub⟩
        · exact ⟨_, hsub⟩
        · exact ⟨_, hsub⟩
      refine ⟨g.name, ?_⟩
      unfold Container.getAllocations
      rw [hown', except_ok_bind, hsub, except_ok_bind]
      simp only [hon, if_true, hg, ResGroup.getAllocations,
        Dict.get?_eq_none_iff.mpr (Dict.mem_def.not.mp hmissing)]
      rfl
    · push Not at hsubs
      obtain ⟨_, _, _, _, -, -, -, -, -, hown'⟩ := hw.reads_cgroups hh.cpus hown
      obtain ⟨path, hsub⟩ := Container.getSubcgroupsCpusetAllocations_of_missing
        (fun s hs f hf => hw.reported s (List.mem_cons_of_mem _ hs) f hf) hsubs
      refine ⟨path, ?_⟩
      unfold Container.getAllocations
      rw [hown', except_ok_bind, hsub]
      rfl
  · have hraw : c.cgroup.readRaw h.cgroups = .error (.MissingAllocationException c.cgroup.cgroupPath) := by
      simp only [Cgroup.readRaw, Dict.get?_eq_none_iff.mpr (Dict.mem_def.not.mp hown)]
    refine ⟨c.cgroup.cgroupPath, ?_⟩
    simp only [Container.getAllocations, Cgroup.getAllocations, Cgroup.getNormalizedQuota, Cgroup.read,
      hraw, except_error_bind]

/-! ## The allocations of all containers -/

/-- The readable containers are gone through in order. -/
theorem getTasksAllocations_ok {containers : Containers} {h : Host}
    (hread : ∀ p ∈ containers.items, (∃ a, p.2.2.getAllocations h = .ok a) ∨
      ∃ path, p.2.2.getAllocations h = .error (.MissingAllocationException path)) :
    ∃ current, getTasksAllocations containers h = .ok current ∧ ∀ task a,
      current.get? task = some a ↔ ∃ p ∈ containers.items, p.1 = task ∧ p.2.2.getAllocations h = .ok a := by
  unfold getTasksAllocations
  suffices hl : ∀ (f : TasksAllocations → TaskId × Task × Container → Except Exc TasksAllocations),
      (∀ acc p a, p.2.2.getAllocations h = .ok a → f acc p = .ok (acc.set p.1 a)) →
      (∀ acc p path, p.2.2.getAllocations h = .error (.MissingAllocationException path) →
        f acc p = .ok acc) →
      ∀ (l : List (TaskId × Task × Container)) (acc : TasksAllocations),
      (∀ p ∈ l, p ∈ containers.items) → (l.map Prod.fst).Nodup →
      (∀ p ∈ l, acc.get? p.1 = none) → ∃ current, l.foldlM f acc = .ok current ∧
      ∀ task a, current.get? task = some a ↔ acc.get? task = some a ∨
        ∃ p ∈ l, p.1 = task ∧ p.2.2.getAllocations h = .ok a by
    refine (hl _ ?_ ?_ containers.items ∅ (fun _ hp => hp) containers.nodup fun _ _ => rfl).imp
      fun current hc => ⟨hc.1, fun task a => by rw [hc.2]; simp⟩
    · intro acc p a ha
      simp only [ha]
    · intro acc p path hpath
      simp only [hpath]
  intro f hset hskip l
  induction l with
  | nil =>
    intro acc _ _ _
    exact ⟨acc, rfl, fun task a => by simp⟩
  | cons p l ih =>
    intro acc hmem hnd hfresh
    rw [List.map_cons, List.nodup_cons] at hnd
    rw [List.foldlM_cons]
    have hne : ∀ q ∈ l, q.1 ≠ p.1 := fun q hq he => hnd.1 (List.mem_map.mpr ⟨q, hq, he⟩)
    rcases hread p (hmem p List.mem_cons_self) with ⟨a, ha⟩ | ⟨path, hpath⟩
    · rw [hset acc p a ha, except_ok_bind]
      obtain ⟨current, hcurrent, hget⟩ := ih (acc.set p.1 a)
        (fun q hq => hmem q (List.mem_cons_of_mem _ hq)) hnd.2 fun q hq => by
          rw [Dict.get?_set_of_ne (hne q hq)]
          exact hfresh q (List.mem_cons_of_mem _ hq)
      refine ⟨current, hcurrent, fun task a' => ?_⟩
      rw [hget, Dict.get?_set, List.exists_mem_cons_iff, ha]
      have hnone := hfresh p List.mem_cons_self
      by_cases ht : task = p.1
      · subst ht
        rw [if_pos rfl, hnone]
        simp only [Option.some.injEq, Except.ok.injEq, true_and, reduceCtorEq, false_or]
      · rw [if_neg ht]
        simp only [Ne.symm ht, false_and, false_or]
    · rw [hskip acc p path hpath, except_ok_bind]
      obtain ⟨current, hcurrent, hget⟩ := ih acc (fun q hq => hmem q (List.mem_cons_of_mem _ hq)) hnd.2
        fun q hq => hfresh q (List.mem_cons_of_mem _ hq)
      refine ⟨current, hcurrent, fun task a' => ?_⟩
      rw [hget, List.exists_mem_cons_iff, hpath]
      simp only [reduceCtorEq, and_false, false_or]

/-! ## What passes -/

section

variable {self : AllocationRunner} {c : Container}

theorem passes_num_iff {t : AllocationType} {x : Number} {v : LeafValue} {b : BoxedNumeric}
    (hv : construct (self.context 0) c t (.num x) = .ok v) (hb : v.check = b.validate) :
    self.Passes c t (.num x) ↔ b.value.val.lt b.minValue = false ∧ b.maxValue.lt b.value.val = false := by
  rw [← BoxedNumeric.validate_ok_iff, ← hb]
  constructor
  · rintro ⟨w, hw, hcheck⟩
    rw [hv] at hw
    cases hw
    exact hcheck
  · intro hcheck
    exact ⟨v, hv, hcheck⟩

theorem passes_quota_iff {q : ℚ} :
    self.Passes c .QUOTA (.num (.float (.rat q))) ↔ 0 ≤ q ∧ q ≤ 1 := by
  rw [passes_num_iff (v := .quota _) rfl rfl]
  simp [Number.val, Flt.lt, not_lt]

theorem passes_shares {q : ℚ} (hq : 0 ≤ q) : self.Passes c .SHARES (.num (.float (.rat q))) := by
  rw [passes_num_iff (v := .shares _) rfl rfl]
  simp [Number.val, Flt.lt, not_lt, hq]

theorem passes_memoryMigrate {n : ℤ} (hn : n = 0 ∨ n = 1) :
    self.Passes c .CPUSET_MEMORY_MIGRATE (.num (.int n)) := by
  rw [passes_num_iff (v := .memoryMigrate _) rfl rfl]
  rcases hn with rfl | rfl <;> simp [Number.val, Flt.lt]

/-- A cpuset that is read passes when its ids are below the count. -/
theorem passes_listformat_iff {t : AllocationType} {ids : Finset ℤ} {v : ListFormatBasedAllocationValue}
    {count : ℤ} (hids : ∀ id ∈ ids, 0 ≤ id)
    (hv : construct (self.context 0) c t (.str (encodeListformat ids)) = .ok (.cpuset v))
    (hvalue : v.value = encodeListformat ids) (hmin : v.minValue = 0) (hmax : v.maxValue = count - 1) :
    self.Passes c t (.str (encodeListformat ids)) ↔ ∀ id ∈ ids, id < count := by
  have hcheck : self.Passes c t (.str (encodeListformat ids)) ↔ v.validate = .ok () := by
    constructor
    · rintro ⟨w, hw, hcheck⟩
      rw [hv] at hw
      cases hw
      exact hcheck
    · intro hcheck
      exact ⟨_, hv, hcheck⟩
  rw [hcheck, ListFormatBasedAllocationValue.validate_ok_iff, hvalue, hmin, hmax,
    decodeListformat_encodeListformat hids]
  constructor
  · rintro ⟨ids', hids', h⟩ id hid
    cases hids'
    have hne : encodeListformat ids ≠ "" :=
      encodeListformat_ne_empty hids (Finset.ne_empty_of_mem hid)
    have := (h hne).2 id hid
    omega
  · intro h
    refine ⟨ids, rfl, fun hne => ⟨?_, fun id hid => ⟨hids id hid, ?_⟩⟩⟩
    · rintro rfl
      exact hne rfl
    · have := h id hid
      omega

theorem quota_le_one_iff {f : CgroupFiles} {cpus : Nat} (hf : f.Reported) (hcpus : 1 ≤ cpus) :
    (0 ≤ f.quota cpus ∧ f.quota cpus ≤ 1) ↔ f.cpuQuota ≤ f.cpuPeriod * cpus := by
  have hperiod : (0 : ℚ) < f.cpuPeriod := by exact_mod_cast hf.period
  have hcpus' : (0 : ℚ) < cpus := by exact_mod_cast hcpus
  have hprod : 0 ≤ f.cpuPeriod * cpus := mul_nonneg hf.period.le (by omega)
  have hnotset : QUOTA_NOT_SET = -1 := rfl
  unfold CgroupFiles.quota
  split
  · rename_i hq
    rw [hq]
    refine ⟨fun _ => by omega, fun _ => ?_⟩
    rw [QUOTA_NORMALIZED_MAX]
    norm_num
  · rename_i hq
    have hmin : QUOTA_MINIMUM_VALUE = 1000 := rfl
    have hnn : (0 : ℚ) ≤ f.cpuQuota := by
      have := hf.quota.resolve_left hq
      exact_mod_cast (by omega : (0 : ℤ) ≤ f.cpuQuota)
    rw [div_div, div_le_one (mul_pos hperiod hcpus')]
    constructor
    · rintro ⟨-, h⟩
      exact_mod_cast h
    · intro h
      exact ⟨div_nonneg hnn (mul_pos hperiod hcpus').le, by exact_mod_cast h⟩

variable {h : Host} {a : TaskAllocations}

/-- All that is read passes when it fits. -/
theorem Reads.passes_iff (hr : Reads self c h a) (hw : self.Watches c h) (hh : self.Healthy h) :
    (∀ p ∈ a.items, self.Passes c p.1 p.2) ↔ self.Fits c h := by
  obtain ⟨f, hf, hfrep, hquota⟩ := hr.quota
  obtain ⟨q, hq, hshares⟩ := hr.shares
  obtain ⟨fs, cpus, mems, hfs, hfsrep, hcpus, hmems, gcpus, gmems⟩ := hr.cpuset
  obtain ⟨n, hn, hmigrate⟩ := hr.memoryMigrate
  obtain ⟨_, hcpus', hcpusnn⟩ := hfsrep.ids .CPUSET_CPUS
  cases hcpus.symm.trans hcpus'
  obtain ⟨_, hmems', hmemsnn⟩ := hfsrep.ids .CPUSET_MEMS
  cases hmems.symm.trans hmems'
  have hplatform : c.platform = self.platform := hw.platform
  have hcpusiff : self.Passes c .CPUSET_CPUS (.str (encodeListformat cpus)) ↔
      ∀ id ∈ cpus, id < self.platform.cpus :=
    passes_listformat_iff hcpusnn rfl rfl rfl (by rw [hplatform])
  have hmemsiff : self.Passes c .CPUSET_MEMS (.str (encodeListformat mems)) ↔
      ∀ id ∈ mems, id < self.platform.nodeCpus.len :=
    passes_listformat_iff hmemsnn rfl rfl rfl (by rw [hplatform])
  have hmem : ∀ {t raw}, a.get? t = some raw → (t, raw) ∈ a.items := Dict.get?_eq_some_iff.mp
  constructor
  · intro hall
    refine ⟨fun f' hf' => ?_, fun f' ids hf' hids => ?_, fun f' ids hf' hids => ?_,
      fun i g group hi hon hg hgroup => ?_⟩
    · cases hf.symm.trans hf'
      exact (quota_le_one_iff hfrep hh.cpus).mp (passes_quota_iff.mp (hall _ (hmem hquota)))
    · cases hfs.symm.trans hf'
      cases hcpus.symm.trans hids
      exact hcpusiff.mp (hall _ (hmem gcpus))
    · cases hfs.symm.trans hf'
      cases hmems.symm.trans hids
      exact hmemsiff.mp (hall _ (hmem gmems))
    · obtain ⟨raw, hraw⟩ := Dict.mem_keys_iff_get?.mp (Dict.mem_def.mp (hr.control i hi hon))
      obtain ⟨i', g', group', hi', -, hg', hgroup', rfl⟩ := hr.rdt raw hraw
      cases hg.symm.trans hg'
      cases hgroup.symm.trans hgroup'
      obtain ⟨-, i'', a', hi'', ha', hlines⟩ := AllocationRunner.passes_rdt_iff.mp (hall _ (hmem hraw))
      cases ha'
      cases hi.symm.trans hi''
      exact hlines
  · rintro hfits ⟨t, raw⟩ hp
    have hget := Dict.get?_eq_some_iff.mpr hp
    cases t with
    | QUOTA =>
      cases hget.symm.trans hquota
      exact passes_quota_iff.mpr ((quota_le_one_iff hfrep hh.cpus).mpr (hfits.quota f hf))
    | SHARES =>
      cases hget.symm.trans hshares
      exact passes_shares hq
    | CPUSET_CPUS =>
      cases hget.symm.trans gcpus
      exact hcpusiff.mpr (hfits.cpus fs cpus hfs hcpus)
    | CPUSET_MEMS =>
      cases hget.symm.trans gmems
      exact hmemsiff.mpr (hfits.mems fs mems hfs hmems)
    | CPUSET_MEMORY_MIGRATE =>
      cases hget.symm.trans hmigrate
      exact passes_memoryMigrate hn
    | MIGRATE_PAGES => cases hget.symm.trans hr.migratePages
    | RDT =>
      obtain ⟨i, g, group, hi, hon, hg, hgroup, rfl⟩ := hr.rdt raw hget
      have henabled : self.rdtEnabled = true := by
        rw [← hh.rdt, hi]
        rfl
      exact AllocationRunner.passes_rdt_iff.mpr ⟨henabled, i, _, hi, rfl, hfits.schemata i g group hi hon hg hgroup⟩

end

namespace AllocationRunner

variable {self : AllocationRunner} {h : Host}

theorem Healthy.initialized (hh : self.Healthy h) : self.Initialized := by
  intro he
  obtain ⟨i, hi⟩ := Option.isSome_iff_exists.mp (hh.rdt.trans he)
  obtain ⟨n, hn, -⟩ := hh.closids i hi
  exact ⟨i, n, hi, hn⟩

/-- The groups that are read are groups that exist, so there are not too many. -/
theorem Healthy.countedGroups_le (hh : self.Healthy h) {current : TasksAllocations}
    (hcurrent : ∀ task a, current.get? task = some a → ∃ p ∈ self.containers.items, p.1 = task ∧
      Reads self p.2.2 h a) (hne : (self.countedGroups current.items).Nonempty) :
    ((self.countedGroups current.items).card : ℤ) ≤ self.closidsLimit := by
  have hgroup : ∀ g ∈ self.countedGroups current.items, g ∈ h.resctrl.groups.keys ∧
      ∃ i, self.platform.rdtInformation = some i := by
    intro g hg
    obtain ⟨⟨task, a⟩, hm, hg⟩ := List.mem_filterMap.mp (List.mem_toFinset.mp hg)
    obtain ⟨p, hp, rfl, hr⟩ := hcurrent task a (Dict.get?_eq_some_iff.mpr hm)
    unfold itemGroup at hg
    split at hg
    · rename_i tk container rdtAllocation hc hraw
      obtain ⟨i, g', group, hi, -, -, hgroup, ha⟩ := hr.rdt _ hraw
      cases ha
      cases hg
      exact ⟨Dict.mem_keys_iff_get?.mpr ⟨group, hgroup⟩, i, hi⟩
    · cases hg
  obtain ⟨g, hg⟩ := hne
  obtain ⟨-, i, hi⟩ := hgroup g hg
  obtain ⟨n, hn, hlen⟩ := hh.closids i hi
  have hlimit : self.closidsLimit = n := by
    rw [closidsLimit, hi, Option.bind_some, hn]
    rfl
  have hsub : self.countedGroups current.items ⊆ h.resctrl.groups.keys.toFinset := fun g hg =>
    List.mem_toFinset.mpr (hgroup g hg).1
  have hcard : (self.countedGroups current.items).card ≤ h.resctrl.groups.len :=
    (Finset.card_le_card hsub).trans ((List.toFinset_card_le _).trans_eq (List.length_map _))
  omega

/-- Values can be made of what is read exactly when what can be read fits. -/
theorem Healthy.create_returns_iff (hh : self.Healthy h) {current : TasksAllocations} {heap : Heap}
    (hget : ∀ task a, current.get? task = some a ↔
      ∃ p ∈ self.containers.items, p.1 = task ∧ p.2.2.getAllocations h = .ok a) :
    (∃ values heap', (self.create current).run heap = .ok values heap') ↔
      ∀ p ∈ self.containers.items, p.2.2.Readable h → self.Fits p.2.2 h := by
  have hreads : ∀ task a, current.get? task = some a → ∃ p ∈ self.containers.items, p.1 = task ∧
      p.2.2.Readable h ∧ Reads self p.2.2 h a := by
    intro task a ha
    obtain ⟨p, hp, rfl, hread⟩ := (hget task a).mp ha
    by_cases hr : p.2.2.Readable h
    · obtain ⟨a', ha', hreads⟩ := hh.reads hp hr
      cases hread.symm.trans ha'
      exact ⟨p, hp, rfl, hr, hreads⟩
    · obtain ⟨path, hmissing⟩ := hh.missing hp hr
      cases hread.symm.trans hmissing
  rw [AllocationRunner.create_returns_iff hh.initialized, checkItems_ok_iff]
  constructor
  · rintro ⟨hitems, -⟩ p hp hr
    obtain ⟨a, ha, hra⟩ := hh.reads hp hr
    have hm := Dict.get?_eq_some_iff.mp ((hget p.1 a).mpr ⟨p, hp, rfl, ha⟩)
    obtain ⟨tk, container, hc, -, hpass⟩ := hitems _ hm
    rw [Dict.get?_eq_some_iff.mpr hp] at hc
    obtain rfl : p.2.2 = container := congrArg Prod.snd (Option.some.inj hc)
    exact (hra.passes_iff (hh.watches p hp) hh).mp hpass
  · refine fun hfits => ⟨?_, hh.countedGroups_le fun task a ha => ?_⟩
    · rintro ⟨task, a⟩ hm
      obtain ⟨p, hp, rfl, hr, hra⟩ := hreads task a (Dict.get?_eq_some_iff.mpr hm)
      refine ⟨p.2.1, p.2.2, Dict.get?_eq_some_iff.mpr hp, ?_, ?_⟩
      · rw [(hh.watches p hp).platform]
        exact hh.rdt
      · exact (hra.passes_iff (hh.watches p hp) hh).mpr (hfits p hp hr)
    · obtain ⟨p, hp, ht, -, hra⟩ := hreads task a ha
      exact ⟨p, hp, ht, hra⟩

/-- Making values of what is read returns exactly when what can be read fits into the ranges for
allocators. -/
theorem createCurrent_returns_iff {w : World} (hh : self.Healthy w.host) :
    (∃ values w', (self.createCurrent).run w = .ok values w') ↔
      ∀ p ∈ self.containers.items, p.2.2.Readable w.host → self.Fits p.2.2 w.host := by
  obtain ⟨current, hcurrent, hget⟩ := getTasksAllocations_ok fun p hp => by
    by_cases hr : p.2.2.Readable w.host
    · obtain ⟨a, ha, -⟩ := hh.reads hp hr
      exact .inl ⟨a, ha⟩
    · exact .inr (hh.missing hp hr)
  rw [← hh.create_returns_iff (h := w.host) hget]
  unfold createCurrent
  rw [bind_of_ok (get_run w), hcurrent]
  constructor
  · rintro ⟨values, w', hv⟩
    obtain ⟨h', hv', -⟩ := zoom_ok_iff.mp hv
    exact ⟨values, h', hv'⟩
  · rintro ⟨values, h', hv⟩
    exact ⟨values, _, zoom_ok_iff.mpr ⟨h', hv, rfl⟩⟩

/-- What making the values raises ends the iteration, whatever the allocator returns. -/
theorem iterateBody_error_of_createCurrent {s : RunnerState} {w : World} {e : Exc}
    (he : (self.createCurrent).run s.world = .error e w)
    (allocate : TasksAllocations → TasksAllocations) :
    (self.iterateBody allocate).run s = .error e { s with world := w } := by
  unfold createCurrent at he
  unfold iterateBody
  rw [bind_of_ok (get_run _), bind_error_iff] at he
  rw [bind_of_ok (get_run _)]
  rcases he with he | ⟨current, w₁, hcurrent, he⟩
  · obtain ⟨he', rfl⟩ := run_liftM_error_iff.mp he
    exact bind_of_error (run_liftM_error_iff.mpr ⟨he', rfl⟩)
  · obtain ⟨hcurrent', rfl⟩ := run_liftM_ok_iff.mp hcurrent
    rw [bind_of_ok (run_liftM_ok_iff.mpr ⟨hcurrent', rfl⟩), iterateBodyFrom]
    exact bind_of_error (zoom_error_iff.mpr ⟨w, he, rfl⟩)

section

open SmallHost

/-- The world of one task with contents of its control files. -/
def worldWith (f : CgroupFiles) : World :=
  { world [("t1", "a")] with host := { host [("t1", "a")] with cgroups := Dict.ofItems [("/t1", f)] } }

theorem healthy_worldWith {f : CgroupFiles} (hf : f.Reported) :
    (runner [("t1", "a")]).Healthy (worldWith f).host where
  rdt := rfl
  closids := fun i hi => by
    cases hi
    exact ⟨3, rfl, (by decide : (2 : ℤ) ≤ 3)⟩
  cpus := by decide
  watches := fun p hp => by
    obtain rfl : p = ("t1", task "t1", container "t1" "a") := List.mem_singleton.mp hp
    refine ⟨rfl, declared_default, fun _ => ⟨_, rfl⟩, fun cgroup hm f' hf' => ?_⟩
    obtain rfl : cgroup = (container "t1" "a").cgroup := List.mem_singleton.mp hm
    cases hf'
    exact hf

/-- A quota of all cpus, and no cpuset. -/
def wholeQuota : CgroupFiles := { cpuQuota := 400000 }

theorem reported_quota {quota : ℤ} (h : 1000 ≤ quota) :
    ({ cpuQuota := quota } : CgroupFiles).Reported where
  quota := .inr h
  period := (by decide : (0 : ℤ) < 100000)
  shares := (by decide : (2 : ℤ) ≤ 1024)
  memoryMigrate := .inl rfl
  ids := fun resource => ⟨∅, by cases resource <;> rfl, fun _ hid => (nomatch hid)⟩

theorem fits_wholeQuota : ∀ p ∈ (runner [("t1", "a")]).containers.items,
    (runner [("t1", "a")]).Fits p.2.2 (worldWith wholeQuota).host := by
  intro p hp
  obtain rfl : p = ("t1", task "t1", container "t1" "a") := List.mem_singleton.mp hp
  have hempty : ∀ {ids : Finset ℤ}, decodeListformat (Str.strip "") = .ok ids → ids = ∅ := by
    intro ids h
    cases h
    rfl
  refine ⟨fun f hf => ?_, fun f ids hf hids id hid => ?_, fun f ids hf hids id hid => ?_,
    fun i g group hi _ hg hgroup => ?_⟩
  · cases hf
    decide
  · cases hf
    rw [hempty hids] at hid
    cases hid
  · cases hf
    rw [hempty hids] at hid
    cases hid
  · cases hi
    cases hg
    cases hgroup
    exact ⟨by decide +kernel, by decide +kernel⟩

/-- The whole quota fits. -/
theorem createCurrent_wholeQuota :
    ∃ values w', ((runner [("t1", "a")]).createCurrent).run (worldWith wholeQuota) = .ok values w' :=
  (createCurrent_returns_iff (healthy_worldWith (reported_quota (by decide)))).mpr
    fun p hp _ => fits_wholeQuota p hp

/-- A quota of six cpus on a platform with four ends the iteration. -/
theorem iterateBody_quota_of_six_cpus :
    ({ cpuQuota := 600000 } : CgroupFiles).Reported ∧ ∃ e w, e.isInvalidAllocations = true ∧
      ∀ allocate, ((runner [("t1", "a")]).iterateBody allocate).run
        ⟨worldWith { cpuQuota := 600000 }, 0, 0⟩ = .error e ⟨w, 0, 0⟩ := by
  obtain ⟨e, w, he, hinvalid⟩ := exists_of_raisesSuch (p := Exc.isInvalidAllocations)
    (r := ((runner [("t1", "a")]).createCurrent).run (worldWith { cpuQuota := 600000 }))
    (by decide +kernel)
  exact ⟨reported_quota (by decide), e, w, hinvalid, fun allocate =>
    iterateBody_error_of_createCurrent (s := ⟨worldWith { cpuQuota := 600000 }, 0, 0⟩) he allocate⟩

end

end AllocationRunner

end Wca
