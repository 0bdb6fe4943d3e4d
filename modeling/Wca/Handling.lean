import Wca.Performing
import Wca.Refusals

/-!
# Which outputs an iteration handles

An iteration either accepts what the allocator returns, or counts it as an error, or lets an exception
escape. On a host that is in order the exception is because of the output, and `iterateBody_handles_iff` says of
which outputs: checks that break before one refuses, lines that cannot be compared with those shown, and
values that cannot be written.
-/

namespace Wca

open Py AllocationsDict

/-! ## Comparing -/

theorem covers_of_isRdtSuballocationChanged {current new : Option String} {b : Bool}
    (h : isRdtSuballocationChanged current new = .ok b) : Covers current new := by
  rintro n rfl
  cases current with
  | none => cases h
  | some c =>
    obtain ⟨rc, hrc, hrest⟩ := except_bind_ok_iff.mp h
    obtain ⟨rn, hrn, hrest⟩ := except_bind_ok_iff.mp hrest
    obtain ⟨_, hsub, -⟩ := except_bind_ok_iff.mp hrest
    refine ⟨c, rfl, fun rc' rn' hrc' hrn' => ?_⟩
    cases (liftM_ok_iff.mp hrc).symm.trans hrc'
    cases (liftM_ok_iff.mp hrn).symm.trans hrn'
    exact assert_ok_iff.mp hsub

/-- No check of `create` is made again. -/
theorem breaks_isRdtSuballocationChanged {current new : Option String} {e : Exc}
    (h : isRdtSuballocationChanged current new = .error e) : e.isInvalidAllocations = false := by
  cases new with
  | none =>
    rw [isRdtSuballocationChanged_none] at h
    cases h
  | some n =>
    cases current with
    | none =>
      cases h
      rfl
    | some c =>
      rcases except_bind_error_iff.mp h with he | ⟨rc, -, h⟩
      · obtain ⟨e', -, rfl⟩ := liftM_error_iff.mp he
        rfl
      rcases except_bind_error_iff.mp h with he | ⟨rn, -, h⟩
      · obtain ⟨e', -, rfl⟩ := liftM_error_iff.mp he
        rfl
      rcases except_bind_error_iff.mp h with he | ⟨_, -, h⟩
      · unfold assert at he
        split at he
        · cases he
        · cases he
          rfl
      · cases h

namespace RDTAllocationValue

/-- Two values of well formed lines are compared when the lines of one group can be. -/
theorem calculateChangeset_returns_iff {new current : RDTAllocationValue} (hn : new.WellFormed)
    (hc : current.WellFormed) :
    (∃ r, new.calculateChangeset (some current) = .ok r) ↔ new.ComparableWith current := by
  constructor
  · rintro ⟨r, hr⟩ hgroup
    rw [calculateChangeset_of_sameGroup hgroup] at hr
    obtain ⟨b, hb, hr⟩ := except_bind_ok_iff.mp hr
    obtain ⟨b', hb', -⟩ := except_bind_ok_iff.mp hr
    exact ⟨covers_of_isRdtSuballocationChanged hb, covers_of_isRdtSuballocationChanged hb'⟩
  · intro h
    obtain ⟨target, change, hr, -⟩ := calculateChangeset_spec hn hc h
    exact ⟨_, hr⟩

theorem calculateChangeset_error {new current : RDTAllocationValue} {e : Exc}
    (h : new.calculateChangeset (some current) = .error e) : e.isInvalidAllocations = false := by
  unfold calculateChangeset at h
  dsimp only at h
  split at h
  · cases h
  · rcases except_bind_error_iff.mp h with he | ⟨b, -, h⟩
    · exact breaks_isRdtSuballocationChanged he
    rcases except_bind_error_iff.mp h with he | ⟨b', -, h⟩
    · exact breaks_isRdtSuballocationChanged he
    · cases h

end RDTAllocationValue

namespace LeafValue

/-- Comparing raises nothing that is handled. -/
theorem calculateChangeset_error {new current : LeafValue} {e : Exc}
    (h : new.calculateChangeset current = .error e) : e.isInvalidAllocations = false := by
  have hboxed : ∀ value : BoxedNumeric, new.numericChangeset current value = .error e →
      e.isInvalidAllocations = false := by
    intro value h
    unfold numericChangeset at h
    split at h
    · cases h
      rfl
    · cases h
  cases new with
  | quota v | shares v | memoryMigrate v | migratePages v => exact hboxed _ h
  | cpuset v =>
    cases current with
    | cpuset c =>
      rcases except_bind_error_iff.mp h with he | ⟨r, -, h⟩
      · rcases except_bind_error_iff.mp he with he | ⟨same, -, h⟩
        · rcases except_bind_error_iff.mp he with he | ⟨_, -, h⟩
          · unfold assert at he
            split at he
            · cases he
            · cases he
              rfl
          rcases except_bind_error_iff.mp h with he | ⟨s, -, h⟩
          · obtain ⟨e', -, rfl⟩ := liftM_error_iff.mp he
            rfl
          rcases except_bind_error_iff.mp h with he | ⟨s', -, h⟩
          · obtain ⟨e', -, rfl⟩ := liftM_error_iff.mp he
            rfl
          · cases h
        · cases h
      · cases h
    | _ =>
      cases h
      rfl
  | rdt v =>
    cases current with
    | rdt c =>
      rcases except_bind_error_iff.mp h with he | ⟨r, -, h⟩
      · exact RDTAllocationValue.calculateChangeset_error he
      · cases h
    | _ =>
      cases h
      rfl

end LeafValue

/-! ## Values that passed their checks -/

/-- A line that is not empty can be parsed if it passed a check that parses it. -/
theorem wellFormedLine_of_check {line : Option String}
    (h : truthy line = true → ∃ row, parseSchemataFileRow (line.getD "") = .ok row) : WellFormedLine line := by
  rintro l rfl
  by_cases hl : l = ""
  · rw [hl]
    exact ⟨∅, rfl⟩
  · exact h (decide_eq_true hl)

theorem RDTAllocationValue.wellFormed_of_validateLines {v : RDTAllocationValue}
    (h : v.validateLines = .ok ()) : v.WellFormed := by
  obtain ⟨hl3, hmb⟩ := validateLines_ok_iff.mp h
  refine ⟨wellFormedLine_of_check fun ht => ?_, wellFormedLine_of_check fun ht => ?_⟩
  · rw [checkL3, doIf_of ht, except_seq_ok_iff] at hl3
    have hline := hl3.2
    unfold validateL3String at hline
    split at hline
    · obtain ⟨row, hrow, -⟩ := except_bind_ok_iff.mp (except_seq_ok_iff.mp hline).2
      exact ⟨row, liftM_ok_iff.mp hrow⟩
    · cases hline
  · rw [checkMb, doIf_of ht, except_seq_ok_iff] at hmb
    obtain ⟨norm, hline, -⟩ := except_bind_ok_iff.mp hmb.2
    unfold normalizeMbString at hline
    split at hline
    · obtain ⟨row, hrow, -⟩ := except_bind_ok_iff.mp (except_seq_ok_iff.mp hline).2
      exact ⟨row, liftM_ok_iff.mp hrow⟩
    · cases hline

theorem RegistryOf.context {self : AllocationRunner} {h h' : Heap} {registry : Option RDTContext}
    (hr : RegistryOf self h registry h') : ∃ ref, registry = self.context ref := by
  cases hr with
  | disabled he => exact ⟨0, by rw [AllocationRunner.context, he]; rfl⟩
  | enabled he hi hn => exact ⟨h.next, by rw [AllocationRunner.context, he, hi]; rfl⟩

/-- A value is built from a raw allocation for the container, and passes its checks. -/
structure BuiltFrom (runner : AllocationRunner) (c : Container) (t : AllocationType) (raw : RawValue)
    (v : LeafValue) : Prop where
  built : ∃ ref, construct (runner.context ref) c t raw = .ok v
  check : v.check = .ok ()

theorem check_of_accepted {h : Heap} {v : LeafValue} (hv : Accepted h v) : v.check = .ok () := by
  cases v with
  | rdt v => exact hv.1
  | _ => exact hv

/-- What is at a place of the values that `create` makes. -/
theorem builtFrom_of_create {self : AllocationRunner} {raws : TasksAllocations}
    {d : TasksAllocationsValues} {h h' : Heap} (hd : (self.create raws).run h = .ok d h') :
    (∀ task t v, leaf d task t = some v → ∃ tk c m raw, self.containers.get? task = some (tk, c) ∧
      raws.get? task = some m ∧ m.get? t = some raw ∧ BuiltFrom self c t raw v) ∧
    ∀ task m t raw, raws.get? task = some m → m.get? t = some raw → ∃ v, leaf d task t = some v := by
  obtain ⟨haccepted, -, hkeys, registry, h₀, hreg, hbuilt⟩ := create_ok hd
  obtain ⟨ref, rfl⟩ := hreg.context
  refine ⟨fun task t v hv => ?_, fun task m t raw hm hraw => (leaf_of_create hkeys hbuilt task t).2 raw m hm hraw⟩
  obtain ⟨tk, c, raw, m, hc, hm, hraw, hcon⟩ := (leaf_of_create hkeys hbuilt task t).1 v hv
  obtain ⟨values, hvalues, hv⟩ := leaf_mem.mp hv
  have hacc := haccepted values (Dict.mem_values.mpr ⟨task, hvalues⟩) v (Dict.mem_values.mpr ⟨t, hv⟩)
  exact ⟨tk, c, m, raw, hc, hm, hraw, ⟨ref, hcon⟩, check_of_accepted hacc⟩

/-! ## Outputs that are handled -/

namespace AllocationRunner

/-- The groups that the allocations name and that are not there. -/
def missingGroups (self : AllocationRunner) (r : Resctrl) (new : TasksAllocations) : Finset String :=
  (self.countedGroups new.items).filter (· ∉ r.groups)

/-- The groups are such as the kernel makes them, every container has its mon group in its group, and
there are identifiers for the groups that are asked for. -/
structure Accommodates (runner : AllocationRunner) (r : Resctrl) (new : TasksAllocations) : Prop where
  root : RESCTRL_ROOT_NAME ∈ r.groups
  legal : ∀ name ∈ r.groups, name = RESCTRL_ROOT_NAME ∨ LegalGroupName name
  named : ∀ p ∈ runner.containers.items, p.2.2.name ≠ ""
  apart : (runner.containers.items.map fun p => p.2.2.name).Nodup
  lodged : ∀ p ∈ runner.containers.items, ∀ g, p.2.2.resgroup = some g → Lodged r p.2.2.name g.name
  closids : (runner.missingGroups r new).card ≤ r.freeClosids
  rmids : (runner.missingGroups r new).card + runner.containers.len ≤ r.freeRmids

/-- A host on which nothing but the output can go wrong. -/
structure Operational (runner : AllocationRunner) (h : Host) (new : TasksAllocations) : Prop where
  healthy : runner.Healthy h
  readable : ∀ p ∈ runner.containers.items, p.2.2.Readable h ∧ runner.Fits p.2.2 h
  configured : ∀ p ∈ runner.containers.items, ∀ cgroup ∈ p.2.2.cgroup :: p.2.2.subcgroups,
    (∃ period : ℤ, cgroup.allocationConfiguration.cpuQuotaPeriod = .int period) ∧
      cgroup.allocationConfiguration.Declared
  limited : ∀ i, runner.platform.rdtInformation = some i → i.Limited
  accommodates : runner.rdtEnabled = true → runner.Accommodates h.resctrl new

variable (self : AllocationRunner)

/-- The lines for the group that the container is in are lines that it shows, for domains that it has. -/
def LinesShown (h : Host) (c : Container) : AllocationType → RawValue → Prop
  | .RDT, .rdt a => ∀ i g group, self.platform.rdtInformation = some i → i.isControlEnabled = true →
      c.resgroup = some g → h.resctrl.groups.get? g.name = some group → a.name.getD c.name = g.name →
      Covers ((group.schemata.get? "L3").map (Resctrl.showRow "L3")) a.l3 ∧
        Covers ((group.schemata.get? "MB").map (Resctrl.showRow "MB")) a.mb
  | _, _ => True

/-- A number is finite; what is written as it is is an integer, unless it is close to what is there; pages
are moved to a node with an integer, unless there are no processes; and the kernel accepts the name of
the group. -/
def Writable (h : Host) (c : Container) : AllocationType → RawValue → Prop
  | .QUOTA, .num n | .SHARES, .num n => ∃ q, n.val = .rat q
  | .CPUSET_MEMORY_MIGRATE, .num n => (∃ k, n = .int k) ∨
      ∃ f, h.cgroups.get? c.cgroup.cgroupPath = some f ∧
        Flt.isclose n.val (.rat f.memoryMigrate) VALUE_CHANGE_SENSITIVITY = true
  | .MIGRATE_PAGES, .num n => (exponent? n).isSome = true ∨ c.getPids false h.resctrl = []
  | .RDT, .rdt a => ∀ i, self.platform.rdtInformation = some i → i.isControlEnabled = true →
      a.name.getD c.name = RESCTRL_ROOT_NAME ∨ LegalGroupName (a.name.getD c.name)
  | _, _ => True

/-- The request is refused for its QoS classes; or no check breaks before one refuses, and when all pass
the lines can be compared and the values written. -/
def Handles (h : Host) (new : TasksAllocations) : Prop :=
  validateSharesAllocationForKubernetes self.tasks new = .ok () → self.RefusesFirst new ∧
    (self.checkItems [] new.items = .ok () → ∀ task m tk c, new.get? task = some m →
      self.containers.get? task = some (tk, c) → ∀ t raw, m.get? t = some raw →
        self.LinesShown h c t raw ∧ self.Writable h c t raw)

end AllocationRunner

/-- The output is accepted, or it is counted as an error. -/
def Handled (new : TasksAllocations) (s s' : RunnerState) : Prop :=
  s'.allocationsCounter = s.allocationsCounter + new.len ∧ s'.allocationsErrors = s.allocationsErrors ∨
    s'.allocationsCounter = s.allocationsCounter ∧ s'.allocationsErrors = s.allocationsErrors + 1

/-! ## One place -/

/-- What the memory migration is read as. -/
theorem Container.getAllocations_memoryMigrate {c : Container} {h : Host} {a : TaskAllocations}
    (hread : c.getAllocations h = .ok a) : ∃ f, h.cgroups.get? c.cgroup.cgroupPath = some f ∧
      a.get? .CPUSET_MEMORY_MIGRATE = some (.num (.int f.memoryMigrate)) := by
  unfold Container.getAllocations at hread
  obtain ⟨own, hown, hread⟩ := except_bind_ok_iff.mp hread
  obtain ⟨sub, hsub, hread⟩ := except_bind_ok_iff.mp hread
  obtain ⟨f, hf, hgown⟩ : ∃ f, h.cgroups.get? c.cgroup.cgroupPath = some f ∧
      own.get? .CPUSET_MEMORY_MIGRATE = some (.num (.int f.memoryMigrate)) := by
    unfold Cgroup.getAllocations at hown
    obtain ⟨quota, -, hown⟩ := except_bind_ok_iff.mp hown
    obtain ⟨shares, -, hown⟩ := except_bind_ok_iff.mp hown
    obtain ⟨cpus, -, hown⟩ := except_bind_ok_iff.mp hown
    obtain ⟨mems, -, hown⟩ := except_bind_ok_iff.mp hown
    obtain ⟨memoryMigrate, hmigrate, hown⟩ := except_bind_ok_iff.mp hown
    obtain ⟨f, hf, rfl⟩ := Cgroup.read_ok hmigrate
    cases hown
    exact ⟨f, hf, by simp [Dict.ofItems, CgroupFiles.number]⟩
  have hgsub : sub.get? .CPUSET_MEMORY_MIGRATE = none := by
    obtain ⟨hnil, hcons⟩ := Container.getSubcgroupsCpusetAllocations_ok hsub
    by_cases hs : c.subcgroups = []
    · rw [hnil hs]
      rfl
    · obtain ⟨_, -, cpus, mems, -, -, rfl⟩ := hcons hs
      rfl
  have hupdate : (own.update sub).get? .CPUSET_MEMORY_MIGRATE = some (.num (.int f.memoryMigrate)) := by
    rw [Dict.get?_update, hgsub, hgown]
    rfl
  refine ⟨f, hf, ?_⟩
  split at hread
  · split at hread
    · cases hread
    · obtain ⟨rdt, -, hread⟩ := except_bind_ok_iff.mp hread
      cases hread
      rw [Dict.get?_set_of_ne (by decide), hupdate]
  · cases hread
    exact hupdate

/-- A place of the new values, and what the current ones have there. -/
structure Meets (runner : AllocationRunner) (h : Host) (c : Container) (t : AllocationType) (raw : RawValue)
    (v : LeafValue) (a : TaskAllocations) (current : Option LeafValue) : Prop where
  new : BuiltFrom runner c t raw v
  read : c.getAllocations h = .ok a
  reads : Reads runner c h a
  there : ∀ cv, current = some cv → ∃ raw', a.get? t = some raw' ∧ BuiltFrom runner c t raw' cv
  absent : current = none → a.get? t = none

/-- An RDT allocation that is built. -/
theorem BuiltFrom.rdt {self : AllocationRunner} {c : Container} {raw : RawValue} {v : LeafValue}
    (hv : BuiltFrom self c .RDT raw v) : ∃ (ctx : RDTContext) (rdtAllocation : RDTAllocation), raw = .rdt rdtAllocation ∧
      self.platform.rdtInformation = some ctx.rdtInformation ∧
      v = .rdt (ctx.rdtAllocationValueConstructor rdtAllocation c) ∧
      (ctx.rdtAllocationValueConstructor rdtAllocation c).validateLines = .ok () := by
  obtain ⟨ref, hcon⟩ := hv.built
  obtain ⟨ctx, rdtAllocation, hctx, rfl, rfl⟩ := construct_RDT_ok hcon
  refine ⟨ctx, rdtAllocation, rfl, ?_, rfl, hv.check⟩
  unfold AllocationRunner.context at hctx
  split at hctx
  · obtain ⟨i, hi, rfl⟩ := Option.map_eq_some_iff.mp hctx
    exact hi
  · cases hctx

section

variable {self : AllocationRunner} {h : Host} {c : Container} {t : AllocationType} {raw : RawValue}
  {v : LeafValue} {a : TaskAllocations} {current : Option LeafValue}

/-- The current RDT value, for the group that the container is in. -/
theorem Meets.rdt_current (hm : Meets self h c .RDT raw v a current) {cv : LeafValue}
    (hcv : current = some cv) : ∃ (ctx : RDTContext) (i : RDTInformation) (g : ResGroup) (group : CtrlGroup),
      self.platform.rdtInformation = some i ∧ i.isControlEnabled = true ∧ c.resgroup = some g ∧ h.resctrl.groups.get? g.name = some group ∧
      cv = .rdt (ctx.rdtAllocationValueConstructor {
        name := some g.name
        l3 := (group.schemata.get? "L3").map (Resctrl.showRow "L3")
        mb := (group.schemata.get? "MB").map (Resctrl.showRow "MB") } c) ∧ cv.check = .ok () := by
  obtain ⟨raw', hraw', hbuilt⟩ := hm.there cv hcv
  obtain ⟨i, g, group, hi, hon, hg, hgroup, rfl⟩ := hm.reads.rdt raw' hraw'
  obtain ⟨ctx, rdtAllocation, he, -, rfl, hlines⟩ := hbuilt.rdt
  cases he
  exact ⟨ctx, i, g, group, hi, hon, hg, hgroup, rfl, hlines⟩

/-- There is a current RDT value where RDT is controlled. -/
theorem Meets.rdt_absent (hm : Meets self h c .RDT raw v a none) {i : RDTInformation}
    (hi : self.platform.rdtInformation = some i) : i.isControlEnabled = false := by
  rw [Bool.eq_false_iff]
  intro hon
  exact Dict.get?_eq_none_iff.mp (hm.absent rfl) (hm.reads.control i hi hon)

/-- Values of one place can be compared when the lines that are asked for are shown. -/
theorem Meets.returns_iff (hm : Meets self h c t raw v a current) :
    (∀ cv, current = some cv → ∃ r, v.calculateChangeset cv = .ok r) ↔ self.LinesShown h c t raw := by
  have hboxed : ∀ {b : BoxedNumeric}, v.boxed? = some b →
      (∀ cv, current = some cv → ∃ b', cv.boxed? = some b') →
      ∀ cv, current = some cv → ∃ r, v.calculateChangeset cv = .ok r := by
    intro b hb hall cv hcv
    obtain ⟨b', hb'⟩ := hall cv hcv
    exact ⟨_, compare_boxed hb hb'⟩
  obtain ⟨ref, hcon⟩ := hm.new.built
  have hcheck := hm.new.check
  cases t with
  | QUOTA | SHARES | CPUSET_MEMORY_MIGRATE | MIGRATE_PAGES =>
    cases raw with
    | num n =>
      cases hcon
      refine iff_of_true (hboxed rfl fun cv hcv => ?_) trivial
      obtain ⟨raw', -, ⟨ref', hcon'⟩, -⟩ := hm.there cv hcv
      cases raw' with
      | num n' =>
        cases hcon'
        exact ⟨_, rfl⟩
      | _ => cases hcon'
    | _ => cases hcon
  | CPUSET_CPUS | CPUSET_MEMS =>
    cases raw with
    | str s =>
      cases hcon
      refine iff_of_true (fun cv hcv => ?_) trivial
      obtain ⟨raw', -, ⟨ref', hcon'⟩, hcheck'⟩ := hm.there cv hcv
      cases raw' with
      | str s' =>
        cases hcon'
        obtain ⟨ids, hids, -⟩ := ListFormatBasedAllocationValue.validate_ok_iff.mp hcheck
        obtain ⟨ids', hids', -⟩ := ListFormatBasedAllocationValue.validate_ok_iff.mp hcheck'
        exact ⟨_, LeafValue.calculateChangeset_cpuset (LeafValue.eq_cpuset rfl hids hids')⟩
      | _ => cases hcon'
    | _ => cases hcon
  | RDT =>
    obtain ⟨ctx, rdtAllocation, rfl, hinfo, rfl, hlines⟩ := hm.new.rdt
    have hn := RDTAllocationValue.wellFormed_of_validateLines hlines
    cases hcur : current with
    | none =>
      rw [hcur] at hm
      refine iff_of_true (fun cv hcv => by cases hcv) ?_
      intro i g group hi hon
      cases (hm.rdt_absent hi).symm.trans hon
    | some cv =>
      obtain ⟨ctx', i, g, group, hi, hon, hg, hgroup, rfl, hlines'⟩ := hm.rdt_current hcur
      have hiff := RDTAllocationValue.calculateChangeset_returns_iff hn
        (RDTAllocationValue.wellFormed_of_validateLines hlines')
      constructor
      · intro hall i' g' group' _ _ hg' hgroup' hsame
        cases hg.symm.trans hg'
        cases hgroup.symm.trans hgroup'
        obtain ⟨r, hr⟩ := hall _ rfl
        obtain ⟨r', hr', -⟩ := except_bind_ok_iff.mp hr
        exact hiff.mp ⟨r', hr'⟩ hsame.symm
      · rintro hshown cv hcv
        cases hcv
        obtain ⟨r, hr⟩ := hiff.mpr fun hsame => hshown i g group hi hon hg hgroup hsame.symm
        exact ⟨_, except_bind_ok_iff.mpr ⟨r, hr, rfl⟩⟩

/-! ### What is performed -/

variable {target change : Option LeafValue}

/-- A number is performed unless it is close to the current one. -/
theorem change_of_boxed {b : BoxedNumeric} (hentry : LeafEntry (some v) current target change)
    (hb : v.boxed? = some b) :
    (change = some v ∧ ∀ cv b', current = some cv → cv.boxed? = some b' → b.eq b' = false) ∨
      change = none ∧ ∃ cv b', current = some cv ∧ cv.boxed? = some b' ∧ b.eq b' = true := by
  cases current with
  | none => exact .inl ⟨hentry.2, fun cv b' hcv => by cases hcv⟩
  | some cv =>
    obtain ⟨w, hw, -⟩ := hentry
    change v.calculateChangeset cv = _ at hw
    rw [LeafValue.calculateChangeset_of_boxed hb] at hw
    unfold LeafValue.numericChangeset at hw
    split at hw
    · cases hw
    · rename_i b' hb'
      split at hw
      · rename_i hclose
        cases hw
        exact .inr ⟨rfl, cv, b', rfl, hb', hclose⟩
      · rename_i hclose
        cases hw
        refine .inl ⟨rfl, fun cv' b'' hcv' hb'' => ?_⟩
        cases hcv'
        cases hb'.symm.trans hb''
        exact Bool.not_eq_true _ ▸ hclose

theorem change_of_cpuset {u : ListFormatBasedAllocationValue}
    (hentry : LeafEntry (some (.cpuset u)) current target change) :
    change = some (.cpuset u) ∨ change = none := by
  cases current with
  | none => exact .inl hentry.2
  | some cv =>
    obtain ⟨w, hw, -⟩ := hentry
    change (LeafValue.cpuset u).calculateChangeset cv = _ at hw
    cases cv with
    | cpuset cu =>
      obtain ⟨⟨w', change'⟩, hcmp, hret⟩ := except_bind_ok_iff.mp hw
      cases hret
      obtain ⟨same, -, hret⟩ := except_bind_ok_iff.mp hcmp
      cases same
      · cases hret
        exact .inl rfl
      · cases hret
        exact .inr rfl
    | _ => cases hw

/-- An RDT value stays in the group of its container, or moves there from it; without control it asks
for nothing. -/
inductive RdtChange (runner : AllocationRunner) (h : Host) (c : Container) (group : String) :
    Option RDTAllocationValue → Prop where
  | uncontrolled {d : RDTAllocationValue}
      (hoff : ∀ i, runner.platform.rdtInformation = some i → i.isControlEnabled = false)
      (hname : d.containerName = c.name) (hsource : d.sourceResgroup = none)
      (hlines : d.schemataLines = []) : RdtChange runner h c group (some d)
  | same {i : RDTInformation} {g : ResGroup} {change : Option RDTAllocationValue}
      (hi : runner.platform.rdtInformation = some i) (hg : c.resgroup = some g)
      (hin : g.name ∈ h.resctrl.groups) (hgroup : group = g.name)
      (hchange : ∀ d, change = some d → d.containerName = c.name ∧ d.sourceResgroup = none ∧
        d.resgroup = some g) : RdtChange runner h c group change
  | move {i : RDTInformation} {g : ResGroup} {d : RDTAllocationValue}
      (hi : runner.platform.rdtInformation = some i) (hon : i.isControlEnabled = true)
      (hg : c.resgroup = some g) (hin : g.name ∈ h.resctrl.groups) (hgroup : g.name ≠ group)
      (hname : d.containerName = c.name) (hsource : d.sourceResgroup = some g)
      (hres : d.resgroup = some ⟨group⟩) : RdtChange runner h c group (some d)

/-- The changes of the RDT values of a place. -/
theorem Meets.rdtChange (hm : Meets self h c .RDT raw v a current)
    (hentry : LeafEntry (some v) current target change) :
    ∃ (rdtAllocation : RDTAllocation) (d : Option RDTAllocationValue), raw = .rdt rdtAllocation ∧
      change = d.map LeafValue.rdt ∧ RdtChange self h c (rdtAllocation.name.getD c.name) d := by
  obtain ⟨ctx, rdtAllocation, rfl, hinfo, rfl, -⟩ := hm.new.rdt
  cases hcur : current with
  | none =>
    rw [hcur] at hm hentry
    have hoff := hm.rdt_absent hinfo
    refine ⟨rdtAllocation, some _, rfl, hentry.2, .uncontrolled (fun i hi => hm.rdt_absent hi) rfl rfl ?_⟩
    unfold RDTInformation.isControlEnabled at hoff
    rw [Bool.or_eq_false_iff] at hoff
    simp [RDTAllocationValue.schemataLines, RDTContext.rdtAllocationValueConstructor, hoff.1, hoff.2]
  | some cv =>
    obtain ⟨ctx', i, g, group, hi, hon, hg, hgroup, rfl, -⟩ := hm.rdt_current hcur
    have hin : g.name ∈ h.resctrl.groups := Dict.mem_keys_iff_get?.mpr ⟨group, hgroup⟩
    rw [hcur] at hentry
    obtain ⟨w, hw, -⟩ := hentry
    obtain ⟨w', d, hcmp, -, rfl⟩ := LeafValue.calculateChangeset_rdt_ok hw
    refine ⟨rdtAllocation, d, rfl, rfl, ?_⟩
    by_cases hsame : g.name = rdtAllocation.name.getD c.name
    · rw [RDTAllocationValue.calculateChangeset_of_sameGroup (by exact hsame)] at hcmp
      obtain ⟨b, -, hcmp⟩ := except_bind_ok_iff.mp hcmp
      obtain ⟨b', -, hret⟩ := except_bind_ok_iff.mp hcmp
      obtain ⟨-, rfl⟩ := Prod.mk.inj (Except.ok.inj hret)
      refine .same hi hg hin hsame.symm fun d hd => ?_
      obtain ⟨-, hd⟩ := Option.ite_none_right_eq_some.mp hd
      cases hd
      exact ⟨rfl, rfl, hg⟩
    · rw [RDTAllocationValue.calculateChangeset_of_move (by exact hsame)] at hcmp
      cases hcmp
      exact .move hi hon hg hin hsame rfl rfl rfl

/-- A finite float is close to finite floats only. -/
theorem rat_of_isclose {x y : Flt} {q tolerance : ℚ} (hy : y = .rat q)
    (h : Flt.isclose x y tolerance = true) : ∃ p, x = .rat p := by
  subst hy
  cases x with
  | rat p => exact ⟨p, rfl⟩
  | _ => cases h

/-- What is left out of a changeset is good by itself. -/
theorem workable_iff_of_change {writable : Prop} (hchange : change = some v ∨ change = none ∧ writable)
    (hv : v.Workable h.resctrl ↔ writable) :
    (∀ d, change = some d → d.Workable h.resctrl) ↔ writable := by
  rw [← hv] at hchange ⊢
  rcases hchange with rfl | ⟨rfl, hw⟩
  · exact ⟨fun hall => hall v rfl, fun hw d hd => Option.some.inj hd ▸ hw⟩
  · exact iff_of_true (fun d hd => by cases hd) hw

theorem grantable_of_none {d : RDTAllocationValue} (hd : d.sourceResgroup = none) : d.Grantable := by
  intro name hname
  rw [RDTAllocationValue.destination, hd] at hname
  cases hname

/-- A value of the changeset can be written when the allocation can. -/
theorem Meets.workable_iff (hm : Meets self h c t raw v a current)
    (hentry : LeafEntry (some v) current target change)
    (hlegal : ∀ i, self.platform.rdtInformation = some i →
      ∀ name ∈ h.resctrl.groups, name = RESCTRL_ROOT_NAME ∨ LegalGroupName name) :
    (∀ d, change = some d → d.Workable h.resctrl) ↔ self.Writable h c t raw := by
  obtain ⟨ref, hcon⟩ := hm.new.built
  have hcheck := hm.new.check
  cases t with
  | QUOTA =>
    cases raw with
    | num n =>
      cases hcon
      have hinf : n.val ≠ .inf := by
        intro hn
        have hmax := (BoxedNumeric.validate_ok_iff.mp hcheck).2
        rw [hn] at hmax
        cases hmax
      refine workable_iff_of_change ((change_of_boxed hentry rfl).imp And.left fun hclose => ⟨hclose.1, ?_⟩)
        (or_iff_right hinf)
      obtain ⟨-, cv, b', hcv, hb', heq⟩ := hclose
      obtain ⟨raw', hraw', ⟨ref', hcon'⟩, -⟩ := hm.there cv hcv
      obtain ⟨f, -, -, hquota⟩ := hm.reads.quota
      cases hraw'.symm.trans hquota
      cases hcon'
      cases hb'
      exact rat_of_isclose rfl heq
    | _ => cases hcon
  | SHARES =>
    cases raw with
    | num n =>
      cases hcon
      refine workable_iff_of_change ((change_of_boxed hentry rfl).imp And.left fun hclose => ⟨hclose.1, ?_⟩)
        Iff.rfl
      obtain ⟨-, cv, b', hcv, hb', heq⟩ := hclose
      obtain ⟨raw', hraw', ⟨ref', hcon'⟩, -⟩ := hm.there cv hcv
      obtain ⟨q, -, hshares⟩ := hm.reads.shares
      cases hraw'.symm.trans hshares
      cases hcon'
      cases hb'
      exact rat_of_isclose rfl heq
    | _ => cases hcon
  | CPUSET_MEMORY_MIGRATE =>
    cases raw with
    | num n =>
      cases hcon
      obtain ⟨f, hf, hmigrate⟩ := Container.getAllocations_memoryMigrate hm.read
      have hcurrent : ∃ cv b', current = some cv ∧ cv.boxed? = some b' ∧
          b'.value = .int f.memoryMigrate := by
        cases hcur : current with
        | none => cases (hm.absent hcur).symm.trans hmigrate
        | some cv =>
          obtain ⟨raw', hraw', ⟨ref', hcon'⟩, -⟩ := hm.there cv hcur
          cases hraw'.symm.trans hmigrate
          cases hcon'
          exact ⟨_, _, rfl, rfl, rfl⟩
      obtain ⟨cv, b', hcv, hb', hvalue⟩ := hcurrent
      -- nothing is written when the number is close to the current one
      rcases change_of_boxed hentry rfl with ⟨rfl, hfar⟩ | ⟨rfl, cv', b'', hcv', hb'', hclose⟩
      · have hnot := hfar cv b' hcv hb'
        rw [BoxedNumeric.eq, hvalue] at hnot
        have hwritable : self.Writable h c .CPUSET_MEMORY_MIGRATE (.num n) ↔ ∃ k, n = .int k := by
          refine or_iff_left ?_
          rintro ⟨f', hf', hclose⟩
          cases hf.symm.trans hf'
          cases hnot.symm.trans hclose
        rw [hwritable]
        exact ⟨fun hall => hall _ rfl, fun hw d hd => Option.some.inj hd ▸ hw⟩
      · refine iff_of_true (fun d hd => by cases hd) (.inr ⟨f, hf, ?_⟩)
        cases hcv.symm.trans hcv'
        cases hb'.symm.trans hb''
        rw [BoxedNumeric.eq, hvalue] at hclose
        exact hclose
    | _ => cases hcon
  | MIGRATE_PAGES =>
    cases raw with
    | num n =>
      cases hcon
      refine workable_iff_of_change ((change_of_boxed hentry rfl).imp And.left fun hclose => ?_) Iff.rfl
      obtain ⟨-, cv, b', hcv, -⟩ := hclose
      obtain ⟨raw', hraw', -⟩ := hm.there cv hcv
      cases hraw'.symm.trans hm.reads.migratePages
    | _ => cases hcon
  | CPUSET_CPUS | CPUSET_MEMS =>
    cases raw with
    | str s =>
      cases hcon
      obtain ⟨ids, hids, -⟩ := ListFormatBasedAllocationValue.validate_ok_iff.mp hcheck
      exact workable_iff_of_change ((change_of_cpuset hentry).imp id fun hnone => ⟨hnone, trivial⟩)
        (iff_of_true ⟨ids, hids⟩ trivial)
    | _ => cases hcon
  | RDT =>
    obtain ⟨rdtAllocation, d, rfl, rfl, hd⟩ := hm.rdtChange hentry
    cases hd with
    | uncontrolled hoff hname hsource hlines =>
      refine iff_of_true (fun d' hd' => ?_) fun i hi hon => ?_
      · cases hd'
        exact grantable_of_none hsource
      · cases (hoff i hi).symm.trans hon
    | same hi hg hin hgroup hchange =>
      refine iff_of_true (fun d' hd' => ?_) fun _ _ _ => ?_
      · obtain ⟨d, hd, rfl⟩ := Option.map_eq_some_iff.mp hd'
        exact grantable_of_none (hchange d hd).2.1
      · rw [hgroup]
        exact hlegal _ hi _ hin
    | move hi hon hg hin hgroup hname hsource hres =>
      rename_i i g d
      have hdest : d.destination = some (rdtAllocation.name.getD c.name) := by
        rw [RDTAllocationValue.destination, hsource, hres]
        rfl
      constructor
      · intro hall _ _ _
        exact hall _ rfl _ hdest
      · intro hw d' hd'
        cases hd'
        intro name hname'
        cases hdest.symm.trans hname'
        exact hw i hi hon

/-- A value of the changeset writes to the cgroups of the container. -/
theorem Meets.attached (hm : Meets self h c t raw v a current)
    (hentry : LeafEntry (some v) current target change) (hown : c.cgroup.Ready h.cgroups)
    (hsubs : ∀ s ∈ c.subcgroups, s.Ready h.cgroups) {d : LeafValue} (hd : change = some d) :
    d.Attached h.cgroups := by
  obtain ⟨ref, hcon⟩ := hm.new.built
  have hboxed : ∀ {b : BoxedNumeric}, v.boxed? = some b → d = v := by
    intro b hb
    rcases change_of_boxed hentry hb with ⟨hchange, -⟩ | ⟨hchange, -⟩
    · exact Option.some.inj (hd.symm.trans hchange)
    · cases hd.symm.trans hchange
  cases t with
  | QUOTA =>
    cases raw with
    | num n =>
      cases hcon
      obtain rfl := hboxed rfl
      exact ⟨hown, hsubs⟩
    | _ => cases hcon
  | SHARES | CPUSET_MEMORY_MIGRATE =>
    cases raw with
    | num n =>
      cases hcon
      obtain rfl := hboxed rfl
      exact hown
    | _ => cases hcon
  | MIGRATE_PAGES =>
    cases raw with
    | num n =>
      cases hcon
      obtain rfl := hboxed rfl
      trivial
    | _ => cases hcon
  | CPUSET_CPUS | CPUSET_MEMS =>
    cases raw with
    | str s =>
      cases hcon
      rcases change_of_cpuset hentry with hchange | hchange
      · obtain rfl := Option.some.inj (hd.symm.trans hchange)
        exact ⟨hown, hsubs⟩
      · cases hd.symm.trans hchange
    | _ => cases hcon
  | RDT =>
    obtain ⟨rdtAllocation, d', rfl, hchange, -⟩ := hm.rdtChange hentry
    obtain ⟨d', -, rfl⟩ := Option.map_eq_some_iff.mp (hchange.symm.trans hd)
    trivial

/-- Only a place of RDT has RDT values. -/
theorem Meets.type_of_rdt (hm : Meets self h c t raw v a current)
    (hentry : LeafEntry (some v) current target change) {d : RDTAllocationValue}
    (hd : change = some (.rdt d)) : t = .RDT := by
  obtain ⟨ref, hcon⟩ := hm.new.built
  have hboxed : ∀ {b : BoxedNumeric}, v.boxed? = some b → v = .rdt d := by
    intro b hb
    rcases change_of_boxed hentry hb with ⟨hchange, -⟩ | ⟨hchange, -⟩
    · exact Option.some.inj (hchange.symm.trans hd)
    · cases hd.symm.trans hchange
  cases t with
  | QUOTA | SHARES | CPUSET_MEMORY_MIGRATE | MIGRATE_PAGES =>
    cases raw with
    | num n =>
      cases hcon
      cases hboxed rfl
    | _ => cases hcon
  | CPUSET_CPUS | CPUSET_MEMS =>
    cases raw with
    | str s =>
      cases hcon
      rcases change_of_cpuset hentry with hchange | hchange
      · cases hchange.symm.trans hd
      · cases hd.symm.trans hchange
    | _ => cases hcon
  | RDT => rfl

/-- An RDT value of the changeset finds its container. -/
theorem RdtChange.placed {group : String} {d : RDTAllocationValue}
    (hd : RdtChange self h c group (some d)) (hnamed : c.name ≠ "")
    (hlodged : ∀ g, c.resgroup = some g → Lodged h.resctrl c.name g.name) :
    d.containerName = c.name ∧ d.Placed h.resctrl ∧ ∀ name, d.destination = some name → name = group := by
  have hdest : d.sourceResgroup = none → ∀ name, d.destination = some name → name = group := by
    intro hsource name hname
    rw [RDTAllocationValue.destination, hsource] at hname
    cases hname
  cases hd with
  | uncontrolled hoff hname hsource hlines => exact ⟨hname, .inl ⟨hsource, hlines⟩, hdest hsource⟩
  | same hi hg hin hgroup hchange =>
    obtain ⟨hname, hsource, hres⟩ := hchange d rfl
    rw [RDTAllocationValue.Placed, hname]
    exact ⟨rfl, .inr ⟨hnamed, _, _, hres, hlodged _ hg, .inl ⟨hsource, rfl⟩⟩, hdest hsource⟩
  | move hi hon hg hin hgroup hname hsource hres =>
    rw [RDTAllocationValue.Placed, hname]
    refine ⟨rfl, .inr ⟨hnamed, _, _, hres, hlodged _ hg, .inr ⟨hsource, hgroup⟩⟩, fun name hname => ?_⟩
    rw [RDTAllocationValue.destination, hsource, hres] at hname
    exact (Option.some.inj hname).symm

end

/-! ## All places -/

theorem changedLeaf_eq (changeset : Option TasksAllocationsValues) (task : TaskId) (t : AllocationType) :
    changedLeaf changeset task t = leaf (changeset.getD ∅) task t := by
  cases changeset <;> rfl

namespace AllocationRunner

/-- The values of an iteration: every place of the new ones meets what is read for its container. -/
structure Iterates (runner : AllocationRunner) (h : Host) (new : TasksAllocations)
    (newValues currentValues : TasksAllocationsValues) : Prop where
  place : ∀ task t v, leaf newValues task t = some v → ∃ tk c m raw a,
    runner.containers.get? task = some (tk, c) ∧ new.get? task = some m ∧ m.get? t = some raw ∧
      Meets runner h c t raw v a (leaf currentValues task t)
  built : ∀ task m t raw, new.get? task = some m → m.get? t = some raw →
    ∃ v, leaf newValues task t = some v

variable {self : AllocationRunner} {h : Host} {new current : TasksAllocations}
  {newValues currentValues : TasksAllocationsValues}

/-- The current allocations are those that are read for the containers, which all can be. -/
theorem Operational.getTasksAllocations (hop : self.Operational h new) :
    ∃ current, getTasksAllocations self.containers h = .ok current ∧ ∀ task a,
      current.get? task = some a ↔ ∃ tk c, self.containers.get? task = some (tk, c) ∧
        c.getAllocations h = .ok a ∧ Reads self c h a := by
  have hread : ∀ p ∈ self.containers.items, ∃ a, p.2.2.getAllocations h = .ok a ∧ Reads self p.2.2 h a :=
    fun p hp => hop.healthy.reads hp (hop.readable p hp).1
  obtain ⟨current, hcurrent, hget⟩ := getTasksAllocations_ok fun p hp => .inl ((hread p hp).imp fun _ => And.left)
  refine ⟨current, hcurrent, fun task a => ?_⟩
  rw [hget]
  constructor
  · rintro ⟨⟨_, tk, c⟩, hp, rfl, ha⟩
    obtain ⟨a', ha', hr⟩ := hread _ hp
    cases ha.symm.trans ha'
    exact ⟨tk, c, Dict.get?_eq_some_iff.mpr hp, ha, hr⟩
  · rintro ⟨tk, c, hc, ha, -⟩
    exact ⟨(task, tk, c), Dict.get?_eq_some_iff.mp hc, rfl, ha⟩

/-- The values of an iteration that are created. -/
theorem Operational.iterates (hop : self.Operational h new) {h₀ h₁ h₂ h₃ : Heap}
    (hcurrent : ∀ task a, current.get? task = some a ↔ ∃ tk c, self.containers.get? task = some (tk, c) ∧
      c.getAllocations h = .ok a ∧ Reads self c h a)
    (hc : (self.create current).run h₀ = .ok currentValues h₁)
    (hn : (self.create new).run h₂ = .ok newValues h₃) :
    Iterates self h new newValues currentValues := by
  obtain ⟨hplacen, hleafn⟩ := builtFrom_of_create hn
  obtain ⟨hplacec, hleafc⟩ := builtFrom_of_create hc
  refine ⟨fun task t v hv => ?_, hleafn⟩
  obtain ⟨tk, c, m, raw, htask, hm, hraw, hnew⟩ := hplacen task t v hv
  obtain ⟨a, ha, hreads⟩ := hop.healthy.reads (Dict.get?_eq_some_iff.mp htask)
    (hop.readable _ (Dict.get?_eq_some_iff.mp htask)).1
  have hget : current.get? task = some a := (hcurrent task a).mpr ⟨tk, c, htask, ha, hreads⟩
  refine ⟨tk, c, m, raw, a, htask, hm, hraw, hnew, ha, hreads, fun cv hcv => ?_, fun hnone => ?_⟩
  · obtain ⟨tk', c', a', raw', htask', ha', hraw', hbuilt⟩ := hplacec task t cv hcv
    cases htask.symm.trans htask'
    cases hget.symm.trans ha'
    exact ⟨raw', hraw', hbuilt⟩
  · cases ht : a.get? t with
    | none => rfl
    | some raw' =>
      obtain ⟨cv, hcv⟩ := hleafc task a t raw' hget ht
      cases hnone.symm.trans hcv

/-- What holds of every place of the values holds of every place of the allocations. -/
theorem Iterates.forall_iff (hit : Iterates self h new newValues currentValues)
    {P : Container → AllocationType → RawValue → Prop} {Q : TaskId → AllocationType → LeafValue → Prop}
    (hPQ : ∀ task t v c raw a, leaf newValues task t = some v →
      Meets self h c t raw v a (leaf currentValues task t) → (Q task t v ↔ P c t raw)) :
    (∀ task t v, leaf newValues task t = some v → Q task t v) ↔
      ∀ task m tk c, new.get? task = some m → self.containers.get? task = some (tk, c) →
        ∀ t raw, m.get? t = some raw → P c t raw := by
  constructor
  · intro hall task m tk c hm hc t raw hraw
    obtain ⟨v, hv⟩ := hit.built task m t raw hm hraw
    obtain ⟨tk', c', m', raw', a, hc', hm', hraw', hmeets⟩ := hit.place task t v hv
    cases hc.symm.trans hc'
    cases hm.symm.trans hm'
    cases hraw.symm.trans hraw'
    exact (hPQ task t v c raw a hv hmeets).mp (hall task t v hv)
  · intro hall task t v hv
    obtain ⟨tk, c, m, raw, a, hc, hm, hraw, hmeets⟩ := hit.place task t v hv
    exact (hPQ task t v c raw a hv hmeets).mpr (hall task m tk c hm hc t raw hraw)

/-- The values are compared when all lines that are asked for are shown. -/
theorem Iterates.calculateChangeset_iff (hit : Iterates self h new newValues currentValues) :
    (∃ r, calculateChangeset newValues currentValues = .ok r) ↔
      ∀ task m tk c, new.get? task = some m → self.containers.get? task = some (tk, c) →
        ∀ t raw, m.get? t = some raw → self.LinesShown h c t raw := by
  rw [calculateChangeset_nest_returns_iff, ← hit.forall_iff (Q := fun task t v =>
    ∀ cv, leaf currentValues task t = some cv → ∃ r, v.calculateChangeset cv = .ok r)
    fun task t v c raw a _ hmeets => hmeets.returns_iff]
  exact forall_congr' fun task => forall_congr' fun t => forall_congr' fun v =>
    ⟨fun hall hv cv hcv => hall cv hv hcv, fun hall cv hv hcv => hall hv cv hcv⟩

/-! ### The changeset -/

theorem Operational.ready (hop : self.Operational h new) {task : TaskId} {tk : Task} {c : Container}
    (hc : self.containers.get? task = some (tk, c)) :
    c.cgroup.Ready h.cgroups ∧ ∀ s ∈ c.subcgroups, s.Ready h.cgroups := by
  have hp := Dict.get?_eq_some_iff.mp hc
  obtain ⟨⟨hown, hsubs, -⟩, -⟩ := hop.readable _ hp
  have hconfigured := hop.configured _ hp
  have hready : ∀ cgroup ∈ c.cgroup :: c.subcgroups, cgroup.cgroupPath ∈ h.cgroups → cgroup.Ready h.cgroups := by
    intro cgroup hmem hthere
    obtain ⟨hperiod, hdeclared⟩ := hconfigured cgroup hmem
    obtain ⟨-, -, -, m, hm, -⟩ := hdeclared.bounds
    exact ⟨hthere, hperiod, m, hm⟩
  exact ⟨hready _ List.mem_cons_self hown, fun s hs => hready s (List.mem_cons_of_mem _ hs) (hsubs s hs)⟩

theorem Operational.accommodates_of_information (hop : self.Operational h new) {i : RDTInformation}
    (hi : self.platform.rdtInformation = some i) : self.Accommodates h.resctrl new := by
  refine hop.accommodates ?_
  rw [← hop.healthy.rdt, hi]
  rfl

section

variable {target : TasksAllocationsValues} {changeset : Option TasksAllocationsValues}

/-- What is at a place of the changeset. -/
theorem Iterates.change (hit : Iterates self h new newValues currentValues)
    (hcalc : calculateChangeset newValues currentValues = .ok (target, changeset)) {task : TaskId}
    {t : AllocationType} {d : LeafValue} (hd : leaf (changeset.getD ∅) task t = some d) :
    ∃ tk c m raw v a, self.containers.get? task = some (tk, c) ∧ new.get? task = some m ∧
      m.get? t = some raw ∧ Meets self h c t raw v a (leaf currentValues task t) ∧
      LeafEntry (some v) (leaf currentValues task t) (leaf target task t) (some d) := by
  have hentry := leafEntry_of_ok hcalc task t
  rw [changedLeaf_eq, hd] at hentry
  cases hv : leaf newValues task t with
  | none =>
    rw [hv] at hentry
    cases hentry.2
  | some v =>
    rw [hv] at hentry
    obtain ⟨tk, c, m, raw, a, hc, hm, hraw, hmeets⟩ := hit.place task t v hv
    exact ⟨tk, c, m, raw, v, a, hc, hm, hraw, hmeets, hentry⟩

/-- An RDT value of the changeset finds its container, and moves to a group that was counted. -/
theorem Iterates.rdt_change (hit : Iterates self h new newValues currentValues)
    (hop : self.Operational h new)
    (hcalc : calculateChangeset newValues currentValues = .ok (target, changeset)) {task : TaskId}
    {t : AllocationType} {d : RDTAllocationValue} (hd : leaf (changeset.getD ∅) task t = some (.rdt d)) :
    t = .RDT ∧ self.rdtEnabled = true ∧ ∃ tk c, self.containers.get? task = some (tk, c) ∧
      d.containerName = c.name ∧ d.Placed h.resctrl ∧
      ∀ name, d.destination = some name → name ∈ self.countedGroups new.items := by
  obtain ⟨tk, c, m, raw, v, a, hc, hm, hraw, hmeets, hentry⟩ := hit.change hcalc hd
  obtain rfl := hmeets.type_of_rdt hentry rfl
  obtain ⟨ctx, -, -, hi, -, -⟩ := hmeets.new.rdt
  obtain ⟨rdtAllocation, d', rfl, hd', hchange⟩ := hmeets.rdtChange hentry
  obtain ⟨d', rfl, hsame⟩ := Option.map_eq_some_iff.mp hd'.symm
  cases hsame
  have hacc := hop.accommodates_of_information hi
  have hp := Dict.get?_eq_some_iff.mp hc
  obtain ⟨hname, hplaced, hdest⟩ := hchange.placed (hacc.named _ hp) (hacc.lodged _ hp)
  refine ⟨rfl, by rw [← hop.healthy.rdt, hi]; rfl, tk, c, hc, hname, hplaced, fun name hdname => ?_⟩
  rw [hdest name hdname, countedGroups, List.mem_toFinset, List.mem_filterMap]
  refine ⟨(task, m), Dict.get?_eq_some_iff.mp hm, ?_⟩
  simp only [itemGroup, hc, hraw]

/-- There is room for the groups of the changeset. -/
theorem Iterates.roomy (hit : Iterates self h new newValues currentValues) (hop : self.Operational h new)
    (hcalc : calculateChangeset newValues currentValues = .ok (target, changeset)) :
    Roomy h.resctrl ((leavesOf (changeset.getD ∅)).filterMap LeafValue.rdt?) := by
  have hplace : ∀ d ∈ (leavesOf (changeset.getD ∅)).filterMap LeafValue.rdt?, ∃ task t,
      leaf (changeset.getD ∅) task t = some (.rdt d) := by
    intro d hd
    obtain ⟨v, hv, hrdt⟩ := List.mem_filterMap.mp hd
    rw [LeafValue.rdt?_eq_some_iff.mp hrdt] at hv
    exact mem_leavesOf.mp hv
  generalize hvs : (leavesOf (changeset.getD ∅)).filterMap LeafValue.rdt? = vs at hplace
  cases vs with
  | nil =>
    have hempty : newGroups h.resctrl [] = ∅ := rfl
    exact ⟨fun hne => absurd rfl hne, fun hne => absurd rfl hne, fun v hv => absurd hv List.not_mem_nil, List.nodup_nil,
      by rw [hempty]; exact Nat.zero_le _, by rw [hempty]; exact Nat.zero_le _⟩
  | cons d vs =>
    obtain ⟨task, t, hd⟩ := hplace d List.mem_cons_self
    have hacc := hop.accommodates (hit.rdt_change hop hcalc hd).2.1
    -- two containers have two names
    have hapart : ((d :: vs).map RDTAllocationValue.containerName).Nodup := by
      rw [← hvs]
      refine List.pairwise_map.mpr (List.pairwise_filterMap.mpr (pairwise_leavesOf ?_))
      intro task t v task' t' v' hv hv' hne u hu u' hu' hname
      rw [LeafValue.rdt?_eq_some_iff.mp hu] at hv
      rw [LeafValue.rdt?_eq_some_iff.mp hu'] at hv'
      obtain ⟨rfl, -, tk, c, hc, hcname, -⟩ := hit.rdt_change hop hcalc hv
      obtain ⟨rfl, -, tk', c', hc', hcname', -⟩ := hit.rdt_change hop hcalc hv'
      have hsame := List.inj_on_of_nodup_map hacc.apart (Dict.get?_eq_some_iff.mp hc)
        (Dict.get?_eq_some_iff.mp hc') (hcname.symm.trans (hname.trans hcname'))
      rcases hne with hne | hne
      · exact hne (congrArg Prod.fst hsame)
      · exact hne rfl
    have hsub : newGroups h.resctrl (d :: vs) ⊆ self.missingGroups h.resctrl new := by
      intro name hname
      obtain ⟨⟨u, hu, hdest⟩, hnot⟩ := mem_newGroups.mp hname
      obtain ⟨task, t, hu⟩ := hplace u hu
      obtain ⟨-, -, _, _, -, -, -, hcounted⟩ := hit.rdt_change hop hcalc hu
      exact Finset.mem_filter.mpr ⟨hcounted name hdest, hnot⟩
    have hlen : (d :: vs).length ≤ self.containers.len := by
      have hnames : (d :: vs).map RDTAllocationValue.containerName ⊆
          self.containers.items.map fun p => p.2.2.name := by
        intro name hname
        obtain ⟨u, hu, rfl⟩ := List.mem_map.mp hname
        obtain ⟨task, t, hu⟩ := hplace u hu
        obtain ⟨-, -, tk, c, hc, hcname, -⟩ := hit.rdt_change hop hcalc hu
        exact List.mem_map.mpr ⟨_, Dict.get?_eq_some_iff.mp hc, hcname.symm⟩
      have hle := (hapart.subperm hnames).length_le
      rwa [List.length_map, List.length_map] at hle
    have hcard := Finset.card_le_card hsub
    refine ⟨fun _ => hacc.root, fun _ => hacc.legal, fun u hu => ?_, hapart, hcard.trans hacc.closids, ?_⟩
    · obtain ⟨task, t, hu⟩ := hplace u hu
      obtain ⟨-, -, _, _, -, -, hplaced, -⟩ := hit.rdt_change hop hcalc hu
      exact hplaced
    · have hrmids := hacc.rmids
      omega

/-- What an iteration performs are the values of its changeset. -/
theorem perform_eq_forM : (Outcome.mk target changeset).perform =
    forM (leavesOf (changeset.getD ∅)) LeafValue.performAllocations := by
  unfold Outcome.perform
  cases changeset with
  | none => rfl
  | some d =>
    dsimp only
    by_cases hitems : d.items ≠ []
    · rw [doIf_of hitems]
      exact performAllocations_eq_forM d
    · rw [doIf_of_not hitems]
      have hempty : d = ∅ := Dict.ext (not_not.mp hitems)
      rw [hempty]
      rfl

/-- The changeset is performed when all allocations can be written. -/
theorem Iterates.perform_iff (hit : Iterates self h new newValues currentValues)
    (hop : self.Operational h new)
    (hcalc : calculateChangeset newValues currentValues = .ok (target, changeset)) {w : World}
    (hw : w.host = h) :
    (∃ w', (Outcome.mk target changeset).perform.run w = .ok () w') ↔
      ∀ task m tk c, new.get? task = some m → self.containers.get? task = some (tk, c) →
        ∀ t raw, m.get? t = some raw → self.Writable h c t raw := by
  subst hw
  have hleft : Leftover w (leavesOf (changeset.getD ∅)) w := by
    refine ⟨fun d hd => ?_, hit.roomy hop hcalc, rfl⟩
    obtain ⟨task, t, hd⟩ := mem_leavesOf.mp hd
    obtain ⟨tk, c, m, raw, v, a, hc, -, -, hmeets, hentry⟩ := hit.change hcalc hd
    exact hmeets.attached hentry (hop.ready hc).1 (hop.ready hc).2 rfl
  rw [perform_eq_forM, ← hit.forall_iff (Q := fun task t _ =>
    ∀ d, leaf (changeset.getD ∅) task t = some d → d.Workable w.host.resctrl) fun task t v c raw a hv hmeets => by
      have hentry := leafEntry_of_ok hcalc task t
      rw [hv, changedLeaf_eq] at hentry
      exact hmeets.workable_iff hentry fun i hi => (hop.accommodates_of_information hi).legal]
  refine (forM_performAllocations_returns_iff hleft).trans ?_
  constructor
  · exact fun hall task t _ _ d hd => hall d (mem_leavesOf.mpr ⟨task, t, hd⟩)
  · intro hall d hd
    obtain ⟨task, t, hd⟩ := mem_leavesOf.mp hd
    have hentry := leafEntry_of_ok hcalc task t
    cases hv : leaf newValues task t with
    | none =>
      rw [hv, changedLeaf_eq, hd] at hentry
      cases hentry.2
    | some v => exact hall task t v hv d hd

end

/-! ### The iteration -/

/-- The check of the QoS classes refuses and never breaks. -/
theorem validateShares_cases (tasks : List Task) (new : TasksAllocations) :
    validateSharesAllocationForKubernetes tasks new = .ok () ∨
      ∃ why, validateSharesAllocationForKubernetes tasks new = .error (.InvalidAllocations why) := by
  unfold validateSharesAllocationForKubernetes
  split
  · exact .inr ⟨_, rfl⟩
  · exact .inl rfl

section

variable {s : RunnerState} {h₁ : Heap} {e : Exc}

theorem onWorld_ok {α : Type} {x : EStateM Exc World α} {a : α} {w : World}
    (hx : x.run s.world = .ok a w) : (onWorld x).run s = .ok a { s with world := w } :=
  zoom_ok_iff.mpr ⟨w, hx, rfl⟩

theorem tryAllocations_of_refusedShares {t : TryState}
    (hk : validateSharesAllocationForKubernetes self.tasks new = .error e) :
    (self.tryAllocations new currentValues).run t = .error e t :=
  bind_of_error (run_liftM_error_iff.mpr ⟨hk, rfl⟩)

theorem tryAllocations_of_create_error {t : TryState} {h₂ : Heap}
    (hk : validateSharesAllocationForKubernetes self.tasks new = .ok ())
    (he : (self.create new).run t.heap = .error e h₂) :
    (self.tryAllocations new currentValues).run t = .error e { t with heap := h₂ } := by
  unfold tryAllocations
  rw [bind_of_ok (run_liftM_ok_iff.mpr ⟨hk, rfl⟩)]
  exact bind_of_error (zoom_error_iff.mpr ⟨h₂, he, rfl⟩)

theorem tryAllocations_of_calculateChangeset_error {t : TryState} {h₂ : Heap}
    (hk : validateSharesAllocationForKubernetes self.tasks new = .ok ())
    (hn : (self.create new).run t.heap = .ok newValues h₂)
    (he : calculateChangeset newValues currentValues = .error e) :
    (self.tryAllocations new currentValues).run t = .error e { t with heap := h₂ } := by
  obtain ⟨haccepted, -⟩ := create_ok hn
  unfold tryAllocations
  rw [bind_of_ok (run_liftM_ok_iff.mpr ⟨hk, rfl⟩), bind_of_ok (inTry_ok hn),
    bind_of_ok (inTry_ok (validate_of_allAccepted haccepted))]
  exact bind_of_error (run_liftM_error_iff.mpr ⟨he, rfl⟩)

/-- The iteration handles the output when the `try` block raises `InvalidAllocations`, or returns a
changeset that is performed. -/
theorem iterateBodyFrom_handled_iff (hc : (self.create current).run s.world.heap = .ok currentValues h₁) :
    (∃ outcome s', (self.iterateBodyFrom current new).run s = .ok outcome s' ∧ Handled new s s') ↔
      (∃ why t, (self.tryAllocations new currentValues).run (tryState s currentValues h₁) =
        .error (.InvalidAllocations why) t) ∨
      ∃ t w', (self.tryAllocations new currentValues).run (tryState s currentValues h₁) = .ok () t ∧
        (Outcome.mk t.targetAllocationsValues t.allocationsChangesetValues).perform.run
          { s.world with heap := t.heap } = .ok () w' := by
  have hcreate : (onWorld (World.onHeap (self.create current))).run s =
      .ok currentValues { s with world := { s.world with heap := h₁ } } := by
    rw [onWorld, zoom_run, World.onHeap, zoom_run, hc]
  rw [iterateBodyFrom, bind_of_ok hcreate]
  cases htry : (self.tryAllocations new currentValues).run (tryState s currentValues h₁) with
  | ok u t =>
    have hhandle : (self.handleAllocations new currentValues).run
        { s with world := { s.world with heap := h₁ } } =
        .ok ⟨t.targetAllocationsValues, t.allocationsChangesetValues⟩
          { s with
            world := { s.world with heap := t.heap }
            allocationsCounter := t.allocationsCounter } := by
      unfold handleAllocations
      rw [bind_of_ok (get_run _)]
      unfold tryState at htry
      simp only [htry]
      rfl
    obtain ⟨-, _, h, target, changeset, -, -, rfl⟩ := (tryAllocations_ok_iff hc).mp htry
    rw [bind_of_ok hhandle]
    constructor
    · rintro ⟨outcome, s', hrun, -⟩
      rw [bind_ok_iff] at hrun
      obtain ⟨_, s₂, hperform, -⟩ := hrun
      obtain ⟨w', hperform', -⟩ := zoom_ok_iff.mp hperform
      exact .inr ⟨_, w', rfl, hperform'⟩
    · rintro (⟨why, t', he⟩ | ⟨t', w', ht, hperform⟩)
      · cases he
      · cases ht
        exact ⟨_, _, bind_of_ok (onWorld_ok hperform), .inl ⟨rfl, rfl⟩⟩
  | error e t =>
    obtain ⟨h, rfl⟩ := tryAllocations_error hc htry
    by_cases hinvalid : e.isInvalidAllocations = true
    · obtain ⟨why, rfl⟩ := e.isInvalidAllocations_iff.mp hinvalid
      have hhandle : (self.handleAllocations new currentValues).run
          { s with world := { s.world with heap := h₁ } } = .ok ⟨currentValues, none⟩ {
            world := { s.world with heap := h }
            allocationsCounter := s.allocationsCounter
            allocationsErrors := s.allocationsErrors + 1 } := by
        unfold handleAllocations
        rw [bind_of_ok (get_run _)]
        unfold tryState at htry
        simp only [htry]
        rfl
      rw [bind_of_ok hhandle]
      exact iff_of_true ⟨_, _, rfl, .inr ⟨rfl, rfl⟩⟩ (.inl ⟨why, _, rfl⟩)
    · have hhandle : ∃ s', (self.handleAllocations new currentValues).run
          { s with world := { s.world with heap := h₁ } } = .error e s' := by
        unfold handleAllocations
        rw [bind_of_ok (get_run _)]
        unfold tryState at htry
        simp only [htry]
        cases e with
        | InvalidAllocations why => exact absurd rfl hinvalid
        | _ => exact ⟨_, rfl⟩
      obtain ⟨s', hhandle⟩ := hhandle
      rw [bind_of_error hhandle]
      refine iff_of_false ?_ ?_
      · rintro ⟨outcome, s'', hrun, -⟩
        cases hrun
      · rintro (⟨why, t', he⟩ | ⟨t', w', ht, -⟩)
        · cases he
          exact hinvalid rfl
        · cases ht

end

section

open SmallHost

theorem operational_wholeQuota {new : TasksAllocations} (hlen : new.items.length ≤ 7) :
    (runner [("t1", "a")]).Operational (worldWith wholeQuota).host new := by
  have hmem : ∀ p ∈ (runner [("t1", "a")]).containers.items,
      p = ("t1", task "t1", container "t1" "a") := fun p hp => List.mem_singleton.mp hp
  have hcard : ((runner [("t1", "a")]).missingGroups (worldWith wholeQuota).host.resctrl new).card ≤ 7 :=
    (Finset.card_filter_le _ _).trans <| (List.toFinset_card_le _).trans <|
      (List.length_filterMap_le _ _).trans hlen
  refine ⟨healthy_worldWith (reported_quota (by decide)), fun p hp => ⟨?_, fits_wholeQuota p hp⟩, ?_, ?_,
    fun _ => ?_⟩
  · obtain rfl := hmem p hp
    refine ⟨by decide, fun s hs => absurd hs List.not_mem_nil, fun _ g hg => ?_⟩
    cases hg
    decide
  · intro p hp cgroup hcgroup
    obtain rfl := hmem p hp
    obtain rfl := List.mem_singleton.mp hcgroup
    exact ⟨⟨_, rfl⟩, declared_default⟩
  · intro i hi
    cases hi
    exact ⟨fun _ => ⟨_, _, 4095, 1, rfl, rfl, by decide +kernel, by decide +kernel⟩, fun _ => ⟨_, _, rfl, rfl⟩⟩
  · refine ⟨by decide, ?_, ?_, by decide, ?_, hcard.trans (by decide), ?_⟩
    · decide
    · decide
    · intro p hp g hg
      obtain rfl := hmem p hp
      cases hg
      exact ⟨_, rfl, List.mem_singleton.mpr rfl⟩
    · exact Nat.add_le_add_right hcard 1

/-- The mask has a gap. -/
def maskWithGap : TasksAllocations := Dict.ofItems [("t1", rdt (some "b") (some "L3:0=f0f") none)]

/-- The mask is no number. -/
def maskNoNumber : TasksAllocations := Dict.ofItems [("t1", rdt (some "b") (some "L3:0=xyz") none)]

/-- The same text for a bandwidth. -/
def bandwidthNoNumber : TasksAllocations := Dict.ofItems [("t1", rdt (some "b") none (some "MB:0=xyz"))]

end

end AllocationRunner

end Wca
