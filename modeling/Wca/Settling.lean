import Wca.Handling
import Wca.Relocation
import Mathlib.Data.List.Find

/-!
# What an iteration leaves behind

The RDT values of a changeset are performed among values of other kinds, which leave the groups and the
`RDTGroups` alone. So the run theorems for RDT values say what an iteration makes of the groups: where every
process is then, and which lines every group got.
-/

namespace Wca

open Py World Resctrl AllocationsDict

/-! ## Values of other kinds -/

/-- Two worlds with the same groups and the same `RDTGroups`. -/
structure Agree (w w' : World) : Prop where
  heap : w'.heap = w.heap
  resctrl : w'.host.resctrl = w.host.resctrl

theorem Agree.trans {w w' w'' : World} (h : Agree w w') (h' : Agree w' w'') : Agree w w'' :=
  ⟨h'.heap.trans h.heap, h'.resctrl.trans h.resctrl⟩

theorem Agree.symm {w w' : World} (h : Agree w w') : Agree w' w := ⟨h.heap.symm, h.resctrl.symm⟩

section

variable {w w' w₀ : World} {u : Unit}

theorem onHost_agree {x : EStateM Exc Host Unit} (hx : ∀ h h' u, x.run h = .ok u h' → h.Kept h')
    (hrun : (World.onHost x).run w = .ok u w') : Agree w w' := by
  obtain ⟨h, hh, rfl⟩ := zoom_ok_iff.mp hrun
  exact ⟨rfl, (hx _ _ _ hh).resctrl⟩

/-- A value of another kind leaves the groups alone. -/
theorem LeafValue.performAllocations_agree {v : LeafValue} (hv : v.rdt? = none)
    (hrun : v.performAllocations.run w = .ok u w') : Agree w w' := by
  cases v with
  | quota v => exact onHost_agree (fun _ _ _ => QuotaAllocationValue.performAllocations_kept) hrun
  | shares v =>
    exact onHost_agree (fun _ _ _ => onCgroups_kept fun _ _ _ => Cgroup.setShares_keeps) hrun
  | memoryMigrate v =>
    exact onHost_agree (fun _ _ _ => onCgroups_kept fun _ _ _ => Cgroup.write_keeps) hrun
  | cpuset v => exact onHost_agree (fun _ _ _ => ListFormatBasedAllocationValue.performAllocations_kept) hrun
  | migratePages v =>
    obtain ⟨_, w₁, hget, hrest⟩ := bind_ok_iff.mp hrun
    cases hget
    obtain ⟨calls, w₂, hcalls, hset⟩ := bind_ok_iff.mp hrest
    obtain ⟨-, rfl⟩ := run_liftM_ok_iff.mp hcalls
    cases hset
    exact ⟨rfl, rfl⟩
  | rdt v => cases hv

/-- An RDT value only looks at the groups. -/
theorem RDTAllocationValue.performAllocations_agree {v : RDTAllocationValue} (h : Agree w w₀)
    (hrun : v.performAllocations.run w = .ok u w') :
    ∃ w₀', v.performAllocations.run w₀ = .ok u w₀' ∧ Agree w' w₀' := by
  obtain ⟨_, w₁, hmove, hrest⟩ := bind_ok_iff.mp hrun
  obtain ⟨r, hr, rfl⟩ := onResctrl_ok_iff.mp hmove
  obtain ⟨write, w₂, hshould, hwrite⟩ := bind_ok_iff.mp hrest
  obtain ⟨heap, hheap, rfl⟩ := zoom_ok_iff.mp hshould
  rw [← h.resctrl] at hr
  rw [← h.heap] at hheap
  have hmove₀ := onResctrl_ok_iff.mpr ⟨r, hr, rfl⟩
  have hshould₀ : (World.onHeap (RDTGroups.shouldPerformSchemataWrite v.rdtGroups v)).run
      { w₀ with host := { w₀.host with resctrl := r } } = .ok write { w₀ with
        heap := heap, host := { w₀.host with resctrl := r } } := zoom_ok_iff.mpr ⟨heap, hheap, rfl⟩
  rw [RDTAllocationValue.performAllocations, bind_of_ok hmove₀, bind_of_ok hshould₀]
  rcases doIf_ok_iff.mp hwrite with ⟨hyes, hlines⟩ | ⟨hno, rfl⟩
  · obtain ⟨r', hr', rfl⟩ := onResctrl_ok_iff.mp hlines
    rw [doIf_of hyes]
    exact ⟨_, onResctrl_ok_iff.mpr ⟨r', hr', rfl⟩, rfl, rfl⟩
  · rw [doIf_of_not hno]
    exact ⟨_, rfl, rfl, rfl⟩

/-- The RDT values of a run make the same of the groups when they are performed alone. -/
theorem forM_performAllocations_rdt {leaves : List LeafValue} {p : PUnit} (h : Agree w w₀)
    (hrun : (forM leaves LeafValue.performAllocations).run w = .ok p w') :
    ∃ w₀', (forM (leaves.filterMap LeafValue.rdt?) RDTAllocationValue.performAllocations).run w₀ =
      .ok p w₀' ∧ Agree w' w₀' := by
  induction leaves generalizing w w₀ with
  | nil =>
    cases hrun
    exact ⟨w₀, rfl, h⟩
  | cons v leaves ih =>
    rw [List.forM_cons] at hrun
    obtain ⟨_, w₁, hv, hrest⟩ := bind_ok_iff.mp hrun
    cases hrdt : v.rdt? with
    | none =>
      rw [List.filterMap_cons_none hrdt]
      exact ih ((LeafValue.performAllocations_agree hrdt hv).symm.trans h) hrest
    | some u =>
      rw [List.filterMap_cons_some hrdt, List.forM_cons]
      rw [LeafValue.rdt?_eq_some_iff.mp hrdt] at hv
      obtain ⟨w₀₁, hu, hagree⟩ := RDTAllocationValue.performAllocations_agree h hv
      obtain ⟨w₀', hus, hafter⟩ := ih hagree hrest
      exact ⟨w₀', bind_ok_iff.mpr ⟨_, w₀₁, hu, hus⟩, hafter⟩

end

/-! ## The groups that were acted on -/

@[simp] theorem Heap.executed_put_of_executed {h : Heap} {ref : Ref} {g : RDTGroups}
    (hg : g.alreadyExecutedResgroupNames = h.executed ref) : (h.put ref g).executed = h.executed := by
  funext r
  rw [Heap.executed]
  by_cases hr : r = ref
  · rw [hr, Heap.cell_put_self, hg]
  · rw [Heap.cell_put_of_ne hr]
    rfl

/-- Validating only counts groups. -/
theorem LeafValue.validate_executed {v : LeafValue} {h h' : Heap} {u : Unit}
    (hv : (validate v).run h = .ok u h') : h'.executed = h.executed ∧ h'.next = h.next := by
  cases v with
  | rdt v =>
    change (RDTAllocationValue.validate v).run h = _ at hv
    obtain ⟨_, h₁, hlines, hgroups⟩ := bind_ok_iff.mp hv
    obtain ⟨-, rfl⟩ := run_liftM_ok_iff.mp hlines
    rw [RDTGroups.validate_run] at hgroups
    dsimp only at hgroups
    split at hgroups
    · cases hgroups
    · cases hgroups
      exact ⟨Heap.executed_put_of_executed rfl, rfl⟩
  | quota v | shares v | cpuset v | memoryMigrate v | migratePages v =>
    obtain ⟨-, rfl⟩ := run_liftM_ok_iff.mp hv
    exact ⟨rfl, rfl⟩

theorem RegistryOf.unique {self : AllocationRunner} {h h₁ h₂ : Heap} {registry registry' : Option RDTContext}
    (hr : RegistryOf self h registry h₁) (hr' : RegistryOf self h registry' h₂) :
    registry' = registry ∧ h₂ = h₁ := by
  cases hr with
  | disabled he =>
    cases hr' with
    | disabled => exact ⟨rfl, rfl⟩
    | enabled he' => cases he.symm.trans he'
  | enabled he hi hn =>
    cases hr' with
    | disabled he' => cases he.symm.trans he'
    | enabled he' hi' hn' =>
      cases hi.symm.trans hi'
      cases hn.symm.trans hn'
      exact ⟨rfl, rfl⟩

/-- The change of an RDT value is a copy of the new one that moves, or of the current one that does not. -/
theorem RDTAllocationValue.eq_copy_of_change {v c t d : RDTAllocationValue}
    (h : v.calculateChangeset (some c) = .ok (t, some d)) :
    d = v.copy v.rdtAllocation (some ⟨c.getResgroupName⟩) (some ⟨v.getResgroupName⟩) ∨
      ∃ a, d = c.copy a none none := by
  by_cases hsame : c.getResgroupName = v.getResgroupName
  · rw [calculateChangeset_of_sameGroup hsame] at h
    obtain ⟨_, -, h⟩ := except_bind_ok_iff.mp h
    obtain ⟨_, -, hret⟩ := except_bind_ok_iff.mp h
    obtain ⟨-, hchange⟩ := Prod.mk.inj (Except.ok.inj hret)
    obtain ⟨-, hd⟩ := Option.ite_none_right_eq_some.mp hchange
    cases hd
    exact .inr ⟨_, rfl⟩
  · rw [calculateChangeset_of_move hsame] at h
    cases h
    exact .inl rfl

/-- The `RDTGroups` of a registry is new. -/
theorem RegistryOf.executed {self : AllocationRunner} {h h' : Heap} {registry : Option RDTContext}
    (hr : RegistryOf self h registry h') : (∀ ref, h.executed ref = ∅ → h'.executed ref = ∅) ∧
      (self.rdtEnabled = true → h.next < h'.next) ∧
        ∀ ctx, registry = some ctx → h'.executed ctx.rdtGroups = ∅ ∧ ctx.rdtGroups = h.next := by
  cases hr with
  | disabled he => exact ⟨fun _ => id, fun hon => by simp [he] at hon, fun ctx hctx => by cases hctx⟩
  | @enabled i n =>
    have hnew : Heap.executed { h.put h.next { closidsLimit := n } with next := h.next + 1 } h.next = ∅ := by
      rw [Heap.executed]
      exact congrArg RDTGroups.alreadyExecutedResgroupNames (Heap.cell_put_self ..)
    refine ⟨fun ref href => ?_, fun _ => Nat.lt_succ_self _, fun ctx hctx => ?_⟩
    · by_cases he : ref = h.next
      · rw [he, hnew]
      · rw [← href, Heap.executed]
        exact congrArg RDTGroups.alreadyExecutedResgroupNames (Heap.cell_put_of_ne he)
    · cases hctx
      exact ⟨hnew, rfl⟩

namespace AllocationRunner

variable {self : AllocationRunner} {host : Host} {raws current new : TasksAllocations} {h h' h₀ h₁ h₂ : Heap}
  {d newValues currentValues target : TasksAllocationsValues}
  {changeset : Option TasksAllocationsValues}

/-- The RDT values that `create` makes share a new `RDTGroups`. -/
theorem create_executed (hd : (self.create raws).run h = .ok d h') :
    (∀ ref, h.executed ref = ∅ → h'.executed ref = ∅) ∧ (self.rdtEnabled = true → h.next < h'.next) ∧
      ∀ task v, rdtValueOf d task = some v → h'.executed v.rdtGroups = ∅ ∧ v.rdtGroups = h.next := by
  obtain ⟨-, -, registry, h₀, hreg, hvalue⟩ := rdtValueOf_of_create hd
  obtain ⟨hkeeps, hnext, hnew⟩ := hreg.executed
  unfold AllocationRunner.create TasksAllocationsValues.create at hd
  obtain ⟨registry', h₀', hregistry, hd⟩ := bind_ok_iff.mp hd
  obtain ⟨rfl, rfl⟩ := hreg.unique (createRegistry_ok hregistry)
  have hinv : wp (raws.comprehendM
        (TasksAllocationsValues.createTask self.rdtEnabled self.containers registry'))
      (fun d (t : Heap) => d.keys = raws.keys ∧ t.executed = h₀'.executed ∧ t.next = h₀'.next)
      (fun _ _ => True) h₀' := by
    refine Dict.wp_comprehendM (I := fun _ _ (t : Heap) => t.executed = h₀'.executed ∧ t.next = h₀'.next)
      ⟨rfl, rfl⟩ ?_
    intro pre task raw post d t _ _ ht
    refine wp_of_ok fun m t' hrun => ?_
    obtain ⟨_, _, -, -, -, hvalidate⟩ := createTask_ok hrun
    refine forM_ok_inv (I := fun t => t.executed = h₀'.executed ∧ t.next = h₀'.next) hvalidate ht ?_
    intro v _ t t' ht hv
    obtain ⟨hexecuted, hsame⟩ := LeafValue.validate_executed hv
    exact ⟨hexecuted.trans ht.1, hsame.trans ht.2⟩
  obtain ⟨-, hexecuted, hsame⟩ := hinv.ok hd
  rw [hexecuted, hsame]
  refine ⟨hkeeps, hnext, fun task v hv => ?_⟩
  obtain ⟨_, _, _, ctx, -, -, hctx, rfl⟩ := hvalue task v hv
  exact hnew ctx hctx

/-- Some control of RDT is enabled on the platform. -/
def Controlled (runner : AllocationRunner) : Prop :=
  ∃ i, runner.platform.rdtInformation = some i ∧ i.isControlEnabled = true

/-- The `RDTGroups` of a value of a changeset: that of the new values if it moves a container, and that of
the current ones if not. -/
inductive RegistryFor (runner : AllocationRunner) (currentRef newRef : Ref) (d : RDTAllocationValue) :
    Prop where
  | moves (hon : runner.Controlled) (hsource : d.sourceResgroup.isSome = true) (href : d.rdtGroups = newRef)
  | stays (hon : runner.Controlled) (hsource : d.sourceResgroup.isSome = false)
      (href : d.rdtGroups = currentRef)
  | uncontrolled (hoff : ¬ runner.Controlled) (hsource : d.sourceResgroup.isSome = false)
      (href : d.rdtGroups = newRef)

/-- Two values of a changeset share an `RDTGroups` when both move their containers or both do not. -/
theorem RegistryFor.rdtGroups_eq_iff {currentRef newRef : Ref} (hne : currentRef ≠ newRef)
    {d d' : RDTAllocationValue} (hd : RegistryFor self currentRef newRef d)
    (hd' : RegistryFor self currentRef newRef d') :
    d'.rdtGroups = d.rdtGroups ↔ d'.sourceResgroup.isSome = d.sourceResgroup.isSome := by
  cases hd with
  | moves hon hs href =>
    cases hd' with
    | moves _ hs' href' => exact iff_of_true (href'.trans href.symm) (hs'.trans hs.symm)
    | stays _ hs' href' =>
      exact iff_of_false (by rw [href', href]; exact hne) (by rw [hs', hs]; exact Bool.false_ne_true)
    | uncontrolled hoff => exact absurd hon hoff
  | stays hon hs href =>
    cases hd' with
    | moves _ hs' href' =>
      exact iff_of_false (by rw [href', href]; exact hne.symm)
        (by rw [hs', hs]; exact Bool.false_ne_true.symm)
    | stays _ hs' href' => exact iff_of_true (href'.trans href.symm) (hs'.trans hs.symm)
    | uncontrolled hoff => exact absurd hon hoff
  | uncontrolled hoff hs href =>
    cases hd' with
    | moves hon => exact absurd hon hoff
    | stays hon => exact absurd hon hoff
    | uncontrolled _ hs' href' => exact iff_of_true (href'.trans href.symm) (hs'.trans hs.symm)

/-- Which `RDTGroups` a value of the changeset has; no group of it was acted on. -/
theorem Iterates.registry (hit : Iterates self host new newValues currentValues)
    (hcalc : calculateChangeset newValues currentValues = .ok (target, changeset))
    (hc : (self.create current).run h₀ = .ok currentValues h₁)
    (hn : (self.create new).run h₁ = .ok newValues h₂) {task : TaskId} {d : RDTAllocationValue}
    (hd : leaf (changeset.getD ∅) task .RDT = some (.rdt d)) :
    RegistryFor self h₀.next h₁.next d ∧ h₂.executed d.rdtGroups = ∅ := by
  have hchanged : changedRdtValueOf changeset task = some d := by
    rw [changedRdtValueOf, changedLeaf_eq, hd]
    rfl
  obtain ⟨hkeep, -, hnewref⟩ := create_executed hn
  obtain ⟨-, -, hcurrentref⟩ := create_executed hc
  have hentry := rdtEntry_of_ok hcalc (rdtValueOf_of_create hn).1 (rdtValueOf_of_create hc).1 task
  rw [hchanged] at hentry
  obtain ⟨tk, c, m, raw, v', a, -, -, -, hmeets, hleafentry⟩ := hit.change hcalc hd
  cases hv : rdtValueOf newValues task with
  | none =>
    rw [hv] at hentry
    cases hentry.2
  | some v =>
    obtain ⟨hvempty, hvref⟩ := hnewref task v hv
    rw [hv] at hentry
    cases hcur : rdtValueOf currentValues task with
    | none =>
      rw [hcur] at hentry
      obtain rfl := Option.some.inj hentry.2
      -- there is a current value where RDT is controlled
      have hleaf : leaf currentValues task .RDT = none := by
        cases hl : leaf currentValues task .RDT with
        | none => rfl
        | some w =>
          obtain ⟨u, rfl⟩ := ((rdtValueOf_of_create hc).1 task .RDT w hl).mp rfl
          rw [rdtValueOf_eq_some_iff.mpr hl] at hcur
          cases hcur
      rw [hleaf] at hmeets
      obtain ⟨_, _, hvalue⟩ := (rdtValueOf_of_create hn).2.2
      obtain ⟨_, _, _, ctx, -, -, -, hvmade⟩ := hvalue.2 task d hv
      refine ⟨.uncontrolled ?_ (by rw [hvmade]; rfl) hvref, hvempty⟩
      rintro ⟨i, hi, hon⟩
      cases hon.symm.trans (hmeets.rdt_absent hi)
    | some cv =>
      obtain ⟨hcempty, hcref⟩ := hcurrentref task cv hcur
      rw [rdtValueOf_eq_some_iff] at hcur
      obtain ⟨_, i, _, _, hi, hon, -⟩ := hmeets.rdt_current hcur
      rw [rdtValueOf_eq_some_iff.mpr hcur] at hentry
      obtain ⟨t, hcmp, -⟩ := hentry
      rcases RDTAllocationValue.eq_copy_of_change hcmp with rfl | ⟨a, rfl⟩
      · exact ⟨.moves ⟨i, hi, hon⟩ rfl hvref, hvempty⟩
      · exact ⟨.stays ⟨i, hi, hon⟩ rfl hcref, hkeep _ hcempty⟩

end AllocationRunner

/-! ## An iteration -/

/-- The value is the first of the changeset that moves a container to its group, or the first of those for the
group that do not move. -/
def Leads (name : String) (vs : List RDTAllocationValue) (v : RDTAllocationValue) : Prop :=
  v.resgroup = some ⟨name⟩ ∧ vs.find? (fun u => decide (u.sourceResgroup.isSome = v.sourceResgroup.isSome ∧
    u.getResgroupName = v.getResgroupName)) = some v

instance {name : String} {vs : List RDTAllocationValue} {v : RDTAllocationValue} :
    Decidable (Leads name vs v) := inferInstanceAs (Decidable (_ ∧ _))

/-- The RDT values of a changeset, in the order in which they are performed. -/
def Outcome.rdtValues (outcome : Outcome) : List RDTAllocationValue :=
  (leavesOf (outcome.allocationsChangesetValues.getD ∅)).filterMap LeafValue.rdt?

/-- What the values make of the groups. -/
structure Settles (r : Resctrl) (vs : List RDTAllocationValue) (r' : Resctrl) : Prop where
  place : ∀ pid, place? r' pid = (movedTo r pid vs).or
    ((place? r pid).map fun p => if Emptied r p.1 vs then (RESCTRL_ROOT_NAME, none) else p)
  schemata : ∀ name, (r'.groups.get? name).map CtrlGroup.schemata =
    (startingSchemata r name vs).map fun schemata =>
      ((vs.filter fun v => Leads name vs v).flatMap RDTAllocationValue.schemataLines).foldl writeRow schemata

theorem Settles.refl (r : Resctrl) : Settles r [] r where
  place := fun pid => by
    have hnot : ∀ p : String × Option String, ¬ Emptied r p.1 [] := fun p hc => hc.2
    simp [movedTo, hnot]
  schemata := fun name => by
    rw [startingSchemata, if_neg fun hc => hc.2.2, freshSchemata, if_neg (by simp)]
    simp
    rfl

namespace AllocationRunner

variable {self : AllocationRunner} {new : TasksAllocations} {s s' : RunnerState} {outcome : Outcome}

/-- The first values of their kinds are those that write. -/
theorem writes_iff_leads {vs : List RDTAllocationValue} {currentRef newRef : Ref} (hne : currentRef ≠ newRef)
    {executed : Ref → Finset String} (hvs : ∀ v ∈ vs, RegistryFor self currentRef newRef v ∧
      executed v.rdtGroups = ∅) {v : RDTAllocationValue} (hv : v ∈ vs) (name : String) :
    Writes name executed vs v ↔ Leads name vs v := by
  have hfind : vs.find? (fun u => decide (v.SameKey u)) = vs.find? fun u =>
      decide (u.sourceResgroup.isSome = v.sourceResgroup.isSome ∧ u.getResgroupName = v.getResgroupName) := by
    refine List.find?_congr fun u hu => ?_
    rw [decide_eq_decide, RDTAllocationValue.SameKey,
      (hvs v hv).1.rdtGroups_eq_iff hne (hvs u hu).1]
  rw [Writes, Leads, hfind, (hvs v hv).2]
  simp

/-- The values are compared and the changeset is to be performed, or the output is refused. -/
theorem handleAllocations_ok {current : TasksAllocations} {currentValues : TasksAllocationsValues} {h₀ : Heap}
    (hc : (self.create current).run h₀ = .ok currentValues s.world.heap)
    (h : (self.handleAllocations new currentValues).run s = .ok outcome s') :
    (∃ h₂, outcome = ⟨currentValues, none⟩ ∧ s'.world = { s.world with heap := h₂ } ∧
      s'.allocationsErrors = s.allocationsErrors + 1) ∨
      ∃ newValues h₂, (self.create new).run s.world.heap = .ok newValues h₂ ∧
        calculateChangeset newValues currentValues =
          .ok (outcome.targetAllocationsValues, outcome.allocationsChangesetValues) ∧
        s'.world = { s.world with heap := h₂ } := by
  unfold handleAllocations at h
  rw [bind_of_ok (get_run _)] at h
  dsimp only at h
  split at h
  · rename_i t htry
    cases h
    obtain ⟨-, newValues, h₂, target, changeset, hn, hcalc, rfl⟩ := (tryAllocations_ok_iff hc).mp htry
    exact .inr ⟨newValues, h₂, hn, hcalc, rfl⟩
  · rename_i t htry
    cases h
    obtain ⟨h₂, rfl⟩ := tryAllocations_error hc htry
    exact .inl ⟨h₂, rfl, rfl, rfl⟩
  · cases h

/-- An iteration that accepts what the allocator returns, with the values that it made. -/
def Accepts (self : AllocationRunner) (new : TasksAllocations) (s s' : RunnerState) (outcome : Outcome) :
    Prop :=
  ∃ current currentValues newValues h₁ h₂,
    (self.create current).run s.world.heap = .ok currentValues h₁ ∧
    (self.create new).run h₁ = .ok newValues h₂ ∧
    Iterates self s.world.host new newValues currentValues ∧
    calculateChangeset newValues currentValues =
      .ok (outcome.targetAllocationsValues, outcome.allocationsChangesetValues) ∧
    outcome.perform.run { s.world with heap := h₂ } = .ok () s'.world

theorem iterateBody_ok (hop : self.Operational s.world.host new)
    (hrun : (self.iterateBody fun _ => new).run s = .ok outcome s') :
    outcome.allocationsChangesetValues = none ∧ s'.world.host = s.world.host ∧
      s'.allocationsErrors = s.allocationsErrors + 1 ∨ self.Accepts new s s' outcome := by
  obtain ⟨current, hcurrent, hget⟩ := hop.getTasksAllocations
  rw [iterateBody, bind_of_ok (get_run _), bind_of_ok (run_liftM_ok_iff.mpr ⟨hcurrent, rfl⟩)] at hrun
  obtain ⟨currentValues, s₁, hcreate, hrun⟩ := bind_ok_iff.mp hrun
  obtain ⟨w₁, hw₁, rfl⟩ := zoom_ok_iff.mp hcreate
  obtain ⟨h₁, hc, rfl⟩ := zoom_ok_iff.mp hw₁
  obtain ⟨outcome', s₂, hhandle, hrun⟩ := bind_ok_iff.mp hrun
  obtain ⟨_, s₃, hperform, hret⟩ := bind_ok_iff.mp hrun
  cases hret
  obtain ⟨w₃, hw₃, rfl⟩ := zoom_ok_iff.mp hperform
  rcases handleAllocations_ok hc hhandle with ⟨h₂, rfl, hworld, herrors⟩ | ⟨newValues, h₂, hn, hcalc, hworld⟩
  · cases hw₃
    exact .inl ⟨rfl, by rw [hworld], herrors⟩
  · rw [hworld] at hw₃
    exact .inr ⟨current, currentValues, newValues, h₁, h₂, hc, hn, hop.iterates hget hc hn, hcalc, hw₃⟩

/-- **An iteration on a host that is in order.** Every process is where the last value that moves it puts it,
and any other process is where it was, unless its group lost its only mon group; every group has the schemata
it started with and the lines of the values that lead. -/
theorem iterateBody_settles (hop : self.Operational s.world.host new) (hwf : s.world.host.resctrl.WellFormed)
    (hrun : (self.iterateBody fun _ => new).run s = .ok outcome s') :
    Settles s.world.host.resctrl outcome.rdtValues s'.world.host.resctrl := by
  rcases iterateBody_ok hop hrun with ⟨hnone, hhost, -⟩ |
    ⟨_, currentValues, newValues, h₁, h₂, hc, hn, hit, hcalc, hperform⟩
  · rw [hhost, Outcome.rdtValues, hnone]
    exact .refl _
  · have hroomy := hit.roomy hop hcalc
    rw [perform_eq_forM] at hperform
    have hself : Agree { s.world with heap := h₂ } { s.world with heap := h₂ } := ⟨rfl, rfl⟩
    obtain ⟨w₃', hrdt, hagree⟩ := forM_performAllocations_rdt hself hperform
    have hplace := forM_performAllocations_place (w := { s.world with heap := h₂ }) hwf hroomy hrdt
    have hschemata := forM_performAllocations_schemata (w := { s.world with heap := h₂ }) hroomy hrdt
    rw [← hagree.resctrl]
    refine ⟨hplace, fun name => ?_⟩
    have hmem : ∀ d ∈ outcome.rdtValues, self.rdtEnabled = true ∧
        RegistryFor self s.world.heap.next h₁.next d ∧ h₂.executed d.rdtGroups = ∅ := by
      intro d hd
      obtain ⟨v, hv, hrdt'⟩ := List.mem_filterMap.mp hd
      rw [LeafValue.rdt?_eq_some_iff.mp hrdt'] at hv
      obtain ⟨task, t, hleaf⟩ := mem_leavesOf.mp hv
      obtain ⟨rfl, hon, -⟩ := hit.rdt_change hop hcalc hleaf
      exact ⟨hon, hit.registry hcalc hc hn hleaf⟩
    have hleads : ∀ d ∈ outcome.rdtValues, decide (Writes name h₂.executed outcome.rdtValues d) =
        decide (Leads name outcome.rdtValues d) := by
      intro d hd
      have hne := ((create_executed hc).2.1 (hmem d hd).1).ne
      exact decide_eq_decide.mpr (writes_iff_leads hne (fun v hv => (hmem v hv).2) hd name)
    have hlines := linesTo_eq (.of_map _ hroomy.apart) name h₂.executed
    rw [← List.filter_congr hleads]
    exact (hschemata name).trans (by rw [hlines]; rfl)

/-! ### Where containers end up -/

/-- Every process of a container is in the mon group of the container, in its group, and no two containers
share a process. -/
structure AtPlace (runner : AllocationRunner) (r : Resctrl) : Prop where
  home : ∀ task tk c, runner.containers.get? task = some (tk, c) → ∀ g, c.resgroup = some g →
    ∀ pid ∈ c.getPids true r, place? r pid = some (g.name, some c.name)
  apart : ∀ task tk c task' tk' c' pid, runner.containers.get? task = some (tk, c) →
    runner.containers.get? task' = some (tk', c') → pid ∈ c.getPids true r → pid ∈ c'.getPids true r →
    task = task'

/-- The group that is asked for, or else the one that the container is in. -/
def groupAfter (new : TasksAllocations) (task : TaskId) (c : Container) (g : ResGroup) : String :=
  (rdtAllocationOf new task).elim g.name fun a => a.name.getD c.name

section

variable {host : Host} {current : TasksAllocations} {h₀ h₁ h₂ : Heap}
  {newValues currentValues target : TasksAllocationsValues} {changeset : Option TasksAllocationsValues}
  {task : TaskId} {tk : Task} {c : Container} {d : RDTAllocationValue}

/-- Whose processes an RDT value of the changeset moves. -/
theorem Iterates.rdt_pids
    (hcalc : calculateChangeset newValues currentValues = .ok (target, changeset))
    (hc : (self.create current).run h₀ = .ok currentValues h₁)
    (hn : (self.create new).run h₁ = .ok newValues h₂)
    (hd : leaf (changeset.getD ∅) task .RDT = some (.rdt d)) :
    ∃ tk, self.containers.get? task = some (tk, d.getPids) ∧ d.containerName = d.getPids.name := by
  have hentry := rdtEntry_of_ok hcalc (rdtValueOf_of_create hn).1 (rdtValueOf_of_create hc).1 task
  have hchanged : changedRdtValueOf changeset task = some d := by
    rw [changedRdtValueOf, changedLeaf_eq, hd]
    rfl
  have hmade : ∀ {raws : TasksAllocations} {values : TasksAllocationsValues} {h h' : Heap} {v},
      (self.create raws).run h = .ok values h' → rdtValueOf values task = some v →
      ∃ tk, self.containers.get? task = some (tk, v.getPids) ∧ v.containerName = v.getPids.name := by
    intro raws values h h' v hcreate hv
    obtain ⟨_, _, hvalue⟩ := (rdtValueOf_of_create hcreate).2.2
    obtain ⟨tk, c, _, ctx, hget, -, -, rfl⟩ := hvalue.2 task v hv
    exact ⟨tk, hget, rfl⟩
  rw [hchanged] at hentry
  cases hv : rdtValueOf newValues task with
  | none =>
    rw [hv] at hentry
    cases hentry.2
  | some v =>
    rw [hv] at hentry
    cases hcur : rdtValueOf currentValues task with
    | none =>
      rw [hcur] at hentry
      cases hentry.2
      exact hmade hn hv
    | some cv =>
      rw [hcur] at hentry
      obtain ⟨t, hcmp, -⟩ := hentry
      rcases RDTAllocationValue.eq_copy_of_change hcmp with rfl | ⟨a, rfl⟩
      · obtain ⟨tk, hget, hname⟩ := hmade hn hv
        exact ⟨tk, hget, hname⟩
      · obtain ⟨tk, hget, hname⟩ := hmade hc hcur
        exact ⟨tk, hget, hname⟩

/-- A container moves to the group that it is asked to, or it is there. -/
theorem Iterates.moves_or_stays (hit : Iterates self host new newValues currentValues)
    (hcalc : calculateChangeset newValues currentValues = .ok (target, changeset)) (hon : self.Controlled)
    (hc : self.containers.get? task = some (tk, c)) {g : ResGroup} (hg : c.resgroup = some g) :
    (∃ d, leaf (changeset.getD ∅) task .RDT = some (.rdt d) ∧
      d.destination = some (groupAfter new task c g)) ∨
    groupAfter new task c g = g.name ∧ ∀ d, leaf (changeset.getD ∅) task .RDT = some (.rdt d) →
      d.sourceResgroup = none := by
  have hentry := leafEntry_of_ok hcalc task .RDT
  rw [changedLeaf_eq] at hentry
  cases hv : leaf newValues task .RDT with
  | none =>
    rw [hv] at hentry
    refine .inr ⟨?_, fun d hd => by cases hentry.2.symm.trans hd⟩
    cases ha : rdtAllocationOf new task with
    | none =>
      rw [groupAfter, ha]
      rfl
    | some a =>
      obtain ⟨m, hm, hraw⟩ := rdtAllocationOf_eq_some_iff.mp ha
      obtain ⟨v, hv'⟩ := hit.built task m .RDT (.rdt a) hm hraw
      cases hv.symm.trans hv'
  | some v =>
    obtain ⟨tk', c', m, raw, a, hc', hm, hraw, hmeets⟩ := hit.place task .RDT v hv
    cases hc.symm.trans hc'
    rw [hv] at hentry
    obtain ⟨rdtAllocation, d, rfl, hchange, hrdt⟩ := hmeets.rdtChange hentry
    have hgroup : groupAfter new task c g = rdtAllocation.name.getD c.name := by
      rw [groupAfter, rdtAllocationOf_eq_some_iff.mpr ⟨m, hm, hraw⟩]
      rfl
    rw [hgroup, hchange]
    cases hrdt with
    | uncontrolled hoff =>
      obtain ⟨i, hi, hcontrol⟩ := hon
      cases (hoff i hi).symm.trans hcontrol
    | same hi hg' hin hsame hstays =>
      cases hg.symm.trans hg'
      refine .inr ⟨hsame, fun d' hd' => ?_⟩
      obtain ⟨u, hu, he⟩ := Option.map_eq_some_iff.mp hd'
      cases he
      exact (hstays _ hu).2.1
    | move hi hon' hg' hin hne hname hsource hres =>
      refine .inl ⟨_, rfl, ?_⟩
      rw [RDTAllocationValue.destination, hsource, hres]
      rfl

end

/-- **Agreement.** When an iteration accepts what the allocator returns, every process of every container is
in the mon group of the container, in the group that is asked for. -/
theorem iterateBody_agrees (hop : self.Operational s.world.host new) (hwf : s.world.host.resctrl.WellFormed)
    (hon : self.Controlled) (hplace : self.AtPlace s.world.host.resctrl)
    (hrun : (self.iterateBody fun _ => new).run s = .ok outcome s')
    (haccepted : s'.allocationsErrors = s.allocationsErrors) {task : TaskId} {tk : Task} {c : Container}
    (hc : self.containers.get? task = some (tk, c)) {g : ResGroup} (hg : c.resgroup = some g) {pid : Pid}
    (hpid : pid ∈ c.getPids true s.world.host.resctrl) :
    place? s'.world.host.resctrl pid = some (groupAfter new task c g, some c.name) := by
  have hsettles := iterateBody_settles hop hwf hrun
  obtain ⟨-, -, herrors⟩ | ⟨_, currentValues, newValues, h₁, h₂, hcur, hn, hit, hcalc, -⟩ :=
    iterateBody_ok hop hrun
  · omega
  have hroomy := hit.roomy hop hcalc
  have hmem : ∀ d, d ∈ outcome.rdtValues ↔ ∃ task,
      leaf (outcome.allocationsChangesetValues.getD ∅) task .RDT = some (.rdt d) := by
    intro d
    rw [Outcome.rdtValues, List.mem_filterMap]
    constructor
    · rintro ⟨v, hv, hrdt⟩
      rw [LeafValue.rdt?_eq_some_iff.mp hrdt] at hv
      obtain ⟨task, t, hleaf⟩ := mem_leavesOf.mp hv
      obtain ⟨rfl, -⟩ := hit.rdt_change hop hcalc hleaf
      exact ⟨task, hleaf⟩
    · rintro ⟨task, hleaf⟩
      exact ⟨.rdt d, mem_leavesOf.mpr ⟨task, _, hleaf⟩, rfl⟩
  -- only the value of the container itself moves the process
  have hother : ∀ u ∈ outcome.rdtValues, pid ∈ u.getPids.getPids true s.world.host.resctrl →
      leaf (outcome.allocationsChangesetValues.getD ∅) task .RDT = some (.rdt u) := by
    intro u hu hmine
    obtain ⟨task', hleaf⟩ := (hmem u).mp hu
    obtain ⟨tk', hget, -⟩ := Iterates.rdt_pids hcalc hcur hn hleaf
    rw [hplace.apart task tk c task' tk' u.getPids pid hc hget hpid hmine]
    exact hleaf
  rw [hsettles.place]
  rcases hit.moves_or_stays hcalc hon hc hg with ⟨d, hd, hdest⟩ | ⟨hgroup, hstays⟩
  · obtain ⟨tk', hget, hname⟩ := Iterates.rdt_pids hcalc hcur hn hd
    cases hc.symm.trans hget
    have honly : ∀ u ∈ outcome.rdtValues, pid ∈ u.getPids.getPids true s.world.host.resctrl → u = d := by
      intro u hu hmine
      cases (hother u hu hmine).symm.trans hd
      rfl
    rw [movedTo_eq_some ((hmem d).mpr ⟨task, hd⟩) hpid hdest honly, hname]
    rfl
  · -- its group is not emptied
    have hlodged : Lodged s.world.host.resctrl c.name g.name := by
      obtain ⟨group, hgroup, hm⟩ := hwf.place pid _ _ (hplace.home task tk c hc g hg pid hpid)
      exact ⟨group, hgroup, hm c.name rfl⟩
    have hnot : ¬ Emptied s.world.host.resctrl g.name outcome.rdtValues := by
      refine not_emptied_of_lodged hroomy.placed hlodged fun u hu hsource hname => ?_
      obtain ⟨task', hleaf⟩ := (hmem u).mp hu
      obtain ⟨tk', hget, hname'⟩ := Iterates.rdt_pids hcalc hcur hn hleaf
      obtain ⟨i, hi, -⟩ := hon
      have hsame := List.inj_on_of_nodup_map (hop.accommodates_of_information hi).apart
        (Dict.get?_eq_some_iff.mp hc) (Dict.get?_eq_some_iff.mp hget) (hname.symm.trans hname')
      cases hsame
      cases (hstays u hleaf).symm.trans hsource
    have hnone : movedTo s.world.host.resctrl pid outcome.rdtValues = none := by
      refine movedTo_eq_none fun u hu hmine => ?_
      rw [RDTAllocationValue.destination, hstays u (hother u hu hmine)]
      rfl
    rw [hnone, Option.none_or, hplace.home task tk c hc g hg pid hpid, Option.map_some, if_neg hnot, hgroup]

section

open SmallHost

/-- The task moves to a group of its own, with a quarter of the cache. -/
def moveToB : TasksAllocations := Dict.ofItems [("t1", rdt (some "b") (some "L3:0=7") none)]

theorem iterateBody_moveToB : ∃ outcome s', ((runner [("t1", "a")]).iterateBody fun _ => moveToB).run
    ⟨worldWith wholeQuota, 0, 0⟩ = .ok outcome s' ∧ s'.allocationsErrors = 0 := by
  obtain ⟨outcome, s', hrun, haccepted⟩ := exists_of_returnsSuch
    (r := ((runner [("t1", "a")]).iterateBody fun _ => moveToB).run ⟨worldWith wholeQuota, 0, 0⟩)
    (p := fun _ (s' : RunnerState) => decide (s'.allocationsErrors = 0)) (by decide +kernel)
  exact ⟨outcome, s', hrun, of_decide_eq_true haccepted⟩

theorem wellFormed_worldWith : (worldWith wholeQuota).host.resctrl.WellFormed :=
  wellFormed_of_items (by decide) (by decide) (by decide)

theorem settles_moveToB : ∃ outcome s', ((runner [("t1", "a")]).iterateBody fun _ => moveToB).run
    ⟨worldWith wholeQuota, 0, 0⟩ = .ok outcome s' ∧
      Settles (worldWith wholeQuota).host.resctrl outcome.rdtValues s'.world.host.resctrl := by
  obtain ⟨outcome, s', hrun, -⟩ := iterateBody_moveToB
  exact ⟨outcome, s', hrun, iterateBody_settles (s := ⟨worldWith wholeQuota, 0, 0⟩)
    (operational_wholeQuota (by decide)) wellFormed_worldWith hrun⟩

/-- The process of the task is in the new group afterwards. -/
theorem agrees_moveToB : ∃ outcome s', ((runner [("t1", "a")]).iterateBody fun _ => moveToB).run
    ⟨worldWith wholeQuota, 0, 0⟩ = .ok outcome s' ∧
      place? s'.world.host.resctrl 0 = some ("b", some "t1") := by
  obtain ⟨outcome, s', hrun, haccepted⟩ := iterateBody_moveToB
  have hmem : ∀ task tk c, (runner [("t1", "a")]).containers.get? task = some (tk, c) →
      task = "t1" ∧ c = container "t1" "a" := by
    intro task tk c hget
    have hp := Dict.get?_eq_some_iff.mp hget
    cases List.mem_singleton.mp hp
    exact ⟨rfl, rfl⟩
  have hplace : (runner [("t1", "a")]).AtPlace (worldWith wholeQuota).host.resctrl := by
    refine ⟨fun task tk c hget g hg pid hpid => ?_, fun task tk c task' tk' c' pid hget hget' _ _ => ?_⟩
    · obtain ⟨rfl, rfl⟩ := hmem task tk c hget
      cases hg
      have hpids : (container "t1" "a").getPids true (worldWith wholeQuota).host.resctrl = [0] := by decide
      rw [hpids, List.mem_singleton] at hpid
      rw [hpid]
      decide
    · rw [(hmem task tk c hget).1, (hmem task' tk' c' hget').1]
  have hget : (runner [("t1", "a")]).containers.get? "t1" = some (task "t1", container "t1" "a") := rfl
  have hpid : 0 ∈ (container "t1" "a").getPids true (worldWith wholeQuota).host.resctrl := by decide
  exact ⟨outcome, s', hrun, iterateBody_agrees (s := ⟨worldWith wholeQuota, 0, 0⟩)
    (operational_wholeQuota (by decide)) wellFormed_worldWith ⟨_, rfl, rfl⟩ hplace hrun haccepted
      hget rfl hpid⟩

end

end AllocationRunner

end Wca
