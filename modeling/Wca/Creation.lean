import Wca.Closids

/-!
# What `create` checks, in order

`create` goes through the tasks: it looks up the container, constructs the values of the task, and
validates them, counting groups as it goes. `checkItems` is the same sequence of checks without the
values and the shared objects, and `wp_create` says that `create` returns or raises as it does.
-/

namespace Wca

open Py AllocationsDict

namespace LeafValue

/-- The value with another `RDTGroups`. -/
def withRef (ref : Ref) : LeafValue → LeafValue
  | rdt v => rdt { v with rdtGroups := ref }
  | v => v

@[simp] theorem check_withRef (ref : Ref) (v : LeafValue) : (v.withRef ref).check = v.check := by
  cases v <;> rfl

end LeafValue

namespace AllocationRunner

variable (self : AllocationRunner)

/-- The context of RDT values whose `RDTGroups` is at a reference. -/
def context (ref : Ref) : Option RDTContext :=
  if self.rdtEnabled then
    self.platform.rdtInformation.map fun i => ⟨ref, self.platform.sockets, i⟩
  else none

/-- The number of control groups there may be. -/
def closidsLimit : ℤ := (self.platform.rdtInformation.bind RDTInformation.numClosids).getD 0

/-- The platform knows what RDT needs, if RDT is enabled. -/
def Initialized : Prop :=
  self.rdtEnabled = true → ∃ i n, self.platform.rdtInformation = some i ∧ i.numClosids = some n

/-- The group that an item asks for. -/
def itemGroup (item : TaskId × TaskAllocations) : Option String :=
  match self.containers.get? item.1, item.2.get? .RDT with
  | some (_, container), some (.rdt a) => some (a.name.getD container.name)
  | _, _ => none

/-- The groups that are counted once the items are validated. -/
def countedGroups (items : List (TaskId × TaskAllocations)) : Finset String :=
  (items.filterMap self.itemGroup).toFinset

/-- The checks of one allocation when so many groups are counted, its own included. -/
def checkLeaf (container : Container) (groups : Finset String) (t : AllocationType) (raw : RawValue) :
    Except Exc Unit := do
  let v ← construct (self.context 0) container t raw
  v.check
  doIf (t = .RDT ∧ self.closidsLimit < groups.card) (invalid .tooManyGroups)

/-- The checks of the allocations of one task. -/
def checkTask (groups : Finset String) (item : TaskId × TaskAllocations) : Except Exc Unit :=
  match self.containers.get? item.1 with
  | none => invalid (.invalidTaskId item.1)
  | some (_, container) => do
    assert (container.platform.rdtInformation.isSome = self.rdtEnabled) ""
    forM item.2.items fun p => (construct (self.context 0) container p.1 p.2).map fun _ => ()
    forM item.2.items fun p => self.checkLeaf container groups p.1 p.2

/-- The checks of the items that come after others. -/
def checkItems : List (TaskId × TaskAllocations) → List (TaskId × TaskAllocations) → Except Exc Unit
  | _, [] => .ok ()
  | pre, item :: items => do
    self.checkTask (self.countedGroups (pre ++ [item])) item
    checkItems (pre ++ [item]) items

variable {self}

/-- Nothing but the reference depends on where the `RDTGroups` is. -/
theorem construct_context (ref : Ref) (container : Container) (t : AllocationType) (raw : RawValue) :
    construct (self.context ref) container t raw =
      (construct (self.context 0) container t raw).map (LeafValue.withRef ref) := by
  cases t with
  | QUOTA => simp only [construct]; cases QuotaAllocationValue.create raw container <;> rfl
  | SHARES => simp only [construct]; cases SharesAllocationValue.create raw container <;> rfl
  | CPUSET_CPUS => simp only [construct]; cases CPUSetCPUSAllocationValue.create raw container <;> rfl
  | CPUSET_MEMS => simp only [construct]; cases CPUSetMEMSAllocationValue.create raw container <;> rfl
  | CPUSET_MEMORY_MIGRATE =>
    simp only [construct]
    cases CPUSetMemoryMigrateAllocationValue.create raw container <;> rfl
  | MIGRATE_PAGES =>
    simp only [construct]
    cases MigratePagesAllocationValue.create raw container <;> rfl
  | RDT =>
    unfold context
    cases self.rdtEnabled with
    | false => rfl
    | true => cases self.platform.rdtInformation <;> cases raw <;> rfl

/-- The `RDTGroups` at the reference has counted just these groups. -/
def HasCounted (self : AllocationRunner) (ref : Ref) (groups : Finset String) (h : Heap) : Prop :=
  self.rdtEnabled = true →
    (h.cell ref).closidsLimit = self.closidsLimit ∧ (h.cell ref).existingGroups = groups

theorem wp_validate_group {ref : Ref} {v : RDTAllocationValue} {Q : Unit → Heap → Prop}
    {E : Exc → Heap → Prop} {h : Heap} :
    wp (RDTGroups.validate ref v) Q E h ↔
      let groups := insert v.getResgroupName (h.cell ref).existingGroups
      let h' := h.put ref { h.cell ref with existingGroups := groups }
      ((h.cell ref).closidsLimit < groups.card → E (.InvalidAllocations .tooManyGroups) h') ∧
        (¬ (h.cell ref).closidsLimit < groups.card → Q () h') := by
  rw [wp, RDTGroups.validate_run]
  simp only [gt_iff_lt]
  split
  · rename_i hrun
    split at hrun
    · cases hrun
    · rename_i hcard
      cases hrun
      exact ⟨fun hq => ⟨fun hc => absurd hc hcard, fun _ => hq⟩, fun hq => hq.2 hcard⟩
  · rename_i hrun
    split at hrun
    · rename_i hcard
      cases hrun
      exact ⟨fun he => ⟨fun _ => he, fun hc => absurd hcard hc⟩, fun he => he.1 hcard⟩
    · cases hrun

/-- Validating one value does what `checkLeaf` says. -/
theorem wp_validate_leaf {container : Container} {t : AllocationType} {raw : RawValue} {v : LeafValue}
    {ref : Ref} {before groups : Finset String} {h : Heap}
    (hv : construct (self.context ref) container t raw = .ok v) (hh : self.HasCounted ref before h)
    (hgroups : ∀ a, t = .RDT → raw = .rdt a → insert (a.name.getD container.name) before = groups) :
    wp (validate v)
      (fun _ h' => self.checkLeaf container groups t raw = .ok () ∧
        self.HasCounted ref (if t = .RDT then groups else before) h')
      (fun e _ => self.checkLeaf container groups t raw = .error e) h := by
  rw [construct_context] at hv
  obtain ⟨v₀, hv₀, hmap⟩ : ∃ v₀, construct (self.context 0) container t raw = .ok v₀ ∧
      v₀.withRef ref = v := by
    cases hc : construct (self.context 0) container t raw with
    | error e => rw [hc] at hv; cases hv
    | ok v₀ => rw [hc] at hv; cases hv; exact ⟨v₀, rfl, rfl⟩
  have hleaf : self.checkLeaf container groups t raw = (do
      v.check
      doIf (t = .RDT ∧ self.closidsLimit < groups.card) (invalid .tooManyGroups)) := by
    rw [checkLeaf, hv₀, except_ok_bind, ← hmap, LeafValue.check_withRef]
  by_cases ht : t = .RDT
  · subst ht
    obtain ⟨ctx, a, hctx, rfl, rfl⟩ := construct_RDT_ok hv₀
    have he : self.rdtEnabled = true := by
      unfold context at hctx
      split at hctx
      · assumption
      · cases hctx
    obtain ⟨hlimit, hexisting⟩ := hh he
    obtain ⟨w, hw, href, hname⟩ : ∃ w, v = .rdt w ∧ w.rdtGroups = ref ∧
        w.getResgroupName = a.name.getD container.name := ⟨_, hmap.symm, rfl, rfl⟩
    subst hw href
    have hinsert : insert w.getResgroupName (h.cell w.rdtGroups).existingGroups = groups := by
      rw [hname, hexisting]
      exact hgroups a rfl rfl
    change wp (RDTAllocationValue.validate w) _ _ _
    rw [hleaf, RDTAllocationValue.validate, wp_bind, wp_liftM]
    refine ⟨fun _ hlines => ?_, fun e hlines => except_bind_error_iff.mpr (.inl hlines)⟩
    rw [wp_validate_group, hinsert, hlimit]
    refine ⟨fun hcard => ?_, fun hcard => ⟨?_, fun _ => ?_⟩⟩
    · refine except_bind_error_iff.mpr (.inr ⟨(), hlines, ?_⟩)
      exact except_doIf_error_iff.mpr ⟨⟨rfl, hcard⟩, rfl⟩
    · exact except_bind_ok_iff.mpr ⟨(), hlines, doIf_of_not fun hc => hcard hc.2⟩
    · rw [if_pos rfl, Heap.cell_put_self]
      exact ⟨hlimit, rfl⟩
  · have hpure : validate v = (liftM v.check : EStateM Exc Heap Unit) := by
      cases v with
      | rdt w =>
        rw [← construct_context] at hv
        obtain ⟨-, -, -, ht', -⟩ := construct_rdt_ok hv
        exact absurd ht' ht
      | _ => rfl
    rw [hleaf, hpure, wp_liftM, if_neg ht]
    refine ⟨fun _ hc => ⟨except_bind_ok_iff.mpr ⟨(), hc, doIf_of_not fun hc => ht hc.1⟩, hh⟩,
      fun e hc => except_bind_error_iff.mpr (.inl hc)⟩

/-- Validating the values of a task, by induction on them: the group is counted at the RDT value. -/
theorem wp_validate_values {container : Container} {ref : Ref} {before groups : Finset String}
    {l : List (AllocationType × RawValue)} {vs : List LeafValue} {h : Heap}
    (hvs : List.Forall₂ (fun p v => construct (self.context ref) container p.1 p.2 = .ok v) l vs)
    (hnd : (l.map Prod.fst).Nodup) (hh : self.HasCounted ref before h)
    (hrdt : ∀ a, (.RDT, .rdt a) ∈ l → insert (a.name.getD container.name) before = groups)
    (hnone : .RDT ∉ l.map Prod.fst → before = groups) :
    wp (forM vs validate)
      (fun _ h' => (forM l fun p => self.checkLeaf container groups p.1 p.2) = .ok ⟨⟩ ∧
        self.HasCounted ref groups h')
      (fun e _ => (forM l fun p => self.checkLeaf container groups p.1 p.2) = .error e) h := by
  induction hvs generalizing before h with
  | nil => exact ⟨rfl, hnone (by simp) ▸ hh⟩
  | @cons p v l vs hv _ ih =>
    obtain ⟨t, raw⟩ := p
    rw [List.map_cons, List.nodup_cons] at hnd
    rw [List.forM_cons, List.forM_cons, wp_bind]
    refine (wp_validate_leaf hv hh fun a ht ha => hrdt a (by rw [← ht, ← ha]; simp)).mono
      (fun _ h' hq => ?_) fun e h' he => except_bind_error_iff.mpr (.inl he)
    obtain ⟨hleaf, hh'⟩ := hq
    refine (ih hnd.2 hh' (fun a ha => ?_) fun hn => ?_).mono
      (fun _ _ hrest => ⟨except_bind_ok_iff.mpr ⟨⟨⟩, hleaf, hrest.1⟩, hrest.2⟩)
      fun e _ he => except_bind_error_iff.mpr (.inr ⟨⟨⟩, hleaf, he⟩)
    · have ht : t ≠ .RDT := by
        rintro rfl
        exact hnd.1 (List.mem_map.mpr ⟨_, ha, rfl⟩)
      rw [if_neg ht]
      exact hrdt a (List.mem_cons_of_mem _ ha)
    · split
      · rfl
      · rename_i ht
        exact hnone fun hm => (List.mem_cons.mp hm).elim (fun he => ht he.symm) hn

theorem countedGroups_append (pre : List (TaskId × TaskAllocations)) (item : TaskId × TaskAllocations) :
    self.countedGroups (pre ++ [item]) =
      match self.itemGroup item with
      | some g => insert g (self.countedGroups pre)
      | none => self.countedGroups pre := by
  unfold countedGroups
  rw [List.filterMap_append]
  cases hg : self.itemGroup item with
  | none => simp [hg]
  | some g =>
    ext x
    simp [hg]

/-- Constructing the values goes on and stops wherever the `RDTGroups` is. -/
theorem create_drop (ref : Ref) (raw : TaskAllocations) (container : Container) :
    (TaskAllocationsValues.create raw container (self.context ref)).map (fun _ => ()) =
      forM raw.items fun p => (construct (self.context 0) container p.1 p.2).map fun _ => () := by
  refine (Dict.comprehendM_drop raw (construct (self.context ref) container)).trans ?_
  simp only [construct_context ref, except_map_map]

/-- Making the values of one task does what `checkTask` says. -/
theorem wp_createTask {ref : Ref} {pre : List (TaskId × TaskAllocations)} {task : TaskId}
    {raw : TaskAllocations} {h : Heap} (hh : self.HasCounted ref (self.countedGroups pre) h) :
    wp (TasksAllocationsValues.createTask self.rdtEnabled self.containers (self.context ref) task raw)
      (fun _ h' => self.checkTask (self.countedGroups (pre ++ [(task, raw)])) (task, raw) = .ok ⟨⟩ ∧
        self.HasCounted ref (self.countedGroups (pre ++ [(task, raw)])) h')
      (fun e _ => self.checkTask (self.countedGroups (pre ++ [(task, raw)])) (task, raw) = .error e)
      h := by
  have hgroups : self.countedGroups (pre ++ [(task, raw)]) = _ :=
    countedGroups_append pre (task, raw)
  generalize self.countedGroups (pre ++ [(task, raw)]) = groups at hgroups ⊢
  unfold TasksAllocationsValues.createTask checkTask
  cases hc : self.containers.get? task with
  | none => exact rfl
  | some p =>
    obtain ⟨tk, container⟩ := p
    have hdrop : (TaskAllocationsValues.create raw container (self.context ref)).map _ = _ :=
      create_drop ref raw container
    simp only [wp_bind, wp_liftM]
    refine ⟨fun _ hassert => ⟨fun m hm => ?_, fun e he => ?_⟩,
      fun e he => except_bind_error_iff.mpr (.inl he)⟩
    · rw [hm] at hdrop
      have hvs : List.Forall₂ (fun p v => construct (self.context ref) container p.1 p.2 = .ok v)
          raw.items m.values := by
        rw [Dict.values, List.forall₂_map_right_iff]
        exact (Dict.comprehendM_ok_iff.mp hm).imp fun p q h => h.1
      refine (wp_validate_values hvs raw.nodup hh (fun a ha => ?_) fun hn => ?_).mono
        (fun _ h' hq => ⟨?_, hq.2⟩) fun e h' he => ?_
      · rw [hgroups, itemGroup, hc, Dict.get?_eq_some_iff.mpr ha]
      · rw [hgroups, itemGroup, hc, Dict.get?_eq_none_iff.mpr hn]
      · exact except_bind_ok_iff.mpr ⟨_, hassert, except_bind_ok_iff.mpr ⟨_, hdrop.symm, hq.1⟩⟩
      · exact except_bind_error_iff.mpr (.inr ⟨_, hassert,
          except_bind_error_iff.mpr (.inr ⟨_, hdrop.symm, he⟩)⟩)
    · rw [he] at hdrop
      exact except_bind_error_iff.mpr (.inr ⟨(), hassert, except_bind_error_iff.mpr (.inl hdrop.symm)⟩)

theorem checkItems_append {pre l l' : List (TaskId × TaskAllocations)} :
    self.checkItems pre (l ++ l') =
      (self.checkItems pre l >>= fun _ => self.checkItems (pre ++ l) l') := by
  induction l generalizing pre with
  | nil => rw [List.append_nil]; rfl
  | cons item l ih =>
    rw [List.cons_append, checkItems, checkItems]
    cases self.checkTask (self.countedGroups (pre ++ [item])) item with
    | error e => rfl
    | ok u =>
      rw [except_ok_bind, except_ok_bind, ih, List.append_assoc]
      rfl

theorem wp_createRegistry (hinit : self.Initialized) {h : Heap}
    {Q : Option RDTContext → Heap → Prop} {E : Exc → Heap → Prop}
    (hq : ∀ ref h', self.HasCounted ref ∅ h' → Q (self.context ref) h') :
    wp (TasksAllocationsValues.createRegistry self.rdtEnabled self.platform) Q E h := by
  unfold TasksAllocationsValues.createRegistry
  split
  · rename_i he
    obtain ⟨i, n, hi, hn⟩ := hinit he
    simp only [hi, hn, wp_bind]
    have hcontext : self.context h.next = some ⟨h.next, self.platform.sockets, i⟩ := by
      rw [context, if_pos he, hi]
      rfl
    have hlimit : self.closidsLimit = n := by
      rw [closidsLimit, hi, Option.bind_some, hn]
      rfl
    change Q _ _
    rw [← hcontext]
    refine hq h.next _ fun _ => ?_
    rw [hlimit]
    exact ⟨congrArg RDTGroups.closidsLimit (Heap.cell_put_self h h.next _),
      congrArg RDTGroups.existingGroups (Heap.cell_put_self h h.next _)⟩
  · rename_i he
    have hcontext : self.context 0 = none := by rw [context, if_neg he]
    rw [wp_pure, ← hcontext]
    exact hq 0 h fun he' => absurd he' he

/-- `create` returns or raises as the checks do. -/
theorem wp_create (hinit : self.Initialized) (raws : TasksAllocations) (h : Heap) :
    wp (self.create raws) (fun _ _ => self.checkItems [] raws.items = .ok ⟨⟩)
      (fun e _ => self.checkItems [] raws.items = .error e) h := by
  unfold AllocationRunner.create TasksAllocationsValues.create
  rw [wp_bind]
  refine wp_createRegistry hinit fun ref h₀ hh₀ => ?_
  refine (Dict.wp_comprehendM (I := fun pre (_ : TasksAllocationsValues) t =>
    self.checkItems [] pre = .ok ⟨⟩ ∧ self.HasCounted ref (self.countedGroups pre) t)
    ⟨rfl, hh₀⟩ ?_).mono (fun _ _ hq => hq.2.1) fun _ _ he => he
  intro pre task raw post d t hl _ ht
  refine (wp_createTask ht.2).mono (fun m t' hq => ⟨?_, hq.2⟩) fun e t' he => ?_
  · rw [checkItems_append, ht.1, except_ok_bind, List.nil_append, checkItems, hq.1,
      except_ok_bind, checkItems]
  · rw [hl, checkItems_append, ht.1, except_ok_bind, List.nil_append, checkItems, he,
      except_error_bind]

theorem create_returns_iff (hinit : self.Initialized) {raws : TasksAllocations} {h : Heap} :
    (∃ d h', (self.create raws).run h = .ok d h') ↔ self.checkItems [] raws.items = .ok ⟨⟩ := by
  have hwp := wp_create hinit raws h
  constructor
  · rintro ⟨d, h', hd⟩
    exact hwp.ok hd
  · intro hok
    cases hd : (self.create raws).run h with
    | ok d h' => exact ⟨d, h', rfl⟩
    | error e h' =>
      have he := hwp.error hd
      rw [hok] at he
      cases he

theorem create_error_iff (hinit : self.Initialized) {raws : TasksAllocations} {h : Heap} {e : Exc} :
    (∃ h', (self.create raws).run h = .error e h') ↔ self.checkItems [] raws.items = .error e := by
  have hwp := wp_create hinit raws h
  constructor
  · rintro ⟨h', he⟩
    exact hwp.error he
  · intro herr
    cases hd : (self.create raws).run h with
    | ok d h' =>
      have hok := hwp.ok hd
      rw [herr] at hok
      cases hok
    | error e' h' =>
      have he := hwp.error hd
      rw [herr] at he
      cases he
      exact ⟨h', rfl⟩

/-! ## When all checks pass -/

/-- The allocation can be constructed and passes the checks that look at it alone. -/
def Passes (self : AllocationRunner) (container : Container) (t : AllocationType) (raw : RawValue) :
    Prop := ∃ v, construct (self.context 0) container t raw = .ok v ∧ v.check = .ok ()

theorem checkLeaf_ok_iff {container : Container} {groups : Finset String} {t : AllocationType}
    {raw : RawValue} : self.checkLeaf container groups t raw = .ok () ↔
      self.Passes container t raw ∧ (t = .RDT → (groups.card : ℤ) ≤ self.closidsLimit) := by
  rw [checkLeaf, except_bind_ok_iff]
  constructor
  · rintro ⟨v, hv, hrest⟩
    obtain ⟨_, hcheck, hcard⟩ := except_bind_ok_iff.mp hrest
    refine ⟨⟨v, hv, hcheck⟩, fun ht => not_lt.mp fun hlt => ?_⟩
    rw [doIf_of ⟨ht, hlt⟩] at hcard
    cases hcard
  · rintro ⟨⟨v, hv, hcheck⟩, hcard⟩
    refine ⟨v, hv, except_bind_ok_iff.mpr ⟨(), hcheck, doIf_of_not fun hc => ?_⟩⟩
    exact absurd (hcard hc.1) (not_le.mpr hc.2)

theorem checkTask_ok_iff {groups : Finset String} {item : TaskId × TaskAllocations} :
    self.checkTask groups item = .ok ⟨⟩ ↔ ∃ tk container,
      self.containers.get? item.1 = some (tk, container) ∧
      container.platform.rdtInformation.isSome = self.rdtEnabled ∧
      (∀ p ∈ item.2.items, self.Passes container p.1 p.2) ∧
      (.RDT ∈ item.2.keys → (groups.card : ℤ) ≤ self.closidsLimit) := by
  unfold checkTask
  split
  · rename_i hc
    constructor
    · intro h
      cases h
    · rintro ⟨tk, container, hc', -⟩
      rw [hc] at hc'
      cases hc'
  · rename_i tk container hc
    rw [except_bind_ok_iff]
    constructor
    · rintro ⟨_, hassert, hrest⟩
      obtain ⟨_, -, hleaves⟩ := except_bind_ok_iff.mp hrest
      have hall := except_forM_ok_iff.mp hleaves
      refine ⟨tk, container, hc, assert_ok_iff.mp hassert, fun p hp =>
        (checkLeaf_ok_iff.mp (hall p hp)).1, fun hrdt => ?_⟩
      obtain ⟨raw, hraw⟩ := Dict.mem_keys.mp hrdt
      exact (checkLeaf_ok_iff.mp (hall _ hraw)).2 rfl
    · rintro ⟨tk', container', hc', hplatform, hpass, hcard⟩
      rw [hc] at hc'
      cases hc'
      refine ⟨(), assert_of hplatform, except_bind_ok_iff.mpr ⟨(), ?_, ?_⟩⟩
      · refine except_forM_ok_iff.mpr fun p hp => ?_
        obtain ⟨v, hv, -⟩ := hpass p hp
        rw [hv]
        rfl
      · exact except_forM_ok_iff.mpr fun p hp => checkLeaf_ok_iff.mpr
          ⟨hpass p hp, fun ht => hcard (ht ▸ Dict.mem_keys.mpr ⟨p.2, hp⟩)⟩

/-- An RDT allocation that passes names a group. -/
theorem itemGroup_of_passes {item : TaskId × TaskAllocations} {tk : Task} {container : Container}
    (hc : self.containers.get? item.1 = some (tk, container))
    (hpass : ∀ p ∈ item.2.items, self.Passes container p.1 p.2) :
    .RDT ∈ item.2.keys ↔ ∃ g, self.itemGroup item = some g := by
  unfold itemGroup
  rw [hc, Dict.mem_keys_iff_get?]
  constructor
  · rintro ⟨raw, hraw⟩
    obtain ⟨v, hv, -⟩ := hpass _ (Dict.get?_eq_some_iff.mp hraw)
    obtain ⟨ctx, a, -, rfl, -⟩ := construct_RDT_ok hv
    rw [hraw]
    exact ⟨_, rfl⟩
  · rintro ⟨g, hg⟩
    cases hraw : item.2.get? .RDT with
    | none => rw [hraw] at hg; cases hg
    | some raw => exact ⟨raw, rfl⟩

/-- All checks pass when each allocation passes and the groups are not too many in the end; by
induction from the last item on, as the groups only grow. -/
theorem checkItems_ok_iff {items : List (TaskId × TaskAllocations)} :
    self.checkItems [] items = .ok ⟨⟩ ↔
      (∀ item ∈ items, ∃ tk container, self.containers.get? item.1 = some (tk, container) ∧
        container.platform.rdtInformation.isSome = self.rdtEnabled ∧
        ∀ p ∈ item.2.items, self.Passes container p.1 p.2) ∧
      ((self.countedGroups items).Nonempty →
        ((self.countedGroups items).card : ℤ) ≤ self.closidsLimit) := by
  induction items using List.reverseRecOn with
  | nil => simp [checkItems, countedGroups]
  | append_singleton items item ih =>
    have hlast : self.checkItems items [item] =
        self.checkTask (self.countedGroups (items ++ [item])) item := by
      rw [checkItems]
      cases self.checkTask (self.countedGroups (items ++ [item])) item <;> rfl
    rw [checkItems_append, except_seq_ok_iff, List.nil_append, hlast, checkTask_ok_iff, ih]
    simp only [List.mem_append, List.mem_singleton]
    have hgroups : self.countedGroups (items ++ [item]) = _ := countedGroups_append items item
    constructor
    · rintro ⟨⟨hitems, hcount⟩, tk, container, hc, hplatform, hpass, hcard⟩
      refine ⟨fun item' hm => ?_, fun hne => ?_⟩
      · rcases hm with hm | rfl
        · exact hitems item' hm
        · exact ⟨tk, container, hc, hplatform, hpass⟩
      · cases hg : self.itemGroup item with
        | some g => exact hcard ((itemGroup_of_passes hc hpass).mpr ⟨g, hg⟩)
        | none =>
          rw [hg] at hgroups
          rw [hgroups] at hne ⊢
          exact hcount hne
    · rintro ⟨hitems, hcount⟩
      obtain ⟨tk, container, hc, hplatform, hpass⟩ := hitems item (.inr rfl)
      have hsub : self.countedGroups items ⊆ self.countedGroups (items ++ [item]) := by
        rw [hgroups]
        split
        · exact Finset.subset_insert _ _
        · exact Finset.Subset.refl _
      refine ⟨⟨fun item' hm => hitems item' (.inl hm), fun hne => ?_⟩,
        tk, container, hc, hplatform, hpass, fun hrdt => hcount ?_⟩
      · have := Finset.card_le_card hsub
        have := hcount (hne.mono hsub)
        omega
      · obtain ⟨g, hg⟩ := (itemGroup_of_passes hc hpass).mp hrdt
        rw [hgroups, hg]
        exact Finset.insert_nonempty _ _

/-! ## When one allocation passes -/

theorem passes_rdt_iff {container : Container} {raw : RawValue} :
    self.Passes container .RDT raw ↔ self.rdtEnabled = true ∧
      ∃ i a, self.platform.rdtInformation = some i ∧ raw = .rdt a ∧
        RDTAllocationValue.checkL3 self.platform.sockets i a.l3 = .ok () ∧
        RDTAllocationValue.checkMb self.platform.sockets i a.mb = .ok () := by
  constructor
  · rintro ⟨v, hv, hcheck⟩
    obtain ⟨ctx, a, hctx, rfl, rfl⟩ := construct_RDT_ok hv
    unfold context at hctx
    split at hctx
    · rename_i he
      obtain ⟨i, hi, rfl⟩ := Option.map_eq_some_iff.mp hctx
      exact ⟨he, i, a, hi, rfl, validateLines_ok_iff.mp hcheck⟩
    · cases hctx
  · rintro ⟨he, i, a, hi, rfl, hlines⟩
    have hctx : self.context 0 = some ⟨0, self.platform.sockets, i⟩ := by
      rw [context, if_pos he, hi]
      rfl
    rw [Passes, hctx]
    exact ⟨_, rfl, validateLines_ok_iff.mpr hlines⟩

end AllocationRunner

end Wca
