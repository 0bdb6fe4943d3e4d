import Wca.Runners.Allocation
import Wca.AllocationsDict

/-!
# Validated values stay valid

`Accepted h v` says that the value `v` passes its checks in the heap `h` and that its group is
already counted. A validation that returns makes its values accepted, keeps all others accepted
(`Grows`), and is a no-op on accepted values.
-/

namespace Wca

open Py AllocationsDict

namespace LeafValue

/-- The part of `validate` that looks at the value alone. -/
def check : LeafValue → Except Exc Unit
  | quota v => v.toBoxedNumeric.validate
  | shares v => v.toBoxedNumeric.validate
  | memoryMigrate v => v.toBoxedNumeric.validate
  | migratePages v => v.validate
  | cpuset v => v.validate
  | rdt v => v.validateLines

end LeafValue

/-- The group of an RDT value is counted, and there are not too many. -/
def Counted (h : Heap) (v : RDTAllocationValue) : Prop :=
  v.rdtGroups < h.next ∧ v.getResgroupName ∈ (h.cell v.rdtGroups).existingGroups ∧
    ((h.cell v.rdtGroups).existingGroups.card : ℤ) ≤ (h.cell v.rdtGroups).closidsLimit

/-- The value passes its checks, and its group is counted. -/
def Accepted (h : Heap) : LeafValue → Prop
  | .rdt v => v.validateLines = .ok () ∧ Counted h v
  | v => v.check = .ok ()

/-- The groups that are counted grow within their limits. -/
def Grows (h h' : Heap) : Prop :=
  h'.next = h.next ∧ ∀ ref, (h'.cell ref).closidsLimit = (h.cell ref).closidsLimit ∧
    (h'.cell ref).alreadyExecutedResgroupNames = (h.cell ref).alreadyExecutedResgroupNames ∧
    (h.cell ref).existingGroups ⊆ (h'.cell ref).existingGroups ∧
    (h'.cell ref = h.cell ref ∨
      ((h'.cell ref).existingGroups.card : ℤ) ≤ (h'.cell ref).closidsLimit)

theorem Grows.refl (h : Heap) : Grows h h :=
  ⟨rfl, fun _ => ⟨rfl, rfl, Finset.Subset.refl _, .inl rfl⟩⟩

theorem Grows.trans {h h' h'' : Heap} (h₁ : Grows h h') (h₂ : Grows h' h'') : Grows h h'' := by
  refine ⟨h₂.1.trans h₁.1, fun ref => ?_⟩
  obtain ⟨l₁, e₁, s₁, c₁⟩ := h₁.2 ref
  obtain ⟨l₂, e₂, s₂, c₂⟩ := h₂.2 ref
  refine ⟨l₂.trans l₁, e₂.trans e₁, s₁.trans s₂, ?_⟩
  rcases c₂ with c₂ | c₂
  · rw [c₂]
    exact c₁
  · exact .inr c₂

theorem Counted.mono {h h' : Heap} {v : RDTAllocationValue} (hv : Counted h v) (hg : Grows h h') :
    Counted h' v := by
  obtain ⟨hnext, hcells⟩ := hg
  obtain ⟨hlimit, -, hsub, hcard⟩ := hcells v.rdtGroups
  refine ⟨hnext ▸ hv.1, hsub hv.2.1, ?_⟩
  rcases hcard with hsame | hcard
  · rw [hsame]
    exact hv.2.2
  · exact hcard

theorem Accepted.mono {h h' : Heap} {v : LeafValue} (hv : Accepted h v) (hg : Grows h h') :
    Accepted h' v := by
  cases v with
  | rdt v => exact ⟨hv.1, hv.2.mono hg⟩
  | _ => exact hv

/-- A new `RDTGroups` leaves the others as they are. -/
theorem Accepted.alloc {h : Heap} {v : LeafValue} {g : RDTGroups} (hv : Accepted h v) :
    Accepted { h.put h.next g with next := h.next + 1 } v := by
  cases v with
  | rdt v =>
    have hcell : (h.put h.next g).cell v.rdtGroups = h.cell v.rdtGroups :=
      Heap.cell_put_of_ne (Nat.ne_of_lt hv.2.1)
    refine ⟨hv.1, Nat.lt_succ_of_lt hv.2.1, ?_⟩
    rw [hcell]
    exact hv.2.2
  | _ => exact hv

/-! ## One value -/

theorem RDTGroups.validate_run (ref : Ref) (v : RDTAllocationValue) (h : Heap) :
    (RDTGroups.validate ref v).run h =
      let g := { h.cell ref with
        existingGroups := insert v.getResgroupName (h.cell ref).existingGroups }
      if (g.existingGroups.card : ℤ) > g.closidsLimit then
        .error (.InvalidAllocations .tooManyGroups) (h.put ref g)
      else .ok () (h.put ref g) := by
  unfold RDTGroups.validate
  rw [bind_of_ok (get_run h), bind_of_ok (set_run _ _)]
  simp only [doIf]
  split <;> rfl

theorem RDTGroups.validate_of_counted {h : Heap} {v : RDTAllocationValue} (hv : Counted h v) :
    (RDTGroups.validate v.rdtGroups v).run h = .ok () h := by
  rw [RDTGroups.validate_run]
  simp only [Finset.insert_eq_of_mem hv.2.1]
  rw [if_neg (not_lt.mpr hv.2.2)]
  exact congrArg (EStateM.Result.ok ()) (Heap.put_cell_self h v.rdtGroups)

theorem RDTGroups.validate_ok {h h' : Heap} {v : RDTAllocationValue} {u : Unit}
    (hv : (RDTGroups.validate v.rdtGroups v).run h = .ok u h') (href : v.rdtGroups < h.next) :
    Counted h' v ∧ Grows h h' := by
  rw [RDTGroups.validate_run] at hv
  simp only at hv
  split at hv
  · cases hv
  · rename_i hcard
    cases hv
    refine ⟨⟨href, ?_, ?_⟩, rfl, fun ref => ?_⟩
    · rw [Heap.cell_put_self]
      exact Finset.mem_insert_self _ _
    · rw [Heap.cell_put_self]
      exact not_lt.mp hcard
    · by_cases hr : ref = v.rdtGroups
      · subst hr
        rw [Heap.cell_put_self]
        exact ⟨rfl, rfl, Finset.subset_insert _ _, .inr (not_lt.mp hcard)⟩
      · rw [Heap.cell_put_of_ne hr]
        exact ⟨rfl, rfl, Finset.Subset.refl _, .inl rfl⟩

/-- The references of the value lead into the heap. -/
def InHeap (h : Heap) : LeafValue → Prop
  | .rdt v => v.rdtGroups < h.next
  | _ => True

theorem validate_of_accepted {h : Heap} {v : LeafValue} (hv : Accepted h v) :
    (validate v).run h = .ok () h := by
  cases v with
  | rdt v =>
    change (RDTAllocationValue.validate v).run h = _
    rw [RDTAllocationValue.validate, bind_of_ok (run_liftM_ok_iff.mpr ⟨hv.1, rfl⟩)]
    exact RDTGroups.validate_of_counted hv.2
  | quota v => exact run_liftM_ok_iff.mpr ⟨hv, rfl⟩
  | shares v => exact run_liftM_ok_iff.mpr ⟨hv, rfl⟩
  | cpuset v => exact run_liftM_ok_iff.mpr ⟨hv, rfl⟩
  | memoryMigrate v => exact run_liftM_ok_iff.mpr ⟨hv, rfl⟩
  | migratePages v => exact run_liftM_ok_iff.mpr ⟨hv, rfl⟩

theorem accepted_of_validate {h h' : Heap} {v : LeafValue} {u : Unit}
    (hv : (validate v).run h = .ok u h') (href : InHeap h v) : Accepted h' v ∧ Grows h h' := by
  have hpure : ∀ {x : Except Exc Unit}, (liftM x : EStateM Exc Heap Unit).run h = .ok u h' →
      x = .ok () ∧ Grows h h' := by
    intro x hx
    obtain ⟨hx', rfl⟩ := run_liftM_ok_iff.mp hx
    exact ⟨hx', .refl _⟩
  cases v with
  | rdt v =>
    change (RDTAllocationValue.validate v).run h = _ at hv
    rw [RDTAllocationValue.validate, bind_ok_iff] at hv
    obtain ⟨_, h₁, hlines, hgroups⟩ := hv
    obtain ⟨hlines', rfl⟩ := run_liftM_ok_iff.mp hlines
    obtain ⟨hcounted, hgrows⟩ := RDTGroups.validate_ok hgroups href
    exact ⟨⟨hlines', hcounted⟩, hgrows⟩
  | quota v => exact hpure hv
  | shares v => exact hpure hv
  | cpuset v => exact hpure hv
  | memoryMigrate v => exact hpure hv
  | migratePages v => exact hpure hv

/-! ## The values of one task, and of all tasks -/

/-- Every leaf of the nest is accepted. -/
def AllAccepted (h : Heap) (d : TasksAllocationsValues) : Prop :=
  ∀ m ∈ d.values, ∀ v ∈ m.values, Accepted h v

theorem validate_task_of_accepted {h : Heap} {m : TaskAllocationsValues}
    (hm : ∀ v ∈ m.values, Accepted h v) : (validate m).run h = .ok () h :=
  forM_eq_ok fun v hv => validate_of_accepted (hm v hv)

/-- Validating accepted values changes nothing. -/
theorem validate_of_allAccepted {h : Heap} {d : TasksAllocationsValues} (hd : AllAccepted h d) :
    (validate d).run h = .ok () h :=
  forM_eq_ok fun m hm => validate_task_of_accepted (hd m hm)

theorem accepted_of_validate_task {h h' : Heap} {m : TaskAllocationsValues} {u : Unit}
    (hm : (validate m).run h = .ok u h') (href : ∀ v ∈ m.values, InHeap h v) :
    (∀ v ∈ m.values, Accepted h' v) ∧ Grows h h' := by
  have hinv : wp (forM m.values validate)
      (fun _ t => (∀ v ∈ m.values, Accepted t v) ∧ Grows h t) (fun _ _ => True) h := by
    refine wp_forM (I := fun (pre : List LeafValue) t => (∀ v ∈ pre, Accepted t v) ∧ Grows h t)
      ⟨fun _ hv => (nomatch hv), .refl h⟩ fun pre a post t hl ht => wp_of_ok fun _ t' hrun => ?_
    have href' : InHeap t a := by
      have := href a (by rw [hl]; simp)
      cases a with
      | rdt v =>
        change v.rdtGroups < t.next
        rw [ht.2.1]
        exact this
      | _ => trivial
    obtain ⟨hacc, hgrows⟩ := accepted_of_validate hrun href'
    refine ⟨fun v hv => ?_, ht.2.trans hgrows⟩
    rcases List.mem_append.mp hv with hv | hv
    · exact (ht.1 v hv).mono hgrows
    · rw [List.mem_singleton.mp hv]
      exact hacc
  exact hinv.ok hm

/-! ## Building the values -/

/-- What the registry of a run of `create` has for RDT values. -/
inductive RegistryOf (self : AllocationRunner) (h : Heap) : Option RDTContext → Heap → Prop where
  | disabled (he : self.rdtEnabled = false) : RegistryOf self h none h
  | enabled {i : RDTInformation} {n : ℤ} (he : self.rdtEnabled = true)
      (hi : self.platform.rdtInformation = some i) (hn : i.numClosids = some n) :
      RegistryOf self h (some ⟨h.next, self.platform.sockets, i⟩)
        { h.put h.next { closidsLimit := n } with next := h.next + 1 }

theorem createRegistry_ok {self : AllocationRunner} {h h' : Heap} {registry : Option RDTContext}
    (hr : (TasksAllocationsValues.createRegistry self.rdtEnabled self.platform).run h =
      .ok registry h') : RegistryOf self h registry h' := by
  unfold TasksAllocationsValues.createRegistry at hr
  split at hr
  · rename_i he
    split at hr
    · cases hr
    · rename_i i hi
      split at hr
      · cases hr
      · rename_i n hn
        cases hr
        exact .enabled he hi hn
  · rename_i he
    cases hr
    exact .disabled (Bool.eq_false_iff.mpr he)

theorem RegistryOf.accepted {self : AllocationRunner} {h h' : Heap} {registry : Option RDTContext}
    (hr : RegistryOf self h registry h') {v : LeafValue} (hv : Accepted h v) : Accepted h' v := by
  cases hr with
  | disabled => exact hv
  | enabled => exact hv.alloc

/-- A value is built for the container of its task. -/
def BuiltFor (self : AllocationRunner) (registry : Option RDTContext) (raws : TasksAllocations)
    (task : TaskId) (m : TaskAllocationsValues) : Prop :=
  ∃ tk container raw, self.containers.get? task = some (tk, container) ∧
    container.platform.rdtInformation.isSome = self.rdtEnabled ∧ raws.get? task = some raw ∧
    TaskAllocationsValues.create raw container registry = .ok m

/-- Only the constructor for RDT makes RDT values. -/
theorem construct_rdt_ok {registry : Option RDTContext} {container : Container} {t : AllocationType}
    {raw : RawValue} {v : RDTAllocationValue}
    (hv : construct registry container t raw = .ok (.rdt v)) :
    ∃ ctx a, registry = some ctx ∧ t = .RDT ∧ raw = .rdt a ∧
      v = ctx.rdtAllocationValueConstructor a container := by
  cases t with
  | RDT =>
    cases registry with
    | none => cases hv
    | some ctx =>
      cases raw with
      | rdt a => cases hv; exact ⟨ctx, a, rfl, rfl, rfl, rfl⟩
      | _ => cases hv
  | _ =>
    obtain ⟨_, _, hret⟩ := except_bind_ok_iff.mp hv
    cases hret

theorem construct_inHeap {self : AllocationRunner} {h h' : Heap} {registry : Option RDTContext}
    (hr : RegistryOf self h registry h') {container : Container} {t : AllocationType}
    {raw : RawValue} {v : LeafValue} (hv : construct registry container t raw = .ok v) :
    InHeap h' v := by
  cases v with
  | rdt v =>
    obtain ⟨ctx, a, rfl, -, -, rfl⟩ := construct_rdt_ok hv
    cases hr with
    | enabled he hi hn => exact Nat.lt_succ_self _
  | _ => trivial

theorem mem_values_of_create {container : Container} {registry : Option RDTContext}
    {raw : TaskAllocations} {m : TaskAllocationsValues} {v : LeafValue}
    (hm : TaskAllocationsValues.create raw container registry = .ok m) (hv : v ∈ m.values) :
    ∃ t r, m.get? t = some v ∧ raw.get? t = some r ∧ construct registry container t r = .ok v := by
  obtain ⟨hkeys, hbuilt⟩ := Dict.comprehendM_ok hm
  obtain ⟨t, ht⟩ := Dict.mem_values.mp hv
  obtain ⟨r, hr⟩ := Dict.mem_keys.mp (hkeys ▸ Dict.mem_keys.mpr ⟨v, ht⟩)
  obtain ⟨v', hv', hget⟩ := hbuilt t r hr
  have : v' = v := Option.some.inj (hget.symm.trans (Dict.get?_eq_some_iff.mpr ht))
  exact ⟨t, r, this ▸ hget, Dict.get?_eq_some_iff.mpr hr, this ▸ hv'⟩

theorem createTask_ok {rdtEnabled : Bool} {containers : Containers} {registry : Option RDTContext}
    {task : TaskId} {raw : TaskAllocations} {m : TaskAllocationsValues} {h h' : Heap}
    (hm : (TasksAllocationsValues.createTask rdtEnabled containers registry task raw).run h =
      .ok m h') :
    ∃ tk container, containers.get? task = some (tk, container) ∧
      container.platform.rdtInformation.isSome = rdtEnabled ∧
      TaskAllocationsValues.create raw container registry = .ok m ∧
      (validate m).run h = .ok () h' := by
  unfold TasksAllocationsValues.createTask at hm
  split at hm
  · cases hm
  · rename_i tk container hc
    rw [bind_ok_iff] at hm
    obtain ⟨_, _, hassert, hm⟩ := hm
    obtain ⟨hassert', rfl⟩ := run_liftM_ok_iff.mp hassert
    rw [bind_ok_iff] at hm
    obtain ⟨m', _, hcreate, hm⟩ := hm
    obtain ⟨hcreate', rfl⟩ := run_liftM_ok_iff.mp hcreate
    rw [bind_ok_iff] at hm
    obtain ⟨_, _, hvalidate, hm⟩ := hm
    cases hm
    exact ⟨tk, container, hc, assert_ok_iff.mp hassert', hcreate', hvalidate⟩

/-- What `create` returns: values built from the raw ones and accepted, while other values that
were accepted stay so. -/
theorem create_ok {self : AllocationRunner} {raws : TasksAllocations} {d : TasksAllocationsValues}
    {h h' : Heap} (hd : (self.create raws).run h = .ok d h') :
    AllAccepted h' d ∧ (∀ v, Accepted h v → Accepted h' v) ∧ d.keys = raws.keys ∧
      ∃ registry h₀, RegistryOf self h registry h₀ ∧
        ∀ task m, d.get? task = some m → BuiltFor self registry raws task m := by
  unfold AllocationRunner.create TasksAllocationsValues.create at hd
  rw [bind_ok_iff] at hd
  obtain ⟨registry, h₀, hregistry, hd⟩ := hd
  have hreg := createRegistry_ok hregistry
  have hinv : wp (raws.comprehendM
        (TasksAllocationsValues.createTask self.rdtEnabled self.containers registry))
      (fun d t => d.keys = raws.keys ∧ Grows h₀ t ∧ AllAccepted t d ∧
        ∀ task m, d.get? task = some m → BuiltFor self registry raws task m)
      (fun _ _ => True) h₀ := by
    refine Dict.wp_comprehendM (I := fun _ (d : TasksAllocationsValues) t => Grows h₀ t ∧
      AllAccepted t d ∧ ∀ task m, d.get? task = some m → BuiltFor self registry raws task m)
      ⟨.refl h₀, fun _ hm => (nomatch hm), fun _ _ hm => (nomatch hm)⟩ ?_
    intro pre task raw post d t hl hkeys ht
    refine wp_of_ok fun m t' hrun => ?_
    obtain ⟨tk, container, hc, hplatform, hcreate, hvalidate⟩ := createTask_ok hrun
    obtain ⟨hacc, hgrows⟩ := accepted_of_validate_task hvalidate fun v hv => by
      obtain ⟨ty, r, -, -, hcon⟩ := mem_values_of_create hcreate hv
      have := construct_inHeap hreg hcon
      cases v with
      | rdt v =>
        change v.rdtGroups < t.next
        rw [ht.1.1]
        exact this
      | _ => trivial
    refine ⟨ht.1.trans hgrows, fun m' hm' => ?_, fun task' m' hm' => ?_⟩
    · obtain ⟨k, hk⟩ := Dict.mem_values.mp hm'
      rcases Dict.mem_items_set.mp hk with ⟨-, rfl⟩ | ⟨-, hk⟩
      · exact hacc
      · exact fun v hv => (ht.2.1 m' (Dict.mem_values.mpr ⟨k, hk⟩) v hv).mono hgrows
    · rw [Dict.get?_set] at hm'
      split at hm'
      · rename_i he
        cases hm'
        subst he
        exact ⟨tk, container, raw, hc, hplatform, Dict.get?_eq_some_iff.mpr (by rw [hl]; simp), hcreate⟩
      · exact ht.2.2 task' m' hm'
  obtain ⟨hkeys, hgrows, hacc, hbuilt⟩ := hinv.ok hd
  exact ⟨hacc, fun v hv => (hreg.accepted hv).mono hgrows, hkeys, registry, h₀, hreg, hbuilt⟩

/-! ## The merge of accepted values -/

theorem validateLines_ok_iff {v : RDTAllocationValue} : v.validateLines = .ok () ↔
    RDTAllocationValue.checkL3 v.platformSockets v.rdtInformation v.rdtAllocation.l3 = .ok () ∧
    RDTAllocationValue.checkMb v.platformSockets v.rdtInformation v.rdtAllocation.mb = .ok () := by
  rw [RDTAllocationValue.validateLines, except_bind_ok_iff]
  constructor
  · rintro ⟨_, h₁, h₂⟩; exact ⟨h₁, h₂⟩
  · rintro ⟨h₁, h₂⟩; exact ⟨(), h₁, h₂⟩

/-- One of two lines that both pass a check passes it. -/
theorem check_orElse {check : Option String → Except Exc Unit} {a b : Option String}
    (ha : check a = .ok ()) (hb : check b = .ok ()) :
    check (RDTAllocationValue.orElse a b) = .ok () := by
  unfold RDTAllocationValue.orElse
  split
  · exact ha
  · exact hb

/-- Two RDT values are checked against one platform. -/
def SamePlatform : LeafValue → LeafValue → Prop
  | .rdt v, .rdt c => v.platformSockets = c.platformSockets ∧ v.rdtInformation = c.rdtInformation
  | _, _ => True

theorem mergeInto_target {v c t : RDTAllocationValue} {d : Option RDTAllocationValue}
    (h : v.mergeInto c = .ok (t, d)) : t = c.copy {
      name := c.rdtAllocation.name
      l3 := RDTAllocationValue.orElse v.rdtAllocation.l3 c.rdtAllocation.l3
      mb := RDTAllocationValue.orElse v.rdtAllocation.mb c.rdtAllocation.mb } none none := by
  unfold RDTAllocationValue.mergeInto at h
  obtain ⟨_, _, h⟩ := except_bind_ok_iff.mp h
  obtain ⟨_, _, h⟩ := except_bind_ok_iff.mp h
  cases h
  rfl

theorem accepted_of_calculateChangeset {h : Heap} {v c t : LeafValue} {d : Option LeafValue}
    (hcalc : v.calculateChangeset c = .ok (t, d)) (hv : Accepted h v) (hc : Accepted h c)
    (hp : SamePlatform v c) : Accepted h t := by
  have hnumeric : ∀ {a}, v.numericChangeset c a = .ok (t, d) → Accepted h t := by
    intro a ha
    unfold LeafValue.numericChangeset at ha
    split at ha
    · cases ha
    · simp only [Except.ok.injEq] at ha
      split at ha <;> cases ha
      · exact hc
      · exact hv
  cases v with
  | quota v => exact hnumeric hcalc
  | shares v => exact hnumeric hcalc
  | memoryMigrate v => exact hnumeric hcalc
  | migratePages v => exact hnumeric hcalc
  | cpuset v =>
    cases c with
    | cpuset c =>
      obtain ⟨⟨t', d'⟩, hcmp, hret⟩ := except_bind_ok_iff.mp hcalc
      cases hret
      obtain ⟨same, -, hret⟩ := except_bind_ok_iff.mp hcmp
      cases same <;> cases hret
      · exact hv
      · exact hc
    | _ => cases hcalc
  | rdt v =>
    cases c with
    | rdt c =>
      obtain ⟨⟨t', d'⟩, hcmp, hret⟩ := except_bind_ok_iff.mp hcalc
      cases hret
      simp only [RDTAllocationValue.calculateChangeset] at hcmp
      split at hcmp
      · cases hcmp
        exact hv
      · rw [mergeInto_target hcmp]
        obtain ⟨hsockets, hinfo⟩ := hp
        have hvl := validateLines_ok_iff.mp hv.1
        have hcl := validateLines_ok_iff.mp hc.1
        rw [hsockets, hinfo] at hvl
        exact ⟨validateLines_ok_iff.mpr ⟨check_orElse hvl.1 hcl.1, check_orElse hvl.2 hcl.2⟩, hc.2⟩
    | _ => cases hcalc

/-- The target of a comparison of accepted values is accepted. -/
theorem allAccepted_target {h : Heap} {new current target : TasksAllocationsValues}
    {changeset : Option TasksAllocationsValues}
    (hcalc : calculateChangeset new current = .ok (target, changeset)) (hn : AllAccepted h new)
    (hc : AllAccepted h current)
    (hp : ∀ m ∈ new.values, ∀ m' ∈ current.values, ∀ v ∈ m.values, ∀ c ∈ m'.values,
      SamePlatform v c) : AllAccepted h target := by
  intro m hm w hw
  obtain ⟨k, hk⟩ := Dict.mem_values.mp hm
  obtain ⟨ty, hty⟩ := Dict.mem_values.mp hw
  have hentry := leafEntry_of_ok hcalc k ty
  rw [leaf_mem.mpr ⟨m, hk, hty⟩] at hentry
  cases hnew : leaf new k ty with
  | none =>
    rw [hnew] at hentry
    obtain ⟨c, hck, hw'⟩ := leaf_mem.mp hentry.1.symm
    exact hc c (Dict.mem_values.mpr ⟨k, hck⟩) w (Dict.mem_values.mpr ⟨ty, hw'⟩)
  | some v =>
    obtain ⟨n, hnk, hv⟩ := leaf_mem.mp hnew
    have hnm := Dict.mem_values.mpr ⟨k, hnk⟩
    have hvm := Dict.mem_values.mpr ⟨ty, hv⟩
    rw [hnew] at hentry
    cases hcur : leaf current k ty with
    | none =>
      rw [hcur] at hentry
      rw [Option.some.inj hentry.1]
      exact hn n hnm v hvm
    | some cv =>
      obtain ⟨c, hck, hcv⟩ := leaf_mem.mp hcur
      have hcm := Dict.mem_values.mpr ⟨k, hck⟩
      have hcvm := Dict.mem_values.mpr ⟨ty, hcv⟩
      rw [hcur] at hentry
      obtain ⟨t, hleaf, ht⟩ := hentry
      cases ht
      exact accepted_of_calculateChangeset hleaf (hn n hnm v hvm) (hc c hcm cv hcvm)
        (hp n hnm c hcm v hvm cv hcvm)

theorem construct_platform {self : AllocationRunner} {h h' : Heap} {registry : Option RDTContext}
    (hr : RegistryOf self h registry h') {container : Container} {t : AllocationType}
    {raw : RawValue} {v : RDTAllocationValue}
    (hv : construct registry container t raw = .ok (.rdt v)) :
    v.platformSockets = self.platform.sockets ∧ self.platform.rdtInformation = some v.rdtInformation := by
  obtain ⟨ctx, a, rfl, -, -, rfl⟩ := construct_rdt_ok hv
  cases hr with
  | enabled he hi hn => exact ⟨rfl, hi⟩

/-- Values that one runner creates are checked against one platform. -/
theorem samePlatform_of_create {self : AllocationRunner} {raws raws' : TasksAllocations}
    {d d' : TasksAllocationsValues} {h₁ h₂ h₃ h₄ : Heap} (hd : (self.create raws).run h₁ = .ok d h₂)
    (hd' : (self.create raws').run h₃ = .ok d' h₄) :
    ∀ m ∈ d.values, ∀ m' ∈ d'.values, ∀ v ∈ m.values, ∀ c ∈ m'.values, SamePlatform v c := by
  intro m hm m' hm' v hv c hc
  obtain ⟨-, -, -, registry, h₀, hreg, hbuilt⟩ := create_ok hd
  obtain ⟨-, -, -, registry', h₀', hreg', hbuilt'⟩ := create_ok hd'
  cases v with
  | rdt v =>
    cases c with
    | rdt c =>
      obtain ⟨k, hk⟩ := Dict.mem_values.mp hm
      obtain ⟨k', hk'⟩ := Dict.mem_values.mp hm'
      obtain ⟨_, container, raw, -, -, -, hcreate⟩ := hbuilt k m (Dict.get?_eq_some_iff.mpr hk)
      obtain ⟨_, container', raw', -, -, -, hcreate'⟩ := hbuilt' k' m' (Dict.get?_eq_some_iff.mpr hk')
      obtain ⟨_, _, -, -, hcon⟩ := mem_values_of_create hcreate hv
      obtain ⟨_, _, -, -, hcon'⟩ := mem_values_of_create hcreate' hc
      obtain ⟨hs, hi⟩ := construct_platform hreg hcon
      obtain ⟨hs', hi'⟩ := construct_platform hreg' hcon'
      exact ⟨hs.trans hs'.symm, Option.some.inj (hi.symm.trans hi')⟩
    | _ => trivial
  | _ => trivial

end Wca
