import Wca.Iteration

/-!
# The RDT values of a nest

The RDT value that `create` makes for a task, in terms of the raw allocations
(`rdtValueOf_of_create`), and what a comparison does with it (`rdtEntry_of_ok`).
-/

namespace Wca

open Py AllocationsDict

/-- The RDT allocation of a task. -/
def rdtAllocationOf (raws : TasksAllocations) (task : TaskId) : Option RDTAllocation :=
  match (raws.get? task).bind fun m => m.get? .RDT with
  | some (.rdt a) => some a
  | _ => none

namespace LeafValue

def rdt? : LeafValue → Option RDTAllocationValue
  | rdt v => some v
  | _ => none

theorem rdt?_eq_some_iff {w : LeafValue} {v : RDTAllocationValue} : w.rdt? = some v ↔ w = rdt v := by
  cases w <;> simp [rdt?]

theorem calculateChangeset_rdt_ok {v c : RDTAllocationValue} {t : LeafValue} {d : Option LeafValue}
    (h : (rdt v).calculateChangeset (rdt c) = .ok (t, d)) :
    ∃ t' d', v.calculateChangeset (some c) = .ok (t', d') ∧ t = rdt t' ∧ d = d'.map rdt := by
  obtain ⟨⟨t', d'⟩, hcmp, hret⟩ := except_bind_ok_iff.mp h
  cases hret
  exact ⟨t', d', hcmp, rfl, rfl⟩

end LeafValue

/-- The RDT value of a task. -/
def rdtValueOf (values : TasksAllocationsValues) (task : TaskId) : Option RDTAllocationValue :=
  (leaf values task .RDT).bind LeafValue.rdt?

/-- The RDT value of a task in a changeset. -/
def changedRdtValueOf (changeset : Option TasksAllocationsValues) (task : TaskId) :
    Option RDTAllocationValue := (changedLeaf changeset task .RDT).bind LeafValue.rdt?

/-- Values of the type RDT, and only those, are RDT values. -/
def RdtTyped (values : TasksAllocationsValues) : Prop :=
  ∀ task t w, leaf values task t = some w → (t = .RDT ↔ ∃ v, w = .rdt v)

theorem rdtValueOf_eq_some_iff {values : TasksAllocationsValues} {task : TaskId}
    {v : RDTAllocationValue} : rdtValueOf values task = some v ↔ leaf values task .RDT = some (.rdt v) := by
  rw [rdtValueOf, Option.bind_eq_some_iff]
  constructor
  · rintro ⟨w, hw, hv⟩
    rw [hw, LeafValue.rdt?_eq_some_iff.mp hv]
  · intro h
    exact ⟨_, h, rfl⟩

theorem construct_RDT_ok {registry : Option RDTContext} {container : Container} {raw : RawValue}
    {w : LeafValue} (hw : construct registry container .RDT raw = .ok w) :
    ∃ ctx a, registry = some ctx ∧ raw = .rdt a ∧
      w = .rdt (ctx.rdtAllocationValueConstructor a container) := by
  cases registry with
  | none => cases hw
  | some ctx =>
    cases raw with
    | rdt a => cases hw; exact ⟨ctx, a, rfl, rfl, rfl⟩
    | _ => cases hw

/-- The values that `create` makes, task by task. -/
theorem leaf_of_create {self : AllocationRunner} {raws : TasksAllocations}
    {d : TasksAllocationsValues} {registry : Option RDTContext} (hkeys : d.keys = raws.keys)
    (hbuilt : ∀ task m, d.get? task = some m → BuiltFor self registry raws task m)
    (task : TaskId) (t : AllocationType) :
    (∀ w, leaf d task t = some w → ∃ tk container raw m, self.containers.get? task = some (tk, container) ∧
      raws.get? task = some m ∧ m.get? t = some raw ∧ construct registry container t raw = .ok w) ∧
    (∀ raw m, raws.get? task = some m → m.get? t = some raw → ∃ w, leaf d task t = some w) := by
  constructor
  · intro w hw
    obtain ⟨m, hm, hv⟩ := Option.bind_eq_some_iff.mp hw
    obtain ⟨tk, container, raw, hc, -, hraw, hcreate⟩ := hbuilt task m hm
    obtain ⟨hk, hall⟩ := Dict.comprehendM_ok hcreate
    obtain ⟨r, hr⟩ := Dict.mem_keys_iff_get?.mp (hk ▸ Dict.mem_keys_iff_get?.mpr ⟨w, hv⟩)
    obtain ⟨w', hw', hget⟩ := hall t r (Dict.get?_eq_some_iff.mp hr)
    rw [hv] at hget
    cases hget
    exact ⟨tk, container, r, raw, hc, hraw, hr, hw'⟩
  · intro r raw hraw hr
    obtain ⟨m, hm⟩ := Dict.mem_keys_iff_get?.mp (hkeys.symm ▸ Dict.mem_keys_iff_get?.mpr ⟨raw, hraw⟩)
    obtain ⟨tk, container, raw', hc, -, hraw', hcreate⟩ := hbuilt task m hm
    rw [hraw] at hraw'
    cases hraw'
    obtain ⟨w, -, hget⟩ := (Dict.comprehendM_ok hcreate).2 t r (Dict.get?_eq_some_iff.mp hr)
    exact ⟨w, by rw [leaf, hm]; exact hget⟩

theorem rdtAllocationOf_eq_some_iff {raws : TasksAllocations} {task : TaskId} {a : RDTAllocation} :
    rdtAllocationOf raws task = some a ↔ ∃ m, raws.get? task = some m ∧ m.get? .RDT = some (.rdt a) := by
  unfold rdtAllocationOf
  rw [← Option.bind_eq_some_iff]
  constructor
  · intro h
    split at h
    · rename_i hb
      cases h
      exact hb
    · cases h
  · intro h
    rw [h]

/-- The RDT values that `create` makes. -/
theorem rdtValueOf_of_create {self : AllocationRunner} {raws : TasksAllocations}
    {d : TasksAllocationsValues} {h h' : Heap} (hd : (self.create raws).run h = .ok d h') :
    RdtTyped d ∧ (∀ task a, rdtAllocationOf raws task = some a → ∃ v, rdtValueOf d task = some v) ∧
    ∃ registry h₀, RegistryOf self h registry h₀ ∧ ∀ task v, rdtValueOf d task = some v →
      ∃ tk container a ctx, self.containers.get? task = some (tk, container) ∧
        rdtAllocationOf raws task = some a ∧ registry = some ctx ∧
        v = ctx.rdtAllocationValueConstructor a container := by
  obtain ⟨-, -, hkeys, registry, h₀, hreg, hbuilt⟩ := create_ok hd
  have hleaf := leaf_of_create hkeys hbuilt
  have htyped : RdtTyped d := by
    intro task t w hw
    obtain ⟨tk, container, raw, m, -, -, -, hcon⟩ := (hleaf task t).1 w hw
    constructor
    · rintro rfl
      obtain ⟨ctx, a, -, -, hv⟩ := construct_RDT_ok hcon
      exact ⟨_, hv⟩
    · rintro ⟨v, rfl⟩
      obtain ⟨-, -, -, ht, -⟩ := construct_rdt_ok hcon
      exact ht
  refine ⟨htyped, fun task a ha => ?_, registry, h₀, hreg, fun task v hv => ?_⟩
  · obtain ⟨m, hm, hr⟩ := rdtAllocationOf_eq_some_iff.mp ha
    obtain ⟨w, hw⟩ := (hleaf task .RDT).2 _ m hm hr
    obtain ⟨v, rfl⟩ := (htyped task .RDT w hw).mp rfl
    exact ⟨v, rdtValueOf_eq_some_iff.mpr hw⟩
  · obtain ⟨tk, container, raw, m, hc, hm, hraw, hcon⟩ :=
      (hleaf task .RDT).1 _ (rdtValueOf_eq_some_iff.mp hv)
    obtain ⟨ctx, a, hctx, rfl, hv'⟩ := construct_RDT_ok hcon
    cases hv'
    exact ⟨tk, container, a, ctx, hc, rdtAllocationOf_eq_some_iff.mpr ⟨m, hm, hraw⟩, hctx, rfl⟩

/-- What the comparison of two nests does with the RDT value of a task. -/
def RdtEntry (new current target change : Option RDTAllocationValue) : Prop :=
  match new, current with
  | none, _ => target = current ∧ change = none
  | some v, none => target = some v ∧ change = some v
  | some v, some c => ∃ t, v.calculateChangeset (some c) = .ok (t, change) ∧ target = some t

theorem rdtEntry_of_ok {new current target : TasksAllocationsValues}
    {changeset : Option TasksAllocationsValues}
    (h : calculateChangeset new current = .ok (target, changeset)) (hn : RdtTyped new)
    (hc : RdtTyped current) (task : TaskId) :
    RdtEntry (rdtValueOf new task) (rdtValueOf current task) (rdtValueOf target task)
      (changedRdtValueOf changeset task) := by
  have hentry := leafEntry_of_ok h task .RDT
  unfold rdtValueOf changedRdtValueOf
  generalize changedLeaf changeset task .RDT = change at hentry
  cases hv : leaf new task .RDT with
  | none =>
    rw [hv] at hentry
    rw [hentry.1, hentry.2]
    exact ⟨rfl, rfl⟩
  | some w =>
    obtain ⟨v, rfl⟩ := (hn task .RDT w hv).mp rfl
    rw [hv] at hentry
    cases hw : leaf current task .RDT with
    | none =>
      rw [hw] at hentry
      rw [hentry.1, hentry.2]
      exact ⟨rfl, rfl⟩
    | some w =>
      obtain ⟨c, rfl⟩ := (hc task .RDT w hw).mp rfl
      rw [hw] at hentry
      obtain ⟨t, hcalc, htarget⟩ := hentry
      obtain ⟨t', d', hcmp, rfl, rfl⟩ := LeafValue.calculateChangeset_rdt_ok hcalc
      rw [htarget]
      exact ⟨t', by rw [hcmp]; cases d' <;> rfl, rfl⟩

end Wca
