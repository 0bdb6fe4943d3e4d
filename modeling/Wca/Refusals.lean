import Wca.Creation
import Wca.CacheMasks

/-!
# What the checks refuse, and where they break

A check of `create` passes, refuses with `InvalidAllocations`, or breaks with any other exception.
`Breaks` is followed through the ways checks are put together, down to the texts and the types of one
allocation; `breaks_checkItems_iff` says which allocation breaks the whole sequence.
-/

namespace Wca

open Py

/-- Something other than `InvalidAllocations` is raised. -/
def Breaks {α : Type} (x : Except Exc α) : Prop := ∃ e, x = .error e ∧ e.isInvalidAllocations = false

section Breaks

variable {α β : Type}

@[simp] theorem not_breaks_ok {a : α} : ¬ Breaks (.ok a : Except Exc α) := by
  rintro ⟨e, he, -⟩
  cases he

@[simp] theorem not_breaks_invalid {why : InvalidAllocations} : ¬ Breaks (invalid why : Except Exc α) := by
  rintro ⟨e, he, hinvalid⟩
  cases he
  cases hinvalid

@[simp] theorem not_breaks_refused {why : InvalidAllocations} :
    ¬ Breaks (.error (.InvalidAllocations why) : Except Exc α) := not_breaks_invalid

@[simp] theorem breaks_builtin {e : Exn} : Breaks (.error (.builtin e) : Except Exc α) := ⟨_, rfl, rfl⟩

theorem not_breaks_of_refuses {x : Except Exc α} (h : ∀ e, x = .error e → ∃ why, e = .InvalidAllocations why) :
    ¬ Breaks x := by
  rintro ⟨e, he, hinvalid⟩
  obtain ⟨why, rfl⟩ := h e he
  cases hinvalid

theorem breaks_bind_iff {x : Except Exc α} {f : α → Except Exc β} :
    Breaks (x >>= f) ↔ Breaks x ∨ ∃ a, x = .ok a ∧ Breaks (f a) := by
  simp only [Breaks, except_bind_error_iff]
  constructor
  · rintro ⟨e, he | ⟨a, ha, he⟩, hinvalid⟩
    · exact .inl ⟨e, he, hinvalid⟩
    · exact .inr ⟨a, ha, e, he, hinvalid⟩
  · rintro (⟨e, he, hinvalid⟩ | ⟨a, ha, e, he, hinvalid⟩)
    · exact ⟨e, .inl he, hinvalid⟩
    · exact ⟨e, .inr ⟨a, ha, he⟩, hinvalid⟩

theorem breaks_seq_iff {x : Except Exc Unit} {f : Unit → Except Exc β} :
    Breaks (x >>= f) ↔ Breaks x ∨ x = .ok () ∧ Breaks (f ()) := by
  rw [breaks_bind_iff]
  refine or_congr_right ⟨?_, fun h => ⟨(), h.1, h.2⟩⟩
  rintro ⟨_, h, h'⟩
  exact ⟨h, h'⟩

theorem breaks_map_iff {x : Except Exc α} {f : α → β} : Breaks (x.map f) ↔ Breaks x := by
  cases x with
  | ok a => simp [Except.map]
  | error e => simp [Breaks, Except.map]

/-- The exceptions of the language are none that refuse. -/
theorem breaks_liftM_iff {x : Except Exn α} : Breaks (liftM x : Except Exc α) ↔ ∀ a, x ≠ .ok a := by
  cases x with
  | ok a => simp
  | error e => simp

theorem breaks_doIf_iff {c : Prop} [Decidable c] {x : Except Exc PUnit} :
    Breaks (doIf c x) ↔ c ∧ Breaks x := by
  by_cases h : c <;> simp [h]

/-- A loop breaks at the first element at which its body does not pass. -/
theorem breaks_forM_iff {l : List α} {f : α → Except Exc Unit} :
    Breaks (forM l f) ↔
      ∃ pre a post, l = pre ++ a :: post ∧ (∀ b ∈ pre, f b = .ok ⟨⟩) ∧ Breaks (f a) := by
  simp only [Breaks, except_forM_error_iff]
  constructor
  · rintro ⟨e, ⟨pre, a, post, hl, hpre, he⟩, hinvalid⟩
    exact ⟨pre, a, post, hl, hpre, e, he, hinvalid⟩
  · rintro ⟨pre, a, post, hl, hpre, e, he, hinvalid⟩
    exact ⟨e, ⟨pre, a, post, hl, hpre, he⟩, hinvalid⟩

end Breaks

/-! ## Lines -/

/-- The limits of the controls that are enabled, as the platform reads them. -/
structure RDTInformation.Limited (i : RDTInformation) : Prop where
  cache : i.rdtCacheControlEnabled = true → ∃ cbmMask minCbmBits m b, i.cbmMask = some cbmMask ∧
    i.minCbmBits = some minCbmBits ∧ Str.int 16 cbmMask = .ok m ∧ Str.int 10 minCbmBits = .ok b
  mb : i.rdtMbControlEnabled = true → ∃ minBandwidth gran, i.mbMinBandwidth = some minBandwidth ∧
    i.mbBandwidthGran = some gran

/-- The line begins well but is no row; or it is a row of domains in range, and the first mask that
does not pass is no hexadecimal number. -/
def UnreadableL3 (sockets : Nat) (i : RDTInformation) (l3 : String) : Prop :=
  Str.startsWith "L3:" l3 = true ∧
    ((∀ row, parseSchemataFileRow l3 ≠ .ok row) ∨
      ∃ row pre mask post, parseSchemataFileRow l3 = .ok row ∧
        (∀ domain ∈ row.keys, DomainInRange sockets domain) ∧ row.values = pre ++ mask :: post ∧
        (∀ m ∈ pre, checkCbmMask m (i.cbmMask.getD "") (i.minCbmBits.getD "") = .ok ()) ∧
        ∀ n, Str.int 16 mask ≠ .ok n)

/-- The line begins well but is no row. -/
def UnreadableMb (mb : String) : Prop :=
  Str.startsWith "MB:" mb = true ∧ ∀ row, parseSchemataFileRow mb ≠ .ok row

section Lines

variable {sockets : Nat} {i : RDTInformation} {line : String}

theorem validateDomains_ok_iff {domains : List String} :
    validateDomains domains sockets = .ok () ↔ ∀ domain ∈ domains, DomainInRange sockets domain := by
  simp only [validateDomains, except_forM_ok_iff, validateDomain_ok_iff]

theorem not_breaks_validateDomains {domains : List String} : ¬ Breaks (validateDomains domains sockets) :=
  not_breaks_of_refuses fun _ he => (validateDomains_error he).2

theorem breaks_checkCbmMask_iff {cbmMask minCbmBits mask : String} {m b : ℤ}
    (hm : Str.int 16 cbmMask = .ok m) (hb : Str.int 10 minCbmBits = .ok b) :
    Breaks (checkCbmMask mask cbmMask minCbmBits) ↔ ∀ n, Str.int 16 mask ≠ .ok n := by
  cases hn : Str.int 16 mask with
  | ok n =>
    obtain ⟨hpasses, hrefuses⟩ := checkCbmMask_of_limit hm hb hn
    have hnot : ¬ Breaks (checkCbmMask mask cbmMask minCbmBits) := by
      by_cases hp : n ≤ m ∧ ∃ len, OneRun n.natAbs len ∧ b ≤ len
      · rw [hpasses.mpr hp]
        exact not_breaks_ok
      · obtain ⟨why, hwhy⟩ := hrefuses hp
        rw [hwhy]
        exact not_breaks_invalid
    exact iff_of_false hnot fun h => h n rfl
  | error e =>
    have hnot : ∀ n, Str.int 16 mask ≠ .ok n := fun n h => by cases hn.symm.trans h
    have hraises : ∃ msg, checkCbmMask mask cbmMask minCbmBits = .error (.builtin (.ValueError msg)) :=
      checkCbmMask_of_not_int hnot
    obtain ⟨msg, hmsg⟩ := hraises
    rw [hmsg]
    exact iff_of_true breaks_builtin fun n h => by cases h

theorem breaks_validateL3String_iff (hi : i.Limited) (hon : i.rdtCacheControlEnabled = true) :
    Breaks (validateL3String line sockets i.cbmMask i.minCbmBits) ↔ UnreadableL3 sockets i line := by
  obtain ⟨cbmMask, minCbmBits, m, b, hcbm, hbits, hm, hb⟩ := hi.cache hon
  rw [UnreadableL3, hcbm, hbits, Option.getD_some, Option.getD_some]
  cases hstarts : Str.startsWith "L3:" line with
  | false =>
    rw [validateL3String_of_not_startsWith hstarts]
    simp [Breaks, Exc.isInvalidAllocations]
  | true =>
    rw [validateL3String_of_startsWith hstarts, breaks_bind_iff, breaks_liftM_iff]
    simp only [liftM_ok_iff, breaks_seq_iff, not_breaks_validateDomains, false_or, validateDomains_ok_iff,
      breaks_forM_iff, breaks_checkCbmMask_iff hm hb, true_and]
    refine or_congr_right (exists_congr fun row => ?_)
    constructor
    · rintro ⟨hrow, hdomains, pre, mask, post, hvalues, hpre, hmask⟩
      exact ⟨pre, mask, post, hrow, hdomains, hvalues, hpre, hmask⟩
    · rintro ⟨pre, mask, post, hrow, hdomains, hvalues, hpre, hmask⟩
      exact ⟨hrow, hdomains, pre, mask, post, hvalues, hpre, hmask⟩

/-- Nothing but the row can break: the values of a line of bandwidths are refused. -/
theorem breaks_normalizeMbString_iff (hi : i.Limited) (hon : i.rdtMbControlEnabled = true) :
    Breaks (normalizeMbString line sockets i.mbMinBandwidth i.mbBandwidthGran) ↔ UnreadableMb line := by
  obtain ⟨minBandwidth, gran, hmin, hgran⟩ := hi.mb hon
  have hvalue : ∀ domain value, ¬ Breaks (normalizeMbDomain minBandwidth gran domain value) := by
    intro domain value
    rw [normalizeMbDomain]
    cases Str.int 10 value with
    | error e => exact not_breaks_invalid
    | ok n =>
      change ¬ Breaks (normalizeMbValue n minBandwidth gran >>= _)
      rw [breaks_bind_iff, normalizeMbValue]
      split
      · rintro (h | ⟨a, ha, -⟩)
        · exact not_breaks_invalid h
        · cases ha
      · split
        · rintro (h | ⟨a, -, h⟩)
          · exact not_breaks_ok h
          · exact not_breaks_ok h
        · rintro (h | ⟨a, -, h⟩)
          · exact not_breaks_ok h
          · exact not_breaks_ok h
  have hitems : ∀ row : Row, ¬ Breaks (row.items.mapM fun p =>
      normalizeMbDomain minBandwidth gran p.1 p.2) := by
    rintro row ⟨e, he, hinvalid⟩
    obtain ⟨p, -, hp⟩ := except_mapM_error he
    exact hvalue p.1 p.2 ⟨e, hp, hinvalid⟩
  rw [UnreadableMb, hmin, hgran, normalizeMbString]
  cases hstarts : Str.startsWith "MB:" line with
  | false =>
    rw [doIf_of (by simp)]
    simp [invalid]
  | true =>
    rw [doIf_of_not (by simp), except_pure, except_ok_bind]
    simp [breaks_bind_iff, breaks_liftM_iff, not_breaks_validateDomains, hitems, except_pure]

end Lines

/-! ## One allocation -/

/-- The value is of the type that the constructor asserts. -/
def Fitting : AllocationType → RawValue → Prop
  | .CPUSET_CPUS, raw | .CPUSET_MEMS, raw => ∃ s, raw = .str s
  | .RDT, raw => ∃ a, raw = .rdt a
  | _, raw => ∃ n, raw = .num n

namespace AllocationRunner

variable (self : AllocationRunner)

/-- There is a constructor for the type, and it takes the value. -/
def Constructs (t : AllocationType) (raw : RawValue) : Prop :=
  (t = .RDT → self.rdtEnabled = true) ∧ Fitting t raw

/-- The checks of one allocation break: a text that is not empty is decoded to no ids, or a line of
a control that is enabled cannot be read. The line of cache masks is looked at first. -/
def Unreadable : AllocationType → RawValue → Prop
  | .CPUSET_CPUS, .str s | .CPUSET_MEMS, .str s => s ≠ "" ∧ decodeListformat s = .ok ∅
  | .RDT, .rdt a => ∃ i, self.platform.rdtInformation = some i ∧
      (truthy a.l3 = true ∧ i.rdtCacheControlEnabled = true ∧
          UnreadableL3 self.platform.sockets i (a.l3.getD "") ∨
        RDTAllocationValue.checkL3 self.platform.sockets i a.l3 = .ok () ∧
          truthy a.mb = true ∧ i.rdtMbControlEnabled = true ∧ UnreadableMb (a.mb.getD ""))
  | _, _ => False

/-- No check of the task breaks before one refuses: values are constructed in order as long as there
is a constructor for each, and once all are they are checked in order. -/
def TaskRefusesFirst (container : Container) (groups : Finset String) (m : TaskAllocations) : Prop :=
  (∀ pre t raw post, m.items = pre ++ (t, raw) :: post → (∀ p ∈ pre, self.Constructs p.1 p.2) →
      (t = .RDT → self.rdtEnabled = true) → Fitting t raw) ∧
  ((∀ p ∈ m.items, self.Constructs p.1 p.2) → ∀ pre t raw post, m.items = pre ++ (t, raw) :: post →
      (∀ p ∈ pre, self.checkLeaf container groups p.1 p.2 = .ok ()) → ¬ self.Unreadable t raw)

/-- No check breaks before one refuses. -/
def RefusesFirst (new : TasksAllocations) : Prop :=
  ∀ pre task m post tk container, new.items = pre ++ (task, m) :: post →
    self.checkItems [] pre = .ok () → self.containers.get? task = some (tk, container) →
    self.TaskRefusesFirst container (self.countedGroups (pre ++ [(task, m)])) m

variable {self : AllocationRunner} {c : Container}

/-- A value is constructed, or is not of the type, or there is no constructor to refuse it. -/
theorem construct_cases (hrdt : self.platform.rdtInformation.isSome = self.rdtEnabled)
    (t : AllocationType) (raw : RawValue) :
    (∃ v, construct (self.context 0) c t raw = .ok v) ∧ self.Constructs t raw ∨
    (∃ e, construct (self.context 0) c t raw = .error (.builtin e)) ∧ ¬ Fitting t raw ∧
      (t = .RDT → self.rdtEnabled = true) ∨
    construct (self.context 0) c t raw = invalid (.unsupportedAllocationType t) ∧ t = .RDT ∧
      self.rdtEnabled = false := by
  cases t with
  | RDT =>
    cases hon : self.rdtEnabled with
    | false =>
      have hcontext : self.context 0 = none := by rw [context, hon]; rfl
      exact .inr (.inr ⟨by rw [hcontext]; rfl, rfl, rfl⟩)
    | true =>
      obtain ⟨i, hi⟩ := Option.isSome_iff_exists.mp (hrdt.trans hon)
      have hcontext : self.context 0 = some ⟨0, self.platform.sockets, i⟩ := by
        rw [context, hon, hi]
        rfl
      rw [hcontext]
      cases raw with
      | rdt a => exact .inl ⟨⟨_, rfl⟩, fun _ => hon, a, rfl⟩
      | num n => exact .inr (.inl ⟨⟨_, rfl⟩, by simp [Fitting], fun _ => rfl⟩)
      | str s => exact .inr (.inl ⟨⟨_, rfl⟩, by simp [Fitting], fun _ => rfl⟩)
  | CPUSET_CPUS | CPUSET_MEMS =>
    cases raw with
    | str s => exact .inl ⟨⟨_, rfl⟩, (fun h => by cases h), s, rfl⟩
    | num n => exact .inr (.inl ⟨⟨_, rfl⟩, by simp [Fitting], fun h => by cases h⟩)
    | rdt a => exact .inr (.inl ⟨⟨_, rfl⟩, by simp [Fitting], fun h => by cases h⟩)
  | QUOTA | SHARES | CPUSET_MEMORY_MIGRATE | MIGRATE_PAGES =>
    cases raw with
    | num n => exact .inl ⟨⟨_, rfl⟩, (fun h => by cases h), n, rfl⟩
    | str s => exact .inr (.inl ⟨⟨_, rfl⟩, by simp [Fitting], fun h => by cases h⟩)
    | rdt a => exact .inr (.inl ⟨⟨_, rfl⟩, by simp [Fitting], fun h => by cases h⟩)

theorem breaks_construct_iff (hrdt : self.platform.rdtInformation.isSome = self.rdtEnabled)
    {t : AllocationType} {raw : RawValue} : Breaks (construct (self.context 0) c t raw) ↔
      (t = .RDT → self.rdtEnabled = true) ∧ ¬ Fitting t raw := by
  obtain ⟨⟨v, hv⟩, hcon⟩ | ⟨⟨e, he⟩, hnot, hon⟩ | ⟨hrefuses, ht, hoff⟩ := construct_cases (c := c) hrdt t raw
  · rw [hv]
    exact iff_of_false not_breaks_ok fun h => h.2 hcon.2
  · rw [he]
    exact iff_of_true breaks_builtin ⟨hon, hnot⟩
  · rw [hrefuses]
    refine iff_of_false not_breaks_invalid fun h => ?_
    cases hoff.symm.trans (h.1 ht)

theorem constructs_iff (hrdt : self.platform.rdtInformation.isSome = self.rdtEnabled)
    {t : AllocationType} {raw : RawValue} :
    self.Constructs t raw ↔ ∃ v, construct (self.context 0) c t raw = .ok v := by
  obtain ⟨hv, hcon⟩ | ⟨⟨e, he⟩, hnot, hon⟩ | ⟨hrefuses, ht, hoff⟩ := construct_cases (c := c) hrdt t raw
  · exact iff_of_true hcon hv
  · rw [he]
    exact iff_of_false (fun h => hnot h.2) (by simp)
  · rw [hrefuses]
    refine iff_of_false (fun h => ?_) (by simp [invalid])
    cases hoff.symm.trans (h.1 ht)

theorem not_breaks_boxedNumeric (b : BoxedNumeric) : ¬ Breaks b.validate := by
  unfold BoxedNumeric.validate
  split
  · exact not_breaks_invalid
  · exact not_breaks_ok

/-- Only the first and the last of no ids cannot be taken. -/
theorem breaks_listFormat_iff (v : ListFormatBasedAllocationValue) :
    Breaks v.validate ↔ v.value ≠ "" ∧ decodeListformat v.value = .ok ∅ := by
  unfold ListFormatBasedAllocationValue.validate
  split
  · rename_i e hd
    simp [hd]
  · rename_i ids hd
    rw [hd, Except.ok.injEq]
    by_cases hempty : v.value = ""
    · simp [hempty]
    rw [if_pos hempty]
    split
    · rename_i first last hfirst hlast
      have hids : ids ≠ ∅ := by
        rintro rfl
        cases hfirst
      refine iff_of_false ?_ fun h => hids h.2
      split
      · exact not_breaks_invalid
      · exact not_breaks_ok
    · rename_i hnone
      refine iff_of_true breaks_builtin ⟨hempty, ?_⟩
      cases hs : sorted ids with
      | nil => exact sorted_eq_nil_iff.mp hs
      | cons first l =>
        obtain ⟨last, hlast⟩ := Option.ne_none_iff_exists'.mp
          (mt List.getLast?_eq_none_iff.mp (List.cons_ne_nil first l))
        exact (hnone first last (by rw [hs]; rfl) (by rw [hs]; exact hlast)).elim

theorem breaks_checkL3_iff {i : RDTInformation} {sockets : Nat} (hi : i.Limited) (l3 : Option String) :
    Breaks (RDTAllocationValue.checkL3 sockets i l3) ↔
      truthy l3 = true ∧ i.rdtCacheControlEnabled = true ∧ UnreadableL3 sockets i (l3.getD "") := by
  unfold RDTAllocationValue.checkL3
  rw [breaks_doIf_iff]
  refine and_congr_right fun _ => ?_
  cases hon : i.rdtCacheControlEnabled with
  | false =>
    rw [doIf_of (by simp), breaks_bind_iff]
    simp [invalid]
  | true =>
    rw [doIf_of_not (by simp), except_pure, except_ok_bind, breaks_validateL3String_iff hi hon]
    simp

theorem breaks_checkMb_iff {i : RDTInformation} {sockets : Nat} (hi : i.Limited) (mb : Option String) :
    Breaks (RDTAllocationValue.checkMb sockets i mb) ↔
      truthy mb = true ∧ i.rdtMbControlEnabled = true ∧ UnreadableMb (mb.getD "") := by
  unfold RDTAllocationValue.checkMb
  rw [breaks_doIf_iff]
  refine and_congr_right fun _ => ?_
  cases hon : i.rdtMbControlEnabled with
  | false =>
    rw [doIf_of (by simp), breaks_bind_iff]
    simp [invalid]
  | true =>
    rw [doIf_of_not (by simp), except_pure, except_ok_bind, breaks_bind_iff,
      breaks_normalizeMbString_iff hi hon]
    simp

/-- What a check of a value breaks on. -/
theorem breaks_check_iff (hi : ∀ i, self.platform.rdtInformation = some i → i.Limited)
    {t : AllocationType} {raw : RawValue} {v : LeafValue}
    (hv : construct (self.context 0) c t raw = .ok v) : Breaks v.check ↔ self.Unreadable t raw := by
  cases t with
  | RDT =>
    obtain ⟨ctx, a, hctx, rfl, rfl⟩ := construct_RDT_ok hv
    unfold context at hctx
    split at hctx
    · obtain ⟨i, hinfo, rfl⟩ := Option.map_eq_some_iff.mp hctx
      change Breaks (RDTAllocationValue.validateLines _) ↔ _
      rw [RDTAllocationValue.validateLines, breaks_seq_iff]
      simp only [RDTContext.rdtAllocationValueConstructor, breaks_checkL3_iff (hi i hinfo),
        breaks_checkMb_iff (hi i hinfo), Unreadable, hinfo, Option.some.injEq, exists_eq_left']
    · cases hctx
  | CPUSET_CPUS | CPUSET_MEMS =>
    cases raw with
    | str s =>
      cases hv
      exact breaks_listFormat_iff _
    | _ => cases hv
  | QUOTA | SHARES | CPUSET_MEMORY_MIGRATE =>
    cases raw with
    | num n =>
      cases hv
      exact iff_of_false (not_breaks_boxedNumeric _) fun h => h
    | _ => cases hv
  | MIGRATE_PAGES =>
    cases raw with
    | num n =>
      cases hv
      refine iff_of_false ?_ fun h => h
      change ¬ Breaks (MigratePagesAllocationValue.validate _)
      rw [MigratePagesAllocationValue.validate, breaks_seq_iff, breaks_doIf_iff]
      exact fun h => h.elim (not_breaks_boxedNumeric _) fun h => not_breaks_invalid h.2.2
    | _ => cases hv

theorem breaks_checkLeaf_iff (hi : ∀ i, self.platform.rdtInformation = some i → i.Limited)
    {groups : Finset String} {t : AllocationType} {raw : RawValue} {v : LeafValue}
    (hv : construct (self.context 0) c t raw = .ok v) :
    Breaks (self.checkLeaf c groups t raw) ↔ self.Unreadable t raw := by
  rw [checkLeaf, hv, except_ok_bind, breaks_seq_iff, breaks_check_iff hi hv, breaks_doIf_iff]
  simp

/-! ## All allocations -/

section

variable (hrdt : self.platform.rdtInformation.isSome = self.rdtEnabled)
  (hi : ∀ i, self.platform.rdtInformation = some i → i.Limited)

include hrdt

/-- The loop that constructs values. -/
theorem breaks_constructs_iff {l : List (AllocationType × RawValue)} :
    Breaks (forM l fun p => (construct (self.context 0) c p.1 p.2).map fun _ => ()) ↔
      ∃ pre t raw post, l = pre ++ (t, raw) :: post ∧ (∀ p ∈ pre, self.Constructs p.1 p.2) ∧
        (t = .RDT → self.rdtEnabled = true) ∧ ¬ Fitting t raw := by
  simp only [breaks_forM_iff, breaks_map_iff, breaks_construct_iff hrdt, Prod.exists,
    except_drop_ok_iff, constructs_iff (c := c) hrdt]

include hi

/-- The checks of a task break when one does before all refuse. -/
theorem breaks_checkTask_iff {groups : Finset String} {task : TaskId} {m : TaskAllocations} {tk : Task}
    (hc : self.containers.get? task = some (tk, c))
    (hplatform : c.platform.rdtInformation.isSome = self.rdtEnabled) :
    Breaks (self.checkTask groups (task, m)) ↔ ¬ self.TaskRefusesFirst c groups m := by
  have hleaves : (∀ p ∈ m.items, self.Constructs p.1 p.2) →
      (Breaks (forM m.items fun p => self.checkLeaf c groups p.1 p.2) ↔
        ∃ pre t raw post, m.items = pre ++ (t, raw) :: post ∧
          (∀ p ∈ pre, self.checkLeaf c groups p.1 p.2 = .ok ()) ∧ self.Unreadable t raw) := by
    intro hall
    rw [breaks_forM_iff]
    constructor
    · rintro ⟨pre, ⟨t, raw⟩, post, hl, hpre, hbreaks⟩
      obtain ⟨v, hv⟩ := (constructs_iff hrdt).mp (hall (t, raw) (by rw [hl]; simp))
      exact ⟨pre, t, raw, post, hl, hpre, (breaks_checkLeaf_iff hi hv).mp hbreaks⟩
    · rintro ⟨pre, t, raw, post, hl, hpre, hbreaks⟩
      obtain ⟨v, hv⟩ := (constructs_iff hrdt).mp (hall (t, raw) (by rw [hl]; simp))
      exact ⟨pre, (t, raw), post, hl, hpre, (breaks_checkLeaf_iff hi hv).mpr hbreaks⟩
  rw [checkTask, hc]
  dsimp only
  rw [assert_of hplatform, except_ok_bind, breaks_seq_iff, breaks_constructs_iff hrdt,
    except_forM_ok_iff]
  simp only [except_drop_ok_iff, ← constructs_iff hrdt]
  rw [TaskRefusesFirst, not_and_or, Classical.not_imp]
  refine or_congr ?_ (and_congr_right fun hall => (hleaves hall).trans ?_) <;> push Not
  · rfl
  · rfl

/-- The tasks are gone through in order; by induction on them, as for a loop. -/
theorem breaks_checkItems_iff {before items : List (TaskId × TaskAllocations)}
    (hplatform : ∀ task tk container, self.containers.get? task = some (tk, container) →
      container.platform.rdtInformation.isSome = self.rdtEnabled) :
    Breaks (self.checkItems before items) ↔ ∃ pre task m post tk container,
      items = pre ++ (task, m) :: post ∧ self.checkItems before pre = .ok () ∧
        self.containers.get? task = some (tk, container) ∧
        ¬ self.TaskRefusesFirst container (self.countedGroups (before ++ pre ++ [(task, m)])) m := by
  have htask : ∀ groups task m, Breaks (self.checkTask groups (task, m)) ↔ ∃ tk container,
      self.containers.get? task = some (tk, container) ∧ ¬ self.TaskRefusesFirst container groups m := by
    intro groups task m
    cases hc : self.containers.get? task with
    | none => simp [checkTask, hc]
    | some p =>
      rw [breaks_checkTask_iff hrdt hi hc (hplatform task p.1 p.2 hc)]
      simp [Prod.ext_iff]
  induction items generalizing before with
  | nil => simp [checkItems]
  | cons item items ih =>
    obtain ⟨task, m⟩ := item
    rw [checkItems, breaks_seq_iff, htask]
    refine (or_congr_right (and_congr_right fun _ => ih)).trans ?_
    constructor
    · rintro (⟨tk, container, hc, hnot⟩ | ⟨hok, pre, task', m', post, tk, container, rfl, hpre, hc, hnot⟩)
      · exact ⟨[], task, m, items, tk, container, rfl, rfl, hc, by rwa [List.append_nil]⟩
      · refine ⟨(task, m) :: pre, task', m', post, tk, container, rfl, ?_, hc, ?_⟩
        · rw [checkItems, hok, except_ok_bind, hpre]
        · rwa [List.append_cons before]
    · rintro ⟨pre, task', m', post, tk, container, hl, hpre, hc, hnot⟩
      cases pre with
      | nil =>
        cases hl
        exact .inl ⟨tk, container, hc, by rwa [List.append_nil] at hnot⟩
      | cons head pre =>
        obtain ⟨rfl, rfl⟩ := List.cons.inj hl
        rw [checkItems, except_seq_ok_iff] at hpre
        refine .inr ⟨hpre.1, pre, task', m', post, tk, container, rfl, hpre.2, hc, ?_⟩
        rwa [List.append_cons before] at hnot

/-- No check of `create` breaks. -/
theorem refusesFirst_iff {new : TasksAllocations}
    (hplatform : ∀ task tk container, self.containers.get? task = some (tk, container) →
      container.platform.rdtInformation.isSome = self.rdtEnabled) :
    self.RefusesFirst new ↔ ¬ Breaks (self.checkItems [] new.items) := by
  rw [breaks_checkItems_iff hrdt hi hplatform, RefusesFirst]
  push Not
  rfl

end

end AllocationRunner

end Wca
