import Wca.Allocations

/-!
# The comparison of dictionaries of values

What `calculateChangeset` of an `AllocationsDict` returns, key by key (`IsChangeset`), in which
order the changeset lists its keys (`changeset_items`), and when it raises. All of it is about
arbitrary values; it is used once for the types of a task and once for the tasks.
-/

namespace Wca

open Py

namespace AllocationsDict

variable {K V H W : Type} [DecidableEq K] [AllocationValue V H W]

/-- The entry of a changeset at a key; there is none in `None`. -/
def entry (changeset : Option (AllocationsDict K V)) (k : K) : Option V :=
  changeset.bind fun d => d.get? k

@[simp] theorem entry_none (k : K) : entry (none : Option (AllocationsDict K V)) k = none := rfl

@[simp] theorem entry_some (d : AllocationsDict K V) (k : K) : entry (some d) k = d.get? k := rfl

@[simp] theorem entry_noneIfEmpty (d : AllocationsDict K V) (k : K) :
    entry (noneIfEmpty d) k = d.get? k := by
  unfold noneIfEmpty
  split
  · rename_i h
    rw [entry_none, (Dict.ext h : d = ∅), Dict.get?_empty]
  · rfl

/-- What the loop does with one key of the new dictionary. -/
def EntryOf (current : AllocationsDict K V) (k : K) (value : V) (target changeset : Option V) : Prop :=
  match current.get? k with
  | none => target = some value ∧ changeset = some value
  | some currentValue => ∃ t, calculateChangeset value currentValue = .ok (t, changeset) ∧
      target = some t

/-- The two results, key by key. -/
structure IsChangeset (new current target : AllocationsDict K V)
    (changeset : Option (AllocationsDict K V)) : Prop where
  absent : ∀ k, new.get? k = none → target.get? k = current.get? k ∧ entry changeset k = none
  present : ∀ k value, new.get? k = some value →
    EntryOf current k value (target.get? k) (entry changeset k)
  none_of_entries : (∀ k, entry changeset k = none) → changeset = none

/-! ## The loop -/

theorem changesetStep_ok {current : AllocationsDict K V}
    {acc acc' : AllocationsDict K V × AllocationsDict K V} {item : K × V}
    (h : changesetStep current acc item = .ok acc') (hfresh : acc.2.get? item.1 = none) :
    EntryOf current item.1 item.2 (acc'.1.get? item.1) (acc'.2.get? item.1) ∧
      ∀ k, k ≠ item.1 → acc'.1.get? k = acc.1.get? k ∧ acc'.2.get? k = acc.2.get? k := by
  unfold changesetStep at h
  unfold EntryOf
  cases hc : current.get? item.1 with
  | none =>
    rw [hc] at h
    cases h
    refine ⟨⟨Dict.get?_set_self, Dict.get?_set_self⟩, fun k hk => ?_⟩
    exact ⟨Dict.get?_set_of_ne hk, Dict.get?_set_of_ne hk⟩
  | some currentValue =>
    rw [hc] at h
    cases hcalc : calculateChangeset item.2 currentValue with
    | error e => simp only [hcalc] at h; cases h
    | ok r =>
      obtain ⟨t, d⟩ := r
      simp only [hcalc] at h
      cases d with
      | none =>
        cases h
        refine ⟨⟨t, by rw [hcalc, hfresh], Dict.get?_set_self⟩, fun k hk => ?_⟩
        exact ⟨Dict.get?_set_of_ne hk, rfl⟩
      | some d =>
        cases h
        refine ⟨⟨t, by rw [hcalc, Dict.get?_set_self], Dict.get?_set_self⟩, fun k hk => ?_⟩
        exact ⟨Dict.get?_set_of_ne hk, Dict.get?_set_of_ne hk⟩

/-- The loop over items with keys of their own, by induction on the items: keys that are not among
them keep what the accumulator has. -/
theorem foldlM_changesetStep_ok {current : AllocationsDict K V} {l : List (K × V)}
    {acc acc' : AllocationsDict K V × AllocationsDict K V}
    (h : l.foldlM (changesetStep current) acc = .ok acc') (hnd : (l.map Prod.fst).Nodup)
    (hfresh : ∀ p ∈ l, acc.2.get? p.1 = none) :
    (∀ p ∈ l, EntryOf current p.1 p.2 (acc'.1.get? p.1) (acc'.2.get? p.1)) ∧
      ∀ k, k ∉ l.map Prod.fst → acc'.1.get? k = acc.1.get? k ∧ acc'.2.get? k = acc.2.get? k := by
  induction l generalizing acc with
  | nil =>
    cases h
    exact ⟨fun p hp => (nomatch hp), fun k _ => ⟨rfl, rfl⟩⟩
  | cons item l ih =>
    rw [List.map_cons, List.nodup_cons] at hnd
    rw [List.foldlM_cons] at h
    cases hs : changesetStep current acc item with
    | error e => rw [hs] at h; cases h
    | ok acc₁ =>
      rw [hs] at h
      obtain ⟨hentry, hother⟩ := changesetStep_ok hs (hfresh item List.mem_cons_self)
      have hne : ∀ p ∈ l, p.1 ≠ item.1 := fun p hp he =>
        hnd.1 (List.mem_map.mpr ⟨p, hp, he⟩)
      obtain ⟨hl, hrest⟩ := ih h hnd.2 fun p hp => by
        rw [(hother p.1 (hne p hp)).2]
        exact hfresh p (List.mem_cons_of_mem _ hp)
      constructor
      · intro p hp
        rcases List.mem_cons.mp hp with rfl | hp
        · rw [(hrest p.1 hnd.1).1, (hrest p.1 hnd.1).2]
          exact hentry
        · exact hl p hp
      · intro k hk
        rw [List.map_cons, List.mem_cons, not_or] at hk
        rw [(hrest k hk.2).1, (hrest k hk.2).2]
        exact hother k hk.1

theorem calculateChangeset_eq (new current : AllocationsDict K V) :
    calculateChangeset new current =
      (new.items.foldlM (changesetStep current) (current, ∅)).map
        fun acc => (acc.1, noneIfEmpty acc.2) := by
  change (new.items.foldlM (changesetStep current) (current, ∅) >>= fun acc =>
    pure (acc.1, noneIfEmpty acc.2)) = _
  cases new.items.foldlM (changesetStep current) (current, ∅) <;> rfl

theorem calculateChangeset_ok_iff {new current target : AllocationsDict K V}
    {changeset : Option (AllocationsDict K V)} :
    calculateChangeset new current = .ok (target, changeset) ↔
      ∃ d, new.items.foldlM (changesetStep current) (current, ∅) = .ok (target, d) ∧
        changeset = noneIfEmpty d := by
  rw [calculateChangeset_eq]
  cases hf : new.items.foldlM (changesetStep current) (current, ∅) with
  | error e => simp [Except.map]
  | ok acc =>
    simp only [Except.map, Except.ok.injEq, Prod.mk.injEq]
    constructor
    · rintro ⟨rfl, rfl⟩; exact ⟨acc.2, rfl, rfl⟩
    · rintro ⟨d, rfl, rfl⟩; exact ⟨rfl, rfl⟩

/-- The comparison of dictionaries, when it returns. -/
theorem isChangeset_of_ok {new current target : AllocationsDict K V}
    {changeset : Option (AllocationsDict K V)}
    (h : calculateChangeset new current = .ok (target, changeset)) :
    IsChangeset new current target changeset := by
  obtain ⟨d, hf, rfl⟩ := calculateChangeset_ok_iff.mp h
  obtain ⟨hin, hout⟩ := foldlM_changesetStep_ok hf new.nodup fun _ _ => Dict.get?_empty _
  refine ⟨fun k hk => ?_, fun k value hk => ?_, fun hall => ?_⟩
  · obtain ⟨h₁, h₂⟩ := hout k (Dict.get?_eq_none_iff.mp hk)
    exact ⟨h₁, by rw [entry_noneIfEmpty, h₂, Dict.get?_empty]⟩
  · rw [entry_noneIfEmpty]
    exact hin (k, value) (Dict.get?_eq_some_iff.mp hk)
  · unfold noneIfEmpty
    rw [if_pos]
    rw [List.eq_nil_iff_forall_not_mem]
    rintro ⟨k, v⟩ hkv
    have := hall k
    rw [entry_noneIfEmpty, Dict.get?_eq_some_iff.mpr hkv] at this
    cases this

/-! ## Returning and raising -/

theorem changesetStep_error {current : AllocationsDict K V}
    {acc : AllocationsDict K V × AllocationsDict K V} {item : K × V} {e : Exc}
    (h : changesetStep current acc item = .error e) :
    ∃ c, current.get? item.1 = some c ∧ calculateChangeset item.2 c = .error e := by
  unfold changesetStep at h
  cases hc : current.get? item.1 with
  | none => rw [hc] at h; cases h
  | some c =>
    rw [hc] at h
    cases hcalc : calculateChangeset item.2 c with
    | ok r => simp only [hcalc] at h; cases h
    | error e' => simp only [hcalc] at h; cases h; exact ⟨c, rfl, hcalc⟩

/-- The comparison raises what the comparison of some entry raises. -/
theorem calculateChangeset_error {new current : AllocationsDict K V} {e : Exc}
    (h : calculateChangeset new current = .error e) :
    ∃ k value c, new.get? k = some value ∧ current.get? k = some c ∧
      calculateChangeset value c = .error e := by
  rw [calculateChangeset_eq] at h
  suffices hl : ∀ (l : List (K × V)) (acc : AllocationsDict K V × AllocationsDict K V),
      l.foldlM (changesetStep current) acc = .error e →
      ∃ p ∈ l, ∃ c, current.get? p.1 = some c ∧ calculateChangeset p.2 c = .error e by
    cases hf : new.items.foldlM (changesetStep current) (current, ∅) with
    | ok acc => rw [hf] at h; cases h
    | error e' =>
      rw [hf] at h
      cases h
      obtain ⟨p, hp, c, hc, hcalc⟩ := hl _ _ hf
      exact ⟨p.1, p.2, c, Dict.get?_eq_some_iff.mpr hp, hc, hcalc⟩
  intro l
  induction l with
  | nil => intro acc h; cases h
  | cons item l ih =>
    intro acc h
    rw [List.foldlM_cons] at h
    cases hs : changesetStep current acc item with
    | error e' =>
      rw [hs] at h
      cases h
      obtain ⟨c, hc, hcalc⟩ := changesetStep_error hs
      exact ⟨item, List.mem_cons_self, c, hc, hcalc⟩
    | ok acc₁ =>
      rw [hs] at h
      obtain ⟨p, hp, hc⟩ := ih acc₁ h
      exact ⟨p, List.mem_cons_of_mem _ hp, hc⟩

/-- The comparison returns when the comparison of every common entry does. -/
theorem calculateChangeset_returns (new current : AllocationsDict K V)
    (h : ∀ k value c, new.get? k = some value → current.get? k = some c →
      ∃ r, calculateChangeset value c = .ok r) :
    ∃ target changeset, calculateChangeset new current = .ok (target, changeset) := by
  cases hcalc : calculateChangeset new current with
  | ok r => exact ⟨r.1, r.2, rfl⟩
  | error e =>
    obtain ⟨k, value, c, hk, hc, he⟩ := calculateChangeset_error hcalc
    obtain ⟨r, hr⟩ := h k value c hk hc
    rw [hr] at he
    cases he

theorem calculateChangeset_returns_iff {new current : AllocationsDict K V} :
    (∃ r, calculateChangeset new current = .ok r) ↔
      ∀ k value c, new.get? k = some value → current.get? k = some c →
        ∃ r, calculateChangeset value c = .ok r := by
  constructor
  · rintro ⟨⟨target, changeset⟩, h⟩ k value c hk hc
    have hentry := (isChangeset_of_ok h).present k value hk
    rw [EntryOf, hc] at hentry
    obtain ⟨t, ht, -⟩ := hentry
    exact ⟨_, ht⟩
  · intro h
    obtain ⟨target, changeset, hcalc⟩ := calculateChangeset_returns new current h
    exact ⟨_, hcalc⟩

/-- When no entry of the new dictionary makes a change, neither does the whole. -/
theorem calculateChangeset_unchanged (new current : AllocationsDict K V)
    (h : ∀ k value, new.get? k = some value → ∃ c t, current.get? k = some c ∧
      calculateChangeset value c = .ok (t, none)) :
    ∃ target, calculateChangeset new current = .ok (target, none) ∧
      (∀ k, new.get? k = none → target.get? k = current.get? k) ∧
      ∀ k value c t, new.get? k = some value → current.get? k = some c →
        calculateChangeset value c = .ok (t, none) → target.get? k = some t := by
  obtain ⟨target, changeset, hcalc⟩ := calculateChangeset_returns new current
    fun k value c hk hc => by
      obtain ⟨c', t, hc', ht⟩ := h k value hk
      rw [hc] at hc'
      cases hc'
      exact ⟨_, ht⟩
  have hspec := isChangeset_of_ok hcalc
  have hentry : ∀ k value c t, new.get? k = some value → current.get? k = some c →
      calculateChangeset value c = .ok (t, none) → target.get? k = some t ∧ entry changeset k = none := by
    intro k value c t hk hc ht
    have hp := hspec.present k value hk
    simp only [EntryOf, hc, ht, Except.ok.injEq, Prod.mk.injEq] at hp
    obtain ⟨t', ⟨rfl, hnone⟩, ht'⟩ := hp
    exact ⟨ht', hnone.symm⟩
  have hnone : changeset = none := by
    refine hspec.none_of_entries fun k => ?_
    cases hk : new.get? k with
    | none => exact (hspec.absent k hk).2
    | some value =>
      obtain ⟨c, t, hc, ht⟩ := h k value hk
      exact (hentry k value c t hk hc ht).2
  subst hnone
  exact ⟨target, hcalc, fun k hk => (hspec.absent k hk).1,
    fun k value c t hk hc ht => (hentry k value c t hk hc ht).1⟩

/-! ## Dictionaries of dictionaries -/

variable {T : Type} [DecidableEq T]

/-- The leaf of a nest at a task and a type. -/
def leaf (d : AllocationsDict T (AllocationsDict K V)) (task : T) (k : K) : Option V :=
  (d.get? task).bind fun m => m.get? k

/-- The leaf of a changeset; there is none in `None`. -/
def changedLeaf (d : Option (AllocationsDict T (AllocationsDict K V))) (task : T) (k : K) :
    Option V := (entry d task).bind fun m => m.get? k

omit [AllocationValue V H W] in
theorem leaf_mem {d : AllocationsDict T (AllocationsDict K V)} {task : T} {k : K} {v : V} :
    leaf d task k = some v ↔ ∃ m, (task, m) ∈ d.items ∧ (k, v) ∈ m.items := by
  rw [leaf, Option.bind_eq_some_iff]
  simp only [Dict.get?_eq_some_iff]

/-- The comparison of two nests returns when that of every leaf does. -/
theorem calculateChangeset_nest_returns_iff {new current : AllocationsDict T (AllocationsDict K V)} :
    (∃ r, calculateChangeset new current = .ok r) ↔
      ∀ task k value c, leaf new task k = some value → leaf current task k = some c →
        ∃ r, calculateChangeset value c = .ok r := by
  rw [calculateChangeset_returns_iff]
  constructor
  · intro h task k value c hk hc
    obtain ⟨m, hm, hk⟩ := Option.bind_eq_some_iff.mp hk
    obtain ⟨m', hm', hc⟩ := Option.bind_eq_some_iff.mp hc
    exact calculateChangeset_returns_iff.mp (h task m m' hm hm') k value c hk hc
  · intro h task m m' hm hm'
    refine calculateChangeset_returns_iff.mpr fun k value c hk hc => h task k value c ?_ ?_
    · rw [leaf, hm, Option.bind_some, hk]
    · rw [leaf, hm', Option.bind_some, hc]

/-- The comparison of two nests raises what the comparison of some leaf raises. -/
theorem calculateChangeset_nest_error {new current : AllocationsDict T (AllocationsDict K V)} {e : Exc}
    (h : calculateChangeset new current = .error e) :
    ∃ task k value c, leaf new task k = some value ∧ leaf current task k = some c ∧
      calculateChangeset value c = .error e := by
  obtain ⟨task, m, m', hm, hm', he⟩ := calculateChangeset_error h
  obtain ⟨k, value, c, hk, hc, he⟩ := calculateChangeset_error he
  refine ⟨task, k, value, c, ?_, ?_, he⟩
  · rw [leaf, hm, Option.bind_some, hk]
  · rw [leaf, hm', Option.bind_some, hc]

/-- What the comparison of two nests does at one place. -/
def LeafEntry (new current target change : Option V) : Prop :=
  match new, current with
  | none, _ => target = current ∧ change = none
  | some v, none => target = some v ∧ change = some v
  | some v, some c => ∃ t, calculateChangeset v c = .ok (t, change) ∧ target = some t

theorem EntryOf.leafEntry {current : AllocationsDict K V} {k : K} {value : V}
    {target change : Option V} (h : EntryOf current k value target change) :
    LeafEntry (some value) (current.get? k) target change := by
  unfold EntryOf at h
  unfold LeafEntry
  cases hc : current.get? k with
  | none => rw [hc] at h; exact h
  | some c =>
    rw [hc] at h
    exact h

theorem IsChangeset.leafEntry {new current target : AllocationsDict K V}
    {changeset : Option (AllocationsDict K V)} (h : IsChangeset new current target changeset) (k : K) :
    LeafEntry (new.get? k) (current.get? k) (target.get? k) (entry changeset k) := by
  cases hk : new.get? k with
  | none => exact h.absent k hk
  | some v => exact (h.present k v hk).leafEntry

/-- The comparison of two nests, place by place. -/
theorem leafEntry_of_ok {new current target : AllocationsDict T (AllocationsDict K V)}
    {changeset : Option (AllocationsDict T (AllocationsDict K V))}
    (h : calculateChangeset new current = .ok (target, changeset)) (task : T) (k : K) :
    LeafEntry (leaf new task k) (leaf current task k) (leaf target task k)
      (changedLeaf changeset task k) := by
  have hspec := (isChangeset_of_ok h).leafEntry task
  unfold leaf changedLeaf
  cases hn : new.get? task with
  | none =>
    rw [hn] at hspec
    rw [hspec.1, hspec.2]
    exact ⟨rfl, rfl⟩
  | some m =>
    rw [hn] at hspec
    cases hc : current.get? task with
    | none =>
      rw [hc] at hspec
      rw [hspec.1, hspec.2]
      cases hv : m.get? k with
      | none => simp only [Option.bind_some, hv]; exact ⟨rfl, rfl⟩
      | some v => simp only [Option.bind_some, hv]; exact ⟨rfl, rfl⟩
    | some c =>
      rw [hc] at hspec
      obtain ⟨t, ht, htarget⟩ := hspec
      rw [htarget]
      exact (isChangeset_of_ok ht).leafEntry k

end AllocationsDict

end Wca
