import Mathlib.Data.List.Sort
import Mathlib.Data.String.Basic
import Mathlib.Data.Finset.Card

/-!
# Sorting and grouping

`sorted(l, key=key)` is stable, and `itertools.groupby(l, key=key)` divides a list into runs of one
key. After sorting by the key there is one run for each key (`groupby_sortedBy_nodup`), so every
element is in the run of its key and no key comes twice.
-/

namespace Py

variable {α κ : Type}

section

variable [LinearOrder κ] (key : α → κ)

/-- `sorted(l, key=key)`. -/
def sortedBy (l : List α) : List α := l.insertionSort fun a b => key a ≤ key b

theorem sortedBy_perm (l : List α) : List.Perm (sortedBy key l) l := List.perm_insertionSort _ l

theorem mem_sortedBy {l : List α} {a : α} : a ∈ sortedBy key l ↔ a ∈ l := (sortedBy_perm key l).mem_iff

theorem pairwise_sortedBy (l : List α) : (sortedBy key l).Pairwise fun a b => key a ≤ key b :=
  have : Std.Total fun a b => key a ≤ key b := ⟨fun a b => le_total (key a) (key b)⟩
  have : IsTrans α fun a b => key a ≤ key b := ⟨fun _ _ _ => le_trans⟩
  List.pairwise_insertionSort (fun a b => key a ≤ key b) l

/-- `sorted(l, reverse=True, key=key)`, which leaves elements of one key in their order. -/
def sortedByDesc (l : List α) : List α := sortedBy (fun a => OrderDual.toDual (key a)) l

theorem sortedByDesc_perm (l : List α) : List.Perm (sortedByDesc key l) l := sortedBy_perm _ l

theorem pairwise_sortedByDesc (l : List α) :
    (sortedByDesc key l).Pairwise fun a b => key b ≤ key a :=
  pairwise_sortedBy (fun a => OrderDual.toDual (key a)) l

variable {key} in
/-- The first element of a descending order is the first of the largest. -/
theorem sortedByDesc_eq_cons {l rest : List α} {a : α} (h : sortedByDesc key l = a :: rest) :
    ∃ pre post, l = pre ++ a :: post ∧ (∀ b ∈ pre, key b < key a) ∧ ∀ b ∈ l, key b ≤ key a := by
  induction l generalizing a rest with
  | nil => cases h
  | cons b l ih =>
    have hmax : ∀ c ∈ b :: l, key c ≤ key a := by
      have hpairwise := pairwise_sortedByDesc key (b :: l)
      rw [h, List.pairwise_cons] at hpairwise
      intro c hc
      rw [← (sortedByDesc_perm key (b :: l)).mem_iff, h] at hc
      obtain rfl | hc := List.mem_cons.mp hc
      · exact le_rfl
      · exact hpairwise.1 c hc
    have hinsert : sortedByDesc key (b :: l) =
        (sortedByDesc key l).orderedInsert (fun a c => key c ≤ key a) b := rfl
    cases hl : sortedByDesc key l with
    | nil =>
      rw [hinsert, hl, List.orderedInsert_nil] at h
      cases h
      have hnil : l = [] := List.perm_nil.mp (hl ▸ sortedByDesc_perm key l).symm
      exact ⟨[], l, rfl, fun _ hb => (nomatch hb), hmax⟩
    | cons c rest' =>
      rw [hinsert, hl, List.orderedInsert_cons] at h
      obtain ⟨pre, post, hsplit, hpre, -⟩ := ih hl
      split at h
      · cases h
        exact ⟨[], l, rfl, fun _ hb => (nomatch hb), hmax⟩
      · next hlt =>
        cases h
        refine ⟨b :: pre, post, by rw [hsplit]; rfl, fun d hd => ?_, hmax⟩
        obtain rfl | hd := List.mem_cons.mp hd
        · exact not_le.mp hlt
        · exact hpre d hd

variable {key} in
theorem sortedBy_eq_self {l : List α} (h : l.Pairwise fun a b => key a ≤ key b) :
    sortedBy key l = l := List.Pairwise.insertionSort_eq h

end

section

variable [DecidableEq κ] (key : α → κ)

/-- One more element in front of the runs. -/
def consRun (a : α) : List (κ × List α) → List (κ × List α)
  | [] => [(key a, [a])]
  | (k, run) :: runs => if key a = k then (k, a :: run) :: runs else (key a, [a]) :: (k, run) :: runs

/-- `itertools.groupby(l, key=key)`. -/
def groupby (l : List α) : List (κ × List α) := l.foldr (consRun key) []

variable {key}

theorem flatMap_consRun (a : α) (runs : List (κ × List α)) :
    (consRun key a runs).flatMap Prod.snd = a :: runs.flatMap Prod.snd := by
  cases runs with
  | nil => rfl
  | cons run runs =>
    obtain ⟨k, run⟩ := run
    rw [consRun]
    split <;> rfl

theorem flatMap_groupby (l : List α) : (groupby key l).flatMap Prod.snd = l := by
  induction l with
  | nil => rfl
  | cons a l ih => exact (flatMap_consRun a _).trans (congrArg (a :: ·) ih)

/-- A run is not empty and has one key. -/
theorem run_of_mem_groupby {l : List α} {k : κ} {run : List α} (h : (k, run) ∈ groupby key l) :
    run ≠ [] ∧ ∀ a ∈ run, key a = k := by
  induction l generalizing k run with
  | nil => cases h
  | cons a l ih =>
    change (k, run) ∈ consRun key a (groupby key l) at h
    cases hg : groupby key l with
    | nil =>
      rw [hg, consRun, List.mem_singleton] at h
      cases h
      exact ⟨List.cons_ne_nil _ _, fun b hb => List.mem_singleton.mp hb ▸ rfl⟩
    | cons first runs =>
      obtain ⟨k₀, run₀⟩ := first
      rw [hg] at ih h
      rw [consRun] at h
      split at h
      · case isTrue hk =>
        rcases List.mem_cons.mp h with h | h
        · cases h
          refine ⟨List.cons_ne_nil _ _, fun b hb => ?_⟩
          rcases List.mem_cons.mp hb with rfl | hb
          · exact hk
          · exact (ih List.mem_cons_self).2 b hb
        · exact ih (List.mem_cons_of_mem _ h)
      · rcases List.mem_cons.mp h with h | h
        · cases h
          exact ⟨List.cons_ne_nil _ _, fun b hb => List.mem_singleton.mp hb ▸ rfl⟩
        · exact ih h

/-- What is made of each element and the key of its run. -/
theorem flatMap_groupby_map {β : Type} (f : κ → α → β) (l : List α) :
    (groupby key l).flatMap (fun g => g.2.map (f g.1)) = l.map fun a => f (key a) a := by
  have hrun : (groupby key l).flatMap (fun g => g.2.map (f g.1)) =
      (groupby key l).flatMap fun g => g.2.map fun a => f (key a) a := by
    refine List.flatMap_congr fun g hg => List.map_congr_left fun a ha => ?_
    rw [(run_of_mem_groupby hg).2 a ha]
  rw [hrun, ← List.map_flatMap, flatMap_groupby]

end

section

variable [LinearOrder κ] {key : α → κ}

/-- The runs of a list in the order of the keys come in the order of the keys, each key once. -/
theorem groupby_pairwise_lt {l : List α} (h : l.Pairwise fun a b => key a ≤ key b) :
    (groupby key l).Pairwise fun p q => p.1 < q.1 := by
  induction l with
  | nil => exact List.Pairwise.nil
  | cons a l ih =>
    obtain ⟨ha, hl⟩ := List.pairwise_cons.mp h
    have hle : ∀ p ∈ groupby key l, key a ≤ p.1 := by
      intro p hp
      obtain ⟨hne, hkey⟩ := run_of_mem_groupby hp
      obtain ⟨b, hb⟩ := List.exists_mem_of_ne_nil _ hne
      have hmem : b ∈ (groupby key l).flatMap Prod.snd := List.mem_flatMap.mpr ⟨p, hp, hb⟩
      rw [flatMap_groupby] at hmem
      rw [← hkey b hb]
      exact ha b hmem
    have ih := ih hl
    change (consRun key a (groupby key l)).Pairwise _
    cases hg : groupby key l with
    | nil => exact List.pairwise_singleton _ _
    | cons first runs =>
      obtain ⟨k, run⟩ := first
      rw [hg] at ih hle
      obtain ⟨hfirst, hruns⟩ := List.pairwise_cons.mp ih
      rw [consRun]
      split
      · exact List.pairwise_cons.mpr ⟨hfirst, hruns⟩
      · case isFalse hne =>
        have hlt : key a < k := lt_of_le_of_ne (hle _ List.mem_cons_self) hne
        refine List.pairwise_cons.mpr ⟨fun p hp => ?_, ih⟩
        rcases List.mem_cons.mp hp with rfl | hp
        · exact hlt
        · exact hlt.trans (hfirst p hp)

theorem sortedBy_map {β : Type} (f : β → α) (l : List β) :
    sortedBy key (l.map f) = (sortedBy (fun b => key (f b)) l).map f :=
  (List.map_insertionSort (fun a b => key (f a) ≤ key (f b)) (fun a b => key a ≤ key b) f l
    fun _ _ _ _ => Iff.rfl).symm

theorem groupby_map {β : Type} (f : β → α) (l : List β) :
    groupby key (l.map f) = (groupby (fun b => key (f b)) l).map fun g => (g.1, g.2.map f) := by
  induction l with
  | nil => rfl
  | cons b l ih =>
    change consRun key (f b) (groupby key (l.map f)) =
      (consRun (fun b => key (f b)) b (groupby (fun b => key (f b)) l)).map _
    rw [ih]
    cases groupby (fun b => key (f b)) l with
    | nil => rfl
    | cons run runs =>
      obtain ⟨k, run⟩ := run
      rw [List.map_cons, consRun, consRun]
      split <;> rfl

theorem mem_keys_groupby {l : List α} {k : κ} :
    k ∈ (groupby key l).map Prod.fst ↔ k ∈ l.map key := by
  have hflat : (groupby key l).flatMap Prod.snd = l := flatMap_groupby l
  constructor
  · intro hk
    obtain ⟨⟨k', run⟩, hrun, rfl⟩ := List.mem_map.mp hk
    obtain ⟨hne, hkey⟩ := run_of_mem_groupby hrun
    obtain ⟨a, ha⟩ := List.exists_mem_of_ne_nil _ hne
    refine List.mem_map.mpr ⟨a, ?_, hkey a ha⟩
    rw [← hflat]
    exact List.mem_flatMap.mpr ⟨_, hrun, ha⟩
  · intro hk
    obtain ⟨a, ha, rfl⟩ := List.mem_map.mp hk
    rw [← hflat] at ha
    obtain ⟨⟨k, run⟩, hrun, ha⟩ := List.mem_flatMap.mp ha
    exact List.mem_map.mpr ⟨_, hrun, ((run_of_mem_groupby hrun).2 a ha).symm⟩

theorem groupby_sortedBy_nodup (l : List α) :
    ((groupby key (sortedBy key l)).map Prod.fst).Nodup :=
  List.pairwise_map.mpr
    ((groupby_pairwise_lt (pairwise_sortedBy key l)).imp fun hlt => ne_of_lt hlt)

/-- After sorting there are as many runs as keys. -/
theorem length_groupby_sortedBy (l : List α) :
    (groupby key (sortedBy key l)).length = (l.map key).toFinset.card := by
  have hnodup : ((groupby key (sortedBy key l)).map Prod.fst).Nodup := groupby_sortedBy_nodup l
  rw [← List.length_map (f := Prod.fst), ← List.toFinset_card_of_nodup hnodup]
  congr 1
  ext k
  rw [List.mem_toFinset, List.mem_toFinset, mem_keys_groupby,
    ((sortedBy_perm key l).map key).mem_iff]

end

end Py
