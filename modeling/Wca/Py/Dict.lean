import Wca.Py.Exec
import Wca.Py.Num
import Mathlib.Data.List.Nodup

/-!
# Dictionaries in insertion order

`Dict K V` is an association list without repeated keys. Iteration is in the order of insertion, and
assigning to a key that is present keeps its place. The structure carries the uniqueness of its
keys, so a lookup is membership of the pair in the items (`get?_eq_some_iff`).
-/

namespace Py

/-- A finite map with the order in which its keys were first inserted. -/
structure Dict (K V : Type) where
  items : List (K × V)
  nodup : (items.map Prod.fst).Nodup

namespace Dict

variable {K V W : Type}

@[ext] theorem ext {d d' : Dict K V} (h : d.items = d'.items) : d = d' := by
  cases d; cases d'; cases h; rfl

def keys (d : Dict K V) : List K := d.items.map Prod.fst

def values (d : Dict K V) : List V := d.items.map Prod.snd

def len (d : Dict K V) : Nat := d.items.length

instance : EmptyCollection (Dict K V) := ⟨⟨[], List.nodup_nil⟩⟩

@[simp] theorem items_empty : (∅ : Dict K V).items = [] := rfl

@[simp] theorem keys_empty : (∅ : Dict K V).keys = [] := rfl

instance [DecidableEq K] [DecidableEq V] : DecidableEq (Dict K V) := fun d d' =>
  decidable_of_iff (d.items = d'.items) ⟨ext, fun h => h ▸ rfl⟩

theorem mem_keys {d : Dict K V} {k : K} : k ∈ d.keys ↔ ∃ v, (k, v) ∈ d.items := by
  simp [keys]

theorem mem_values {d : Dict K V} {v : V} : v ∈ d.values ↔ ∃ k, (k, v) ∈ d.items := by
  simp [values]

theorem eq_of_mem_items {d : Dict K V} {k : K} {v w : V} (hv : (k, v) ∈ d.items)
    (hw : (k, w) ∈ d.items) : v = w := by
  have h : (k, v) = (k, w) := List.inj_on_of_nodup_map d.nodup hv hw rfl
  exact (Prod.mk.inj h).2

variable [DecidableEq K]

/-! ## Lookup -/

/-- `d.get(k)`: the value at `k`, if any. -/
def get? (d : Dict K V) (k : K) : Option V := (d.items.find? (·.1 = k)).map Prod.snd

theorem get?_eq_some_iff {d : Dict K V} {k : K} {v : V} :
    d.get? k = some v ↔ (k, v) ∈ d.items := by
  unfold get?
  rw [Option.map_eq_some_iff]
  constructor
  · rintro ⟨⟨k', v'⟩, h, rfl⟩
    have hk : k' = k := by simpa using List.find?_some h
    exact hk ▸ List.mem_of_find?_eq_some h
  · intro h
    cases hf : d.items.find? (·.1 = k) with
    | none => simpa using List.find?_eq_none.mp hf _ h
    | some p =>
      obtain ⟨k', v'⟩ := p
      have hk : k' = k := by simpa using List.find?_some hf
      subst hk
      exact ⟨_, rfl, eq_of_mem_items (List.mem_of_find?_eq_some hf) h⟩

theorem get?_eq_none_iff {d : Dict K V} {k : K} : d.get? k = none ↔ k ∉ d.keys := by
  rw [mem_keys, Option.eq_none_iff_forall_ne_some]
  simp only [ne_eq, get?_eq_some_iff, not_exists]

theorem mem_keys_iff_get? {d : Dict K V} {k : K} : k ∈ d.keys ↔ ∃ v, d.get? k = some v := by
  simp only [mem_keys, get?_eq_some_iff]

@[simp] theorem get?_empty (k : K) : (∅ : Dict K V).get? k = none := rfl

/-- `d[k]`. -/
def item (d : Dict K V) (k : K) : Except Exn V :=
  match d.get? k with
  | some v => .ok v
  | none => .error .KeyError

theorem item_ok_iff {d : Dict K V} {k : K} {v : V} : d.item k = .ok v ↔ d.get? k = some v := by
  unfold item
  cases d.get? k <;> simp

instance : Membership K (Dict K V) := ⟨fun d k => k ∈ d.keys⟩

omit [DecidableEq K] in
theorem mem_def {d : Dict K V} {k : K} : k ∈ d ↔ k ∈ d.keys := Iff.rfl

instance (k : K) (d : Dict K V) : Decidable (k ∈ d) := inferInstanceAs (Decidable (k ∈ d.keys))

/-! ## Assignment and deletion -/

private theorem replace_keys (l : List (K × V)) (k : K) (v : V) :
    (l.map fun p => if p.1 = k then (k, v) else p).map Prod.fst = l.map Prod.fst := by
  rw [List.map_map]
  refine List.map_congr_left fun p _ => ?_
  by_cases h : p.1 = k <;> simp [h]

/-- `d[k] = v`. -/
def set (d : Dict K V) (k : K) (v : V) : Dict K V :=
  if h : k ∈ d.keys then
    ⟨d.items.map fun p => if p.1 = k then (k, v) else p, by rw [replace_keys]; exact d.nodup⟩
  else
    ⟨d.items ++ [(k, v)], by
      rw [List.map_append, List.nodup_append]
      refine ⟨d.nodup, List.nodup_singleton _, fun a ha b hb hab => h ?_⟩
      simp only [List.map_cons, List.map_nil, List.mem_singleton] at hb
      exact hb ▸ hab ▸ ha⟩

theorem items_set_of_not_mem {d : Dict K V} {k : K} {v : V} (h : k ∉ d.keys) :
    (d.set k v).items = d.items ++ [(k, v)] := by
  unfold set
  rw [dif_neg h]

theorem values_set_of_not_mem {d : Dict K V} {k : K} {v : V} (h : k ∉ d.keys) :
    (d.set k v).values = d.values ++ [v] := by
  rw [values, items_set_of_not_mem h, List.map_append, List.map_singleton, values]

/-- Where no value is there twice, a value has one key. -/
theorem eq_of_get?_of_nodup_values {d : Dict K V} (h : d.values.Nodup) {k k' : K} {v : V}
    (hk : d.get? k = some v) (hk' : d.get? k' = some v) : k = k' := by
  have heq := List.inj_on_of_nodup_map h (get?_eq_some_iff.mp hk) (get?_eq_some_iff.mp hk') rfl
  exact congrArg Prod.fst heq

theorem items_set_of_mem {d : Dict K V} {k : K} {v : V} (h : k ∈ d.keys) :
    (d.set k v).items = d.items.map fun p => if p.1 = k then (k, v) else p := by
  unfold set
  rw [dif_pos h]

theorem keys_set_of_mem {d : Dict K V} {k : K} {v : V} (h : k ∈ d.keys) :
    (d.set k v).keys = d.keys := by
  rw [keys, keys, items_set_of_mem h, replace_keys]

theorem mem_items_set {d : Dict K V} {k k' : K} {v v' : V} :
    (k', v') ∈ (d.set k v).items ↔ (k' = k ∧ v' = v) ∨ (k' ≠ k ∧ (k', v') ∈ d.items) := by
  by_cases h : k ∈ d.keys
  · rw [items_set_of_mem h, List.mem_map]
    constructor
    · rintro ⟨⟨k₁, v₁⟩, hm, he⟩
      by_cases hk : k₁ = k
      · simp only [hk, if_true, Prod.mk.injEq] at he
        exact .inl ⟨he.1.symm, he.2.symm⟩
      · simp only [hk, if_false, Prod.mk.injEq] at he
        obtain ⟨rfl, rfl⟩ := he
        exact .inr ⟨hk, hm⟩
    · rintro (⟨rfl, rfl⟩ | ⟨hk, hm⟩)
      · obtain ⟨w, hw⟩ := mem_keys.mp h
        exact ⟨_, hw, by simp⟩
      · exact ⟨_, hm, by simp [hk]⟩
  · rw [items_set_of_not_mem h, List.mem_append, List.mem_singleton, Prod.mk.injEq]
    constructor
    · rintro (hm | hm)
      · exact .inr ⟨fun hk => h (hk ▸ mem_keys.mpr ⟨_, hm⟩), hm⟩
      · exact .inl hm
    · rintro (hm | ⟨_, hm⟩)
      · exact .inr hm
      · exact .inl hm

theorem get?_set {d : Dict K V} {k k' : K} {v : V} :
    (d.set k v).get? k' = if k' = k then some v else d.get? k' := by
  refine Option.ext fun w => ?_
  rw [get?_eq_some_iff, mem_items_set]
  by_cases h : k' = k
  · simp [h, eq_comm]
  · simp [h, get?_eq_some_iff]

@[simp] theorem get?_set_self {d : Dict K V} {k : K} {v : V} : (d.set k v).get? k = some v := by
  rw [get?_set, if_pos rfl]

theorem get?_set_of_ne {d : Dict K V} {k k' : K} {v : V} (h : k' ≠ k) :
    (d.set k v).get? k' = d.get? k' := by
  rw [get?_set, if_neg h]

/-- Nothing changes where the value is there already. -/
theorem set_of_get? {d : Dict K V} {k : K} {v : V} (h : d.get? k = some v) : d.set k v = d := by
  have hmem := get?_eq_some_iff.mp h
  refine Dict.ext ?_
  rw [items_set_of_mem (mem_keys.mpr ⟨v, hmem⟩)]
  refine (List.map_congr_left fun p hp => ?_).trans (List.map_id _)
  split
  · next he =>
    have hp : (k, p.2) ∈ d.items := he ▸ hp
    exact Prod.ext he.symm (eq_of_mem_items hmem hp)
  · rfl

theorem mem_keys_set {d : Dict K V} {k k' : K} {v : V} :
    k' ∈ (d.set k v).keys ↔ k' = k ∨ k' ∈ d.keys := by
  rw [mem_keys_iff_get?, get?_set, mem_keys_iff_get?]
  by_cases h : k' = k <;> simp [h]

/-- `del d[k]`. -/
def erase (d : Dict K V) (k : K) : Dict K V :=
  ⟨d.items.filter (·.1 ≠ k), d.nodup.sublist (List.filter_sublist.map _)⟩

theorem mem_items_erase {d : Dict K V} {k k' : K} {v : V} :
    (k', v) ∈ (d.erase k).items ↔ k' ≠ k ∧ (k', v) ∈ d.items := by
  simp [erase, and_comm]

theorem get?_erase {d : Dict K V} {k k' : K} :
    (d.erase k).get? k' = if k' = k then none else d.get? k' := by
  refine Option.ext fun w => ?_
  rw [get?_eq_some_iff, mem_items_erase]
  by_cases h : k' = k <;> simp [h, get?_eq_some_iff]

private theorem nodup_cons_erase {d : Dict K V} {k : K} {v : V} :
    ((k, v) :: (d.erase k).items).Nodup :=
  List.nodup_cons.mpr ⟨fun h => (mem_items_erase.mp h).1 rfl, .of_map _ (d.erase k).nodup⟩

/-- Assigning to a key puts the item beside those left when the key is deleted. -/
theorem perm_items_set {d : Dict K V} {k : K} {v : V} :
    (d.set k v).items.Perm ((k, v) :: (d.erase k).items) := by
  refine (List.perm_ext_iff_of_nodup (.of_map _ (d.set k v).nodup) nodup_cons_erase).mpr fun p => ?_
  rw [mem_items_set, List.mem_cons, mem_items_erase, Prod.ext_iff]

theorem perm_items_of_get? {d : Dict K V} {k : K} {v : V} (h : d.get? k = some v) :
    d.items.Perm ((k, v) :: (d.erase k).items) := by
  refine (List.perm_ext_iff_of_nodup (.of_map _ d.nodup) nodup_cons_erase).mpr fun p => ?_
  rw [List.mem_cons, mem_items_erase, ← get?_eq_some_iff, Prod.ext_iff]
  by_cases hk : p.1 = k
  · rw [hk, h, Option.some.injEq, eq_comm (a := v)]
    exact ⟨fun hv => .inl ⟨rfl, hv⟩, fun hv => hv.elim And.right fun hn => absurd rfl hn.1⟩
  · exact ⟨fun hm => .inr ⟨hk, hm⟩, fun hm => hm.elim (fun he => absurd he.1 hk) And.right⟩

/-- A dictionary display: later items win. -/
def ofItems (l : List (K × V)) : Dict K V := l.foldl (fun d p => d.set p.1 p.2) ∅

/-- `d.update(d')`. -/
def update (d d' : Dict K V) : Dict K V := d'.items.foldl (fun d p => d.set p.1 p.2) d

omit [DecidableEq K] in
/-- The items that are left of a dictionary have keys of their own. -/
theorem nodup_of_items_append {d : Dict K V} {pre post : List (K × V)} {k : K} {v : V}
    (h : d.items = pre ++ (k, v) :: post) :
    k ∉ pre.map Prod.fst ∧ k ∉ post.map Prod.fst := by
  have hnd := d.nodup
  rw [h, List.map_append, List.map_cons, List.nodup_append, List.nodup_cons] at hnd
  refine ⟨fun hk => hnd.2.2 _ hk _ List.mem_cons_self rfl, hnd.2.1.1⟩

/-- A loop over the items that changes, for every key, only what `s` reads there. -/
theorem foldl_items {A S : Type} {s : A → K → S} {g : S → V → S} {f : A → K × V → A}
    (hf : ∀ a p k, s (f a p) k = if k = p.1 then g (s a k) p.2 else s a k)
    (d : Dict K V) (a : A) (k : K) :
    s (d.items.foldl f a) k = (d.get? k).elim (s a k) (g (s a k)) := by
  obtain ⟨items, hnodup⟩ := d
  rw [get?]
  simp only
  induction items generalizing a with
  | nil => rfl
  | cons p items ih =>
    obtain ⟨hp, hnodup⟩ := List.nodup_cons.mp hnodup
    rw [List.foldl_cons, ih _ hnodup, hf]
    by_cases hk : k = p.1
    · have hnone : items.find? (·.1 = k) = none := by
        refine List.find?_eq_none.mpr fun q hq hqk => hp ?_
        rw [← hk, ← of_decide_eq_true hqk]
        exact List.mem_map_of_mem hq
      rw [hnone, List.find?_cons_of_pos (by simp [hk]), if_pos hk]
      rfl
    · rw [List.find?_cons_of_neg (by simpa using Ne.symm hk), if_neg hk]

theorem get?_update {d d' : Dict K V} {k : K} :
    (d.update d').get? k = (d'.get? k).or (d.get? k) := by
  have hset : ∀ (e : Dict K V) (p : K × V) (k : K),
      (e.set p.1 p.2).get? k = if k = p.1 then some p.2 else e.get? k := fun _ _ _ => get?_set
  rw [update, foldl_items (A := Dict K V) (g := fun _ v => some v) hset]
  cases d'.get? k <;> rfl

/-- An assignment keeps the order of the keys; a new key is the last one. -/
theorem keys_prefix_set (d : Dict K V) (k : K) (v : V) : d.keys <+: (d.set k v).keys := by
  by_cases h : k ∈ d.keys
  · rw [keys_set_of_mem h]
  · rw [keys, keys, items_set_of_not_mem h, List.map_append]
    exact List.prefix_append _ _

theorem keys_prefix_update (d d' : Dict K V) : d.keys <+: (d.update d').keys := by
  suffices h : ∀ (l : List (K × V)) (d : Dict K V),
      d.keys <+: (l.foldl (fun d p => d.set p.1 p.2) d).keys from h d'.items d
  intro l
  induction l with
  | nil => exact fun d => List.prefix_refl d.keys
  | cons p l ih => exact fun d => (keys_prefix_set d p.1 p.2).trans (ih _)

/-! ## Comprehensions -/

theorem mem_keys_update {d d' : Dict K V} {k : K} :
    k ∈ (d.update d').keys ↔ k ∈ d.keys ∨ k ∈ d'.keys := by
  simp only [mem_keys_iff_get?, get?_update]
  cases d'.get? k with
  | none => simp
  | some v => simp

/-- What assigning to a key changes in a sum over the items. -/
theorem sum_items_set (g : K → V → ℚ) (d : Dict K V)
    (k : K) (v : V) :
    ((d.set k v).items.map fun p => g p.1 p.2).sum =
      (d.items.map fun p => g p.1 p.2).sum - (d.get? k).elim 0 (g k) + g k v := by
  by_cases hk : k ∈ d.keys
  · obtain ⟨w, hw⟩ := mem_keys.mp hk
    have hget := get?_eq_some_iff.mpr hw
    rw [items_set_of_mem hk, hget, Option.elim_some]
    obtain ⟨pre, post, hl⟩ := List.append_of_mem hw
    have hnd := d.nodup
    have hother : ∀ p ∈ pre ++ post, p.1 ≠ k := by
      intro p hp he
      rw [hl, List.map_append, List.map_cons] at hnd
      have hnd' := List.nodup_middle.mp hnd
      rw [List.nodup_cons, ← List.map_append] at hnd'
      exact hnd'.1 (List.mem_map.mpr ⟨p, hp, he⟩)
    have hkeep : ∀ l : List (K × V), (∀ p ∈ l, p.1 ≠ k) →
        l.map (fun p => if p.1 = k then (k, v) else p) = l := by
      intro l h
      refine (List.map_congr_left fun p hp => if_neg (h p hp)).trans (List.map_id' l)
    rw [hl, List.map_append, List.map_cons,
      hkeep pre fun p hp => hother p (List.mem_append_left _ hp),
      hkeep post fun p hp => hother p (List.mem_append_right _ hp)]
    simp only [if_true, List.map_append, List.map_cons, List.sum_append, List.sum_cons]
    ring
  · rw [items_set_of_not_mem hk, get?_eq_none_iff.mpr hk, Option.elim_none]
    simp only [List.map_append, List.map_cons, List.map_nil, List.sum_append, List.sum_cons,
      List.sum_nil]
    ring

/-- A sum over the items that counts one key only. -/
theorem sum_items_pick (g : V → ℚ) (d : Dict K V) (k : K) :
    (d.items.map fun p => if k = p.1 then g p.2 else 0).sum = (d.get? k).elim 0 g := by
  cases h : d.get? k with
  | none =>
    refine List.sum_eq_zero fun x hx => ?_
    obtain ⟨p, hp, rfl⟩ := List.mem_map.mp hx
    refine if_neg fun he => get?_eq_none_iff.mp h ?_
    exact he ▸ mem_keys.mpr ⟨p.2, hp⟩
  | some v =>
    rw [((perm_items_of_get? h).map _).sum_eq, List.map_cons, List.sum_cons, if_pos rfl,
      Option.elim_some, add_eq_left]
    refine List.sum_eq_zero fun x hx => ?_
    obtain ⟨p, hp, rfl⟩ := List.mem_map.mp hx
    exact if_neg fun he => (mem_items_erase.mp hp).1 he.symm

theorem mem_keys_ofItems {l : List (K × V)} {k : K} : k ∈ (ofItems l).keys ↔ ∃ v, (k, v) ∈ l := by
  suffices hgo : ∀ (l : List (K × V)) (d : Dict K V),
      k ∈ (l.foldl (fun d p => d.set p.1 p.2) d).keys ↔ k ∈ d.keys ∨ ∃ v, (k, v) ∈ l by
    refine (hgo l ∅).trans (or_iff_right ?_)
    exact fun h => (nomatch h)
  intro l
  induction l with
  | nil => simp
  | cons p l ih =>
    intro d
    rw [List.foldl_cons, ih, mem_keys_set]
    constructor
    · rintro ((rfl | h) | ⟨v, h⟩)
      · exact .inr ⟨p.2, List.mem_cons_self⟩
      · exact .inl h
      · exact .inr ⟨v, List.mem_cons_of_mem _ h⟩
    · rintro (h | ⟨v, h⟩)
      · exact .inl (.inr h)
      · rcases List.mem_cons.mp h with he | h
        · exact .inl (.inl (congrArg Prod.fst he))
        · exact .inr ⟨v, h⟩

/-- Items of different keys are the items. -/
theorem items_ofItems {l : List (K × V)} (h : (l.map Prod.fst).Nodup) : (ofItems l).items = l := by
  suffices hgo : ∀ (l : List (K × V)) (d : Dict K V), (l.map Prod.fst).Nodup →
      (∀ p ∈ l, p.1 ∉ d.keys) →
        (l.foldl (fun d p => d.set p.1 p.2) d).items = d.items ++ l from
    hgo l ∅ h fun p _ hp => (nomatch hp)
  intro l
  induction l with
  | nil => exact fun d _ _ => (List.append_nil _).symm
  | cons p l ih =>
    intro d hnodup hfresh
    rw [List.map_cons, List.nodup_cons] at hnodup
    have hset := items_set_of_not_mem (v := p.2) (hfresh p List.mem_cons_self)
    rw [List.foldl_cons, ih _ hnodup.2, hset, List.append_assoc]
    · rfl
    · intro q hq hmem
      obtain he | hmem := mem_keys_set.mp hmem
      · exact hnodup.1 (List.mem_map.mpr ⟨q, hq, he⟩)
      · exact hfresh q (List.mem_cons_of_mem _ hq) hmem

/-- The values of a dictionary are among those it was made of. -/
theorem mem_of_get?_ofItems {l : List (K × V)} {k : K} {v : V}
    (h : (ofItems l).get? k = some v) : (k, v) ∈ l := by
  suffices hgo : ∀ (l : List (K × V)) (d : Dict K V),
      (l.foldl (fun d p => d.set p.1 p.2) d).get? k = some v → d.get? k = some v ∨ (k, v) ∈ l by
    rcases hgo l ∅ h with h | h
    · cases h
    · exact h
  intro l
  induction l with
  | nil => exact fun d h => .inl h
  | cons p l ih =>
    intro d h
    rw [List.foldl_cons] at h
    rcases ih _ h with h | h
    · rw [get?_set] at h
      split at h
      · next he =>
        cases h
        exact .inr (List.mem_cons.mpr (.inl (by rw [he])))
      · exact .inl h
    · exact .inr (List.mem_cons_of_mem _ h)

/-- The values replaced one by one, keys and order kept. -/
def map (f : K → V → W) (d : Dict K V) : Dict K W :=
  ⟨d.items.map fun p => (p.1, f p.1 p.2), by
    rw [List.map_map]
    exact d.nodup⟩

omit [DecidableEq K] in
@[simp] theorem items_map {f : K → V → W} {d : Dict K V} :
    (d.map f).items = d.items.map fun p => (p.1, f p.1 p.2) := rfl

theorem get?_map {f : K → V → W} {d : Dict K V} {k : K} :
    (d.map f).get? k = (d.get? k).map (f k) := by
  refine Option.ext fun w => ?_
  rw [get?_eq_some_iff, items_map, List.mem_map, Option.map_eq_some_iff]
  constructor
  · rintro ⟨⟨k', v⟩, hm, he⟩
    cases he
    exact ⟨v, get?_eq_some_iff.mpr hm, rfl⟩
  · rintro ⟨v, hv, rfl⟩
    exact ⟨_, get?_eq_some_iff.mp hv, rfl⟩

/-- An assignment that a function of the values does not see. -/
theorem map_set_of_get? {f : K → V → W} {d : Dict K V} {k : K} {v w : V} (h : d.get? k = some w)
    (hf : f k v = f k w) : (d.set k v).map f = d.map f := by
  refine ext ?_
  rw [items_map, items_set_of_mem (mem_keys_iff_get?.mpr ⟨w, h⟩), items_map, List.map_map]
  refine List.map_congr_left fun p hp => ?_
  dsimp only [Function.comp_apply]
  split
  · case isTrue he =>
    obtain ⟨k', w'⟩ := p
    cases he
    rw [get?_eq_some_iff.mpr hp, Option.some.injEq] at h
    rw [hf, h]
  · rfl

/-- The loop `for k, v in d.items(): r[k] = f(k, v)` over a fresh dictionary `r`. -/
def comprehendM {m : Type → Type} [Monad m] (d : Dict K V) (f : K → V → m W) : m (Dict K W) :=
  d.items.foldlM (fun r p => do let w ← f p.1 p.2; pure (r.set p.1 w)) ∅

/-- The rule of such a loop: an invariant over the items gone through and the dictionary so far,
which has the keys of these items. -/
theorem wp_comprehendM {ε σ : Type} {d : Dict K V} {f : K → V → EStateM ε σ W}
    {I : List (K × V) → Dict K W → σ → Prop} {E : ε → σ → Prop} {s : σ} (h0 : I [] ∅ s)
    (hstep : ∀ pre k v post r t, d.items = pre ++ (k, v) :: post → r.keys = pre.map Prod.fst →
      I pre r t → wp (f k v) (fun w t' => I (pre ++ [(k, v)]) (r.set k w) t') E t) :
    wp (d.comprehendM f) (fun r t => r.keys = d.keys ∧ I d.items r t) E s := by
  suffices h : ∀ (post pre : List (K × V)) (r : Dict K W) (t : σ), d.items = pre ++ post →
      r.keys = pre.map Prod.fst → I pre r t →
      wp (post.foldlM (fun r p => do let w ← f p.1 p.2; pure (r.set p.1 w)) r)
        (fun r t => r.keys = d.keys ∧ I d.items r t) E t from h d.items [] ∅ s rfl rfl h0
  intro post
  induction post with
  | nil =>
    intro pre r t hl hk hI
    rw [List.append_nil] at hl
    rw [keys, hl]
    exact ⟨hk, hI⟩
  | cons p post ih =>
    intro pre r t hl hk hI
    rw [List.foldlM_cons, wp_bind, wp_bind]
    refine (hstep pre p.1 p.2 post r t hl hk hI).mono (fun w t' hI' => ?_) (fun _ _ h => h)
    refine ih (pre ++ [p]) (r.set p.1 w) t' (by rw [hl]; simp) ?_ hI'
    have hfresh : p.1 ∉ r.keys := hk ▸ (nodup_of_items_append hl).1
    rw [keys, items_set_of_not_mem hfresh, List.map_append, ← keys, hk]
    simp

/-- Such a loop without a state collects the items of the dictionary it makes. -/
theorem comprehendM_items {ε : Type} (d : Dict K V) (f : K → V → Except ε W) :
    (d.comprehendM f).map items = d.items.mapM fun p => (f p.1 p.2).map (Prod.mk p.1) := by
  suffices hl : ∀ (l : List (K × V)) (acc : Dict K W), (l.map Prod.fst).Nodup →
      (∀ p ∈ l, p.1 ∉ acc.keys) →
      (l.foldlM (fun (r : Dict K W) (p : K × V) => do
          let w ← f p.1 p.2
          pure (r.set p.1 w)) acc).map items =
        (l.mapM fun p : K × V => (f p.1 p.2).map (Prod.mk p.1)).map (acc.items ++ ·) by
    refine (hl d.items ∅ d.nodup fun p _ hp => (nomatch hp)).trans ?_
    cases d.items.mapM fun p : K × V => (f p.1 p.2).map (Prod.mk p.1) <;> rfl
  intro l
  induction l with
  | nil =>
    intro acc _ _
    exact congrArg Except.ok (List.append_nil _).symm
  | cons p l ih =>
    intro acc hnd hfresh
    rw [List.map_cons, List.nodup_cons] at hnd
    rw [List.foldlM_cons, List.mapM_cons]
    cases hw : f p.1 p.2 with
    | error e => rfl
    | ok w =>
      have hset := items_set_of_not_mem (v := w) (hfresh p List.mem_cons_self)
      refine (ih (acc.set p.1 w) hnd.2 fun q hq hmem => ?_).trans ?_
      · rcases mem_keys_set.mp hmem with he | hmem
        · exact hnd.1 (List.mem_map.mpr ⟨q, hq, he⟩)
        · exact hfresh q (List.mem_cons_of_mem _ hq) hmem
      · rw [hset]
        cases l.mapM fun p : K × V => (f p.1 p.2).map (Prod.mk p.1) with
        | error e => rfl
        | ok r => exact congrArg Except.ok (List.append_assoc _ _ _)

/-- Such a loop goes on and stops as the one that drops what it makes. -/
theorem comprehendM_drop {ε : Type} (d : Dict K V) (f : K → V → Except ε W) :
    (d.comprehendM f).map (fun _ => ()) =
      forM d.items fun p => (f p.1 p.2).map fun _ => () := by
  have h : ((d.comprehendM f).map items).map (fun _ => ()) =
      (d.items.mapM fun p => (f p.1 p.2).map (Prod.mk p.1)).map fun _ => () := by
    rw [comprehendM_items]
  simpa only [except_mapM_drop, except_map_map] using h

theorem comprehendM_ok_iff {ε : Type} {d : Dict K V} {f : K → V → Except ε W} {r : Dict K W} :
    d.comprehendM f = .ok r ↔
      List.Forall₂ (fun p q => f p.1 p.2 = .ok q.2 ∧ q.1 = p.1) d.items r.items := by
  have hentry : ∀ (p : K × V) (q : K × W),
      (f p.1 p.2).map (Prod.mk p.1) = .ok q ↔ f p.1 p.2 = .ok q.2 ∧ q.1 = p.1 := by
    rintro p ⟨k, w⟩
    cases f p.1 p.2 with
    | error e => simp [Except.map]
    | ok w' => simp [Except.map, and_comm, eq_comm]
  have hitems : d.comprehendM f = .ok r ↔ (d.comprehendM f).map items = .ok r.items := by
    cases d.comprehendM f with
    | error e => simp [Except.map]
    | ok r' => simp [Except.map, Dict.ext_iff]
  rw [hitems, comprehendM_items, except_mapM_ok_iff]
  simp only [hentry]

/-- Such a loop without a state gives every key the value of the body. -/
theorem comprehendM_ok {ε : Type} {d : Dict K V} {f : K → V → Except ε W} {r : Dict K W}
    (h : d.comprehendM f = .ok r) : r.keys = d.keys ∧
      ∀ k v, (k, v) ∈ d.items → ∃ w, f k v = .ok w ∧ r.get? k = some w := by
  have hall := comprehendM_ok_iff.mp h
  constructor
  · have hkeys : List.Forall₂ (· = ·) (d.items.map Prod.fst) (r.items.map Prod.fst) := by
      rw [List.forall₂_map_left_iff, List.forall₂_map_right_iff]
      exact hall.imp fun p q hq => hq.2.symm
    exact (List.forall₂_eq_eq_eq ▸ hkeys).symm
  · intro k v hkv
    obtain ⟨⟨k', w⟩, hq, hw, hk⟩ := forall₂_exists_right hall hkv
    cases hk
    exact ⟨w, hw, get?_eq_some_iff.mpr hq⟩

/-- Every value that such a loop leaves is one of the body. -/
theorem comprehendM_get? {ε : Type} {d : Dict K V} {f : K → V → Except ε W} {r : Dict K W}
    (h : d.comprehendM f = .ok r) {k : K} {w : W} (hw : r.get? k = some w) :
    ∃ v, d.get? k = some v ∧ f k v = .ok w := by
  obtain ⟨⟨k', v⟩, hin, hf, he⟩ :=
    forall₂_exists_left (comprehendM_ok_iff.mp h) (get?_eq_some_iff.mp hw)
  cases he
  exact ⟨v, get?_eq_some_iff.mpr hin, hf⟩

/-- Such a loop returns when the body returns at every item. -/
theorem comprehendM_returns {ε : Type} {d : Dict K V} {f : K → V → Except ε W}
    (h : ∀ k v, (k, v) ∈ d.items → ∃ w, f k v = .ok w) : ∃ r, d.comprehendM f = .ok r := by
  obtain ⟨r, hr⟩ := except_mapM_returns (f := fun p : K × V => (f p.1 p.2).map (Prod.mk p.1))
    fun p hp => by
      obtain ⟨w, hw⟩ := h p.1 p.2 hp
      exact ⟨(p.1, w), by rw [hw]; rfl⟩
  rw [← comprehendM_items] at hr
  cases hd : d.comprehendM f with
  | ok d' => exact ⟨d', rfl⟩
  | error e =>
    rw [hd] at hr
    cases hr

theorem comprehendM_returns_iff {ε : Type} {d : Dict K V} {f : K → V → Except ε W} :
    (∃ r, d.comprehendM f = .ok r) ↔ ∀ k v, d.get? k = some v → ∃ w, f k v = .ok w := by
  constructor
  · intro h k v hkv
    obtain ⟨r, hr⟩ := h
    obtain ⟨w, hw, -⟩ := (comprehendM_ok hr).2 k v (get?_eq_some_iff.mp hkv)
    exact ⟨w, hw⟩
  · intro h
    exact comprehendM_returns fun k v hkv => h k v (get?_eq_some_iff.mpr hkv)

theorem get?_comprehendM {ε : Type} {d : Dict K V} {f : K → V → Except ε W} {r : Dict K W}
    (h : d.comprehendM f = .ok r) (k : K) :
    r.get? k = (d.get? k).bind fun v => (f k v).toOption := by
  cases hk : d.get? k with
  | none =>
    rw [Option.bind_none, get?_eq_none_iff, (comprehendM_ok h).1]
    exact get?_eq_none_iff.mp hk
  | some v =>
    obtain ⟨w, hw, hget⟩ := (comprehendM_ok h).2 k v (get?_eq_some_iff.mp hk)
    rw [hget, Option.bind_some, hw]
    rfl

/-- The loop `for k, v in d.items(): r[k] = f(k, v)`, where the body may leave a key out. -/
def collectM {m : Type → Type} [Monad m] (d : Dict K V) (f : K → V → m (Option W)) :
    m (Dict K W) :=
  d.items.foldlM (fun r p => do
    match ← f p.1 p.2 with
    | some w => pure (r.set p.1 w)
    | none => pure r) ∅

section CollectM

variable {ε : Type} {f : K → V → Except ε (Option W)}

theorem collectM_returns_iff {d : Dict K V} :
    (∃ r, d.collectM f = .ok r) ↔ ∀ k v, d.get? k = some v → ∃ w, f k v = .ok w := by
  suffices hl : ∀ (l : List (K × V)) (acc : Dict K W),
      (∃ r, l.foldlM (fun (r : Dict K W) (p : K × V) => do
        match ← f p.1 p.2 with
        | some w => pure (r.set p.1 w)
        | none => pure r) acc = .ok r) ↔ ∀ p ∈ l, ∃ w, f p.1 p.2 = .ok w by
    refine (hl d.items ∅).trans ⟨fun h k v hkv => h (k, v) (get?_eq_some_iff.mp hkv), ?_⟩
    exact fun h p hp => h p.1 p.2 (get?_eq_some_iff.mpr hp)
  intro l
  induction l with
  | nil => exact fun acc => ⟨fun _ p hp => (nomatch hp), fun _ => ⟨acc, rfl⟩⟩
  | cons p l ih =>
    intro acc
    rw [List.foldlM_cons, List.forall_mem_cons]
    cases hp : f p.1 p.2 with
    | error e =>
      refine ⟨fun h => ?_, fun h => ?_⟩
      · obtain ⟨r, hr⟩ := h
        cases hr
      · obtain ⟨⟨w, hw⟩, -⟩ := h
        cases hw
    | ok w =>
      cases w with
      | none => exact (ih acc).trans ⟨fun h => ⟨⟨_, rfl⟩, h⟩, fun h => h.2⟩
      | some w => exact (ih (acc.set p.1 w)).trans ⟨fun h => ⟨⟨_, rfl⟩, h⟩, fun h => h.2⟩

theorem get?_collectM {d : Dict K V} {r : Dict K W} (h : d.collectM f = .ok r) (k : K) :
    r.get? k = (d.get? k).bind fun v => (f k v).toOption.join := by
  suffices hl : ∀ (l : List (K × V)) (acc : Dict K W), (l.map Prod.fst).Nodup →
      (∀ p ∈ l, acc.get? p.1 = none) →
      l.foldlM (fun (r : Dict K W) (p : K × V) => do
        match ← f p.1 p.2 with
        | some w => pure (r.set p.1 w)
        | none => pure r) acc = .ok r →
      r.get? k = (l.find? (·.1 = k)).elim (acc.get? k) fun p => (f p.1 p.2).toOption.join by
    have hget : d.get? k = (d.items.find? (·.1 = k)).map Prod.snd := rfl
    rw [hl d.items ∅ d.nodup (fun _ _ => rfl) h, hget]
    cases hk : d.items.find? (·.1 = k) with
    | none => rfl
    | some p =>
      have heq : p.1 = k := by simpa using List.find?_some hk
      simp [heq]
  intro l
  induction l with
  | nil =>
    intro acc _ _ h
    cases h
    rfl
  | cons p l ih =>
    intro acc hnodup hfresh h
    obtain ⟨hp, hnodup⟩ := List.nodup_cons.mp hnodup
    have hnone : ∀ q ∈ l, q.1 ≠ p.1 := fun q hq heq => hp (heq ▸ List.mem_map_of_mem hq)
    rw [List.foldlM_cons, except_bind_ok_iff] at h
    obtain ⟨acc', hstep, h⟩ := h
    obtain ⟨w, hw, hstep⟩ := except_bind_ok_iff.mp hstep
    have hacc : ∀ k', k' ≠ p.1 → acc'.get? k' = acc.get? k' := by
      intro k' hk'
      cases w with
      | none => cases hstep; rfl
      | some w => cases hstep; exact get?_set_of_ne hk'
    have hself : acc'.get? p.1 = w := by
      cases w with
      | none => cases hstep; exact hfresh p List.mem_cons_self
      | some w => cases hstep; exact get?_set_self
    rw [ih acc' hnodup (fun q hq => (hacc _ (hnone q hq)).trans (hfresh q (.tail _ hq))) h]
    by_cases hk : p.1 = k
    · have hfind : l.find? (·.1 = k) = none :=
        List.find?_eq_none.mpr fun q hq hqk => hnone q hq ((of_decide_eq_true hqk).trans hk.symm)
      rw [hfind, List.find?_cons_of_pos (by simp [hk]), Option.elim_none, ← hk, hself,
        Option.elim_some, hw]
      rfl
    · rw [List.find?_cons_of_neg (by simpa using hk)]
      cases l.find? (·.1 = k) with
      | none => exact hacc k (Ne.symm hk)
      | some q => rfl

end CollectM

/-! ## Dictionaries put together -/

section Union

/-- Dictionaries with the same keys in one order and the same values are equal. -/
theorem ext_get? {d d' : Dict K V} (hkeys : d.keys = d'.keys)
    (hget : ∀ k, d.get? k = d'.get? k) : d = d' := by
  have hitems : ∀ e : Dict K V, e.items.map some = e.keys.map fun k => (e.get? k).map (k, ·) := by
    intro e
    rw [keys, List.map_map]
    refine List.map_congr_left fun p hp => ?_
    rw [Function.comp_apply, get?_eq_some_iff.mpr hp]
    rfl
  apply ext
  apply List.map_injective_iff.mpr (Option.some_injective _)
  rw [hitems, hitems, hkeys]
  exact List.map_congr_left fun k _ => by rw [hget]

theorem keys_set {d : Dict K V} {k : K} {v : V} :
    (d.set k v).keys = if k ∈ d.keys then d.keys else d.keys ++ [k] := by
  split
  · case isTrue h => exact keys_set_of_mem h
  · case isFalse h =>
    rw [keys, keys, items_set_of_not_mem h, List.map_append]
    rfl

theorem set_set {d : Dict K V} {k : K} {v w : V} : (d.set k v).set k w = d.set k w := by
  refine ext_get? ?_ fun k' => ?_
  · rw [keys_set_of_mem (mem_keys_set.mpr (.inl rfl)), keys_set, keys_set]
  · rw [get?_set, get?_set, get?_set]
    split <;> rfl

/-- The keys after a loop that adds those of a list: a new key comes after the old ones. -/
theorem keys_foldl {f : Dict K W → K × V → Dict K W}
    (hf : ∀ d p, (f d p).keys = if p.1 ∈ d.keys then d.keys else d.keys ++ [p.1])
    {l : List (K × V)} (hl : (l.map Prod.fst).Nodup) (d : Dict K W) :
    (l.foldl f d).keys = d.keys ++ (l.map Prod.fst).filter (· ∉ d.keys) := by
  induction l generalizing d with
  | nil => simp
  | cons p l ih =>
    obtain ⟨hp, hl⟩ := List.nodup_cons.mp hl
    rw [List.foldl_cons, ih hl, List.map_cons, hf]
    split
    · case isTrue hk => rw [List.filter_cons_of_neg (by simpa using hk)]
    · case isFalse hk =>
      rw [List.filter_cons_of_pos (by simpa using hk), List.append_assoc]
      have hfilter : (l.map Prod.fst).filter (· ∉ d.keys ++ [p.1]) =
          (l.map Prod.fst).filter (· ∉ d.keys) := by
        refine List.filter_congr fun k hk => decide_eq_decide.mpr (not_congr ?_)
        rw [List.mem_append, List.mem_singleton]
        exact or_iff_left fun he => hp (he ▸ hk)
      rw [hfilter]
      rfl

theorem keys_update (d d' : Dict K V) :
    (d.update d').keys = d.keys ++ d'.keys.filter (· ∉ d.keys) :=
  keys_foldl (fun _ _ => keys_set) d'.nodup d

theorem empty_update (d : Dict K V) : (∅ : Dict K V).update d = d :=
  ext (items_ofItems d.nodup)

/-- An update with what is there changes nothing. -/
theorem update_eq_self {d d' : Dict K V} (h : ∀ k v, d'.get? k = some v → d.get? k = some v) :
    d.update d' = d := by
  have hall : ∀ l : List (K × V), (∀ p ∈ l, d.get? p.1 = some p.2) →
      l.foldl (fun d p => d.set p.1 p.2) d = d := by
    intro l hl
    induction l with
    | nil => rfl
    | cons p l ih =>
      rw [List.forall_mem_cons] at hl
      rw [List.foldl_cons, set_of_get? hl.1]
      exact ih hl.2
  exact hall d'.items fun p hin => h p.1 p.2 (get?_eq_some_iff.mpr hin)

theorem update_assoc (d d' d'' : Dict K V) :
    (d.update d').update d'' = d.update (d'.update d'') := by
  refine ext_get? ?_ fun k => ?_
  · simp only [keys_update, List.filter_append, List.append_assoc, List.filter_filter,
      List.mem_append, List.mem_filter]
    congr 2
    refine List.filter_congr fun k _ => ?_
    by_cases hd : k ∈ d.keys <;> by_cases hd' : k ∈ d'.keys <;> simp [hd, hd']
  · rw [get?_update, get?_update, get?_update, get?_update, Option.or_assoc]

/-- What an item of a key is picked by. -/
theorem filterMap_items (d : Dict K V) (k : K) :
    d.items.filterMap (fun p => if p.1 = k then some p.2 else none) = (d.get? k).toList := by
  obtain ⟨items, hnodup⟩ := d
  rw [get?]
  simp only
  induction items with
  | nil => rfl
  | cons p items ih =>
    obtain ⟨hp, hnodup⟩ := List.nodup_cons.mp hnodup
    rw [List.filterMap_cons]
    by_cases hk : p.1 = k
    · have hrest : items.filterMap (fun p => if p.1 = k then some p.2 else none) = [] := by
        refine List.filterMap_eq_nil_iff.mpr fun q hq => if_neg fun hqk => hp ?_
        exact List.mem_map.mpr ⟨q, hq, hqk.trans hk.symm⟩
      rw [if_pos hk, List.find?_cons_of_pos (by simpa using hk), hrest]
      rfl
    · rw [if_neg hk, List.find?_cons_of_neg (by simpa using hk)]
      exact ih hnodup

omit [DecidableEq K] in
theorem keys_map {f : K → V → W} {d : Dict K V} : (d.map f).keys = d.keys := by
  rw [keys, keys, items_map, List.map_map]
  rfl

/-- `{k: f(k, v) for k, v in d.items()}` written as a loop. -/
theorem foldl_set_map (f : K → V → W) (d : Dict K V) :
    d.items.foldl (fun r p => r.set p.1 (f p.1 p.2)) ∅ = d.map f := by
  apply ext
  rw [← items_ofItems (d.map f).nodup, ofItems, items_map, List.foldl_map]

end Union

end Dict

/-- The order in which a set is gone through. -/
structure SetOrder (α : Type) where
  order : List α → List α
  perm : ∀ l, (order l).Perm l

theorem SetOrder.mem_order {α : Type} (sets : SetOrder α) {l : List α} {a : α} :
    a ∈ sets.order l ↔ a ∈ l := (sets.perm l).mem_iff

end Py
