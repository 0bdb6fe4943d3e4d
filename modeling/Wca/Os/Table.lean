import Mathlib.Data.List.Flatten
import Wca.Py.Dict

/-!
# Descriptor tables

The open files of a process, each under its descriptor. A file may hang on another descriptor, as a
member of a group hangs on the leader; it comes off when that one is closed. Some descriptors are held
apart when no file inside hangs on one outside, nor the other way round: whatever is opened or closed
elsewhere leaves them as they are (`Same`). A ledger splits a table into holdings that are held apart.
-/

namespace Os

open Py

abbrev Fd := ℕ

/-- Files that hang on a descriptor or on none. -/
class Hanging (F : Type) where
  on : F → Option Fd
  off : F → F
  on_off : ∀ f, on (off f) = none

/-- Every descriptor that a file hangs on is open. -/
structure Table (F : Type) [Hanging F] where
  files : Dict Fd F
  hung : ∀ fd f l, (fd, f) ∈ files.items → Hanging.on f = some l → l ∈ files.keys

namespace Table

variable {F : Type} [Hanging F] {t t' t'' : Table F} {fd l : Fd} {f : F} {fds fds' : List Fd}

/-- A file after `l` is closed. -/
def detach (l : Fd) (f : F) : F := if Hanging.on f = some l then Hanging.off f else f

theorem detach_of_ne (h : Hanging.on f ≠ some l) : detach l f = f := if_neg h

theorem on_detach {l' : Fd} (h : Hanging.on (detach l f) = some l') : Hanging.on f = some l' ∧ l' ≠ l := by
  rw [detach] at h
  split at h
  · rw [Hanging.on_off] at h
    cases h
  · next hne => exact ⟨h, fun heq => hne (heq ▸ h)⟩

instance : EmptyCollection (Table F) := ⟨⟨∅, fun _ _ _ h => absurd h List.not_mem_nil⟩⟩

/-! ## Operations -/

/-- The table with a file under a new descriptor. -/
def openAt (t : Table F) (fd : Fd) (f : F) (hfd : fd ∉ t.files.keys)
    (hon : ∀ l, Hanging.on f = some l → l ∈ t.files.keys) : Table F where
  files := t.files.set fd f
  hung := by
    intro fd' f' l hmem hl
    rw [Dict.items_set_of_not_mem hfd, List.mem_append, List.mem_singleton] at hmem
    rw [Dict.mem_keys_set]
    obtain hmem | heq := hmem
    · exact Or.inr (t.hung fd' f' l hmem hl)
    · rw [(Prod.mk.inj heq).2] at hl
      exact Or.inr (hon l hl)

/-- The table without a descriptor. -/
def close (t : Table F) (fd : Fd) : Table F where
  files := (t.files.erase fd).map fun _ => detach fd
  hung := by
    intro fd' f' l hmem hl
    obtain ⟨⟨_, f⟩, hf, heq⟩ := List.mem_map.mp hmem
    obtain ⟨rfl, rfl⟩ := Prod.mk.inj heq
    obtain ⟨hl, hne⟩ := on_detach hl
    obtain ⟨-, hf⟩ := Dict.mem_items_erase.mp hf
    obtain ⟨g, hg⟩ := Dict.mem_keys.mp (t.hung _ _ l hf hl)
    rw [Dict.keys_map]
    exact Dict.mem_keys.mpr ⟨g, Dict.mem_items_erase.mpr ⟨hne, hg⟩⟩

/-- The table without some descriptors. -/
def closeAll (t : Table F) (fds : List Fd) : Table F := fds.foldl close t

/-- The file under a descriptor and those that hang on it, in the order they were opened. -/
def group (t : Table F) (l : Fd) : List (Fd × F) :=
  t.files.items.filter fun p => p.1 = l ∨ Hanging.on p.2 = some l

theorem mem_group {p : Fd × F} : p ∈ t.group l ↔ p ∈ t.files.items ∧ (p.1 = l ∨ Hanging.on p.2 = some l) := by
  rw [group, List.mem_filter, decide_eq_true_iff]

/-! ### Opening -/

section Opening

variable {hfd : fd ∉ t.files.keys} {hon : ∀ l, Hanging.on f = some l → l ∈ t.files.keys}

theorem items_openAt : (t.openAt fd f hfd hon).files.items = t.files.items ++ [(fd, f)] :=
  Dict.items_set_of_not_mem hfd

theorem keys_openAt : (t.openAt fd f hfd hon).files.keys = t.files.keys ++ [fd] := by
  rw [Dict.keys, items_openAt, List.map_append, List.map_singleton, Dict.keys]

theorem get?_openAt {fd' : Fd} : (t.openAt fd f hfd hon).files.get? fd' =
    if fd' = fd then some f else t.files.get? fd' := Dict.get?_set

theorem group_openAt : (t.openAt fd f hfd hon).group l =
    t.group l ++ if fd = l ∨ Hanging.on f = some l then [(fd, f)] else [] := by
  rw [group, items_openAt, List.filter_append, group]
  congr 1
  by_cases h : fd = l ∨ Hanging.on f = some l
  · rw [if_pos h]
    exact List.filter_eq_self.mpr fun p hp => by
      rw [List.mem_singleton.mp hp]
      exact decide_eq_true h
  · rw [if_neg h]
    exact List.filter_eq_nil_iff.mpr fun p hp => by
      rw [List.mem_singleton.mp hp]
      simpa using h

/-- A new descriptor has nothing hanging on it. -/
theorem group_openAt_self : (t.openAt fd f hfd hon).group fd = [(fd, f)] := by
  rw [group_openAt, if_pos (Or.inl rfl), group, List.filter_eq_nil_iff.mpr, List.nil_append]
  intro p hp
  simp only [decide_eq_true_iff, not_or]
  exact ⟨fun h => hfd (h ▸ Dict.mem_keys.mpr ⟨p.2, hp⟩), fun h => hfd (t.hung p.1 p.2 fd hp h)⟩

end Opening

/-! ### Closing -/

theorem keys_close : (t.close fd).files.keys = t.files.keys.filter (· ≠ fd) := by
  rw [close, Dict.keys_map, Dict.keys, Dict.erase, Dict.keys, List.filter_map]
  rfl

theorem get?_close {fd' : Fd} : (t.close fd).files.get? fd' =
    if fd' = fd then none else (t.files.get? fd').map (detach fd) := by
  rw [close, Dict.get?_map, Dict.get?_erase]
  split <;> rfl

theorem keys_closeAll : (t.closeAll fds).files.keys = t.files.keys.filter (· ∉ fds) := by
  induction fds generalizing t with
  | nil => simp [closeAll]
  | cons fd fds ih =>
    have hstep : t.closeAll (fd :: fds) = (t.close fd).closeAll fds := rfl
    rw [hstep, ih, keys_close, List.filter_filter]
    refine List.filter_congr fun x _ => ?_
    simp [Bool.and_comm]

/-- A file that hangs on nothing stays as it is. -/
theorem get?_closeAll_of_off (hget : t.files.get? fd = some f) (hoff : Hanging.on f = none)
    (hout : fd ∉ fds) : (t.closeAll fds).files.get? fd = some f := by
  induction fds generalizing t with
  | nil => exact hget
  | cons x fds ih =>
    obtain ⟨hx, hout⟩ := not_or.mp (mt List.mem_cons.mpr hout)
    refine ih ?_ hout
    rw [get?_close, if_neg hx, hget, Option.map_some, detach_of_ne]
    rw [hoff]
    exact fun h => nomatch h

/-! ## What is left alone -/

/-- No file hangs across the border of the descriptors. -/
def Apart (t : Table F) (fds : List Fd) : Prop :=
  ∀ fd f l, (fd, f) ∈ t.files.items → Hanging.on f = some l → (fd ∈ fds ↔ l ∈ fds)

/-- The descriptors have the same files and the same groups. -/
structure Same (t t' : Table F) (fds : List Fd) : Prop where
  get? : ∀ fd ∈ fds, t'.files.get? fd = t.files.get? fd
  group : ∀ l ∈ fds, t'.group l = t.group l

theorem Same.refl (t : Table F) (fds : List Fd) : Same t t fds := ⟨fun _ _ => rfl, fun _ _ => rfl⟩

theorem Same.trans (h : Same t t' fds) (h' : Same t' t'' fds) : Same t t'' fds :=
  ⟨fun fd hfd => (h'.get? fd hfd).trans (h.get? fd hfd),
    fun l hl => (h'.group l hl).trans (h.group l hl)⟩

theorem Same.mono (h : Same t t' fds) (hsub : ∀ fd ∈ fds', fd ∈ fds) : Same t t' fds' :=
  ⟨fun fd hfd => h.get? fd (hsub fd hfd), fun l hl => h.group l (hsub l hl)⟩

theorem Same.apart (h : Same t t' fds) (hapart : t.Apart fds) : t'.Apart fds := by
  intro fd f l hmem hl
  constructor
  · intro hfd
    have hget := h.get? fd hfd
    rw [Dict.get?_eq_some_iff.mpr hmem] at hget
    exact (hapart fd f l (Dict.get?_eq_some_iff.mp hget.symm) hl).mp hfd
  · intro hin
    have hgroup : (fd, f) ∈ t'.group l := mem_group.mpr ⟨hmem, Or.inr hl⟩
    rw [h.group l hin] at hgroup
    exact (hapart fd f l (mem_group.mp hgroup).1 hl).mpr hin

/-- Opening a file elsewhere, that hangs on nothing inside. -/
theorem same_openAt {hfd : fd ∉ t.files.keys} {hon : ∀ l, Hanging.on f = some l → l ∈ t.files.keys}
    (hout : fd ∉ fds) (hl : ∀ l ∈ fds, Hanging.on f ≠ some l) :
    Same t (t.openAt fd f hfd hon) fds := by
  refine ⟨fun fd' hfd' => ?_, fun l hlin => ?_⟩
  · have hne : fd' ≠ fd := fun heq => hout (heq ▸ hfd')
    rw [get?_openAt, if_neg hne]
  · rw [group_openAt, if_neg, List.append_nil]
    exact fun h => h.elim (fun heq => hout (heq ▸ hlin)) (hl l hlin)

theorem filter_map_of_eq {α : Type} {p q : α → Bool} {g : α → α} {xs : List α}
    (hgroup : ∀ x ∈ xs, p (g x) = q x) (hkept : ∀ x ∈ xs, q x = true → g x = x) :
    (xs.map g).filter p = xs.filter q := by
  rw [List.filter_map]
  have hfilter : xs.filter (p ∘ g) = xs.filter q := List.filter_congr hgroup
  rw [hfilter, List.map_congr_left (g := id), List.map_id]
  intro x hx
  obtain ⟨hx, hq⟩ := List.mem_filter.mp hx
  exact hkept x hx hq

/-- Closing a file elsewhere. -/
theorem same_close (hapart : t.Apart fds) (hout : fd ∉ fds) : Same t (t.close fd) fds := by
  refine ⟨fun fd' hfd' => ?_, fun l hl => ?_⟩
  · have hne : fd' ≠ fd := fun heq => hout (heq ▸ hfd')
    rw [get?_close, if_neg hne]
    cases hget : t.files.get? fd' with
    | none => rfl
    | some f =>
      have hoff : Hanging.on f ≠ some fd := fun hon =>
        hout ((hapart fd' f fd (Dict.get?_eq_some_iff.mp hget) hon).mp hfd')
      rw [Option.map_some, detach_of_ne hoff]
  · have hne : l ≠ fd := fun heq => hout (heq ▸ hl)
    have hfilter : (t.close fd).group l = ((t.files.items.filter (·.1 ≠ fd)).map
        fun p => (p.1, detach fd p.2)).filter fun p => p.1 = l ∨ Hanging.on p.2 = some l := by
      rfl
    rw [hfilter, filter_map_of_eq (q := fun p => p.1 = l ∨ Hanging.on p.2 = some l), List.filter_filter,
      group]
    · refine List.filter_congr fun p hp => ?_
      have hkept : p.1 = l ∨ Hanging.on p.2 = some l → p.1 ≠ fd := by
        rintro (heq | hon) hfd
        · exact hne (heq.symm.trans hfd)
        · exact hout (hfd ▸ (hapart p.1 p.2 l hp hon).mpr hl)
      simpa using hkept
    · intro p _
      have hiff : Hanging.on (detach fd p.2) = some l ↔ Hanging.on p.2 = some l := by
        refine ⟨fun h => (on_detach h).1, fun h => ?_⟩
        rwa [detach_of_ne]
        rw [h]
        exact fun heq => hne (Option.some.inj heq)
      simp [hiff]
    · intro p hp hq
      obtain ⟨hp, hpfd⟩ := List.mem_filter.mp hp
      have hon : Hanging.on p.2 ≠ some fd := by
        intro hon
        obtain heq | hl' := of_decide_eq_true hq
        · exact hout ((hapart p.1 p.2 fd hp hon).mp (heq ▸ hl))
        · exact hne (Option.some.inj (hl'.symm.trans hon))
      rw [detach_of_ne hon]

theorem same_closeAll (hapart : t.Apart fds) (hout : ∀ fd ∈ fds', fd ∉ fds) :
    Same t (t.closeAll fds') fds := by
  induction fds' generalizing t with
  | nil => exact Same.refl t fds
  | cons fd fds' ih =>
    have hclose := same_close hapart (hout fd List.mem_cons_self)
    exact hclose.trans (ih (hclose.apart hapart) fun x hx => hout x (List.mem_cons_of_mem _ hx))

/-- What is left of a table next to descriptors that are held apart is held apart too. -/
theorem Apart.rest (h : t.Apart fds) (hperm : t.files.keys.Perm (fds ++ fds')) : t.Apart fds' := by
  intro fd f l hmem hl
  have hnodup := hperm.nodup_iff.mp t.files.nodup
  have hsplit : ∀ x ∈ t.files.keys, x ∈ fds' ↔ x ∉ fds := fun x hx =>
    ⟨fun hin hout => List.disjoint_of_nodup_append hnodup hout hin,
      fun hout => (List.mem_append.mp (hperm.mem_iff.mp hx)).resolve_left hout⟩
  rw [hsplit fd (Dict.mem_keys.mpr ⟨f, hmem⟩), hsplit l (t.hung fd f l hmem hl),
    h fd f l hmem hl]

/-- Nothing hangs across the border of the whole table. -/
theorem apart_keys : t.Apart t.files.keys := fun fd f l hmem hl =>
  ⟨fun _ => t.hung fd f l hmem hl, fun _ => Dict.mem_keys.mpr ⟨f, hmem⟩⟩

/-! ## Ledgers -/

/-- The descriptors of a table, split into holdings that are held apart. -/
structure Ledger (t : Table F) (holdings : List (List Fd)) : Prop where
  perm : t.files.keys.Perm holdings.flatten
  apart : ∀ fds ∈ holdings, t.Apart fds

namespace Ledger

variable {holdings pre post : List (List Fd)}

theorem single (t : Table F) : t.Ledger [t.files.keys] :=
  ⟨by simp, fun fds hfds => by rw [List.mem_singleton.mp hfds]; exact apart_keys⟩

theorem nodup (h : t.Ledger holdings) : holdings.flatten.Nodup := h.perm.nodup_iff.mp t.files.nodup

theorem mem_keys (h : t.Ledger holdings) (hfds : fds ∈ holdings) (hfd : fd ∈ fds) :
    fd ∈ t.files.keys := h.perm.mem_iff.mpr (List.mem_flatten_of_mem hfds hfd)

/-- A new holding is opened, and nothing else changes. -/
theorem opened (h : t.Ledger holdings) (hperm : t'.files.keys.Perm (t.files.keys ++ fds))
    (hsame : Same t t' t.files.keys) : t'.Ledger (holdings ++ [fds]) := by
  refine ⟨?_, fun fds' hfds' => ?_⟩
  · rw [List.flatten_append, List.flatten_singleton]
    exact hperm.trans (h.perm.append_right fds)
  · obtain hfds' | hfds' := List.mem_append.mp hfds'
    · exact (hsame.mono fun fd hfd => h.mem_keys hfds' hfd).apart (h.apart fds' hfds')
    · rw [List.mem_singleton.mp hfds']
      exact (hsame.apart apart_keys).rest hperm

theorem of_perm {holdings' : List (List Fd)} (h : t.Ledger holdings) (hperm : holdings.Perm holdings') :
    t.Ledger holdings' :=
  ⟨h.perm.trans hperm.flatten, fun fds hfds => h.apart fds (hperm.mem_iff.mpr hfds)⟩

theorem drop_empty (h : t.Ledger (holdings ++ [[]])) : t.Ledger holdings :=
  ⟨by simpa using h.perm, fun fds hfds => h.apart fds (List.mem_append_left _ hfds)⟩

theorem not_mem_other (h : t.Ledger (pre ++ fds :: post)) (hfds' : fds' ∈ pre ++ post)
    (hfd : fd ∈ fds) : fd ∉ fds' := by
  intro hfd'
  have hperm : (pre ++ fds :: post).flatten.Perm (fds ++ (pre ++ post).flatten) := by
    have hmiddle : (pre ++ fds :: post).Perm (fds :: (pre ++ post)) := List.perm_middle
    simpa using hmiddle.flatten
  have hnodup := hperm.nodup_iff.mp h.nodup
  exact List.disjoint_of_nodup_append hnodup hfd (List.mem_flatten_of_mem hfds' hfd')

/-- Closing a holding leaves the others as they are. -/
theorem same_closed (h : t.Ledger (pre ++ fds :: post)) {closed : List Fd} (hclosed : closed.Perm fds)
    (hfds' : fds' ∈ pre ++ post) : Same t (t.closeAll closed) fds' := by
  have hmem : fds' ∈ pre ++ fds :: post := by
    rw [List.mem_append, List.mem_cons]
    exact (List.mem_append.mp hfds').imp_right Or.inr
  exact same_closeAll (h.apart fds' hmem) fun fd hfd => h.not_mem_other hfds' (hclosed.mem_iff.mp hfd)

/-- A holding is closed, in any order. -/
theorem closed (h : t.Ledger (pre ++ fds :: post)) {closed : List Fd} (hclosed : closed.Perm fds) :
    (t.closeAll closed).Ledger (pre ++ post) := by
  refine ⟨?_, fun fds' hfds' => ?_⟩
  · have hperm : t.files.keys.Perm (fds ++ (pre ++ post).flatten) := by
      have hmiddle : (pre ++ fds :: post).Perm (fds :: (pre ++ post)) := List.perm_middle
      exact h.perm.trans (by simpa using hmiddle.flatten)
    have hout : ∀ x ∈ (pre ++ post).flatten, x ∉ fds := fun x hx hfds =>
      List.disjoint_of_nodup_append (hperm.nodup_iff.mp t.files.nodup) hfds hx
    rw [keys_closeAll]
    refine (hperm.filter _).trans (List.Perm.of_eq ?_)
    rw [List.filter_append, List.filter_eq_nil_iff.mpr, List.filter_eq_self.mpr, List.nil_append]
    · exact fun x hx => decide_eq_true fun hin => hout x hx (hclosed.mem_iff.mp hin)
    · exact fun x hx => by simpa using hclosed.mem_iff.mpr hx
  · have hmem : fds' ∈ pre ++ fds :: post := by
      rw [List.mem_append, List.mem_cons]
      exact (List.mem_append.mp hfds').imp_right Or.inr
    exact (h.same_closed hclosed hfds').apart (h.apart fds' hmem)

end Ledger

end Table

end Os
