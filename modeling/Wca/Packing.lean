import Mathlib.Data.List.Chain

/-!
# Greedy packing

A list is cut into chunks from left to right: an element goes into the current chunk as long as that
still fits, and starts the next one otherwise; an element that does not even fit alone is a chunk of
its own. `Packed` says what such a cut is without the order in which it is made, and `pack_eq_iff`
that there is only one.
-/

namespace Packing

variable {α : Type} {fits : List α → Prop}

/-- A cut of `l`, each chunk as full as it can be. -/
structure Packed (fits : List α → Prop) (l : List α) (cut : List (List α)) : Prop where
  flatten_eq : cut.flatten = l
  ne_nil : ∀ chunk ∈ cut, chunk ≠ []
  fits_or_single : ∀ chunk ∈ cut, fits chunk ∨ chunk.length = 1
  full : cut.IsChain fun chunk next => ∀ a, next.head? = some a → ¬fits (chunk ++ [a])

section

variable [DecidablePred fits]

/-- The chunks of what is left, when some elements are in the current chunk. -/
def pack (fits : List α → Prop) [DecidablePred fits] : List α → List α → List (List α)
  | current, [] => [current]
  | current, a :: l =>
    if ¬fits (current ++ [a]) ∧ current ≠ [] then current :: pack fits [a] l
    else pack fits (current ++ [a]) l

theorem pack_nil_cons (a : α) (l : List α) : pack fits [] (a :: l) = pack fits [a] l := by
  rw [pack, if_neg fun h => h.2 rfl, List.nil_append]

/-- The first chunk is an extension of the current one. -/
theorem pack_head (current l : List α) :
    ∃ rest cut, pack fits current l = (current ++ rest) :: cut := by
  induction l generalizing current with
  | nil => exact ⟨[], [], by rw [pack, List.append_nil]⟩
  | cons a l ih =>
    rw [pack]
    split
    · exact ⟨[], _, by rw [List.append_nil]⟩
    · obtain ⟨rest, cut, h⟩ := ih (current ++ [a])
      exact ⟨a :: rest, cut, by rw [h, List.append_assoc, List.singleton_append]⟩

theorem packed_pack {current : List α} (hne : current ≠ [])
    (hfits : fits current ∨ current.length = 1) (l : List α) :
    Packed fits (current ++ l) (pack fits current l) := by
  induction l generalizing current with
  | nil =>
    rw [pack, List.append_nil]
    refine ⟨List.append_nil _, ?_, ?_, List.isChain_singleton _⟩
    · exact fun chunk hchunk => List.mem_singleton.mp hchunk ▸ hne
    · exact fun chunk hchunk => List.mem_singleton.mp hchunk ▸ hfits
  | cons a l ih =>
    rw [pack]
    split
    · case isTrue h =>
      have hnext := ih (List.cons_ne_nil a []) (.inr rfl)
      refine ⟨?_, ?_, ?_, ?_⟩
      · rw [List.flatten_cons, hnext.flatten_eq, List.singleton_append]
      · exact List.forall_mem_cons.mpr ⟨hne, hnext.ne_nil⟩
      · exact List.forall_mem_cons.mpr ⟨hfits, hnext.fits_or_single⟩
      · have hfull := hnext.full
        have ⟨rest, cut, hcut⟩ : ∃ rest cut, pack fits [a] l = ([a] ++ rest) :: cut := pack_head [a] l
        rw [hcut] at hfull ⊢
        refine List.isChain_cons_cons.mpr ⟨fun b hb => ?_, hfull⟩
        cases hb
        exact h.1
    · case isFalse h =>
      have hfits' : fits (current ++ [a]) := by
        apply Decidable.of_not_not
        exact fun hn => h ⟨hn, hne⟩
      have hnext := ih (List.append_ne_nil_of_left_ne_nil hne [a]) (.inl hfits')
      rw [List.append_assoc, List.singleton_append] at hnext
      exact hnext

variable (hmono : ∀ l l' : List α, fits (l ++ l') → fits l)

include hmono in
/-- What fits shortened still fits, so the chunk of a cut grows as the packing lets it grow. -/
theorem Packed.pack_eq {current rest : List α} (hne : current ≠ []) {l : List α}
    {cut : List (List α)} (h : Packed fits (current ++ l) ((current ++ rest) :: cut)) :
    pack fits current l = (current ++ rest) :: cut := by
  induction l generalizing current rest cut with
  | nil =>
    have hflat := h.flatten_eq
    rw [List.flatten_cons, List.append_assoc, List.append_cancel_left_eq, List.append_eq_nil_iff]
      at hflat
    obtain ⟨rfl, hcut⟩ := hflat
    cases cut with
    | nil => rw [pack, List.append_nil]
    | cons chunk cut =>
      have hchunk := h.ne_nil chunk (List.mem_cons_of_mem _ List.mem_cons_self)
      rw [List.flatten_cons, List.append_eq_nil_iff] at hcut
      exact absurd hcut.1 hchunk
  | cons a l ih =>
    have hflat := h.flatten_eq
    rw [List.flatten_cons, List.append_assoc, List.append_cancel_left_eq] at hflat
    rw [pack]
    cases rest with
    | nil =>
      -- the chunk ends here, and the next one starts with `a`
      rw [List.append_nil] at h ⊢
      rw [List.nil_append] at hflat
      cases cut with
      | nil => cases hflat
      | cons chunk cut =>
        cases chunk with
        | nil => exact absurd rfl (h.ne_nil [] (List.mem_cons_of_mem _ List.mem_cons_self))
        | cons b rest =>
          rw [List.flatten_cons, List.cons_append, List.cons.injEq] at hflat
          obtain ⟨rfl, hflat⟩ := hflat
          have hfull := List.isChain_cons_cons.mp h.full
          rw [if_pos ⟨hfull.1 b rfl, hne⟩]
          have hnext : Packed fits ([b] ++ l) (([b] ++ rest) :: cut) :=
            ⟨by rw [List.flatten_cons, List.append_assoc, hflat],
              fun chunk hchunk => h.ne_nil chunk (List.mem_cons_of_mem _ hchunk),
              fun chunk hchunk => h.fits_or_single chunk (List.mem_cons_of_mem _ hchunk), hfull.2⟩
          exact congrArg (current :: ·) (ih (List.cons_ne_nil b []) hnext)
    | cons b rest =>
      rw [List.cons_append, List.cons.injEq] at hflat
      obtain ⟨rfl, hflat⟩ := hflat
      have hassoc : current ++ b :: rest = current ++ [b] ++ rest := by
        rw [List.append_assoc, List.singleton_append]
      have hfits : fits (current ++ [b]) := by
        rcases h.fits_or_single _ List.mem_cons_self with hfits | hsingle
        · exact hmono _ rest (hassoc ▸ hfits)
        · have hpos := List.length_pos_iff.mpr hne
          rw [List.length_append, List.length_cons] at hsingle
          omega
      rw [if_neg fun hn => hn.1 hfits, hassoc]
      apply ih (List.append_ne_nil_of_left_ne_nil hne [b])
      rw [← hassoc, List.append_assoc, List.singleton_append]
      exact h

include hmono in
/-- The packing is the only cut of its kind. -/
theorem pack_eq_iff {a : α} {l : List α} {cut : List (List α)} :
    pack fits [] (a :: l) = cut ↔ Packed fits (a :: l) cut := by
  rw [pack_nil_cons]
  refine ⟨fun h => h ▸ packed_pack (List.cons_ne_nil a []) (.inr rfl) l, fun h => ?_⟩
  have hflat := h.flatten_eq
  cases cut with
  | nil => cases hflat
  | cons chunk cut =>
    cases chunk with
    | nil => exact absurd rfl (h.ne_nil [] List.mem_cons_self)
    | cons b rest =>
      rw [List.flatten_cons, List.cons_append, List.cons.injEq] at hflat
      obtain ⟨rfl, -⟩ := hflat
      have h : Packed fits ([b] ++ l) (([b] ++ rest) :: cut) := h
      exact h.pack_eq hmono (List.cons_ne_nil b [])

include hmono in
theorem Packed.unique {l : List α} {cut cut' : List (List α)} (h : Packed fits l cut)
    (h' : Packed fits l cut') : cut = cut' := by
  cases l with
  | nil =>
    have hnil : ∀ cut, Packed fits [] cut → cut = [] := by
      intro cut h
      cases cut with
      | nil => rfl
      | cons chunk cut =>
        have hflat := h.flatten_eq
        rw [List.flatten_cons, List.append_eq_nil_iff] at hflat
        exact absurd hflat.1 (h.ne_nil chunk List.mem_cons_self)
    rw [hnil cut h, hnil cut' h']
  | cons a l => exact ((pack_eq_iff hmono).mpr h).symm.trans ((pack_eq_iff hmono).mpr h')

end

end Packing
