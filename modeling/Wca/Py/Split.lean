import Mathlib.Data.List.Infix
import Wca.Py.Str

/-!
# Texts divided at a text

`s.split(sep)` for a separator of more than one character. One whose last character stands nowhere
else in it, such as `__r`, does not overlap with itself, so each of its occurrences divides the text
(`splitText_eq_pair_iff`).
-/

namespace Py.Str

/-- The parts between the separators, found from left to right; the first `skip` characters belong to a
separator that has been met. -/
def splitChars (sep : List Char) : ℕ → List Char → List (List Char)
  | _, [] => [[]]
  | skip + 1, _ :: cs => splitChars sep skip cs
  | 0, c :: cs =>
    if sep.isPrefixOf (c :: cs) then [] :: splitChars sep (sep.length - 1) cs
    else (splitChars sep 0 cs).modifyHead (c :: ·)

/-- `s.split(sep)` for a separator that is not empty. -/
def splitText (sep s : String) : List String := (splitChars sep.toList 0 s.toList).map .ofList

theorem contains_iff {p s : String} : contains p s = true ↔ p.toList <:+: s.toList := by
  rw [contains, List.any_eq_true, List.infix_iff_prefix_suffix]
  constructor
  · rintro ⟨t, ht, hp⟩
    exact ⟨t, List.isPrefixOf_iff_prefix.mp hp, (List.mem_tails t _).mp ht⟩
  · rintro ⟨t, hp, ht⟩
    exact ⟨t, (List.mem_tails t _).mpr ht, List.isPrefixOf_iff_prefix.mpr hp⟩

section

variable {sep cs : List Char}

theorem splitChars_skip (l cs : List Char) : splitChars sep l.length (l ++ cs) = splitChars sep 0 cs := by
  induction l with
  | nil => rfl
  | cons c l ih => exact ih

theorem splitChars_ne_nil (skip : ℕ) (cs : List Char) : splitChars sep skip cs ≠ [] := by
  induction cs generalizing skip with
  | nil => exact List.cons_ne_nil _ _
  | cons c cs ih =>
    cases skip with
    | succ skip => exact ih skip
    | zero =>
      rw [splitChars]
      split
      · exact List.cons_ne_nil _ _
      · exact fun hnil => ih 0 (List.modifyHead_eq_nil_iff.mp hnil)

theorem splitChars_eq_singleton (h : ¬ sep <:+: cs) : splitChars sep 0 cs = [cs] := by
  induction cs with
  | nil => rfl
  | cons c cs ih =>
    rw [List.infix_cons_iff, not_or] at h
    rw [splitChars, if_neg (mt List.isPrefixOf_iff_prefix.mp h.1), ih h.2]
    rfl

/-- The first place where a list stands in another. -/
theorem exists_first (h : sep <:+: cs) (hne : sep ≠ []) :
    ∃ a b, cs = a ++ sep ++ b ∧ ¬ sep <:+: a := by
  induction cs with
  | nil => exact absurd (List.infix_nil.mp h) hne
  | cons c cs ih =>
    by_cases hprefix : sep <+: c :: cs
    · obtain ⟨b, hb⟩ := hprefix
      exact ⟨[], b, hb.symm, mt List.infix_nil.mp hne⟩
    · obtain ⟨a, b, rfl, ha⟩ := ih ((List.infix_cons_iff.mp h).resolve_left hprefix)
      refine ⟨c :: a, b, rfl, fun hin => ?_⟩
      obtain hin | hin := List.infix_cons_iff.mp hin
      · refine hprefix (hin.trans ?_)
        exact ⟨sep ++ b, by simp⟩
      · exact ha hin

variable {front : List Char} {last : Char}

/-- A separator whose last character stands nowhere else in it does not begin before its place. -/
theorem not_prefix_append {t b : List Char} (hlast : last ∉ front) (hne : t ≠ [])
    (h : ¬ front ++ [last] <:+: t) : ¬ front ++ [last] <+: t ++ (front ++ [last]) ++ b := by
  intro hprefix
  by_cases hlen : (front ++ [last]).length ≤ t.length
  · rw [List.append_assoc] at hprefix
    exact h (List.prefix_of_prefix_length_le hprefix (List.prefix_append t _) hlen).isInfix
  · rw [List.length_append, List.length_singleton, not_le] at hlen
    have ht : t <+: front ++ [last] := by
      refine List.prefix_of_prefix_length_le ?_ hprefix (by simp; omega)
      rw [List.append_assoc]
      exact List.prefix_append t _
    obtain ⟨u, rfl⟩ := List.prefix_of_prefix_length_le ht (List.prefix_append front [last]) (by omega)
    rw [List.append_assoc, List.append_assoc, List.prefix_append_right_inj] at hprefix
    have hpos : 0 < t.length := List.length_pos_iff.mpr hne
    have hu : u ++ [last] <+: t ++ u := by
      refine List.prefix_of_prefix_length_le hprefix ?_ (by simp; omega)
      rw [← List.append_assoc t, List.append_assoc (t ++ u)]
      exact List.prefix_append (t ++ u) _
    exact hlast (hu.subset (by simp))

theorem splitChars_append {a b : List Char} (hlast : last ∉ front) (h : ¬ front ++ [last] <:+: a) :
    splitChars (front ++ [last]) 0 (a ++ (front ++ [last]) ++ b) =
      a :: splitChars (front ++ [last]) 0 b := by
  induction a with
  | nil =>
    obtain ⟨c, sep, hsep⟩ : ∃ c sep, front ++ [last] = c :: sep :=
      List.exists_cons_of_ne_nil (by simp)
    have hprefix : (c :: sep).isPrefixOf (c :: (sep ++ b)) = true :=
      List.isPrefixOf_iff_prefix.mpr (List.prefix_append (c :: sep) b)
    rw [List.nil_append, hsep, List.cons_append, splitChars, if_pos hprefix]
    exact congrArg _ (splitChars_skip sep b)
  | cons c a ih =>
    have hnot := not_prefix_append (b := b) hlast (List.cons_ne_nil c a) h
    rw [List.infix_cons_iff, not_or] at h
    rw [List.cons_append, List.cons_append, splitChars,
      if_neg (mt List.isPrefixOf_iff_prefix.mp (by simpa using hnot)), ih h.2]
    rfl

/-- A text is two parts exactly when the separator stands in it once, between them. -/
theorem splitText_eq_pair_iff (front : List Char) (last : Char) {sep s a b : String} (hsep : sep.toList = front ++ [last])
    (hlast : last ∉ front) : splitText sep s = [a, b] ↔
      s = a ++ sep ++ b ∧ contains sep a = false ∧ contains sep b = false := by
  have hne : front ++ [last] ≠ [] := by simp
  have hnot : ∀ t : String, contains sep t = false ↔ ¬ front ++ [last] <:+: t.toList := by
    intro t
    rw [← hsep, ← contains_iff, Bool.not_eq_true]
  rw [splitText, hnot, hnot, hsep]
  constructor
  · intro hpair
    have hin : front ++ [last] <:+: s.toList := by
      by_contra hin
      rw [splitChars_eq_singleton hin] at hpair
      cases hpair
    obtain ⟨a', b', hs, ha'⟩ := exists_first hin hne
    rw [hs, splitChars_append hlast ha', List.map_cons] at hpair
    obtain ⟨rfl, hrest⟩ := List.cons.inj hpair
    have hb' : ¬ front ++ [last] <:+: b' := by
      intro hin
      obtain ⟨a'', b'', rfl, ha''⟩ := exists_first hin hne
      rw [splitChars_append hlast ha'', List.map_cons, List.cons.injEq, List.map_eq_nil_iff] at hrest
      exact splitChars_ne_nil 0 b'' hrest.2
    rw [splitChars_eq_singleton hb'] at hrest
    obtain rfl : .ofList b' = b := List.head_eq_of_cons_eq hrest
    refine ⟨String.toList_injective ?_, ?_, ?_⟩
    · rw [hs]
      simp [hsep]
    · rwa [String.toList_ofList]
    · rwa [String.toList_ofList]
  · rintro ⟨rfl, ha, hb⟩
    rw [String.toList_append, String.toList_append, hsep, splitChars_append hlast ha,
      splitChars_eq_singleton hb]
    simp [String.ofList_toList]

end

end Py.Str
