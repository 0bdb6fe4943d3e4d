import Mathlib.Data.List.TakeWhile
import Mathlib.Data.List.Basic

/-!
# Patterns

A pattern of the form `C+D+…`, a sequence of classes each repeated. The repetitions are greedy: every
one takes all it can first, and gives characters back when the rest of the pattern does not match.
-/

namespace Py.Re

/-- What each class of the pattern has taken of the beginning of a text, if the pattern matches
there. -/
def matchPlus : List (Char → Bool) → List Char → Option (List (List Char))
  | [], _ => some []
  | p :: ps, cs => (List.range (cs.takeWhile p).length).reverse.findSome? fun n =>
      (matchPlus ps (cs.drop (n + 1))).map (cs.take (n + 1) :: ·)

/-- When the rest of the pattern matches after the longest run, that is the match. -/
theorem matchPlus_append {p : Char → Bool} {ps : List (Char → Bool)} {run rest : List Char}
    {groups : List (List Char)} (hne : run ≠ []) (hrun : ∀ c ∈ run, p c = true)
    (hrest : rest.takeWhile p = []) (h : matchPlus ps rest = some groups) :
    matchPlus (p :: ps) (run ++ rest) = some (run :: groups) := by
  obtain ⟨n, hn⟩ := Nat.exists_eq_succ_of_ne_zero (mt List.length_eq_zero_iff.mp hne)
  have htake : (run ++ rest).takeWhile p = run := by
    rw [List.takeWhile_append_of_pos hrun, hrest, List.append_nil]
  rw [matchPlus, htake, hn, List.range_succ, List.reverse_append]
  change (n :: (List.range n).reverse).findSome? _ = _
  rw [List.findSome?_cons, ← Nat.succ_eq_add_one, ← hn, List.drop_left, List.take_left, h]
  rfl

end Py.Re
