import Wca.Perf.Sessions

/-!
# The list of online cpus

The kernel prints the cpus as ranges in increasing order, on one line. `_parse_online_cpus_string` reads
back every such line, and gives every cpu once (`parseOnlineCpusString_onlineText`).
-/

namespace Wca.Perf

open Py

/-- A range of cpus. -/
structure CpuRange where
  first : ℕ
  last : ℕ
  le : first ≤ last

namespace CpuRange

def text (r : CpuRange) : String :=
  if r.first = r.last then toString r.first else toString r.first ++ "-" ++ toString r.last

def cpus (r : CpuRange) : List ℤ := (List.range (r.last + 1 - r.first)).map fun (i : ℕ) => r.first + i

theorem mem_cpus {r : CpuRange} {cpu : ℤ} : cpu ∈ r.cpus ↔ (r.first : ℤ) ≤ cpu ∧ cpu ≤ r.last := by
  have hle := r.le
  rw [cpus, List.mem_map]
  constructor
  · rintro ⟨i, hi, rfl⟩
    have hi := List.mem_range.mp hi
    omega
  · rintro ⟨hfirst, hlast⟩
    refine ⟨(cpu - r.first).toNat, List.mem_range.mpr ?_, ?_⟩
    · omega
    · omega

theorem pairwise_cpus (r : CpuRange) : r.cpus.Pairwise (· < ·) := by
  refine List.pairwise_map.mpr (List.pairwise_lt_range.imp fun hij => ?_)
  omega

end CpuRange

/-- What the file holds. -/
def onlineText (ranges : List CpuRange) : String := Str.join ',' (ranges.map CpuRange.text) ++ "\n"

variable {r : CpuRange} {ranges : List CpuRange} {tail : String}

/-- What may follow a number. -/
def IsTail (tail : String) : Prop := tail = "" ∨ tail = "\n"

theorem IsTail.not_mem (h : IsTail tail) {c : Char} (hc : c ≠ '\n') : c ∉ tail.toList := by
  obtain rfl | rfl := h
  · simp
  · simpa using hc

theorem int_toString_append (h : IsTail tail) (n : ℕ) : Str.int 10 (toString n ++ tail) = .ok (n : ℤ) := by
  obtain rfl | rfl := h
  · rw [String.append_empty, Str.int_toString]
  · have hdigits : ∀ c ∈ (toString n).toList, Str.isNumSpace c = false := fun c hc => by
      simp [Str.isNumSpace, Str.isSpace_of_isDigit (Str.isDigit_of_mem_toString hc)]
    have htrim : Str.trim Str.isNumSpace (toString n ++ "\n").toList =
        Str.trim Str.isNumSpace (toString n).toList := by
      rw [Str.trim_eq_self hdigits, String.toList_append]
      have hline : ∀ c ∈ "\n".toList, Str.isNumSpace c = true := by simp [Str.isNumSpace, Str.isSpace]
      exact Str.trim_append_append (l := []) (by simp) hdigits hline
    have hchars : Str.intChars? 10 (toString n ++ "\n").toList = Str.intChars? 10 (toString n).toList := by
      rw [Str.intChars?, Str.intChars?, htrim]
    have hint := Str.int_toString n
    rw [Str.int] at hint ⊢
    rw [hchars]
    cases hn : Str.intChars? 10 (toString n).toList with
    | some m => rwa [hn] at hint
    | none =>
      rw [hn] at hint
      cases hint

theorem dash_not_mem_toString (n : ℕ) : '-' ∉ (toString n).toList := Str.not_mem_toString (by decide)

theorem parseOnlineCpus_text (h : IsTail tail) : parseOnlineCpus (r.text ++ tail) = .ok r.cpus := by
  have hle := r.le
  rw [parseOnlineCpus, CpuRange.text]
  by_cases heq : r.first = r.last
  · have hdash : '-' ∉ (toString r.first ++ tail).toList := by
      rw [String.toList_append, List.mem_append, not_or]
      exact ⟨dash_not_mem_toString _, h.not_mem (by decide)⟩
    rw [if_pos heq, if_pos hdash, int_toString_append h]
    have hone : r.cpus = [(r.first : ℤ)] := by
      rw [CpuRange.cpus, ← heq, Nat.add_sub_cancel_left]
      simp
    rw [hone]
    rfl
  · have hdash : ¬ '-' ∉ (toString r.first ++ "-" ++ toString r.last ++ tail).toList := by
      simp
    have hsplit : Str.split '-' (toString r.first ++ "-" ++ toString r.last ++ tail) =
        [toString r.first, toString r.last ++ tail] := by
      have hjoin : toString r.first ++ "-" ++ toString r.last ++ tail =
          Str.join '-' [toString r.first, toString r.last ++ tail] := by
        refine String.toList_inj.mp ?_
        simp [Str.join]
      rw [hjoin]
      refine Str.split_join (by simp) fun s hs => ?_
      simp only [List.mem_cons, List.not_mem_nil, or_false] at hs
      obtain rfl | rfl := hs
      · exact dash_not_mem_toString _
      · rw [String.toList_append, List.mem_append, not_or]
        exact ⟨dash_not_mem_toString _, h.not_mem (by decide)⟩
    rw [if_neg heq, if_neg hdash, hsplit]
    simp only
    rw [Str.int_toString, except_ok_bind, int_toString_append h, except_ok_bind]
    have hcount : ((r.last : ℤ) + 1 - r.first).toNat = r.last + 1 - r.first := by omega
    rw [hcount]
    rfl

/-! ## The whole line -/

theorem join_concat_append (c : Char) (l : List String) (s t : String) :
    Str.join c (l ++ [s]) ++ t = Str.join c (l ++ [s ++ t]) := by
  have hchars : ∀ l : List (List Char), [c].intercalate (l ++ [s.toList]) ++ t.toList =
      [c].intercalate (l ++ [s.toList ++ t.toList]) := by
    intro l
    induction l with
    | nil => simp
    | cons cs l ih =>
      obtain ⟨cs', l', hl⟩ := List.exists_cons_of_ne_nil (l := l ++ [s.toList]) (by simp)
      obtain ⟨cs'', l'', hl''⟩ := List.exists_cons_of_ne_nil (l := l ++ [s.toList ++ t.toList]) (by simp)
      rw [hl, hl''] at ih
      rw [List.cons_append, List.cons_append, hl, hl'', List.intercalate_cons_cons,
        List.intercalate_cons_cons, List.append_assoc, List.append_assoc, ih, List.append_assoc]
  refine String.toList_inj.mp ?_
  simp only [Str.join, String.toList_append, String.toList_ofList, List.map_append, List.map_cons,
    List.map_nil]
  exact hchars _

theorem comma_not_mem_text {r : CpuRange} : ',' ∉ r.text.toList := by
  have hdigits : ∀ n : ℕ, ',' ∉ (toString n).toList := fun n => Str.not_mem_toString (by decide)
  rw [CpuRange.text]
  split
  · exact hdigits _
  · rw [String.toList_append, String.toList_append, List.mem_append, List.mem_append, not_or, not_or]
    exact ⟨⟨hdigits _, by decide⟩, hdigits _⟩

/-- Ranges that do not touch, in increasing order. -/
def Increasing (ranges : List CpuRange) : Prop := ranges.Pairwise fun r r' => r.last < r'.first

/-- The line is read back: the cpus of the ranges, in increasing order. -/
theorem parseOnlineCpusString_onlineText (hne : ranges ≠ []) :
    parseOnlineCpusString (onlineText ranges) = .ok (ranges.flatMap CpuRange.cpus) := by
  obtain ⟨init, last, rfl⟩ := List.eq_nil_or_concat ranges |>.resolve_left hne
  have hsplit : Str.split ',' (onlineText (init.concat last)) =
      init.map CpuRange.text ++ [last.text ++ "\n"] := by
    rw [onlineText, List.concat_eq_append, List.map_append, List.map_singleton, join_concat_append]
    refine Str.split_join (by simp) fun s hs => ?_
    obtain hs | hs := List.mem_append.mp hs
    · obtain ⟨r, -, rfl⟩ := List.mem_map.mp hs
      exact comma_not_mem_text
    · rw [List.mem_singleton.mp hs, String.toList_append, List.mem_append, not_or]
      exact ⟨comma_not_mem_text, by decide⟩
  have hmap : (init.map CpuRange.text ++ [last.text ++ "\n"]).mapM parseOnlineCpus =
      .ok ((init.concat last).map CpuRange.cpus) := by
    rw [except_mapM_ok_iff, List.concat_eq_append, List.map_append]
    refine List.rel_append ?_ (.cons (parseOnlineCpus_text (Or.inr rfl)) .nil)
    rw [List.forall₂_map_right_iff, List.forall₂_map_left_iff, List.forall₂_same]
    intro r _
    have hparse := parseOnlineCpus_text (r := r) (Or.inl rfl)
    rwa [String.append_empty] at hparse
  rw [parseOnlineCpusString, hsplit, hmap, except_ok_bind, List.flatMap_def]
  rfl

theorem pairwise_flatMap_cpus (h : Increasing ranges) :
    (ranges.flatMap CpuRange.cpus).Pairwise (· < ·) := by
  refine List.pairwise_flatMap.mpr ⟨fun r _ => r.pairwise_cpus, h.imp fun hlt cpu hcpu cpu' hcpu' => ?_⟩
  have hcpu := (CpuRange.mem_cpus.mp hcpu).2
  have hcpu' := (CpuRange.mem_cpus.mp hcpu').1
  omega

/-- The file of online cpus always holds a line that the kernel prints. -/
def Environment.Prints (env : Environment) : Prop :=
  ∀ i text, env.online i = .ok text → ∃ ranges, ranges ≠ [] ∧ Increasing ranges ∧ text = onlineText ranges

/-- Then no list of online cpus has a cpu twice. -/
theorem nodup_of_online {env : Environment} (hprints : env.Prints) {cpus : List Cpu}
    (h : Online env cpus) : cpus.Nodup := by
  obtain ⟨i, text, honline, hparse⟩ := h
  obtain ⟨ranges, hne, hincreasing, rfl⟩ := hprints i text honline
  rw [parseOnlineCpusString_onlineText hne] at hparse
  cases hparse
  exact (pairwise_flatMap_cpus hincreasing).imp fun hlt => hlt.ne

end Wca.Perf
