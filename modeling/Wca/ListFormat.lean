import Wca.Platforms

/-!
# The round trip of the list format

A set of natural numbers is read back from its encoding (`decodeListformat_encodeListformat`).
-/

namespace Wca

open Py

theorem mem_toList_encodeListformat {s : Finset ℤ} (h : ∀ n ∈ s, 0 ≤ n) {c : Char}
    (hc : c ∈ (encodeListformat s).toList) : c = ',' ∨ c.isDigit = true := by
  rw [encodeListformat, Str.join, String.toList_ofList] at hc
  refine (Str.mem_intercalate hc).imp_right ?_
  rintro ⟨cs, hcs, hc⟩
  rw [List.map_map, List.mem_map] at hcs
  obtain ⟨n, hn, rfl⟩ := hcs
  obtain ⟨m, rfl⟩ := Int.eq_ofNat_of_zero_le (h n (mem_sorted.mp hn))
  exact Str.isDigit_of_mem_toString hc

theorem strip_encodeListformat {s : Finset ℤ} (h : ∀ n ∈ s, 0 ≤ n) :
    Str.strip (encodeListformat s) = encodeListformat s := by
  refine Str.strip_eq_self fun c hc => ?_
  rcases mem_toList_encodeListformat h hc with rfl | hd
  · decide
  · exact Str.isSpace_of_isDigit hd

theorem decodeRange_toString (cores : Finset ℤ) (n : Nat) :
    decodeRange cores (toString n) = .ok (insert (n : ℤ) cores) := by
  have hsplit : Str.split '-' (toString n) = [toString n] :=
    Str.split_of_not_mem (Str.not_mem_toString (by decide))
  simp only [decodeRange, hsplit, Str.strip_toString, Str.int_toString]
  rfl

/-- The loop over the items of an encoding adds them one by one. -/
theorem foldlM_decodeRange {l : List ℤ} (h : ∀ n ∈ l, 0 ≤ n) (cores : Finset ℤ) :
    (l.map toString).foldlM decodeRange cores = .ok (cores ∪ l.toFinset) := by
  induction l generalizing cores with
  | nil => simp [pure, Except.pure]
  | cons n l ih =>
    obtain ⟨m, rfl⟩ := Int.eq_ofNat_of_zero_le (h n List.mem_cons_self)
    rw [List.map_cons, List.foldlM_cons]
    have hm : toString (m : ℤ) = toString m := rfl
    rw [hm, decodeRange_toString]
    change (l.map toString).foldlM decodeRange _ = _
    rw [ih fun k hk => h k (List.mem_cons_of_mem _ hk), List.toFinset_cons, Finset.insert_union,
      Finset.union_insert]

theorem split_encodeListformat {s : Finset ℤ} (h : ∀ n ∈ s, 0 ≤ n) (hs : s ≠ ∅) :
    Str.split ',' (encodeListformat s) = (sorted s).map toString := by
  refine Str.split_join (by simpa using hs) fun t ht => ?_
  obtain ⟨n, hn, rfl⟩ := List.mem_map.mp ht
  obtain ⟨m, rfl⟩ := Int.eq_ofNat_of_zero_le (h n (mem_sorted.mp hn))
  exact Str.not_mem_toString (by decide)

theorem encodeListformat_ne_empty {s : Finset ℤ} (h : ∀ n ∈ s, 0 ≤ n) (hs : s ≠ ∅) :
    encodeListformat s ≠ "" := by
  intro he
  have hsplit := split_encodeListformat h hs
  rw [he] at hsplit
  obtain ⟨n, l, hl⟩ := List.exists_cons_of_ne_nil (mt sorted_eq_nil_iff.mp hs)
  have hn : n ∈ s := mem_sorted.mp (hl ▸ List.mem_cons_self)
  obtain ⟨m, rfl⟩ := Int.eq_ofNat_of_zero_le (h n hn)
  rw [hl, List.map_cons] at hsplit
  have hempty : "" = toString m := (List.cons.inj hsplit).1
  have : Nat.toDigits 10 m = [] := by rw [← Str.toList_toString, ← hempty]; rfl
  exact Nat.toDigits_ne_nil this

/-- A set of natural numbers is read back from its encoding. -/
theorem decodeListformat_encodeListformat {s : Finset ℤ} (h : ∀ n ∈ s, 0 ≤ n) :
    decodeListformat (encodeListformat s) = .ok s := by
  by_cases hs : s = ∅
  · subst hs
    rfl
  · have hne := encodeListformat_ne_empty h hs
    rw [decodeListformat, if_neg, split_encodeListformat h hs,
      foldlM_decodeRange fun n hn => h n (mem_sorted.mp hn)]
    · congr 1
      ext n
      simp
    · rw [strip_encodeListformat h]
      exact fun h' => h'.elim hne hne

end Wca
