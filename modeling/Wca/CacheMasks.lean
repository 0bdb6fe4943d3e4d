import Mathlib.Data.Nat.BitIndices
import Mathlib.Data.Nat.Bitwise
import Mathlib.Tactic.Ring
import Wca.Rows

/-!
# Cache masks

Which lines of cache masks `validateL3String` accepts, against the lines that are well formed: the
loop over the bits of a mask finds one run of ones, and what `int` reads is more than numerals.
-/

namespace Py.Str

/-! ## Hexadecimal numerals -/

/-- The digits in base 16, the letters small and capital. -/
def hexDigits : List Char := "0123456789abcdefABCDEF".toList

def hexDigitValue (c : Char) : ℕ :=
  let i := hexDigits.idxOf c
  if i < 16 then i else i - 6

theorem digit?_of_mem_hexDigits {c : Char} (h : c ∈ hexDigits) :
    digit? 16 c = some (hexDigitValue c) := by
  have hall : hexDigits.all fun c => decide (digit? 16 c = some (hexDigitValue c)) := by decide
  exact of_decide_eq_true (List.all_eq_true.mp hall c h)

theorem not_special_of_mem_hexDigits {c : Char} (h : c ∈ hexDigits) :
    isSpace c = false ∧ c ≠ '-' ∧ c ≠ '+' ∧ c ≠ '_' ∧ c ≠ 'x' ∧ c ≠ 'X' := by
  have hall : hexDigits.all fun c => decide
      (isSpace c = false ∧ c ≠ '-' ∧ c ≠ '+' ∧ c ≠ '_' ∧ c ≠ 'x' ∧ c ≠ 'X') := by decide
  exact of_decide_eq_true (List.all_eq_true.mp hall c h)

/-- The number that hexadecimal digits stand for. -/
def hexValue (cs : List Char) : ℕ := ofDigits 16 (cs.map hexDigitValue)

theorem hexDigitValue_lt {c : Char} (h : c ∈ hexDigits) : hexDigitValue c < 16 := by
  have hall : hexDigits.all fun c => decide (hexDigitValue c < 16) := by decide
  exact of_decide_eq_true (List.all_eq_true.mp hall c h)

/-- Digits stand for less than the next power of 16. -/
theorem hexValue_lt (cs : List Char) (h : ∀ c ∈ cs, c ∈ hexDigits) :
    hexValue cs < 16 ^ cs.length := by
  suffices hgo : ∀ n, (cs.map hexDigitValue).foldl (fun n d => 16 * n + d) n <
      16 ^ cs.length * (n + 1) by
    have hlt := hgo 0
    rwa [Nat.zero_add, Nat.mul_one] at hlt
  induction cs with
  | nil =>
    intro n
    simp
  | cons c cs ih =>
    intro n
    have hc := hexDigitValue_lt (h c List.mem_cons_self)
    have hnext : 16 * n + hexDigitValue c + 1 ≤ 16 * (n + 1) := by omega
    refine (ih (fun d hd => h d (List.mem_cons_of_mem c hd)) _).trans_le ?_
    rw [List.length_cons, pow_succ, Nat.mul_assoc]
    exact Nat.mul_le_mul_left _ hnext

theorem intChars?_of_hexDigits {cs : List Char} (hne : cs ≠ []) (h : ∀ c ∈ cs, c ∈ hexDigits) :
    intChars? 16 cs = some (hexValue cs : ℤ) := by
  have hsp : ∀ c ∈ cs, isNumSpace c = false := fun c hc => by
    rw [isNumSpace, (not_special_of_mem_hexDigits (h c hc)).1, Bool.false_and]
  have hstarts : dropBasePrefix 16 cs = cs := by
    unfold dropBasePrefix
    split
    · case h_1 x cs =>
      have hx := (not_special_of_mem_hexDigits (h x (by simp))).2.2.2.2
      rw [if_neg fun hc => hc.2.elim hx.1 hx.2]
    · rfl
  have hu : '_' ∉ cs := fun hm => (not_special_of_mem_hexDigits (h _ hm)).2.2.2.1 rfl
  have hf : cs.filter (· ≠ '_') = cs :=
    List.filter_eq_self.mpr fun c hc => decide_eq_true
      (not_special_of_mem_hexDigits (h c hc)).2.2.2.1
  have hdigits : cs.mapM (digit? 16) = some (cs.map hexDigitValue) := by
    clear hne hsp hstarts hu hf
    induction cs with
    | nil => rfl
    | cons c cs ih =>
      rw [List.mapM_cons, digit?_of_mem_hexDigits (h c List.mem_cons_self),
        ih fun d hd => h d (List.mem_cons_of_mem c hd)]
      rfl
  have hbody : natBody? 16 cs = some (hexValue cs) := by
    rw [natBody?, List.splitOn_eq_singleton hu, hf, hdigits, if_pos (by simpa using hne)]
    rfl
  unfold intChars?
  rw [trim_eq_self hsp]
  split
  · exact absurd rfl (not_special_of_mem_hexDigits (h _ List.mem_cons_self)).2.1
  · exact absurd rfl (not_special_of_mem_hexDigits (h _ List.mem_cons_self)).2.2.1
  · rw [hstarts, hbody]
    rfl

end Py.Str

namespace Wca

open Py

/-! ## Runs of ones -/

/-- The number that bits stand for, the most significant one first. -/
def ofBits (bs : List Bool) : ℕ := bs.foldl (fun n b => 2 * n + b.toNat) 0

/-- The ones of the number are one run of the length. -/
def OneRun (n len : ℕ) : Prop := ∃ shift, n = (2 ^ len - 1) * 2 ^ shift

theorem ofBits_append_singleton (bs : List Bool) (b : Bool) :
    ofBits (bs ++ [b]) = 2 * ofBits bs + b.toNat := by
  rw [ofBits, List.foldl_append]
  rfl

theorem bits_two_mul_add {n : ℕ} (hn : 0 < n) (b : Bool) :
    bits (2 * n + b.toNat : ℕ) = bits n ++ [b] := by
  have hdigits := Nat.toDigits_append_toDigits (b := 2) (d := b.toNat) (by decide) hn
    (Bool.toNat_lt b)
  unfold bits
  rw [Int.natAbs_natCast, Int.natAbs_natCast, ← hdigits, List.map_append]
  cases b <;> rfl

/-- A number of more than one bit is the one of its bits but the last, with that bit. -/
theorem exists_two_mul_add {n : ℕ} (hn : 2 ≤ n) : ∃ half b, 0 < half ∧ half < n ∧
    n = 2 * half + Bool.toNat b := by
  refine ⟨n / 2, decide (n % 2 = 1), by omega, by omega, ?_⟩
  rcases Nat.mod_two_eq_zero_or_one n with h | h <;> simp [h] <;> omega

/-- The bits of a number stand for it. -/
theorem ofBits_bits (n : ℕ) : ofBits (bits n) = n := by
  induction n using Nat.strong_induction_on with
  | h n ih =>
    rcases Nat.lt_or_ge n 2 with hlt | hge
    · obtain rfl | rfl : n = 0 ∨ n = 1 := by omega
      · rfl
      · rfl
    · obtain ⟨half, b, hpos, hhalf, hn⟩ := exists_two_mul_add hge
      rw [hn, bits_two_mul_add hpos, ofBits_append_singleton, ih half hhalf]

/-! ### The loop over the bits -/

theorem countSeries_error {s : ℕ × Bool × Bool} {bit : Bool} {e : Exc}
    (h : countSeries s bit = .error e) : e = .InvalidAllocations .maskWithGap := by
  unfold countSeries at h
  dsimp only at h
  split at h
  · split at h
    · cases h
      rfl
    · cases h
  · cases h

theorem foldlM_countSeries_error {bs : List Bool} {s : ℕ × Bool × Bool} {e : Exc}
    (h : bs.foldlM countSeries s = .error e) : e = .InvalidAllocations .maskWithGap := by
  induction bs generalizing s with
  | nil => cases h
  | cons b bs ih =>
    rw [List.foldlM_cons] at h
    rcases except_bind_error_iff.mp h with hb | ⟨s', -, hrest⟩
    · exact countSeries_error hb
    · exact ih hrest

/-- What has been read when the loop is in a state: zeros, a run of ones, or one with zeros after
it. -/
inductive Seen (n : ℕ) : ℕ × Bool × Bool → Prop
  | zeros (h : n = 0) : Seen n (0, false, false)
  | ones {c} (hc : 0 < c) (h : n = 2 ^ c - 1) : Seen n (c, false, true)
  | run {c shift} (hc : 0 < c) (h : n = (2 ^ c - 1) * 2 ^ shift) : Seen n (c, true, false)

theorem Seen.oneRun {n c : ℕ} {finished previous : Bool} (h : Seen n (c, finished, previous)) :
    OneRun n c := by
  cases h with
  | zeros h => exact ⟨0, by simpa using h⟩
  | ones _ h => exact ⟨0, by simpa using h⟩
  | run _ h => exact ⟨_, h⟩

/-- One more bit. -/
theorem Seen.step {n : ℕ} {s s' : ℕ × Bool × Bool} {bit : Bool} (h : Seen n s)
    (hstep : countSeries s bit = .ok s') : Seen (2 * n + bit.toNat) s' := by
  cases h with
  | zeros h =>
    cases bit with
    | false =>
      cases hstep
      exact .zeros (by simp [h])
    | true =>
      cases hstep
      exact .ones Nat.one_pos (by simp [h])
  | @ones c hc h =>
    have hpos : 1 ≤ 2 ^ c := Nat.one_le_two_pow
    cases bit with
    | false =>
      cases hstep
      refine @Seen.run _ c 1 hc ?_
      rw [h, Bool.toNat_false, pow_one, Nat.mul_comm]
      rfl
    | true =>
      cases hstep
      refine .ones (Nat.succ_pos c) ?_
      rw [h, Bool.toNat_true, pow_succ]
      omega
  | @run c shift hc h =>
    cases bit with
    | false =>
      cases hstep
      refine @Seen.run _ c (shift + 1) hc ?_
      rw [h, Bool.toNat_false, pow_succ]
      ring
    | true => cases hstep

theorem oneRun_of_foldlM {bs : List Bool} {c : ℕ} {finished previous : Bool}
    (h : bs.foldlM countSeries (0, false, false) = .ok (c, finished, previous)) :
    OneRun (ofBits bs) c := by
  refine Seen.oneRun (except_foldlM_ok (I := fun pre s => Seen (ofBits pre) s) h (.zeros rfl) ?_)
  intro pre bit post s s' _ hseen hstep
  rw [ofBits_append_singleton]
  exact hseen.step hstep

/-! ### The bits of a run -/

theorem bits_ones (len : ℕ) : bits ((2 ^ (len + 1) - 1 : ℕ) : ℤ) = List.replicate (len + 1) true := by
  induction len with
  | zero => rfl
  | succ len ih =>
    have hpos : 2 ≤ 2 ^ (len + 1) := by
      rw [pow_succ]
      have := Nat.one_le_two_pow (n := len)
      omega
    have hnext : 2 ^ (len + 2) - 1 = 2 * (2 ^ (len + 1) - 1) + true.toNat := by
      rw [Bool.toNat_true, pow_succ 2 (len + 1)]
      omega
    rw [hnext, bits_two_mul_add (by omega), ih, ← List.replicate_succ']

theorem bits_run (len shift : ℕ) : bits (((2 ^ (len + 1) - 1) * 2 ^ shift : ℕ) : ℤ) =
    List.replicate (len + 1) true ++ List.replicate shift false := by
  induction shift with
  | zero => rw [pow_zero, Nat.mul_one, bits_ones, List.replicate_zero, List.append_nil]
  | succ shift ih =>
    have hpos : 0 < (2 ^ (len + 1) - 1) * 2 ^ shift := by
      have hlen : 1 < 2 ^ (len + 1) := Nat.one_lt_two_pow (Nat.succ_ne_zero len)
      exact Nat.mul_pos (by omega) (Nat.two_pow_pos shift)
    have hnext : (2 ^ (len + 1) - 1) * 2 ^ (shift + 1) =
        2 * ((2 ^ (len + 1) - 1) * 2 ^ shift) + false.toNat := by
      rw [Bool.toNat_false, pow_succ]
      ring
    rw [hnext, bits_two_mul_add hpos, ih, List.append_assoc, ← List.replicate_succ']

theorem foldlM_ones (c len : ℕ) (previous : Bool) :
    (List.replicate (len + 1) true).foldlM countSeries (c, false, previous) =
      .ok (c + (len + 1), false, true) := by
  induction len generalizing c previous with
  | zero => rfl
  | succ len ih =>
    rw [List.replicate_succ, List.foldlM_cons]
    refine (ih (c + 1) true).trans ?_
    rw [Nat.add_right_comm]
    rfl

theorem foldlM_zeros (c : ℕ) (shift : ℕ) (finished previous : Bool) :
    ∃ finished' previous', (List.replicate shift false).foldlM countSeries (c, finished, previous) =
      .ok (c, finished', previous') := by
  induction shift generalizing finished previous with
  | zero => exact ⟨finished, previous, rfl⟩
  | succ shift ih =>
    rw [List.replicate_succ, List.foldlM_cons]
    exact ih (finished || previous) false

/-- The loop counts the ones of a run. -/
theorem OneRun.foldlM {n len : ℕ} (h : OneRun n len) :
    ∃ finished previous, (bits n).foldlM countSeries (0, false, false) = .ok (len, finished, previous) := by
  obtain ⟨shift, rfl⟩ := h
  cases len with
  | zero => exact ⟨false, false, by simp [bits]; rfl⟩
  | succ len =>
    rw [bits_run, List.foldlM_append, foldlM_ones, except_ok_bind, Nat.zero_add]
    exact foldlM_zeros (len + 1) shift false true

/-! ## The check of one mask -/

/-- The integer passes: it is not above the mask of the cache with `k` ways, and the ones of its
digits are one run with the minimum of them. A sign is not looked at. -/
def MaskPasses (k : ℕ) (minCbmBits n : ℤ) : Prop :=
  n ≤ 2 ^ k - 1 ∧ ∃ len, OneRun n.natAbs len ∧ minCbmBits ≤ len

variable {k : ℕ} {minCbmBits : ℤ} {cbmMaskText minCbmBitsText mask : String}

/-- Any limit, not only the mask of all ways. -/
theorem checkCbmMask_of_limit {cbmMask n : ℤ} (hcbm : Str.int 16 cbmMaskText = .ok cbmMask)
    (hmin : Str.int 10 minCbmBitsText = .ok minCbmBits) (hn : Str.int 16 mask = .ok n) :
    (checkCbmMask mask cbmMaskText minCbmBitsText = .ok () ↔
        n ≤ cbmMask ∧ ∃ len, OneRun n.natAbs len ∧ minCbmBits ≤ len) ∧
      (¬ (n ≤ cbmMask ∧ ∃ len, OneRun n.natAbs len ∧ minCbmBits ≤ len) →
        ∃ why, checkCbmMask mask cbmMaskText minCbmBitsText = .error (.InvalidAllocations why)) := by
  have hbits : bits n = bits (n.natAbs : ℤ) := rfl
  unfold checkCbmMask
  simp only [hn, hcbm, hmin, liftM_ok, except_ok_bind]
  by_cases hbig : n > cbmMask
  · have hnot : ¬ (n ≤ cbmMask ∧ ∃ len, OneRun n.natAbs len ∧ minCbmBits ≤ len) := fun h => absurd h.1 (not_le.mpr hbig)
    rw [doIf_of hbig]
    exact ⟨iff_of_false (fun h => by cases h) hnot, fun _ => ⟨_, rfl⟩⟩
  rw [doIf_of_not hbig, except_pure, except_ok_bind, hbits]
  cases hfold : (bits (n.natAbs : ℤ)).foldlM countSeries (0, false, false) with
  | error e =>
    -- a run would have been counted
    have hnot : ¬ (n ≤ cbmMask ∧ ∃ len, OneRun n.natAbs len ∧ minCbmBits ≤ len) := by
      rintro ⟨-, len, hrun, -⟩
      obtain ⟨finished, previous, hok⟩ := hrun.foldlM
      rw [hfold] at hok
      cases hok
    rw [foldlM_countSeries_error hfold, except_error_bind]
    exact ⟨iff_of_false (fun h => by cases h) hnot, fun _ => ⟨_, rfl⟩⟩
  | ok s =>
    obtain ⟨c, finished, previous⟩ := s
    have hrun : OneRun n.natAbs c := by
      have hones := oneRun_of_foldlM hfold
      rwa [ofBits_bits] at hones
    have hpasses : (n ≤ cbmMask ∧ ∃ len, OneRun n.natAbs len ∧ minCbmBits ≤ len) ↔
        minCbmBits ≤ c := by
      refine ⟨?_, fun h => ⟨not_lt.mp hbig, c, hrun, h⟩⟩
      rintro ⟨-, len, hlen, hle⟩
      obtain ⟨finished', previous', hok⟩ := hlen.foldlM
      rw [hfold] at hok
      cases hok
      exact hle
    rw [hpasses, except_ok_bind]
    dsimp only
    by_cases hfew : (c : ℤ) < minCbmBits
    · rw [doIf_of hfew]
      exact ⟨iff_of_false (fun h => by cases h) (not_le.mpr hfew), fun _ => ⟨_, rfl⟩⟩
    · rw [doIf_of_not hfew]
      exact ⟨iff_of_true rfl (not_lt.mp hfew), fun h => absurd (not_lt.mp hfew) h⟩

theorem checkCbmMask_of_int {n : ℤ} (hcbm : Str.int 16 cbmMaskText = .ok (2 ^ k - 1))
    (hmin : Str.int 10 minCbmBitsText = .ok minCbmBits) (hn : Str.int 16 mask = .ok n) :
    (checkCbmMask mask cbmMaskText minCbmBitsText = .ok () ↔ MaskPasses k minCbmBits n) ∧
      (¬ MaskPasses k minCbmBits n →
        ∃ why, checkCbmMask mask cbmMaskText minCbmBitsText = .error (.InvalidAllocations why)) :=
  checkCbmMask_of_limit hcbm hmin hn

theorem checkCbmMask_of_not_int (hmask : ∀ n, Str.int 16 mask ≠ .ok n) :
    ∃ msg, checkCbmMask mask cbmMaskText minCbmBitsText = .error (.builtin (.ValueError msg)) := by
  cases hn : Str.int 16 mask with
  | ok n => exact absurd hn (hmask n)
  | error e =>
    obtain ⟨msg, rfl⟩ := Str.int_error hn
    refine ⟨msg, ?_⟩
    simp only [checkCbmMask, hn]
    rfl

/-! ### Counting ones -/

/-- `_count_enabled_bits`. The sign that `bin` puts in front has no ones. -/
def countEnabledBits (hexstr : String) : Except Exn ℕ :=
  if hexstr = "" then .ok 0
  else do
    let valueInt ← Str.int 16 hexstr
    return (bits valueInt).count true

theorem count_bits (n : ℕ) : (bits n).count true = n.bitIndices.length := by
  induction n using Nat.strong_induction_on with
  | _ n ih =>
    rcases Nat.lt_or_ge n 2 with hlt | hge
    · obtain rfl | rfl : n = 0 ∨ n = 1 := by omega
      · rw [Nat.bitIndices_zero]
        rfl
      · rw [Nat.bitIndices_one]
        rfl
    · obtain ⟨half, b, hpos, hhalf, hn⟩ := exists_two_mul_add hge
      rw [hn, bits_two_mul_add hpos, List.count_append, ih half hhalf]
      cases b <;> simp

/-- The ones of a run are as many as it is long. -/
theorem OneRun.count_bits {n len : ℕ} (h : OneRun n len) : (bits n).count true = len := by
  obtain ⟨shift, rfl⟩ := h
  cases len with
  | zero => simp [bits]
  | succ len =>
    rw [bits_run, List.count_append, List.count_replicate_self, List.count_replicate]
    rfl

/-- A mask passes exactly when it is not above the limit, has the minimum of ones and these are one
run. Then it is a part of a limit that has only ones, and the length of the run is counted. -/
theorem checkCbmMask_run_iff {m c : ℕ} (hmask : Str.int 16 mask = .ok (m : ℤ))
    (hcbm : Str.int 16 cbmMaskText = .ok (c : ℤ))
    (hmin : Str.int 10 minCbmBitsText = .ok minCbmBits) :
    (checkCbmMask mask cbmMaskText minCbmBitsText = .ok () ↔
      m ≤ c ∧ minCbmBits ≤ m.bitIndices.length ∧ ∃ len, OneRun m len) ∧
    (checkCbmMask mask cbmMaskText minCbmBitsText = .ok () →
      (∀ n, c = 2 ^ n - 1 → m &&& c = m) ∧
        ∀ len, OneRun m len → countEnabledBits mask = .ok len) := by
  have hlen : ∀ {len}, OneRun m len → m.bitIndices.length = len := fun hrun =>
    (Wca.count_bits m).symm.trans hrun.count_bits
  have hok : checkCbmMask mask cbmMaskText minCbmBitsText = .ok () ↔
      m ≤ c ∧ minCbmBits ≤ m.bitIndices.length ∧ ∃ len, OneRun m len := by
    rw [(checkCbmMask_of_limit hcbm hmin hmask).1, Int.natAbs_natCast, Int.ofNat_le]
    refine and_congr_right fun _ => ⟨?_, ?_⟩
    · rintro ⟨len, hrun, hle⟩
      exact ⟨by rwa [hlen hrun], len, hrun⟩
    · rintro ⟨hle, len, hrun⟩
      exact ⟨len, hrun, by rwa [hlen hrun] at hle⟩
  refine ⟨hok, fun hpasses => ⟨?_, fun len hrun => ?_⟩⟩
  · rintro n rfl
    have hle := (hok.mp hpasses).1
    have hpos := Nat.two_pow_pos n
    rw [Nat.and_two_pow_sub_one_eq_mod, Nat.mod_eq_of_lt (by omega)]
  · have hne : mask ≠ "" := by
      rintro rfl
      cases hmask
    rw [countEnabledBits, if_neg hne, hmask, except_ok_bind, hrun.count_bits, except_pure]

/-- Two of the four ways, with a prefix and without one. -/
theorem checkCbmMask_run_iff_twoWays :
    (checkCbmMask "0xC" "f" "2" = .ok () ↔
      12 ≤ 15 ∧ (2 : ℤ) ≤ (12 : ℕ).bitIndices.length ∧ ∃ len, OneRun 12 len) ∧
    (checkCbmMask "0xC" "f" "2" = .ok () →
      (∀ n, 15 = 2 ^ n - 1 → 12 &&& 15 = 12) ∧
        ∀ len, OneRun 12 len → countEnabledBits "0xC" = .ok len) :=
  checkCbmMask_run_iff (by decide) (by decide) (by decide)

/-! ## The lines that are well formed -/

/-- A decimal numeral. -/
def IsDecimal (s : String) : Prop := s ≠ "" ∧ ∀ c ∈ s.toList, c.isDigit = true

def decimalValue (s : String) : ℕ := Nat.ofDigitChars 10 s.toList 0

/-- A hexadecimal numeral, without a sign. -/
def IsHex (s : String) : Prop := s ≠ "" ∧ ∀ c ∈ s.toList, c ∈ Str.hexDigits

def hexValue (s : String) : ℕ := Str.hexValue s.toList

/-- The items of a well-formed cache allocation: distinct sockets, each with a part of the mask of
the cache in which the ones are one run of the minimum length or longer. -/
structure WellFormedL3 (sockets k : ℕ) (minCbmBits : ℤ) (items : List (String × String)) : Prop where
  nonempty : items ≠ []
  domains : ∀ item ∈ items, IsDecimal item.1 ∧ decimalValue item.1 < sockets
  distinct : (items.map fun item => decimalValue item.1).Nodup
  masks : ∀ item ∈ items, IsHex item.2 ∧ hexValue item.2 &&& (2 ^ k - 1) = hexValue item.2 ∧
    ∃ len, OneRun (hexValue item.2) len ∧ minCbmBits ≤ len

/-- The line is a well-formed cache allocation. -/
def IsL3 (l3 : String) (sockets k : ℕ) (minCbmBits : ℤ) : Prop :=
  ∃ items, WellFormedL3 sockets k minCbmBits items ∧
    l3 = "L3:" ++ Str.join ';' (items.map itemText)

theorem IsDecimal.int {s : String} (h : IsDecimal s) : Str.int 10 s = .ok (decimalValue s : ℤ) := by
  rw [Str.int, Str.intChars?_of_isDigit (mt String.toList_eq_nil_iff.mp h.1) h.2]
  rfl

theorem IsHex.int {s : String} (h : IsHex s) : Str.int 16 s = .ok (hexValue s : ℤ) := by
  rw [Str.int, Str.intChars?_of_hexDigits (mt String.toList_eq_nil_iff.mp h.1) h.2]
  rfl

/-- A part of the mask of the cache is a number that is not above it. -/
theorem maskPasses_natCast {n : ℕ} : MaskPasses k minCbmBits n ↔
    n &&& (2 ^ k - 1) = n ∧ ∃ len, OneRun n len ∧ minCbmBits ≤ len := by
  have hle : (n : ℤ) ≤ 2 ^ k - 1 ↔ n < 2 ^ k := by
    rw [Int.le_sub_one_iff]
    exact_mod_cast Iff.rfl
  have hand : n &&& (2 ^ k - 1) = n ↔ n < 2 ^ k := by
    rw [Nat.and_two_pow_sub_one_eq_mod]
    exact ⟨fun h => h ▸ Nat.mod_lt n (Nat.two_pow_pos k), Nat.mod_eq_of_lt⟩
  rw [MaskPasses, hle, hand, Int.natAbs_natCast]

/-! ### What the code makes of a line -/

/-- The id of a domain is that of a socket. -/
def DomainInRange (sockets : ℕ) (domain : String) : Prop :=
  ∃ n, Str.int 10 domain = .ok n ∧ 0 ≤ n ∧ n < sockets

theorem validateDomain_ok_iff {sockets : ℕ} {domain : String} :
    validateDomain sockets domain = .ok () ↔ DomainInRange sockets domain := by
  unfold validateDomain DomainInRange
  cases hd : Str.int 10 domain with
  | error e => simp [invalid]
  | ok n =>
    by_cases hr : 0 ≤ n ∧ n < sockets
    · simp [hr]
    · simp [hr, invalid]

theorem validateDomain_error {sockets : ℕ} {domain : String} {e : Exc}
    (h : validateDomain sockets domain = .error e) : ∃ why, e = .InvalidAllocations why := by
  unfold validateDomain at h
  split at h
  · split at h
    · cases h
    · cases h
      exact ⟨_, rfl⟩
  · cases h
    exact ⟨_, rfl⟩

/-- Numerals hold no separator. -/
theorem IsDecimal.not_mem {s : String} (h : IsDecimal s) {c : Char} (hc : c.isDigit = false) :
    c ∉ s.toList := fun hm => Bool.noConfusion (hc.symm.trans (h.2 c hm))

theorem IsHex.not_mem {s : String} (h : IsHex s) {c : Char} (hc : c ∉ Str.hexDigits) :
    c ∉ s.toList := fun hm => hc (h.2 c hm)

/-- The items are written in numerals, and no two of them name one socket. -/
def PlainItems (items : List (String × String)) : Prop :=
  (∀ item ∈ items, IsDecimal item.1 ∧ IsHex item.2) ∧
    (items.map fun item => decimalValue item.1).Nodup

theorem WellFormedL3.plainItems {sockets : ℕ} {items : List (String × String)}
    (h : WellFormedL3 sockets k minCbmBits items) : PlainItems items :=
  ⟨fun item hitem => ⟨(h.domains item hitem).1, (h.masks item hitem).1⟩, h.distinct⟩

/-- A well-formed line is read as its items. -/
theorem WellFormedL3.parse {sockets : ℕ} {items : List (String × String)}
    (h : WellFormedL3 sockets k minCbmBits items) :
    ∃ row, parseSchemataFileRow ("L3:" ++ Str.join ';' (items.map itemText)) = .ok row ∧
      row.items = items := by
  have hkeys : (items.map Prod.fst).Nodup := by
    have hdistinct := h.distinct
    rw [show (fun item : String × String => decimalValue item.1) = decimalValue ∘ Prod.fst from rfl,
      ← List.map_map] at hdistinct
    exact hdistinct.of_map decimalValue
  refine ⟨⟨items, hkeys⟩, @parse_join "L3" items (by decide) h.nonempty hkeys (fun item hitem => ?_)
    fun item hitem => ?_, rfl⟩
  · exact ⟨(h.domains item hitem).1.1, (h.masks item hitem).1.1,
      (h.domains item hitem).1.not_mem (by decide)⟩
  · exact ⟨(h.domains item hitem).1.not_mem (by decide), (h.masks item hitem).1.not_mem (by decide)⟩

/-- The integer of a mask passes. -/
def MaskOk (k : ℕ) (minCbmBits : ℤ) (mask : String) : Prop :=
  ∃ n, Str.int 16 mask = .ok n ∧ MaskPasses k minCbmBits n

/-- Some domain is none of a socket, or some mask does not pass and no mask before it is refused by
`int`. -/
def RefusedRow (sockets k : ℕ) (minCbmBits : ℤ) (row : Row) : Prop :=
  (∃ domain ∈ row.keys, ¬ DomainInRange sockets domain) ∨
    ∃ pre mask post, row.values = pre ++ mask :: post ∧ (∀ m ∈ pre, ∃ n, Str.int 16 m = .ok n) ∧
      ∃ n, Str.int 16 mask = .ok n ∧ ¬ MaskPasses k minCbmBits n

section Validate

variable {sockets : ℕ} {l3 : String}

theorem checkCbmMask_ok_iff (hcbm : Str.int 16 cbmMaskText = .ok (2 ^ k - 1))
    (hmin : Str.int 10 minCbmBitsText = .ok minCbmBits) :
    checkCbmMask mask cbmMaskText minCbmBitsText = .ok () ↔ MaskOk k minCbmBits mask := by
  constructor
  · intro hok
    by_cases hint : ∃ n, Str.int 16 mask = .ok n
    · obtain ⟨n, hn⟩ := hint
      exact ⟨n, hn, (checkCbmMask_of_int hcbm hmin hn).1.mp hok⟩
    · obtain ⟨msg, herror⟩ := checkCbmMask_of_not_int (not_exists.mp hint)
      rw [herror] at hok
      cases hok
  · rintro ⟨n, hn, hpasses⟩
    exact (checkCbmMask_of_int hcbm hmin hn).1.mpr hpasses

/-- A line with the prefix is parsed, then its domains are checked, then its masks. -/
theorem validateL3String_of_startsWith (hstarts : Str.startsWith "L3:" l3 = true) :
    validateL3String l3 sockets (some cbmMaskText) (some minCbmBitsText) = (do
      let domains ← parseSchemataFileRow l3
      validateDomains domains.keys sockets
      forM domains.values fun mask => checkCbmMask mask cbmMaskText minCbmBitsText) := by
  rw [validateL3String, doIf_of_not (not_not.mpr hstarts), except_pure, except_ok_bind]

theorem validateL3String_of_not_startsWith (hstarts : Str.startsWith "L3:" l3 = false) :
    validateL3String l3 sockets (some cbmMaskText) (some minCbmBitsText) =
      .error (.InvalidAllocations (.l3Prefix l3)) := by
  rw [validateL3String, doIf_of (by simpa using hstarts)]
  rfl

theorem validateL3String_ok_iff (hcbm : Str.int 16 cbmMaskText = .ok (2 ^ k - 1))
    (hmin : Str.int 10 minCbmBitsText = .ok minCbmBits) :
    validateL3String l3 sockets (some cbmMaskText) (some minCbmBitsText) = .ok () ↔
      Str.startsWith "L3:" l3 = true ∧ ∃ row, parseSchemataFileRow l3 = .ok row ∧
        (∀ domain ∈ row.keys, DomainInRange sockets domain) ∧
        ∀ mask ∈ row.values, MaskOk k minCbmBits mask := by
  cases hstarts : Str.startsWith "L3:" l3 with
  | false => simp [validateL3String_of_not_startsWith hstarts]
  | true =>
    rw [validateL3String_of_startsWith hstarts, except_bind_ok_iff]
    simp only [liftM_ok_iff, validateDomains, except_seq_ok_iff, except_forM_ok_iff,
      validateDomain_ok_iff, checkCbmMask_ok_iff hcbm hmin, true_and]

theorem validateDomains_error {domains : List String} {e : Exc}
    (h : validateDomains domains sockets = .error e) :
    (∃ domain ∈ domains, ¬ DomainInRange sockets domain) ∧ ∃ why, e = .InvalidAllocations why := by
  obtain ⟨pre, domain, post, rfl, -, herror⟩ := except_forM_error_iff.mp h
  refine ⟨⟨domain, List.mem_append_right _ List.mem_cons_self, fun hin => ?_⟩,
    validateDomain_error herror⟩
  rw [validateDomain_ok_iff.mpr hin] at herror
  cases herror

/-- Two masks that each end the loop: the first one is the one that `int` reads. -/
theorem reads_first {masks pre post pre' post' : List String} {mask' : String}
    (h : masks = pre ++ mask :: post) (h' : masks = pre' ++ mask' :: post')
    (hpre : ∀ m ∈ pre, ∃ n, Str.int 16 m = .ok n) (hmask : ∃ n, Str.int 16 mask = .ok n)
    (hnot : mask ∉ pre') : ∃ n, Str.int 16 mask' = .ok n := by
  rw [h] at h'
  rcases List.append_eq_append_iff.mp h' with ⟨l, hpre', hrest⟩ | ⟨l, hpre', hrest⟩
  · cases l with
    | nil =>
      obtain ⟨rfl, -⟩ := List.cons.inj hrest
      exact hmask
    | cons m l =>
      obtain ⟨rfl, -⟩ := List.cons.inj hrest
      exact absurd (hpre' ▸ List.mem_append_right _ List.mem_cons_self) hnot
  · cases l with
    | nil =>
      obtain ⟨rfl, -⟩ := List.cons.inj hrest
      exact hmask
    | cons m l =>
      obtain ⟨rfl, -⟩ := List.cons.inj hrest
      exact hpre mask' (hpre' ▸ List.mem_append_right _ List.mem_cons_self)

theorem validateL3String_invalid_iff (hcbm : Str.int 16 cbmMaskText = .ok (2 ^ k - 1))
    (hmin : Str.int 10 minCbmBitsText = .ok minCbmBits) :
    (∃ why, validateL3String l3 sockets (some cbmMaskText) (some minCbmBitsText) =
      .error (.InvalidAllocations why)) ↔
      Str.startsWith "L3:" l3 = false ∨ ∃ row, parseSchemataFileRow l3 = .ok row ∧
        RefusedRow sockets k minCbmBits row := by
  cases hstarts : Str.startsWith "L3:" l3 with
  | false => simp [validateL3String_of_not_startsWith hstarts]
  | true =>
    rw [validateL3String_of_startsWith hstarts]
    simp only [Bool.true_eq_false, false_or]
    constructor
    · rintro ⟨why, herror⟩
      rcases except_bind_error_iff.mp herror with hparse | ⟨row, hparse, herror⟩
      · obtain ⟨e, -, he⟩ := liftM_error_iff.mp hparse
        cases he
      refine ⟨row, liftM_ok_iff.mp hparse, ?_⟩
      rcases except_bind_error_iff.mp herror with hdomains | ⟨_, -, hmasks⟩
      · exact .inl (validateDomains_error hdomains).1
      · obtain ⟨pre, mask, post, hvalues, hpre, hmask⟩ := except_forM_error_iff.mp hmasks
        refine .inr ⟨pre, mask, post, hvalues, fun m hm => ?_, ?_⟩
        · obtain ⟨n, hn, -⟩ := (checkCbmMask_ok_iff hcbm hmin).mp (hpre m hm)
          exact ⟨n, hn⟩
        · by_cases hint : ∃ n, Str.int 16 mask = .ok n
          · obtain ⟨n, hn⟩ := hint
            refine ⟨n, hn, fun hpasses => ?_⟩
            rw [(checkCbmMask_of_int hcbm hmin hn).1.mpr hpasses] at hmask
            cases hmask
          · obtain ⟨msg, hvalue⟩ := checkCbmMask_of_not_int (not_exists.mp hint)
            rw [hvalue] at hmask
            cases hmask
    · rintro ⟨row, hparse, hrefused⟩
      rw [hparse, liftM_ok, except_ok_bind]
      cases hdomains : validateDomains row.keys sockets with
      | error e =>
        obtain ⟨-, why, rfl⟩ := validateDomains_error hdomains
        exact ⟨why, rfl⟩
      | ok u =>
        have hall : ∀ domain ∈ row.keys, DomainInRange sockets domain := fun domain hd =>
          validateDomain_ok_iff.mp (except_forM_ok_iff.mp hdomains domain hd)
        rcases hrefused with ⟨domain, hd, hnot⟩ | ⟨pre, mask, post, hvalues, hpre, n, hn, hnot⟩
        · exact absurd (hall domain hd) hnot
        have hcheck := checkCbmMask_of_int hcbm hmin hn
        have hmem : mask ∈ row.values := hvalues ▸ List.mem_append_right _ List.mem_cons_self
        rw [except_ok_bind]
        cases hmasks : forM row.values fun mask => checkCbmMask mask cbmMaskText minCbmBitsText with
        | ok u => exact absurd (hcheck.1.mp (except_forM_ok_iff.mp hmasks mask hmem)) hnot
        | error e =>
          obtain ⟨pre', mask', post', hvalues', hpre', hmask'⟩ := except_forM_error_iff.mp hmasks
          obtain ⟨n', hn'⟩ := reads_first hvalues hvalues' hpre ⟨n, hn⟩ fun hin =>
            hnot (hcheck.1.mp (hpre' mask hin))
          have hcheck' := checkCbmMask_of_int hcbm hmin hn'
          obtain ⟨why, hwhy⟩ := hcheck'.2 fun hpasses => by
            rw [hcheck'.1.mpr hpasses] at hmask'
            cases hmask'
          rw [hwhy] at hmask'
          cases hmask'
          exact ⟨why, rfl⟩

/-- A well-formed line passes. -/
theorem IsL3.returns (hcbm : Str.int 16 cbmMaskText = .ok (2 ^ k - 1))
    (hmin : Str.int 10 minCbmBitsText = .ok minCbmBits) (h : IsL3 l3 sockets k minCbmBits) :
    validateL3String l3 sockets (some cbmMaskText) (some minCbmBitsText) = .ok () := by
  obtain ⟨items, hitems, rfl⟩ := h
  obtain ⟨row, hparse, hrow⟩ := hitems.parse
  refine (validateL3String_ok_iff hcbm hmin).mpr
    ⟨Str.startsWith_append _ _, row, hparse, fun domain hd => ?_, fun mask hm => ?_⟩
  · obtain ⟨item, hitem, rfl⟩ := List.mem_map.mp hd
    rw [hrow] at hitem
    obtain ⟨hdecimal, hlt⟩ := hitems.domains item hitem
    exact ⟨_, hdecimal.int, Int.natCast_nonneg _, by exact_mod_cast hlt⟩
  · obtain ⟨item, hitem, rfl⟩ := List.mem_map.mp hm
    rw [hrow] at hitem
    obtain ⟨hhex, hmask⟩ := hitems.masks item hitem
    exact ⟨_, hhex.int, maskPasses_natCast.mpr hmask⟩

/-- A line in plain items that passes is well formed. -/
theorem isL3_of_plainItems {row : Row} (hstarts : Str.startsWith "L3:" l3 = true)
    (hparse : parseSchemataFileRow l3 = .ok row) (hplain : PlainItems row.items)
    (hdomains : ∀ domain ∈ row.keys, DomainInRange sockets domain)
    (hmasks : ∀ mask ∈ row.values, MaskOk k minCbmBits mask) : IsL3 l3 sockets k minCbmBits := by
  obtain ⟨rest, rfl⟩ := Str.exists_of_startsWith hstarts
  obtain ⟨hrest, hne, -⟩ := @item_of_parse "L3" rest row (by decide) hparse
  refine ⟨row.items, ⟨hne, fun item hitem => ?_, hplain.2, fun item hitem => ?_⟩, ?_⟩
  · have hdecimal := (hplain.1 item hitem).1
    obtain ⟨n, hn, -, hlt⟩ := hdomains item.1 (List.mem_map_of_mem hitem)
    rw [hdecimal.int] at hn
    cases hn
    exact ⟨hdecimal, by exact_mod_cast hlt⟩
  · have hhex := (hplain.1 item hitem).2
    obtain ⟨n, hn, hpasses⟩ := hmasks item.2 (List.mem_map_of_mem hitem)
    rw [hhex.int] at hn
    cases hn
    exact ⟨hhex, maskPasses_natCast.mp hpasses⟩
  · rw [← hrest]

/-- The check agrees with the grammar on a line: it passes the well-formed ones, and takes every
other line for an invalid allocation. -/
def AgreesWithL3 (l3 : String) (sockets : ℕ) (cbmMaskText minCbmBitsText : String) (k : ℕ)
    (minCbmBits : ℤ) : Prop :=
  (validateL3String l3 sockets (some cbmMaskText) (some minCbmBitsText) = .ok () ↔
    IsL3 l3 sockets k minCbmBits) ∧
  (¬ IsL3 l3 sockets k minCbmBits →
    ∃ why, validateL3String l3 sockets (some cbmMaskText) (some minCbmBitsText) =
      .error (.InvalidAllocations why))

end Validate

end Wca
