import Mathlib.Data.Rat.Floor
import Mathlib.Algebra.Order.Field.Rat
import Mathlib.Tactic.Linarith
import Mathlib.Tactic.NormNum
import Mathlib.Data.Finset.Max
import Mathlib.Data.List.Sort

/-!
# Numbers

A number is a `bool`, an `int` or a `float`. The finite floats are exact rationals: there is no
rounding and no overflow. The three special floats are there, with the comparisons and conversions
they have.
-/

namespace Py

/-- The exceptions of the language and of its standard library. -/
inductive Exn where
  | AssertionError (msg : String)
  | ValueError (msg : String)
  | IndexError (msg : String)
  | KeyError
  | TypeError (msg : String)
  | OverflowError (msg : String)
  | ZeroDivisionError (msg : String)
  | AttributeError (msg : String)
  | FileNotFoundError (path : String)
  | OSError (msg : String)
  | RuntimeError (msg : String)
  deriving DecidableEq, Repr

/-- A float. -/
inductive Flt where
  | nan
  | inf
  | negInf
  | rat (q : ℚ)
  deriving DecidableEq

namespace Flt

/-- `a < b`; every comparison with a nan is false. -/
def lt : Flt → Flt → Bool
  | .nan, _ | _, .nan => false
  | .negInf, .negInf => false
  | .negInf, _ => true
  | _, .negInf => false
  | .inf, _ => false
  | .rat _, .inf => true
  | .rat a, .rat b => a < b

@[simp] theorem lt_rat {a b : ℚ} : lt (.rat a) (.rat b) = true ↔ a < b := by simp [lt]

/-- `a >= b`, which a nan makes false as well. -/
def ge : Flt → Flt → Bool
  | .nan, _ | _, .nan => false
  | a, b => !lt a b

@[simp] theorem ge_rat {a b : ℚ} : ge (.rat a) (.rat b) = true ↔ b ≤ a := by simp [ge, lt]

def mul : Flt → Flt → Flt
  | .nan, _ | _, .nan => .nan
  | .rat a, .rat b => .rat (a * b)
  | .rat a, b => if a = 0 then .nan else if 0 < a then b else neg b
  | a, .rat b => if b = 0 then .nan else if 0 < b then a else neg a
  | .inf, .inf | .negInf, .negInf => .inf
  | .inf, .negInf | .negInf, .inf => .negInf
where
  neg : Flt → Flt
    | .inf => .negInf
    | .negInf => .inf
    | x => x

/-- Only two finite floats have a finite product. -/
theorem mul_rat_eq_rat {x : Flt} {m : ℚ} : (∃ q, x.mul (.rat m) = .rat q) ↔ ∃ q, x = .rat q := by
  cases x with
  | rat a => exact iff_of_true ⟨a * m, rfl⟩ ⟨a, rfl⟩
  | nan => simp [mul]
  | inf | negInf =>
    refine iff_of_false ?_ (by simp)
    rintro ⟨q, hq⟩
    simp only [mul, mul.neg] at hq
    split at hq
    · cases hq
    · split at hq <;> cases hq

/-- `a / b`. -/
def truediv : Flt → Flt → Except Exn Flt
  | _, .rat 0 => .error (.ZeroDivisionError "float division by zero")
  | .nan, _ | _, .nan => .ok .nan
  | .rat a, .rat b => .ok (.rat (a / b))
  | .rat _, _ => .ok (.rat 0)
  | a, .rat b => .ok (if 0 < b then a else mul.neg a)
  | _, _ => .ok .nan

theorem truediv_rat {a b : ℚ} (h : b ≠ 0) : truediv (.rat a) (.rat b) = .ok (.rat (a / b)) := by
  unfold truediv
  split
  · rename_i heq; exact absurd (Flt.rat.inj heq) h
  all_goals simp_all

/-- The relative tolerance `math.isclose` has by default. -/
def relTol : ℚ := 1 / 1000000000

/-- `math.isclose(a, b, abs_tol=absTol)`. -/
def isclose (a b : Flt) (absTol : ℚ) : Bool :=
  match a, b with
  | .rat a, .rat b =>
    a = b || |b - a| ≤ |relTol * b| || |b - a| ≤ |relTol * a| || |b - a| ≤ absTol
  | .inf, .inf | .negInf, .negInf => true
  | _, _ => false

theorem isclose_rat {a b absTol : ℚ} :
    isclose (.rat a) (.rat b) absTol = true ↔
      a = b ∨ |b - a| ≤ |relTol * b| ∨ |b - a| ≤ |relTol * a| ∨ |b - a| ≤ absTol := by
  simp [isclose, or_assoc]

theorem isclose_self {a : ℚ} {absTol : ℚ} : isclose (.rat a) (.rat a) absTol = true :=
  isclose_rat.mpr (.inl rfl)

/-- Close up to the absolute tolerance. -/
theorem isclose_of_abs_le {a b absTol : ℚ} (h : |b - a| ≤ absTol) :
    isclose (.rat a) (.rat b) absTol = true :=
  isclose_rat.mpr (.inr (.inr (.inr h)))

/-- Up to an absolute tolerance that no relative one of the two numbers exceeds, being close is
the absolute distance alone. -/
theorem isclose_iff_abs_le {a b absTol : ℚ} (h0 : 0 ≤ absTol) (ha : |relTol * a| ≤ absTol)
    (hb : |relTol * b| ≤ absTol) :
    isclose (.rat a) (.rat b) absTol = true ↔ |b - a| ≤ absTol := by
  rw [isclose_rat]
  constructor
  · rintro (rfl | h | h | h)
    · simpa using h0
    · exact h.trans hb
    · exact h.trans ha
    · exact h
  · exact fun h => .inr (.inr (.inr h))

/-- `int(x)`: towards zero. -/
def toInt : Flt → Except Exn ℤ
  | .nan => .error (.ValueError "cannot convert float NaN to integer")
  | .inf | .negInf => .error (.OverflowError "cannot convert float infinity to integer")
  | .rat q => .ok (if 0 ≤ q then ⌊q⌋ else ⌈q⌉)

theorem toInt_rat_of_nonneg {q : ℚ} (h : 0 ≤ q) : toInt (.rat q) = .ok ⌊q⌋ := by
  simp [toInt, h]

/-- A float other than the three special ones. -/
def IsFinite : Flt → Prop
  | .rat _ => True
  | _ => False

instance : DecidablePred IsFinite := fun x => by
  cases x <;> simp only [IsFinite] <;> infer_instance

end Flt

/-- A value of one of the numeric types. -/
inductive Number where
  | bool (b : Bool)
  | int (n : ℤ)
  | float (x : Flt)
  deriving DecidableEq

namespace Number

/-- The value as a float, which comparisons between the types go by. -/
def val : Number → Flt
  | .bool b => .rat (if b then 1 else 0)
  | .int n => .rat n
  | .float x => x

/-- Multiplication: of two integral numbers an `int`, otherwise a `float`. -/
def mul : Number → Number → Number
  | .float x, b => .float (x.mul b.val)
  | a, .float y => .float (a.val.mul y)
  | .bool a, .bool b => .int (a.toInt * b.toInt)
  | .bool a, .int n => .int (a.toInt * n)
  | .int m, .bool b => .int (m * b.toInt)
  | .int m, .int n => .int (m * n)

/-- `int(x)`. -/
def toInt : Number → Except Exn ℤ
  | .bool b => .ok b.toInt
  | .int n => .ok n
  | .float x => x.toInt

theorem val_mul {a b : Number} : (a.mul b).val = a.val.mul b.val := by
  rcases a with (_ | _) | m | x <;> rcases b with (_ | _) | n | y <;>
    simp [mul, val, Flt.mul, Bool.toInt]

theorem toInt_eq {a : Number} {q : ℚ} (h : a.val = .rat q) (h0 : 0 ≤ q) : a.toInt = .ok ⌊q⌋ := by
  cases a with
  | bool b => cases b <;> cases h <;> simp [toInt, Bool.toInt]
  | int n =>
    simp only [val, Flt.rat.injEq] at h
    simp [toInt, ← h]
  | float x =>
    change x = .rat q at h
    subst h
    exact Flt.toInt_rat_of_nonneg h0

theorem toInt_returns_iff {a : Number} : (∃ n, a.toInt = .ok n) ↔ ∃ q, a.val = .rat q := by
  cases a with
  | bool b => exact iff_of_true ⟨_, rfl⟩ ⟨_, rfl⟩
  | int n => exact iff_of_true ⟨n, rfl⟩ ⟨n, rfl⟩
  | float x => cases x <;> simp [toInt, Flt.toInt, val]

/-- Multiplying by a finite number neither makes a number finite nor takes that from it. -/
theorem mul_toInt_returns_iff {a b : Number} {m : ℚ} (hb : b.val = .rat m) :
    (∃ n, (a.mul b).toInt = .ok n) ↔ ∃ q, a.val = .rat q := by
  rw [toInt_returns_iff, val_mul, hb, Flt.mul_rat_eq_rat]

end Number

/-! ## Rounding -/

/-- `round(q)`: to the nearest integer, to an even one of two as near. -/
def roundHalfEven (q : ℚ) : ℤ :=
  if q - ⌊q⌋ < 1 / 2 ∨ q - ⌊q⌋ = 1 / 2 ∧ ⌊q⌋ % 2 = 0 then ⌊q⌋ else ⌊q⌋ + 1

theorem roundHalfEven_le_iff {q : ℚ} {k : ℤ} :
    roundHalfEven q ≤ k ↔ q < k + 1 / 2 ∨ q = k + 1 / 2 ∧ k % 2 = 0 := by
  have hle := Int.floor_le q
  have hlt := Int.lt_floor_add_one q
  rw [roundHalfEven]
  obtain hk | hk | hk := lt_trichotomy ⌊q⌋ k
  · have hcast : (⌊q⌋ : ℚ) + 1 ≤ k := by exact_mod_cast hk
    refine iff_of_true ?_ (.inl (by linarith))
    split <;> omega
  · rw [← hk]
    split
    · next hdown =>
      refine iff_of_true le_rfl ?_
      obtain hdown | ⟨hdown, heven⟩ := hdown
      · exact .inl (by linarith)
      · exact .inr ⟨by linarith, heven⟩
    · next hup =>
      rw [not_or, not_and] at hup
      refine iff_of_false (by omega) ?_
      rw [not_or, not_and]
      exact ⟨fun h => hup.1 (by linarith), fun h => hup.2 (by linarith)⟩
  · have hcast : (k : ℚ) + 1 ≤ ⌊q⌋ := by exact_mod_cast hk
    refine iff_of_false ?_ ?_
    · split <;> omega
    · rw [not_or, not_and]
      exact ⟨fun h => by linarith, fun h => by linarith⟩

theorem roundHalfEven_mono {a b : ℚ} (hab : a ≤ b) : roundHalfEven a ≤ roundHalfEven b := by
  rw [roundHalfEven_le_iff]
  obtain hb | ⟨hb, heven⟩ := roundHalfEven_le_iff.mp (le_refl (roundHalfEven b))
  · exact .inl (hab.trans_lt hb)
  · obtain hlt | heq := lt_or_eq_of_le (hb ▸ hab)
    · exact .inl hlt
    · exact .inr ⟨heq, heven⟩

/-- Numbers are rounded apart when one of the middles between integers is between them. -/
theorem roundHalfEven_lt_iff {a b : ℚ} : roundHalfEven a < roundHalfEven b ↔
    ∃ k : ℤ, (a < k + 1 / 2 ∨ a = k + 1 / 2 ∧ k % 2 = 0) ∧
      (k + 1 / 2 < b ∨ b = k + 1 / 2 ∧ k % 2 ≠ 0) := by
  have hup : ∀ k : ℤ, k < roundHalfEven b ↔ (k + 1 / 2 < b ∨ b = k + 1 / 2 ∧ k % 2 ≠ 0) := by
    intro k
    rw [← not_le, roundHalfEven_le_iff, not_or, not_and, not_lt, le_iff_lt_or_eq]
    constructor
    · rintro ⟨hlt | heq, hodd⟩
      · exact .inl hlt
      · exact .inr ⟨heq.symm, hodd heq.symm⟩
    · rintro (hlt | ⟨heq, hodd⟩)
      · exact ⟨.inl hlt, fun heq => absurd heq hlt.ne'⟩
      · exact ⟨.inr heq.symm, fun _ => hodd⟩
  simp only [← roundHalfEven_le_iff, ← hup]
  exact ⟨fun hlt => ⟨_, le_rfl, hlt⟩, fun hk => by
    obtain ⟨k, hle, hlt⟩ := hk
    exact hle.trans_lt hlt⟩

/-- `round(q, digits)`. -/
def roundTo (digits : ℕ) (q : ℚ) : ℚ := roundHalfEven (q * 10 ^ digits) / 10 ^ digits

theorem roundTo_lt_iff {digits : ℕ} {a b : ℚ} : roundTo digits a < roundTo digits b ↔
    roundHalfEven (a * 10 ^ digits) < roundHalfEven (b * 10 ^ digits) := by
  rw [roundTo, roundTo, div_lt_div_iff_of_pos_right (by positivity), Int.cast_lt]

theorem roundTo_mono (digits : ℕ) : Monotone (roundTo digits) := by
  intro a b hab
  rw [← not_lt, roundTo_lt_iff, not_lt]
  exact roundHalfEven_mono (mul_le_mul_of_nonneg_right hab (by positivity))

theorem roundTo_nonneg {digits : ℕ} {q : ℚ} (hq : 0 ≤ q) : 0 ≤ roundTo digits q := by
  have hzero : roundTo digits 0 = 0 := by simp [roundTo, roundHalfEven]
  rw [← hzero]
  exact roundTo_mono digits hq

/-- `a / b`. -/
def ratTruediv (a b : ℚ) : Except Exn ℚ :=
  if b = 0 then .error (.ZeroDivisionError "division by zero") else .ok (a / b)

/-! ## Sets of integers -/

/-- `sorted(s)`. -/
def sorted (s : Finset ℤ) : List ℤ :=
  Quot.liftOn s.1 (List.insertionSort (· ≤ ·)) fun _ _ h =>
    (((List.perm_insertionSort _ _).trans h).trans (List.perm_insertionSort _ _).symm).eq_of_pairwise'
      (List.pairwise_insertionSort (· ≤ ·) _) (List.pairwise_insertionSort (· ≤ ·) _)

@[simp] theorem mem_sorted {s : Finset ℤ} {n : ℤ} : n ∈ sorted s ↔ n ∈ s := by
  obtain ⟨⟨l⟩, hnd⟩ := s
  exact List.mem_insertionSort (· ≤ ·)

theorem pairwise_sorted (s : Finset ℤ) : (sorted s).Pairwise (· ≤ ·) := by
  obtain ⟨⟨l⟩, hnd⟩ := s
  exact List.pairwise_insertionSort (· ≤ ·) l

theorem nodup_sorted (s : Finset ℤ) : (sorted s).Nodup := by
  obtain ⟨⟨l⟩, hnd⟩ := s
  exact (List.perm_insertionSort (· ≤ ·) l).nodup_iff.mpr hnd

@[simp] theorem sorted_eq_nil_iff {s : Finset ℤ} : sorted s = [] ↔ s = ∅ := by
  rw [List.eq_nil_iff_forall_not_mem, Finset.eq_empty_iff_forall_notMem]
  simp

/-- `set(range(first, last + 1))`. -/
def rangeSet (first last : ℤ) : Finset ℤ :=
  ((List.range (last + 1 - first).toNat).map fun (i : Nat) => first + i).toFinset

theorem mem_rangeSet {first last n : ℤ} : n ∈ rangeSet first last ↔ first ≤ n ∧ n ≤ last := by
  rw [rangeSet, List.mem_toFinset, List.mem_map]
  constructor
  · rintro ⟨i, hi, rfl⟩
    have := List.mem_range.mp hi
    omega
  · rintro ⟨hfirst, hlast⟩
    refine ⟨(n - first).toNat, List.mem_range.mpr ?_, ?_⟩ <;> omega

/-- The first and the last of a sorted list tell the range of the set. -/
theorem sorted_range_iff {s : Finset ℤ} {first last min max : ℤ}
    (hfirst : (sorted s).head? = some first) (hlast : (sorted s).getLast? = some last) :
    ¬ (first < min ∨ last > max) ↔ ∀ n ∈ s, min ≤ n ∧ n ≤ max := by
  obtain ⟨l, hl⟩ := List.head?_eq_some_iff.mp hfirst
  obtain ⟨l', hl'⟩ := List.getLast?_eq_some_iff.mp hlast
  have hpw := pairwise_sorted s
  rw [not_or, not_lt, not_lt]
  constructor
  · rintro ⟨hmin, hmax⟩ n hn
    have hmem := mem_sorted.mpr hn
    constructor
    · rw [hl, List.pairwise_cons] at hpw
      rw [hl, List.mem_cons] at hmem
      rcases hmem with rfl | hmem
      · exact hmin
      · exact hmin.trans (hpw.1 n hmem)
    · rw [hl', List.pairwise_append] at hpw
      rw [hl', List.mem_append, List.mem_singleton] at hmem
      rcases hmem with hmem | rfl
      · exact (hpw.2.2 n hmem last (List.mem_singleton_self _)).trans hmax
      · exact hmax
  · intro h
    exact ⟨(h first (mem_sorted.mp (by rw [hl]; simp))).1, (h last (mem_sorted.mp (by rw [hl']; simp))).2⟩

end Py
