import Wca.Py.Str
import Mathlib.Data.List.TakeDrop

/-!
# Floats in text

`float(text)` with all it accepts: white space around the number, a sign, digits with a point, an
exponent, and the names of what is no number. A literal is read as the rational it denotes
(`float_text`), and one with letters after it is refused (`float_append_error`).
-/

namespace Py

namespace Flt

/-- `a + b`. -/
def add : Flt → Flt → Flt
  | .nan, _ | _, .nan => .nan
  | .rat a, .rat b => .rat (a + b)
  | .rat _, b => b
  | a, .rat _ => a
  | .inf, .inf => .inf
  | .negInf, .negInf => .negInf
  | _, _ => .nan

@[simp] theorem add_rat {a b : ℚ} : add (.rat a) (.rat b) = .rat (a + b) := rfl

@[simp] theorem mul_rat {a b : ℚ} : mul (.rat a) (.rat b) = .rat (a * b) := rfl

/-- `-a`. -/
def neg : Flt → Flt
  | .rat a => .rat (-a)
  | .inf => .negInf
  | .negInf => .inf
  | .nan => .nan

end Flt

namespace Str

/-! ## Reading -/

/-- Digits on one side of a point, where there may be none. -/
def sideOfPoint? (cs : List Char) : Option Nat := if cs = [] then some 0 else natBody? 10 cs

def mantissa? (cs : List Char) : Option ℚ :=
  let whole := cs.takeWhile (· ≠ '.')
  match cs.dropWhile (· ≠ '.') with
  | [] => do
    let w ← natBody? 10 whole
    some (w : ℚ)
  | _ :: frac =>
    if whole = [] ∧ frac = [] then none
    else do
      let w ← sideOfPoint? whole
      let f ← sideOfPoint? frac
      some ((w : ℚ) + f / 10 ^ (frac.filter (· ≠ '_')).length)

def exponent? : List Char → Option ℤ
  | '-' :: cs => (natBody? 10 cs).map fun n => -(n : ℤ)
  | '+' :: cs => (natBody? 10 cs).map Int.ofNat
  | cs => (natBody? 10 cs).map Int.ofNat

def decimalChars? (cs : List Char) : Option ℚ := do
  let m ← mantissa? (cs.takeWhile fun c => c ≠ 'e' ∧ c ≠ 'E')
  match cs.dropWhile fun c => c ≠ 'e' ∧ c ≠ 'E' with
  | [] => some m
  | _ :: cs => (exponent? cs).map fun e => m * 10 ^ e

def unsigned? (cs : List Char) : Option Flt :=
  let lower := cs.map Char.toLower
  if lower = "inf".toList ∨ lower = "infinity".toList then some .inf
  else if lower = "nan".toList then some .nan
  else (decimalChars? cs).map .rat

def floatChars? (cs : List Char) : Option Flt :=
  match trim isNumSpace cs with
  | '-' :: cs => (unsigned? cs).map Flt.neg
  | '+' :: cs => unsigned? cs
  | cs => unsigned? cs

/-- `float(s)`, without rounding. -/
def float (s : String) : Except Exn Flt :=
  match floatChars? s.toList with
  | some x => .ok x
  | none => .error (.ValueError ("could not convert string to float: " ++ repr s))

/-! ## Literals -/

/-- Digits, perhaps none. -/
structure Digits where
  chars : List Char
  isDigit : ∀ c ∈ chars, c.isDigit = true

namespace Digits

def value (d : Digits) : Nat := Nat.ofDigitChars 10 d.chars 0

theorem not_mem (d : Digits) {c : Char} (hc : c.isDigit = false) : c ∉ d.chars :=
  fun hm => ne_of_isDigit (d.isDigit c hm) hc rfl

theorem exists_concat (d : Digits) (hne : d.chars ≠ []) :
    ∃ pre c, d.chars = pre ++ [c] ∧ c.isDigit = true := by
  obtain hnil | ⟨pre, c, hcs⟩ := d.chars.eq_nil_or_concat
  · exact absurd hnil hne
  · rw [List.concat_eq_append] at hcs
    exact ⟨pre, c, hcs, d.isDigit c (by rw [hcs]; simp)⟩

theorem natBody? (d : Digits) (hne : d.chars ≠ []) : Str.natBody? 10 d.chars = some d.value :=
  natBody?_of_isDigit hne d.isDigit

theorem sideOfPoint? (d : Digits) : Str.sideOfPoint? d.chars = some d.value := by
  rw [Str.sideOfPoint?]
  split
  · case isTrue hnil =>
    rw [value, hnil]
    rfl
  · case isFalse hne => exact d.natBody? hne

end Digits

inductive Sign where
  | plus
  | minus
  deriving DecidableEq

namespace Sign

def char : Sign → Char
  | plus => '+'
  | minus => '-'

def apply (sign : Option Sign) (q : ℚ) : ℚ := if sign = some minus then -q else q

end Sign

/-- `e+05` and the like. -/
structure Exponent where
  upper : Bool
  sign : Option Sign
  digits : Digits
  ne_nil : digits.chars ≠ []

namespace Exponent

def tail (e : Exponent) : List Char := (e.sign.map Sign.char).toList ++ e.digits.chars

def chars (e : Exponent) : List Char := (if e.upper then 'E' else 'e') :: e.tail

def value (e : Exponent) : ℤ := if e.sign = some .minus then -e.digits.value else e.digits.value

theorem exponent?_tail (e : Exponent) : exponent? e.tail = some e.value := by
  obtain ⟨upper, sign, digits, hne⟩ := e
  rw [tail, value]
  cases sign with
  | none =>
    change exponent? digits.chars = some _
    rw [exponent?, digits.natBody? hne]
    · rfl
    · exact fun cs he => digits.not_mem (c := '-') rfl (he ▸ List.mem_cons_self)
    · exact fun cs he => digits.not_mem (c := '+') rfl (he ▸ List.mem_cons_self)
  | some sign =>
    cases sign with
    | plus =>
      change (Str.natBody? 10 digits.chars).map Int.ofNat = _
      rw [digits.natBody? hne]
      rfl
    | minus =>
      change (Str.natBody? 10 digits.chars).map (fun n => -(n : ℤ)) = _
      rw [digits.natBody? hne]
      rfl

end Exponent

/-- A number as it is written: digits with or without a point, and perhaps an exponent. -/
structure Decimal where
  sign : Option Sign
  whole : Digits
  frac : Option Digits
  exponent : Option Exponent
  ne_nil : whole.chars ≠ [] ∨ ∃ f, frac = some f ∧ f.chars ≠ []

namespace Decimal

def mantissa (d : Decimal) : List Char :=
  d.whole.chars ++ (d.frac.map fun f => '.' :: f.chars).getD []

def unsigned (d : Decimal) : List Char := d.mantissa ++ (d.exponent.map Exponent.chars).getD []

def chars (d : Decimal) : List Char := (d.sign.map Sign.char).toList ++ d.unsigned

def text (d : Decimal) : String := .ofList d.chars

def mantissaValue (d : Decimal) : ℚ :=
  d.whole.value + (d.frac.map fun f => (f.value : ℚ) / 10 ^ f.chars.length).getD 0

def value (d : Decimal) : ℚ :=
  Sign.apply d.sign (d.mantissaValue * 10 ^ ((d.exponent.map Exponent.value).getD 0))

theorem mantissa?_mantissa (d : Decimal) : mantissa? d.mantissa = some d.mantissaValue := by
  have hdot : ∀ c ∈ d.whole.chars, decide (c ≠ '.') = true := fun c hc =>
    decide_eq_true fun he => d.whole.not_mem (c := '.') rfl (he ▸ hc)
  rw [mantissa?, mantissa, mantissaValue]
  cases hf : d.frac with
  | none =>
    have hne : d.whole.chars ≠ [] := by
      obtain hne | ⟨f, hf', -⟩ := d.ne_nil
      · exact hne
      · cases hf.symm.trans hf'
    rw [Option.map_none, Option.getD_none, List.append_nil, List.dropWhile_eq_nil_iff.mpr hdot,
      List.takeWhile_eq_self_iff.mpr hdot, d.whole.natBody? hne]
    simp
  | some f =>
    rw [Option.map_some, Option.getD_some, List.dropWhile_append_of_pos hdot,
      List.takeWhile_append_of_pos hdot, List.dropWhile_cons_of_neg (by simp),
      List.takeWhile_cons_of_neg (by simp), List.append_nil]
    have hne : ¬ (d.whole.chars = [] ∧ f.chars = []) := by
      rintro ⟨hwhole, hfrac⟩
      obtain hne | ⟨f', hf', hne⟩ := d.ne_nil
      · exact hne hwhole
      · cases hf.symm.trans hf'
        exact hne hfrac
    have hfilter : f.chars.filter (· ≠ '_') = f.chars := List.filter_eq_self.mpr fun c hc =>
      decide_eq_true fun he => f.not_mem (c := '_') rfl (he ▸ hc)
    dsimp only
    rw [if_neg hne, d.whole.sideOfPoint?, f.sideOfPoint?, hfilter]
    rfl

theorem ne_of_mem_mantissa (d : Decimal) {c x : Char} (hc : c ∈ d.mantissa)
    (hx : x.isDigit = false) (hdot : x ≠ '.') : c ≠ x := by
  rintro rfl
  obtain hc | hc := List.mem_append.mp hc
  · exact d.whole.not_mem hx hc
  · cases hf : d.frac with
    | none =>
      rw [hf] at hc
      cases hc
    | some f =>
      rw [hf] at hc
      obtain rfl | hc := List.mem_cons.mp hc
      · exact hdot rfl
      · exact f.not_mem hx hc

theorem mantissa_ne_e (d : Decimal) :
    ∀ c ∈ d.mantissa, (decide (c ≠ 'e' ∧ c ≠ 'E')) = true := fun c hc =>
  decide_eq_true ⟨d.ne_of_mem_mantissa hc rfl (by decide), d.ne_of_mem_mantissa hc rfl (by decide)⟩

theorem decimalChars?_unsigned (d : Decimal) : decimalChars? d.unsigned =
    some (d.mantissaValue * 10 ^ ((d.exponent.map Exponent.value).getD 0)) := by
  rw [decimalChars?, unsigned]
  cases he : d.exponent with
  | none =>
    rw [Option.map_none, Option.map_none, Option.getD_none, Option.getD_none, List.append_nil,
      List.takeWhile_eq_self_iff.mpr d.mantissa_ne_e, List.dropWhile_eq_nil_iff.mpr d.mantissa_ne_e,
      d.mantissa?_mantissa, zpow_zero, mul_one]
    rfl
  | some e =>
    have hstop : ¬ (fun c : Char => decide (c ≠ 'e' ∧ c ≠ 'E'))
        (if e.upper then 'E' else 'e') = true := by cases e.upper <;> decide
    rw [Option.map_some, Option.map_some, Option.getD_some, Option.getD_some, Exponent.chars,
      List.takeWhile_append_of_pos d.mantissa_ne_e, List.dropWhile_append_of_pos d.mantissa_ne_e,
      List.takeWhile_cons_of_neg (p := fun c => decide (c ≠ 'e' ∧ c ≠ 'E')) hstop,
      List.dropWhile_cons_of_neg (p := fun c => decide (c ≠ 'e' ∧ c ≠ 'E')) hstop, List.append_nil,
      d.mantissa?_mantissa, Option.bind_eq_bind, Option.bind_some]
    dsimp only
    rw [e.exponent?_tail]
    rfl

/-- A literal ends with a digit or with the point. -/
theorem exists_concat (d : Decimal) :
    ∃ pre c, d.chars = pre ++ [c] ∧ (c.isDigit = true ∨ c = '.') := by
  suffices h : ∃ pre c, d.unsigned = pre ++ [c] ∧ (c.isDigit = true ∨ c = '.') by
    obtain ⟨pre, c, hcs, hc⟩ := h
    exact ⟨(d.sign.map Sign.char).toList ++ pre, c, by rw [chars, hcs, List.append_assoc], hc⟩
  rw [unsigned]
  cases he : d.exponent with
  | some e =>
    obtain ⟨pre, c, hcs, hc⟩ := e.digits.exists_concat e.ne_nil
    refine ⟨d.mantissa ++ (if e.upper then 'E' else 'e') :: (e.sign.map Sign.char).toList ++ pre, c,
      ?_, .inl hc⟩
    rw [Option.map_some, Option.getD_some, Exponent.chars, Exponent.tail, hcs]
    simp
  | none =>
    rw [Option.map_none, Option.getD_none, List.append_nil, mantissa]
    cases hf : d.frac with
    | none =>
      obtain hne | ⟨f, hf', -⟩ := d.ne_nil
      · obtain ⟨pre, c, hcs, hc⟩ := d.whole.exists_concat hne
        exact ⟨pre, c, by rw [hcs]; simp, .inl hc⟩
      · cases hf.symm.trans hf'
    | some f =>
      rw [Option.map_some, Option.getD_some]
      by_cases hne : f.chars = []
      · exact ⟨d.whole.chars, '.', by rw [hne], .inr rfl⟩
      · obtain ⟨pre, c, hcs, hc⟩ := f.exists_concat hne
        exact ⟨d.whole.chars ++ '.' :: pre, c, by rw [hcs]; simp, .inl hc⟩

/-- The characters of a literal without an exponent. -/
theorem not_mem_chars (d : Decimal) (hexponent : d.exponent = none) {x : Char}
    (hx : x.isDigit = false) (hne : x ∉ ['.', '+', '-']) : x ∉ d.chars := by
  intro hmem
  rw [chars, unsigned, hexponent, Option.map_none, Option.getD_none, List.append_nil,
    List.mem_append] at hmem
  obtain hmem | hmem := hmem
  · cases hsign : d.sign with
    | none =>
      rw [hsign] at hmem
      cases hmem
    | some sign =>
      rw [hsign] at hmem
      cases List.mem_singleton.mp hmem
      cases sign <;> exact hne (by simp [Sign.char])
  · exact d.ne_of_mem_mantissa hmem hx (fun he => hne (by simp [he])) rfl

/-- A literal begins with a digit or with the point. -/
theorem head_unsigned (d : Decimal) :
    ∃ c cs, d.unsigned = c :: cs ∧ (c.isDigit = true ∨ c = '.') := by
  rw [unsigned, mantissa]
  cases hwhole : d.whole.chars with
  | cons c cs =>
    exact ⟨c, _, rfl, .inl (d.whole.isDigit c (hwhole ▸ List.mem_cons_self))⟩
  | nil =>
    obtain hne | ⟨f, hf, -⟩ := d.ne_nil
    · exact absurd hwhole hne
    · rw [hf]
      exact ⟨'.', _, rfl, .inr rfl⟩

end Decimal

/-- What begins with a digit or with the point is not one of the names. -/
theorem unsigned?_of_head {c : Char} {cs : List Char} (h : c.isDigit = true ∨ c = '.') :
    unsigned? (c :: cs) = (decimalChars? (c :: cs)).map .rat := by
  have hlower : c.toLower = c := by
    obtain h | rfl := h
    · have hc := toNat_of_isDigit h
      refine dif_neg fun hupper => ?_
      have hge : 0x41 ≤ c.toNat := UInt32.le_iff_toNat_le.mp hupper.1
      omega
    · rfl
  have hne : ∀ x : Char, x.isDigit = false → x ≠ '.' → c ≠ x := by
    rintro x hx hdot rfl
    obtain h | h := h
    · exact ne_of_isDigit h hx rfl
    · exact hdot h
  rw [unsigned?, List.map_cons, hlower]
  rw [if_neg, if_neg]
  · exact fun he => hne 'n' rfl (by decide) (List.cons.inj he).1
  · rintro (he | he)
    · exact hne 'i' rfl (by decide) (List.cons.inj he).1
    · exact hne 'i' rfl (by decide) (List.cons.inj he).1

theorem isNumSpace_of_ne {c : Char} (h : isSpace c = false) : isNumSpace c = false := by
  rw [isNumSpace, h, Bool.false_and]

/-- A sign is taken off in front of a number. -/
theorem floatChars?_sign (sign : Option Sign) {cs : List Char}
    (hhead : ∃ c cs', cs = c :: cs' ∧ (c.isDigit = true ∨ c = '.'))
    (hspace : ∀ c ∈ cs, isSpace c = false) :
    floatChars? ((sign.map Sign.char).toList ++ cs) =
      (decimalChars? cs).map fun q => .rat (Sign.apply sign q) := by
  have htrim : trim isNumSpace ((sign.map Sign.char).toList ++ cs) =
      (sign.map Sign.char).toList ++ cs := by
    refine trim_eq_self fun c hc => isNumSpace_of_ne ?_
    obtain hc | hc := List.mem_append.mp hc
    · obtain rfl | sign := sign
      · cases hc
      · cases List.mem_singleton.mp hc
        cases sign <;> rfl
    · exact hspace c hc
  obtain ⟨c, cs, rfl, hc⟩ := hhead
  have hne : ∀ x : Char, x.isDigit = false → x ≠ '.' → c ≠ x := by
    rintro x hx hdot rfl
    obtain h | h := hc
    · exact ne_of_isDigit h hx rfl
    · exact hdot h
  rw [floatChars?, htrim]
  cases sign with
  | none =>
    dsimp only [Option.map_none, Option.toList_none, List.nil_append]
    split
    · case h_1 cs' he => exact absurd (List.cons.inj he).1 (hne '-' rfl (by decide))
    · case h_2 cs' he => exact absurd (List.cons.inj he).1 (hne '+' rfl (by decide))
    · rw [unsigned?_of_head hc]
      rfl
  | some sign =>
    cases sign with
    | plus =>
      change unsigned? (c :: cs) = _
      rw [unsigned?_of_head hc]
      rfl
    | minus =>
      change (unsigned? (c :: cs)).map Flt.neg = _
      rw [unsigned?_of_head hc, Option.map_map]
      rfl

namespace Decimal

theorem isSpace_of_mem_unsigned (d : Decimal) : ∀ c ∈ d.unsigned, isSpace c = false := by
  have hdigits : ∀ (digits : Digits), ∀ c ∈ digits.chars, isSpace c = false := fun digits c hc =>
    isSpace_of_isDigit (digits.isDigit c hc)
  intro c hc
  rw [unsigned, mantissa, List.mem_append, List.mem_append] at hc
  obtain (hc | hc) | hc := hc
  · exact hdigits _ c hc
  · cases hf : d.frac with
    | none =>
      rw [hf] at hc
      cases hc
    | some f =>
      rw [hf] at hc
      obtain rfl | hc := List.mem_cons.mp hc
      · rfl
      · exact hdigits f c hc
  · cases he : d.exponent with
    | none =>
      rw [he] at hc
      cases hc
    | some e =>
      rw [he] at hc
      obtain rfl | hc := List.mem_cons.mp hc
      · cases e.upper <;> rfl
      · obtain hc | hc := List.mem_append.mp hc
        · cases hsign : e.sign with
          | none =>
            rw [hsign] at hc
            cases hc
          | some sign =>
            rw [hsign] at hc
            cases List.mem_singleton.mp hc
            cases sign <;> rfl
        · exact hdigits _ c hc

end Decimal

/-- A literal is read as what it denotes. -/
theorem float_text (d : Decimal) : float d.text = .ok (.rat d.value) := by
  rw [float, Decimal.text, String.toList_ofList, Decimal.chars,
    floatChars?_sign d.sign d.head_unsigned d.isSpace_of_mem_unsigned, d.decimalChars?_unsigned]
  rfl

/-- The literal of a natural number. -/
def Decimal.ofNat (n : ℕ) : Decimal where
  sign := none
  whole := ⟨Nat.toDigits 10 n, fun _ hc => isDigit_of_mem_toString (n := n) (toList_toString n ▸ hc)⟩
  frac := none
  exponent := none
  ne_nil := .inl Nat.toDigits_ne_nil

theorem float_toString (n : ℕ) : float (toString n) = .ok (.rat n) := by
  have htext : (Decimal.ofNat n).text = toString n := by
    have hchars : (Decimal.ofNat n).chars = Nat.toDigits 10 n := by
      simp [Decimal.chars, Decimal.unsigned, Decimal.mantissa, Decimal.ofNat]
    rw [Decimal.text, hchars, ← toList_toString, String.ofList_toList]
  have hvalue : (Decimal.ofNat n).value = n := by
    rw [Decimal.value, Decimal.mantissaValue, Decimal.ofNat, Digits.value, Nat.ofDigitChars_toDigits]
    · simp [Sign.apply]
    · decide
    · decide
  rw [← htext, float_text, hvalue]

/-! ## Letters after a literal -/

/-- A character that no part of a number has. -/
def Foreign (c : Char) : Prop := decimal? c = none ∧ c ∉ ['_', '.', 'e', 'E', '+', '-']

instance : DecidablePred Foreign := fun _ => inferInstanceAs (Decidable (_ ∧ _))

section Foreign

variable {c : Char} {cs : List Char}

theorem natBody?_of_foreign (hc : Foreign c) (hmem : c ∈ cs) : natBody? 10 cs = none := by
  rw [natBody?]
  split
  · have hbad : (cs.filter (· ≠ '_')).mapM (digit? 10) = none := by
      refine Option.not_isSome_iff_eq_none.mp fun hsome => ?_
      have hc' := mapM_digit?_isSome.mp hsome c (List.mem_filter.mpr ⟨hmem, by
        simpa using fun he : c = '_' => hc.2 (by simp [he])⟩)
      rw [hc.1] at hc'
      cases hc'
    rw [hbad]
    rfl
  · rfl

theorem sideOfPoint?_of_foreign (hc : Foreign c) (hmem : c ∈ cs) : sideOfPoint? cs = none := by
  rw [sideOfPoint?, if_neg (List.ne_nil_of_mem hmem), natBody?_of_foreign hc hmem]

theorem mantissa?_of_foreign (hc : Foreign c) (hmem : c ∈ cs) : mantissa? cs = none := by
  rw [mantissa?]
  rw [← List.takeWhile_append_dropWhile (p := (· ≠ '.')) (l := cs), List.mem_append] at hmem
  split
  · case h_1 hdrop =>
    obtain hmem | hmem := hmem
    · rw [natBody?_of_foreign hc hmem]
      rfl
    · rw [hdrop] at hmem
      cases hmem
  · case h_2 x frac hdrop =>
    split
    · rfl
    · have hx : x = '.' := by
        have hhead := List.head?_dropWhile_not (· ≠ '.') cs
        rw [hdrop] at hhead
        simpa using hhead
      obtain hmem | hmem := hmem
      · rw [sideOfPoint?_of_foreign hc hmem]
        rfl
      · rw [hdrop, hx, List.mem_cons] at hmem
        obtain rfl | hmem := hmem
        · exact absurd (by simp) hc.2
        · rw [sideOfPoint?_of_foreign hc hmem]
          cases sideOfPoint? (cs.takeWhile (· ≠ '.')) <;> rfl

theorem exponent?_of_foreign (hc : Foreign c) (hmem : c ∈ cs) : exponent? cs = none := by
  unfold exponent?
  split
  · rw [natBody?_of_foreign hc ((List.mem_cons.mp hmem).resolve_left fun he => hc.2 (by simp [he]))]
    rfl
  · rw [natBody?_of_foreign hc ((List.mem_cons.mp hmem).resolve_left fun he => hc.2 (by simp [he]))]
    rfl
  · rw [natBody?_of_foreign hc hmem]
    rfl

theorem decimalChars?_of_foreign (hc : Foreign c) (hmem : c ∈ cs) : decimalChars? cs = none := by
  rw [decimalChars?]
  rw [← List.takeWhile_append_dropWhile (p := fun c => c ≠ 'e' ∧ c ≠ 'E') (l := cs),
    List.mem_append] at hmem
  obtain hmem | hmem := hmem
  · rw [mantissa?_of_foreign hc hmem]
    rfl
  · cases mantissa? (cs.takeWhile fun c => c ≠ 'e' ∧ c ≠ 'E') with
    | none => rfl
    | some m =>
      rw [Option.bind_eq_bind, Option.bind_some]
      split
      · case h_1 hdrop =>
        rw [hdrop] at hmem
        cases hmem
      · case h_2 x rest hdrop =>
        have hx : x = 'e' ∨ x = 'E' := by
          have hhead := List.head?_dropWhile_not (fun c => c ≠ 'e' ∧ c ≠ 'E') cs
          rw [hdrop] at hhead
          simpa [or_iff_not_imp_left] using hhead
        rw [hdrop] at hmem
        rw [exponent?_of_foreign hc ((List.mem_cons.mp hmem).resolve_left fun he => hc.2 (by
          rw [he]
          obtain rfl | rfl := hx <;> simp))]
        rfl

end Foreign

/-- A mantissa with the letter of an exponent but none after it. -/
theorem decimalChars?_of_E (d : Decimal) : decimalChars? (d.mantissa ++ ['E']) = none := by
  have hstop : ¬ (fun c : Char => decide (c ≠ 'e' ∧ c ≠ 'E')) 'E' = true := by decide
  rw [decimalChars?, List.takeWhile_append_of_pos d.mantissa_ne_e,
    List.dropWhile_append_of_pos d.mantissa_ne_e,
    List.takeWhile_cons_of_neg (p := fun c => decide (c ≠ 'e' ∧ c ≠ 'E')) hstop,
    List.dropWhile_cons_of_neg (p := fun c => decide (c ≠ 'e' ∧ c ≠ 'E')) hstop, List.append_nil,
    d.mantissa?_mantissa]
  rfl

/-- A literal without an exponent is refused with letters after it, and with a bare `E`. -/
theorem float_append_error (d : Decimal) (hexponent : d.exponent = none) {suffix : String}
    (hspace : ∀ c ∈ suffix.toList, isSpace c = false)
    (hbad : (∃ c ∈ suffix.toList, Foreign c) ∨ suffix = "E") :
    ∃ msg, float (d.text ++ suffix) = .error (.ValueError msg) := by
  have hunsigned : d.unsigned = d.mantissa := by
    rw [Decimal.unsigned, hexponent]
    exact List.append_nil _
  have hchars : (d.text ++ suffix).toList =
      (d.sign.map Sign.char).toList ++ (d.unsigned ++ suffix.toList) := by
    rw [String.toList_append, Decimal.text, String.toList_ofList, Decimal.chars, List.append_assoc]
  have hhead : ∃ c cs, d.unsigned ++ suffix.toList = c :: cs ∧ (c.isDigit = true ∨ c = '.') := by
    obtain ⟨c, cs, hcs, hc⟩ := d.head_unsigned
    exact ⟨c, cs ++ suffix.toList, by rw [hcs]; rfl, hc⟩
  have hnone : decimalChars? (d.unsigned ++ suffix.toList) = none := by
    obtain ⟨c, hmem, hc⟩ | rfl := hbad
    · exact decimalChars?_of_foreign hc (List.mem_append_right _ hmem)
    · rw [hunsigned]
      exact decimalChars?_of_E d
  refine ⟨"could not convert string to float: " ++ repr (d.text ++ suffix), ?_⟩
  rw [float, hchars, floatChars?_sign d.sign hhead, hnone]
  · rfl
  · intro c hc
    obtain hc | hc := List.mem_append.mp hc
    · exact d.isSpace_of_mem_unsigned c hc
    · exact hspace c hc

end Str

end Py
