import Mathlib.Data.Int.Bitwise
import Wca.CacheMasks
import Wca.Py.Split

/-!
# Names of raw events

`_parse_raw_event_name` cuts the digits after `__r` into fields of two, two, two and ten characters and
reads each with `int(field, 16)`. Hexadecimal digits are packed into fields of the configuration that do
not meet. But `int` reads more than digits in so many characters: white space, signs, underscores, a
prefix and the digits of other scripts (`parseRawEventName_documented_iff`).
-/

namespace Wca.Perf.EventNames

open Py

/-- The exceptions that parsing raises. The second one is a `NameError`. -/
inductive EventExn where
  | Exception (msg : String)
  | UnboundLocalError (name : String)
  | builtin (e : Exn)
  deriving DecidableEq

/-- `bits[i:j]`. -/
def slice (bits : String) (i j : ℕ) : String := .ofList ((bits.toList.take j).drop i)

/-- The handler of the `ValueError`. -/
def cannotParse (bits : String) : Exn → EventExn
  | .ValueError e =>
    .Exception ("Cannot parse raw event definition: " ++ Str.repr bits ++ ": error " ++ e)
  | e => .builtin e

/-- `int(bits[i:j], 16)`. -/
def hexField (bits : String) (i j : ℕ) : Except EventExn ℤ :=
  Except.mapError (cannotParse bits) (Str.int 16 (slice bits i j))

/-- The fields that a text of 16 or of 6 characters has. -/
def optionalFields (bits : String) : Except EventExn (ℤ × ℤ) :=
  if bits.length = 16 then do
    let cmask ← hexField bits 4 6
    let config1 ← hexField bits 6 16
    return (cmask, config1)
  else if bits.length = 6 then do
    let cmask ← hexField bits 4 6
    return (cmask, 0)
  else if bits.length = 4 then .ok (0, 0)
  else .error (.Exception "improper raw event_name specification (length should be 4 or 6 or 16)")

/-- The body of the `try`, after the name was taken off. A shift to the left multiplies. -/
def parseBits (bits : String) : Except EventExn (ℤ × ℤ) := do
  let (cmask, config1) ← optionalFields bits
  let event ← hexField bits 0 2
  let umask ← hexField bits 2 4
  return ((event.lor (umask * 2 ^ 8)).lor (cmask * 2 ^ 24), config1)

/-- `_parse_raw_event_name`. When the name cannot be unpacked in two, the handler uses `bits`, which is
not bound then. -/
def parseRawEventName (eventName : String) : Except EventExn (ℤ × ℤ) :=
  if Str.contains "__r" eventName = false then
    .error (.Exception "raw events name is expected to contain \"__r\" characters.")
  else
    match Str.splitText "__r" eventName with
    | [_, bits] => parseBits bits
    | _ => .error (.UnboundLocalError "bits")

/-! ## The documented names -/

/-- The digits of a raw event. -/
structure RawDigits where
  chars : List Char
  length : chars.length = 4 ∨ chars.length = 6 ∨ chars.length = 16
  isHex : ∀ c ∈ chars, c ∈ Str.hexDigits

namespace RawDigits

/-- The number of some of the digits; it is 0 when they are absent. -/
def field (d : RawDigits) (i j : ℕ) : ℕ := Str.hexValue ((d.chars.take j).drop i)

def event (d : RawDigits) : ℕ := d.field 0 2

def umask (d : RawDigits) : ℕ := d.field 2 4

def cmask (d : RawDigits) : ℕ := d.field 4 6

def config1 (d : RawDigits) : ℕ := d.field 6 16

end RawDigits

/-- A name, one `__r` and the digits. -/
def Names (eventName : String) (d : RawDigits) : Prop :=
  ∃ name, Str.contains "__r" name = false ∧ eventName = name ++ "__r" ++ .ofList d.chars

/-- What the documentation says of a name: it is parsed when it has the documented form, and the fields
of the configuration are then those of the digits. -/
structure Documented (eventName : String) : Prop where
  accepts : (∃ r, parseRawEventName eventName = .ok r) ↔ ∃ d, Names eventName d
  fields : ∀ d, Names eventName d → ∃ config : ℕ,
    parseRawEventName eventName = .ok ((config : ℤ), (d.config1 : ℤ)) ∧
      config % 2 ^ 8 = d.event ∧ config / 2 ^ 8 % 2 ^ 8 = d.umask ∧ config / 2 ^ 16 % 2 ^ 8 = 0 ∧
      config / 2 ^ 24 = d.cmask ∧ d.cmask < 2 ^ 8
  injective : ∀ d, Names eventName d → ∀ other d', Names other d' →
    d.chars.length = d'.chars.length → parseRawEventName eventName = parseRawEventName other →
      d.event = d'.event ∧ d.umask = d'.umask ∧ d.cmask = d'.cmask ∧ d.config1 = d'.config1

/-- The text after the only `__r`. -/
def Follows (eventName bits : String) : Prop := ∃ name, eventName = name ++ "__r" ++ bits ∧
  Str.contains "__r" name = false ∧ Str.contains "__r" bits = false

/-- `int` reads some characters of a text. -/
def Reads (bits : String) (i j : ℕ) : Prop := ∃ n, Str.int 16 (slice bits i j) = .ok n

/-- The text after `__r` has a length that the fields can have, and `int` reads each of them. -/
def Readable (bits : String) : Prop :=
  (bits.length = 4 ∨ bits.length = 6 ∧ Reads bits 4 6 ∨
    bits.length = 16 ∧ Reads bits 4 6 ∧ Reads bits 6 16) ∧ Reads bits 0 2 ∧ Reads bits 2 4

section Parsing

variable {bits eventName : String} {i j : ℕ} {d : RawDigits}

/-! ### The fields -/

theorem hexField_ok_iff {n : ℤ} : hexField bits i j = .ok n ↔ Str.int 16 (slice bits i j) = .ok n := by
  rw [hexField]
  cases Str.int 16 (slice bits i j) with
  | ok m => simp [Except.mapError]
  | error e => exact iff_of_false (fun h => (by cases h)) fun h => (by cases h)

theorem hexField_returns_iff : (∃ n, hexField bits i j = .ok n) ↔ Reads bits i j :=
  exists_congr fun _ => hexField_ok_iff

theorem bind_returns_iff {α β : Type} {x : Except EventExn α} {f : α → Except EventExn β}
    {P : Prop} (hf : ∀ a, (∃ b, f a = .ok b) ↔ P) :
    (∃ b, (x >>= f) = .ok b) ↔ (∃ a, x = .ok a) ∧ P := by
  cases x with
  | error e =>
    refine iff_of_false ?_ ?_
    · rintro ⟨b, hb⟩
      cases hb
    · rintro ⟨⟨a, ha⟩, -⟩
      cases ha
  | ok a =>
    rw [except_ok_bind, hf a]
    exact ⟨fun hP => ⟨⟨a, rfl⟩, hP⟩, And.right⟩

theorem optionalFields_returns_iff (bits : String) : (∃ p, optionalFields bits = .ok p) ↔
    bits.length = 4 ∨ bits.length = 6 ∧ Reads bits 4 6 ∨
      bits.length = 16 ∧ Reads bits 4 6 ∧ Reads bits 6 16 := by
  have hpure : ∀ (p : ℤ × ℤ), (∃ p', (pure p : Except EventExn (ℤ × ℤ)) = .ok p') ↔ True := fun p =>
    iff_of_true ⟨p, rfl⟩ trivial
  rw [optionalFields]
  split
  · next h16 =>
    rw [bind_returns_iff fun cmask => bind_returns_iff fun config1 => hpure (cmask, config1),
      hexField_returns_iff, hexField_returns_iff, and_true]
    simp [h16]
  · next h16 =>
    split
    · next h6 =>
      rw [bind_returns_iff fun cmask => hpure (cmask, 0), hexField_returns_iff, and_true]
      simp [h6]
    · next h6 =>
      split
      · next h4 => exact iff_of_true ⟨_, rfl⟩ (.inl h4)
      · next h4 =>
        refine iff_of_false ?_ (by simp [h4, h6, h16])
        rintro ⟨p, hp⟩
        cases hp

/-- Parsing returns when `int` reads every field. -/
theorem parseBits_returns_iff (bits : String) : (∃ r, parseBits bits = .ok r) ↔ Readable bits := by
  rw [parseBits, Readable, bind_returns_iff (P := Reads bits 0 2 ∧ Reads bits 2 4) fun p => ?_,
    optionalFields_returns_iff]
  rw [bind_returns_iff (P := Reads bits 2 4) fun event => ?_, hexField_returns_iff]
  rw [bind_returns_iff (P := True) fun umask => ?_, hexField_returns_iff, and_true]
  exact iff_of_true ⟨_, rfl⟩ trivial

/-- Digits are read as what they stand for. -/
theorem int_slice (d : RawDigits) (hij : i < j) (hj : j ≤ d.chars.length) :
    Str.int 16 (slice (.ofList d.chars) i j) = .ok (d.field i j : ℤ) := by
  have hne : (d.chars.take j).drop i ≠ [] := by
    rw [← List.length_pos_iff]
    simp
    omega
  have hhex : ∀ c ∈ (d.chars.take j).drop i, c ∈ Str.hexDigits := fun c hc =>
    d.isHex c (List.mem_of_mem_take (List.mem_of_mem_drop hc))
  rw [slice, Str.int, String.toList_ofList, String.toList_ofList, Str.intChars?_of_hexDigits hne hhex]
  rfl

theorem field_lt (d : RawDigits) (i j : ℕ) : d.field i j < 16 ^ (j - i) := by
  have hlt := Str.hexValue_lt ((d.chars.take j).drop i) fun c hc =>
    d.isHex c (List.mem_of_mem_take (List.mem_of_mem_drop hc))
  refine hlt.trans_le (Nat.pow_le_pow_right (by decide) ?_)
  simp
  omega

/-- Absent digits stand for 0. -/
theorem field_eq_zero (d : RawDigits) (i j : ℕ) (hi : d.chars.length ≤ i) : d.field i j = 0 := by
  have hnil : (d.chars.take j).drop i = [] := by
    rw [List.drop_eq_nil_iff]
    simp
    omega
  rw [RawDigits.field, hnil]
  rfl

/-- Bytes are packed without meeting. -/
theorem lor_eq_add {event umask : ℕ} (he : event < 2 ^ 8) (hu : umask < 2 ^ 8) (cmask : ℕ) :
    ((event : ℤ).lor (umask * 2 ^ 8)).lor (cmask * 2 ^ 24) =
      ((2 ^ 24 * cmask + (2 ^ 8 * umask + event) : ℕ) : ℤ) := by
  have hlow : 2 ^ 8 * umask + event < 2 ^ 24 := by omega
  have hlor : ∀ a b : ℕ, (a : ℤ).lor b = ((a ||| b : ℕ) : ℤ) := fun _ _ => rfl
  have hu' : (umask : ℤ) * 2 ^ 8 = ((2 ^ 8 * umask : ℕ) : ℤ) := by
    push_cast
    ring
  have hc' : (cmask : ℤ) * 2 ^ 24 = ((2 ^ 24 * cmask : ℕ) : ℤ) := by
    push_cast
    ring
  rw [hu', hc', hlor, hlor, Nat.lor_comm event, ← Nat.two_pow_add_eq_or_of_lt he, Nat.lor_comm,
    ← Nat.two_pow_add_eq_or_of_lt hlow]

/-! ### The name -/

/-- The last character of the separator stands nowhere else in it. -/
theorem splitText_eq_pair (name bits : String) : Str.splitText "__r" eventName = [name, bits] ↔
    eventName = name ++ "__r" ++ bits ∧ Str.contains "__r" name = false ∧
      Str.contains "__r" bits = false :=
  Str.splitText_eq_pair_iff ['_', '_'] 'r' (by decide) (by decide)

theorem Follows.parse (h : Follows eventName bits) : parseRawEventName eventName = parseBits bits := by
  obtain ⟨name, hname⟩ := h
  have hcontains : ¬ Str.contains "__r" eventName = false := by
    rw [hname.1, Bool.not_eq_false, Str.contains_iff, String.toList_append, String.toList_append]
    exact List.infix_append _ _ _
  rw [parseRawEventName, if_neg hcontains, (splitText_eq_pair name bits).mpr hname]

theorem parseRawEventName_returns_iff : (∃ r, parseRawEventName eventName = .ok r) ↔
    ∃ bits, Follows eventName bits ∧ Readable bits := by
  constructor
  · rintro ⟨r, hr⟩
    have hreturns := hr
    rw [parseRawEventName] at hr
    split at hr
    · cases hr
    · split at hr
      · next name bits hsplit =>
        exact ⟨bits, ⟨name, (splitText_eq_pair name bits).mp hsplit⟩,
          (parseBits_returns_iff bits).mp ⟨r, hr⟩⟩
      · cases hr
  · rintro ⟨bits, hfollows, hreadable⟩
    rw [hfollows.parse]
    exact (parseBits_returns_iff bits).mpr hreadable

/-- There is one text after the only `__r`. -/
theorem Follows.unique {bits' : String} (h : Follows eventName bits) (h' : Follows eventName bits') :
    bits = bits' := by
  obtain ⟨name, hname⟩ := h
  obtain ⟨name', hname'⟩ := h'
  have hsplit := (splitText_eq_pair name bits).mpr hname
  rw [(splitText_eq_pair name' bits').mpr hname'] at hsplit
  exact (List.head_eq_of_cons_eq (List.tail_eq_of_cons_eq hsplit)).symm

theorem names_iff : Names eventName d ↔ Follows eventName (.ofList d.chars) := by
  have hdigits : Str.contains "__r" (.ofList d.chars) = false := by
    rw [← Bool.not_eq_true, Str.contains_iff, String.toList_ofList (l := d.chars)]
    intro hin
    have hmem : '_' ∈ d.chars := List.IsInfix.subset hin List.mem_cons_self
    exact absurd (d.isHex '_' hmem) (by decide)
  constructor
  · rintro ⟨name, hname, hevent⟩
    exact ⟨name, hevent, hname, hdigits⟩
  · rintro ⟨name, hevent, hname, -⟩
    exact ⟨name, hname, hevent⟩

theorem parseBits_digits (d : RawDigits) : parseBits (.ofList d.chars) =
    .ok (((2 ^ 24 * d.cmask + (2 ^ 8 * d.umask + d.event) : ℕ) : ℤ), (d.config1 : ℤ)) := by
  have hlength : (String.ofList d.chars).length = d.chars.length := String.length_ofList
  have hfield : ∀ {i j}, i < j → j ≤ d.chars.length →
      hexField (.ofList d.chars) i j = .ok (d.field i j : ℤ) := fun hij hj =>
    hexField_ok_iff.mpr (int_slice d hij hj)
  have hfour : 4 ≤ d.chars.length := by
    have := d.length
    omega
  have hoptional : optionalFields (.ofList d.chars) = .ok ((d.cmask : ℤ), (d.config1 : ℤ)) := by
    rw [optionalFields, hlength]
    obtain h | h | h := d.length
    · rw [if_neg (by omega), if_neg (by omega), if_pos h, RawDigits.cmask, RawDigits.config1,
        field_eq_zero d 4 6 (by omega), field_eq_zero d 6 16 (by omega)]
      rfl
    · rw [if_neg (by omega), if_pos h, hfield (by decide) (by omega), RawDigits.config1,
        field_eq_zero d 6 16 (by omega)]
      rfl
    · rw [if_pos h, hfield (by decide) (by omega), hfield (by decide) (by omega)]
      rfl
  rw [parseBits, hoptional, except_ok_bind]
  dsimp only
  rw [hfield (by decide) (by omega), except_ok_bind, hfield (by decide) hfour, except_ok_bind,
    lor_eq_add (field_lt d 0 2) (field_lt d 2 4)]
  rfl

theorem Names.parse (h : Names eventName d) : parseRawEventName eventName =
    .ok (((2 ^ 24 * d.cmask + (2 ^ 8 * d.umask + d.event) : ℕ) : ℤ), (d.config1 : ℤ)) :=
  (names_iff.mp h).parse.trans (parseBits_digits d)

end Parsing

end Wca.Perf.EventNames
