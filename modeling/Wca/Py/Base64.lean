import Mathlib.Data.List.Basic
import Wca.Py.Num

/-!
# base64

`b64encode` and `b64decode`. The decoder skips what is not of the alphabet and stops at the padding;
it reads back what the encoder wrote (`b64decode_b64encode`).
-/

namespace Py

abbrev Bytes := List UInt8

namespace Base64

def alphabet : List Char := "ABCDEFGHIJKLMNOPQRSTUVWXYZabcdefghijklmnopqrstuvwxyz0123456789+/".toList

def char (n : ℕ) : Char := alphabet.getD n '='

def value? (c : Char) : Option ℕ := alphabet.idxOf? c

def encode : Bytes → List Char
  | a :: b :: c :: rest => char (a.toNat / 4) :: char (a.toNat % 4 * 16 + b.toNat / 16) ::
      char (b.toNat % 16 * 4 + c.toNat / 64) :: char (c.toNat % 64) :: encode rest
  | [a, b] => [char (a.toNat / 4), char (a.toNat % 4 * 16 + b.toNat / 16), char (b.toNat % 16 * 4), '=']
  | [a] => [char (a.toNat / 4), char (a.toNat % 4 * 16), '=', '=']
  | [] => []

/-- The loop over the characters, with the position in the group of four and the bits that are left. A padding
that comes too early is skipped. -/
def decode : List Char → ℕ → ℕ → ℕ → Except Exn Bytes
  | [], _, _, leftbits => if leftbits ≠ 0 then .error (.ValueError "Incorrect padding") else .ok []
  | c :: cs, quadPos, leftchar, leftbits =>
    if c = '=' then
      if quadPos < 2 ∨ quadPos = 2 ∧ cs.find? (fun c => c = '=' || (value? c).isSome) ≠ some '=' then
        decode cs quadPos leftchar leftbits
      else .ok []
    else match value? c with
      | none => decode cs quadPos leftchar leftbits
      | some n =>
        if leftbits < 2 then decode cs ((quadPos + 1) % 4) (leftchar * 64 + n) (leftbits + 6)
        else do
          let bytes ← decode cs ((quadPos + 1) % 4) ((leftchar * 64 + n) % 2 ^ (leftbits - 2)) (leftbits - 2)
          pure (.ofNat ((leftchar * 64 + n) / 2 ^ (leftbits - 2)) :: bytes)

theorem value?_char {n : ℕ} (h : n < 64) : value? (char n) = some n := by
  have hall : ∀ n : Fin 64, value? (char n) = some n.val := by decide +kernel
  exact hall ⟨n, h⟩

theorem char_ne_pad {n : ℕ} (h : n < 64) : char n ≠ '=' := by
  have hall : ∀ n : Fin 64, char n ≠ '=' := by decide +kernel
  exact hall ⟨n, h⟩

variable {n quadPos leftchar leftbits : ℕ} {cs : List Char}

theorem decode_char_of_lt (h : n < 64) (hbits : leftbits < 2) :
    decode (char n :: cs) quadPos leftchar leftbits =
    decode cs ((quadPos + 1) % 4) (leftchar * 64 + n) (leftbits + 6) := by
  rw [decode, if_neg (char_ne_pad h), value?_char h]
  exact if_pos hbits

theorem decode_char (h : n < 64) (hbits : ¬ leftbits < 2) :
    decode (char n :: cs) quadPos leftchar leftbits = (do
    let bytes ← decode cs ((quadPos + 1) % 4) ((leftchar * 64 + n) % 2 ^ (leftbits - 2)) (leftbits - 2)
    pure (.ofNat ((leftchar * 64 + n) / 2 ^ (leftbits - 2)) :: bytes)) := by
  rw [decode, if_neg (char_ne_pad h), value?_char h]
  exact if_neg hbits

theorem ofNat_eq {a : UInt8} (h : n = a.toNat) : UInt8.ofNat n = a := by
  rw [h]
  exact UInt8.ofNat_toNat

/-- Four characters are three bytes. -/
theorem decode_encode (bytes : Bytes) : decode (encode bytes) 0 0 0 = .ok bytes := by
  induction bytes using encode.induct with
  | case1 a b c rest ih =>
    have ha := a.toNat_lt
    have hb := b.toNat_lt
    have hc := c.toNat_lt
    rw [encode, decode_char_of_lt (by omega) (by omega), decode_char (by omega) (by omega),
      decode_char (by omega) (by omega), decode_char (by omega) (by omega)]
    simp only [Nat.zero_mul, Nat.zero_add, Nat.reduceSub, Nat.reducePow, Nat.reduceAdd, Nat.reduceMod,
      Nat.mod_one, Nat.div_one]
    rw [ih, ofNat_eq (a := c) (by omega), ofNat_eq (a := b) (by omega), ofNat_eq (a := a) (by omega)]
    rfl
  | case2 a b =>
    have ha := a.toNat_lt
    have hb := b.toNat_lt
    rw [encode, decode_char_of_lt (by omega) (by omega), decode_char (by omega) (by omega),
      decode_char (by omega) (by omega)]
    simp only [Nat.zero_mul, Nat.zero_add, Nat.reduceSub, Nat.reducePow, Nat.reduceAdd, Nat.reduceMod]
    rw [ofNat_eq (a := b) (by omega), ofNat_eq (a := a) (by omega)]
    rfl
  | case3 a =>
    have ha := a.toNat_lt
    rw [encode, decode_char_of_lt (by omega) (by omega), decode_char (by omega) (by omega)]
    simp only [Nat.zero_mul, Nat.zero_add, Nat.reduceSub, Nat.reducePow, Nat.reduceAdd, Nat.reduceMod]
    rw [ofNat_eq (a := a) (by omega)]
    rfl
  | case4 => rfl

end Base64

def b64encode (bytes : Bytes) : String := .ofList (Base64.encode bytes)

def b64decode (s : String) : Except Exn Bytes := Base64.decode s.toList 0 0 0

theorem b64decode_b64encode (bytes : Bytes) : b64decode (b64encode bytes) = .ok bytes := by
  rw [b64decode, b64encode, String.toList_ofList, Base64.decode_encode]

theorem b64encode_injective : Function.Injective b64encode := by
  intro a b h
  have hdecode := b64decode_b64encode a
  rw [h, b64decode_b64encode] at hdecode
  exact (Except.ok.inj hdecode).symm

end Py
