import Mathlib.Tactic.Ring
import Mathlib.Tactic.NormNum

/-!
# Packed words

The format `q` of `struct`: a word of 64 bits, the low byte first, read in two's complement. What
was packed unpacks to the number it stands for, and to nothing else.
-/

namespace Py.Struct

abbrev Word := BitVec 64

/-- The low bytes of a number. -/
def lowBytes : Nat → Nat → List UInt8
  | 0, _ => []
  | count + 1, n => UInt8.ofNat n :: lowBytes count (n / 256)

/-- The number that bytes spell, the low one first. -/
def spelled (bytes : List UInt8) : Nat := bytes.foldr (fun byte n => n * 256 + byte.toNat) 0

@[simp] theorem length_lowBytes {count n : Nat} : (lowBytes count n).length = count := by
  induction count generalizing n with
  | zero => rfl
  | succ count ih => simp [lowBytes, ih]

theorem spelled_cons {byte : UInt8} {bytes : List UInt8} :
    spelled (byte :: bytes) = spelled bytes * 256 + byte.toNat := rfl

/-- Only the bits that fit in the bytes are kept. -/
theorem spelled_lowBytes {count n : Nat} : spelled (lowBytes count n) = n % 256 ^ count := by
  induction count generalizing n with
  | zero => simp [lowBytes, spelled, Nat.mod_one]
  | succ count ih =>
    have hbyte : (UInt8.ofNat n).toNat = n % 256 := by simp
    have hsplit : n % (256 * 256 ^ count) = n % 256 + 256 * (n / 256 % 256 ^ count) := Nat.mod_mul
    rw [lowBytes, spelled_cons, ih, hbyte, pow_succ, Nat.mul_comm (256 ^ count), hsplit]
    omega

/-- `struct.pack('q', n)` -/
def pack (word : Word) : List UInt8 := lowBytes 8 word.toNat

/-- `struct.unpack('q', bytes)[0]`: it wants eight bytes. -/
def unpack (bytes : List UInt8) : Option ℤ :=
  if bytes.length = 8 then some (BitVec.ofNat 64 (spelled bytes)).toInt else none

@[simp] theorem length_pack {word : Word} : (pack word).length = 8 := length_lowBytes

theorem unpack_pack {word : Word} : unpack (pack word) = some word.toInt := by
  have hfits : word.toNat < 256 ^ 8 := word.isLt
  rw [unpack, if_pos length_pack, pack, spelled_lowBytes, Nat.mod_eq_of_lt hfits,
    BitVec.ofNat_toNat, BitVec.setWidth_eq]

end Py.Struct
