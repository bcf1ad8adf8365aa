import Mathlib.Algebra.Group.Nat.Defs
import Mathlib.Data.Int.Order.Basic

/-!
This file gives the integer arithmetic of the target as the code is compiled for it.
An `int` or a `long` is an `Int` in its range, and signed arithmetic wraps.
-/

namespace JosSmp.Machine

/-- A result wraps into the range of `int`. -/
def wrap32 (x : Int) : Int := (x + 2147483648) % 4294967296 - 2147483648

/-- A result wraps into the range of `long long`. -/
def wrap64 (x : Int) : Int := (x + 9223372036854775808) % 18446744073709551616 - 9223372036854775808

/-- A signed value converts to `unsigned long long`. -/
def toUnsigned64 (x : Int) : Nat := (x % 18446744073709551616).toNat

/-- A word read as an `int`. -/
def signedWord (word : UInt32) : Int := wrap32 word.toNat

/-- The byte of a character constant. -/
def ascii (c : Char) : UInt8 := UInt8.ofNat c.toNat

/-- A byte read through a plain `char` pointer is signed. -/
def signedChar (byte : UInt8) : Int := if byte.toNat < 128 then byte.toNat else byte.toNat - 256

theorem signedChar_eq_zero {b : UInt8} : signedChar b = 0 ↔ b = 0 := by
  have small := b.toNat_lt
  rw [← UInt8.toNat_inj, UInt8.toNat_zero, signedChar]
  split <;> omega

theorem signedChar_inj {b c : UInt8} : signedChar b = signedChar c ↔ b = c := by
  have small := b.toNat_lt
  have small' := c.toNat_lt
  rw [← UInt8.toNat_inj, signedChar, signedChar]
  split <;> split <;> omega

/-- A byte that passes through an `int` is the same byte. -/
theorem ofInt_byte (byte : UInt8) : UInt8.ofInt byte.toNat = byte := by
  have small := byte.toNat_lt
  have value : ((byte.toNat : Int) % 2 ^ 8).toNat = byte.toNat := by omega
  rw [UInt8.ofInt, value, UInt8.ofNat_toNat]

/-- A value converts to a word modulo `2 ^ 32`. -/
theorem toNat_ofInt (v : Int) : ((UInt32.ofInt v).toNat : Int) = v % 4294967296 := by
  change ((UInt32.ofNat (v % 4294967296).toNat).toNat : Int) = _
  rw [UInt32.toNat_ofNat']
  omega

/-- A property of all bytes is checked byte by byte. -/
theorem forall_byte {p : UInt8 → Prop} (each : ∀ n < 256, p (UInt8.ofNat n)) (byte : UInt8) : p byte := by
  rw [← UInt8.ofNat_toNat (x := byte)]
  exact each byte.toNat byte.toNat_lt

/-- Masking the lowest `k` bits takes the remainder modulo `2 ^ k`. -/
theorem toNat_mask (x : UInt32) {m : UInt32} (k : Nat) (mask : m.toNat = 2 ^ k - 1) :
    (x &&& m).toNat = x.toNat % 2 ^ k := by
  rw [UInt32.toNat_and, mask, Nat.and_two_pow_sub_one_eq_mod]

theorem wrap32_range (x : Int) : -2147483648 ≤ wrap32 x ∧ wrap32 x < 2147483648 := by
  unfold wrap32
  omega

/-- A value in the range of `int` does not wrap. -/
theorem wrap32_eq {x : Int} (lower : -2147483648 ≤ x) (upper : x < 2147483648) : wrap32 x = x := by
  unfold wrap32
  omega

theorem signedWord_range (word : UInt32) : wrap32 (signedWord word) = signedWord word := by
  have bounds := wrap32_range word.toNat
  exact wrap32_eq bounds.1 bounds.2

/-- Wrapping keeps the bit pattern. -/
theorem wrap32_mod (x : Int) : wrap32 x % 4294967296 = x % 4294967296 := by
  unfold wrap32
  omega

/-- Only the bit pattern of an operand decides a wrapped result. -/
theorem wrap32_congr {x y : Int} (same : x % 4294967296 = y % 4294967296) : wrap32 x = wrap32 y := by
  unfold wrap32
  omega

theorem wrap32_neg (x : Int) : wrap32 (-wrap32 x) = wrap32 (-x) := by
  unfold wrap32
  omega

end JosSmp.Machine
