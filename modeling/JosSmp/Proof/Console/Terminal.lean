import Mathlib.Logic.Function.Basic

/-!
This file gives the unbounded terminal that the display stands for.
-/

namespace JosSmp.Console

/-- An unbounded array of cells, the cursor, and the row at the top of the screen. -/
structure Terminal where
  cell : Nat → UInt16
  p : Nat
  t : Nat

def blankCell : UInt16 := 0x0720

namespace Terminal

/-- The screen is followed by blank cells. -/
def initial (screen : Nat → UInt16) (position : Nat) : Terminal where
  cell i := if i < 2000 then screen i else blankCell
  p := position
  t := 0

/-- A character without attribute bits is white on black. -/
def withAttribute (c : BitVec 32) : BitVec 32 := if c.toNat < 256 then c ||| 0x0700 else c

/-- The cell that a character is stored as. -/
def cellOf (c : BitVec 32) : UInt16 := UInt16.ofBitVec (c.setWidth 16)

/-- The top row follows a cursor that leaves the screen. -/
def follow (x : Terminal) : Terminal := if x.p ≥ 80 * x.t + 2000 then { x with t := x.t + 1 } else x

@[simp] theorem follow_p (x : Terminal) : x.follow.p = x.p := by
  unfold follow
  split <;> rfl

@[simp] theorem follow_cell (x : Terminal) : x.follow.cell = x.cell := by
  unfold follow
  split <;> rfl

theorem follow_t (x : Terminal) : x.follow.t = if x.p ≥ 80 * x.t + 2000 then x.t + 1 else x.t := by
  unfold follow
  split <;> rfl

/-- What a character other than a tab does to the cells and to the cursor. -/
def type (c : BitVec 32) (x : Terminal) : Terminal :=
  let c := withAttribute c
  if c.toNat % 256 = 10 then { x with p := (x.p / 80 + 1) * 80 }
  else if c.toNat % 256 = 13 then { x with p := x.p / 80 * 80 }
  else if c.toNat % 256 = 8 then
    if x.p = 80 * x.t then x
    else { x with
      cell := Function.update x.cell (x.p - 1) (cellOf (c &&& 0xffffff00 ||| 0x20))
      p := x.p - 1 }
  else { x with cell := Function.update x.cell x.p (cellOf c), p := x.p + 1 }

/-- A tab is five spaces. -/
def put (c : BitVec 32) (x : Terminal) : Terminal :=
  if c.toNat % 256 = 9 then
    let space (x : Terminal) := (x.type 0x20).follow
    (space (space (space (space (space x))))).follow
  else (x.type c).follow

theorem ofInt_byte_toNat (b : UInt8) : (BitVec.ofInt 32 (b.toNat : Int)).toNat = b.toNat := by
  have small := b.toNat_lt
  rw [BitVec.toNat_ofInt]
  omega

/-- The cell of a byte is black on white. -/
theorem cellOf_byte (b : UInt8) :
    cellOf (withAttribute (BitVec.ofInt 32 b.toNat)) = 0x0700 ||| b.toUInt16 := by
  have small := b.toNat_lt
  have plain : withAttribute (BitVec.ofInt 32 b.toNat) = BitVec.ofInt 32 b.toNat ||| 0x0700 := by
    rw [withAttribute, ofInt_byte_toNat, if_pos small]
  rw [plain, cellOf]
  apply UInt16.toNat_inj.mp
  change ((BitVec.ofInt 32 (b.toNat : Int) ||| 0x0700).setWidth 16).toNat = _
  rw [BitVec.toNat_setWidth, BitVec.toNat_or, ofInt_byte_toNat, Nat.or_mod_two_pow,
    Nat.mod_eq_of_lt (show b.toNat < 2 ^ 16 by omega), UInt16.toNat_or, UInt8.toNat_toUInt16, Nat.or_comm]
  rfl

/-- The low byte of a byte with its attribute. -/
theorem withAttribute_low (b : UInt8) : (withAttribute (BitVec.ofInt 32 b.toNat)).toNat % 256 = b.toNat := by
  have small := b.toNat_lt
  rw [withAttribute, ofInt_byte_toNat, if_pos small, BitVec.toNat_or, ofInt_byte_toNat,
    show (256 : Nat) = 2 ^ 8 by decide, Nat.or_mod_two_pow, Nat.mod_eq_of_lt (show b.toNat < 2 ^ 8 by omega)]
  exact Nat.or_zero _

section Put

variable {x : Terminal} {c : UInt8}

/-- A printable byte is written at the cursor. -/
theorem put_byte (printable : 0x20 ≤ c) :
    x.put (BitVec.ofInt 32 c.toNat) =
      follow { x with cell := Function.update x.cell x.p (0x0700 ||| c.toUInt16), p := x.p + 1 } := by
  have lower : 32 ≤ c.toNat := UInt8.le_iff_toNat_le.mp printable
  have low := ofInt_byte_toNat c
  have small := c.toNat_lt
  rw [put, if_neg (by omega), type]
  simp only [withAttribute_low, cellOf_byte]
  rw [if_neg (by omega), if_neg (by omega), if_neg (by omega)]

/-- A backspace behind a character moves the cursor back and clears the cell. -/
theorem put_backspace (some : 80 * x.t < x.p) (onScreen : x.p ≤ 80 * x.t + 2000) :
    x.put (BitVec.ofInt 32 0x08) = { x with cell := Function.update x.cell (x.p - 1) blankCell, p := x.p - 1 } := by
  have value : (BitVec.ofInt 32 0x08).toNat = 8 := rfl
  have low : (withAttribute (BitVec.ofInt 32 0x08)).toNat % 256 = 8 := by decide
  have blank : cellOf (withAttribute (BitVec.ofInt 32 0x08) &&& 0xffffff00 ||| 0x20) = blankCell := by
    decide
  rw [put, if_neg (by rw [value]; decide), type]
  simp only [low, blank, Nat.reduceEqDiff, if_true, if_false]
  rw [if_neg (by omega), follow, if_neg]
  dsimp only
  omega

end Put

end Terminal

end JosSmp.Console
