import JosSmp.Library.Block
import JosSmp.Construction.Machine.Word

/-!
This file gives the byte memory of the machine.
-/

namespace JosSmp.Machine
open Library

/-- A byte at each address below `2 ^ 32`. -/
abbrev Memory := Nat → UInt8

/-- Address arithmetic is modulo `2 ^ 32`. -/
def address (x : Int) : Nat := (x % 4294967296).toNat

theorem address_lt (x : Int) : address x < 4294967296 := by
  unfold address
  omega

/-- Address arithmetic without a carry is the arithmetic of naturals. -/
theorem address_eq {x : Int} {a : Nat} (same : x = a) (upper : a < 4294967296) : address x = a := by
  unfold address
  omega

/-- Address arithmetic may wrap at each step or once. -/
theorem address_sub (x k : Int) : address ((address x : Int) - k) = address (x - k) := by
  unfold address
  omega

/-- A memory together with the addresses that the code has accessed, last one first. -/
structure Ram where
  byte : Memory
  touched : List Nat

namespace Ram

variable {ram : Ram} {a size : Nat} {block : List UInt8}

def touch (ram : Ram) (a size : Nat) : Ram := { ram with touched := List.range' a size ++ ram.touched }

/-- The bytes that a load of `size` bytes finds. -/
def load (ram : Ram) (a size : Nat) : List UInt8 × Ram := (readBlock ram.byte a size, ram.touch a size)

def loadByte (ram : Ram) (a : Nat) : UInt8 × Ram := (ram.byte a, ram.touch a 1)

def store (ram : Ram) (a : Nat) (block : List UInt8) : Ram :=
  { ram.touch a block.length with byte := writeBlock ram.byte a block }

/-- A 16-bit cell has its low byte first. -/
def load16 (ram : Ram) (a : Nat) : UInt16 := (ram.byte a).toUInt16 + 256 * (ram.byte (a + 1)).toUInt16

def store16 (ram : Ram) (a : Nat) (v : UInt16) : Ram := ram.store a [v.toUInt8, (v >>> 8).toUInt8]

/-- A 32-bit word has its lowest byte first. -/
def load32 (ram : Ram) (a : Nat) : UInt32 :=
  (ram.byte a).toUInt32 + 256 * (ram.byte (a + 1)).toUInt32 + 65536 * (ram.byte (a + 2)).toUInt32 +
    16777216 * (ram.byte (a + 3)).toUInt32

def store32 (ram : Ram) (a : Nat) (v : UInt32) : Ram :=
  ram.store a [v.toUInt8, (v >>> 8).toUInt8, (v >>> 16).toUInt8, (v >>> 24).toUInt8]

@[simp] theorem load_fst : (ram.load a size).1 = readBlock ram.byte a size := rfl

@[simp] theorem load_byte : (ram.load a size).2.byte = ram.byte := rfl

@[simp] theorem store_byte : (ram.store a block).byte = writeBlock ram.byte a block := rfl

theorem mem_load_touched {b : Nat} (accessed : b ∈ (ram.load a size).2.touched) :
    b ∈ ram.touched ∨ a ≤ b ∧ b < a + size := by
  obtain here | earlier := List.mem_append.mp accessed
  · exact .inr (List.mem_range'_1.mp here)
  · exact .inl earlier

theorem mem_store_touched {b : Nat} (accessed : b ∈ (ram.store a block).touched) :
    b ∈ ram.touched ∨ a ≤ b ∧ b < a + block.length := mem_load_touched accessed

/-- The two bytes of a cell give the cell. -/
theorem cell_bytes (v : UInt16) : v.toUInt8.toUInt16 + (256 : UInt16) * (v >>> 8).toUInt8.toUInt16 = v := by
  apply UInt16.toNat_inj.mp
  have bound := v.toNat_lt
  simp only [UInt16.toNat_add, UInt16.toNat_mul, UInt8.toNat_toUInt16, UInt16.toNat_toUInt8, UInt16.toNat_shiftRight]
  simp only [UInt16.reduceToNat, Nat.reducePow, Nat.reduceMod]
  omega

/-- A stored cell is loaded back. -/
theorem load16_store16 (v : UInt16) : (ram.store16 a v).load16 a = v := by
  have low : writeBlock ram.byte a [v.toUInt8, (v >>> 8).toUInt8] a = v.toUInt8 :=
    writeBlock_inside ram.byte a (i := 0) (by simp)
  have high : writeBlock ram.byte a [v.toUInt8, (v >>> 8).toUInt8] (a + 1) = (v >>> 8).toUInt8 :=
    writeBlock_inside ram.byte a (i := 1) (by simp)
  simp only [load16, store16, store_byte, low, high]
  exact cell_bytes v

/-- A cell that is stored back leaves the memory as it was. -/
theorem store16_load16 (ram : Ram) (a : Nat) (v : UInt16) :
    ((ram.store16 a v).store16 a (ram.load16 a)).byte = ram.byte := by
  have low : (ram.load16 a).toUInt8 = ram.byte a := by
    apply UInt8.toNat_inj.mp
    have first := (ram.byte a).toNat_lt
    simp only [load16, UInt16.toNat_toUInt8, UInt16.toNat_add, UInt16.toNat_mul, UInt8.toNat_toUInt16,
      UInt16.reduceToNat, Nat.reducePow]
    omega
  have high : (ram.load16 a >>> 8).toUInt8 = ram.byte (a + 1) := by
    apply UInt8.toNat_inj.mp
    have first := (ram.byte a).toNat_lt
    have second := (ram.byte (a + 1)).toNat_lt
    simp only [load16, UInt16.toNat_toUInt8, UInt16.toNat_shiftRight, UInt16.toNat_add, UInt16.toNat_mul,
      UInt8.toNat_toUInt16, UInt16.reduceToNat, Nat.reducePow, Nat.reduceMod, Nat.shiftRight_eq_div_pow]
    omega
  rw [store16, store16, store_byte, store_byte, low, high]
  funext b
  by_cases inside : a ≤ b ∧ b < a + 2
  · obtain rfl | rfl : b = a ∨ b = a + 1 := by omega
    · exact writeBlock_inside _ b (i := 0) (by simp)
    · exact writeBlock_inside _ a (i := 1) (by simp)
  · rw [writeBlock_outside _ (by simp; omega), writeBlock_outside _ (by simp; omega)]

/-- Storing a cell keeps every other cell. -/
theorem load16_store16_of_ne {b : Nat} (v : UInt16) (apart : b + 2 ≤ a ∨ a + 2 ≤ b) :
    (ram.store16 a v).load16 b = ram.load16 b := by
  simp only [load16, store16, store_byte]
  rw [writeBlock_outside _ (by simp; omega), writeBlock_outside _ (by simp; omega)]

/-- The four bytes of a word give the word. -/
theorem word_bytes (v : UInt32) :
    v.toUInt8.toUInt32 + (256 : UInt32) * (v >>> 8).toUInt8.toUInt32 +
      (65536 : UInt32) * (v >>> 16).toUInt8.toUInt32 + (16777216 : UInt32) * (v >>> 24).toUInt8.toUInt32 = v := by
  apply UInt32.toNat_inj.mp
  have bound := v.toNat_lt
  simp only [UInt32.toNat_add, UInt32.toNat_mul, UInt8.toNat_toUInt32, UInt32.toNat_toUInt8, UInt32.toNat_shiftRight,
    UInt32.reduceToNat, Nat.shiftRight_eq_div_pow]
  simp only [Nat.reducePow, Nat.reduceMod]
  omega

/-- A stored word is loaded back. -/
theorem load32_store32 (v : UInt32) : (ram.store32 a v).load32 a = v := by
  have first : (ram.store32 a v).byte a = v.toUInt8 := writeBlock_inside ram.byte a (i := 0) (by simp)
  have second : (ram.store32 a v).byte (a + 1) = (v >>> 8).toUInt8 := writeBlock_inside ram.byte a (i := 1) (by simp)
  have third : (ram.store32 a v).byte (a + 2) = (v >>> 16).toUInt8 := writeBlock_inside ram.byte a (i := 2) (by simp)
  have fourth : (ram.store32 a v).byte (a + 3) = (v >>> 24).toUInt8 := writeBlock_inside ram.byte a (i := 3) (by simp)
  rw [load32, first, second, third, fourth]
  exact word_bytes v

/-- A word depends on its four bytes. -/
theorem load32_congr {other : Ram} (agree : ∀ i < 4, other.byte (a + i) = ram.byte (a + i)) :
    other.load32 a = ram.load32 a := by
  have zero := agree 0 (by decide)
  rw [Nat.add_zero] at zero
  rw [load32, load32, zero, agree 1 (by decide), agree 2 (by decide), agree 3 (by decide)]

/-- Storing a word keeps every other byte. -/
theorem byte_store32 (v : UInt32) {b : Nat} (outside : b < a ∨ a + 4 ≤ b) : (ram.store32 a v).byte b = ram.byte b :=
  writeBlock_outside _ outside

end Ram

end JosSmp.Machine
