import JosSmp.Construction.Machine.Memory

/-!
This file models how the processor forms an address: a segment descriptor gives a linear address, and the page
tables give a physical one.
-/

namespace JosSmp.Machine

/-- The base address in the bytes of a segment descriptor. -/
def segmentBase (descriptor : List UInt8) : UInt32 :=
  let part (i : Nat) : BitVec 8 := (descriptor.getD i 0).toBitVec
  UInt32.ofBitVec (part 7 ++ part 4 ++ part 3 ++ part 2)

/-- The limit in the bytes of a segment descriptor; with the granularity bit it counts pages. -/
def segmentLimit (descriptor : List UInt8) : UInt32 :=
  let part (i : Nat) : BitVec 8 := (descriptor.getD i 0).toBitVec
  let limit : BitVec 20 := (part 6).extractLsb' 0 4 ++ part 1 ++ part 0
  UInt32.ofBitVec (if (part 6).getLsbD 7 then limit ++ 0xFFF#12 else limit.setWidth 32)

/-- The linear address of a virtual address in the segment of a selector. -/
def linear (gdt : List UInt8) (selector : Nat) (va : UInt32) : UInt32 :=
  va + segmentBase ((gdt.drop selector).take 8)

/-- The indices of a linear address in the page directory and in a page table, and its offset in the page. -/
def directoryIndex (la : UInt32) : Nat := (la.toBitVec.extractLsb 31 22).toNat
def tableIndex (la : UInt32) : Nat := (la.toBitVec.extractLsb 21 12).toNat
def pageOffset (la : UInt32) : Nat := (la.toBitVec.extractLsb 11 0).toNat

/-- The lowest bit of an entry makes it present, and its high bits give the address of a page. -/
def present (entry : UInt32) : Bool := entry.toBitVec.getLsbD 0
def frame (entry : UInt32) : Nat := 4096 * (entry.toBitVec.extractLsb 31 12).toNat

/-- The physical address of a linear address, unless one of its entries is not present. -/
def walk (ram : Ram) (directory : Nat) (la : UInt32) : Option Nat :=
  let pde := ram.load32 (directory + 4 * directoryIndex la)
  if present pde then
    let pte := ram.load32 (frame pde + 4 * tableIndex la)
    if present pte then some (frame pte + pageOffset la) else none
  else none

end JosSmp.Machine
