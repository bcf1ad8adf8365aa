import JosSmp.Construction.Machine.Memory

/-!
This file models `boot/main.c`.
The disk is a sequence of bytes, and the kernel image starts at its second sector.
-/

namespace JosSmp.Boot
open Library Machine

def sectsize : Nat := 512
def elfhdr : Nat := 0x10000
def elfMagic : Nat := 0x464C457F

/-- The port writes by which `readsect` addresses a sector. -/
def readsectWrites (offset : Nat) : List (Nat × UInt8) :=
  [(0x1F2, 1),
    (0x1F3, UInt8.ofNat offset),
    (0x1F4, UInt8.ofNat (offset >>> 8)),
    (0x1F5, UInt8.ofNat (offset >>> 16)),
    (0x1F6, UInt8.ofNat ((offset >>> 24) ||| 0xE0)),
    (0x1F7, 0x20)]

/-- The sector that the drive finds in its registers: four bits of the drive register and three bytes. -/
def lba (writes : List (Nat × UInt8)) : Nat :=
  let register (port : Nat) : Nat := ((writes.lookup port).getD 0).toNat
  register 0x1F3 + 256 * register 0x1F4 + 65536 * register 0x1F5 + 16777216 * (register 0x1F6 % 16)

/-- The drive becomes ready, and its sector is copied to `dst`. -/
def readsect (disk : Nat → UInt8) (dst offset : Nat) (memory : Memory) : Memory :=
  writeBlock memory dst (readBlock disk (sectsize * lba (readsectWrites offset)) sectsize)

/-- The loop need not end, so it has a result only when `fuel` passes are enough. -/
def readsegLoop (disk : Nat → UInt8) (endVa : Nat) : (fuel va offset : Nat) → Memory → Option Memory
  | 0, va, _, memory => if va < endVa then none else some memory
  | fuel + 1, va, offset, memory =>
      if va < endVa then
        readsegLoop disk endVa fuel (address (va + sectsize)) (address (offset + 1)) (readsect disk va offset memory)
      else some memory

def readseg (disk : Nat → UInt8) (fuel va count offset : Nat) (memory : Memory) : Option Memory :=
  let va := va % 0x1000000
  let endVa := address (va + count)
  -- This rounds down to a sector boundary.
  let va := va - va % sectsize
  readsegLoop disk endVa fuel va (address (offset / sectsize + 1)) memory

/-- The calls of `readsect` that the loop makes, each with its address and its sector. -/
def readsegLoopReads (endVa : Nat) : (fuel va offset : Nat) → Option (List (Nat × Nat))
  | 0, va, _ => if va < endVa then none else some []
  | fuel + 1, va, offset =>
      if va < endVa then
        (readsegLoopReads endVa fuel (address (va + sectsize)) (address (offset + 1))).map ((va, offset) :: ·)
      else some []

def readsegReads (fuel va count offset : Nat) : Option (List (Nat × Nat)) :=
  let va := va % 0x1000000
  let endVa := address (va + count)
  let va := va - va % sectsize
  readsegLoopReads endVa fuel va (address (offset / sectsize + 1))

def word16 (memory : Memory) (a : Nat) : Nat := (memory a).toNat + 256 * (memory (a + 1)).toNat

def word32 (memory : Memory) (a : Nat) : Nat := word16 memory a + 65536 * word16 memory (a + 2)

/-- The fields of `struct Elf` and of `struct Proghdr` that the loader reads. -/
def eMagic (memory : Memory) (elf : Nat) : Nat := word32 memory elf
def eEntry (memory : Memory) (elf : Nat) : Nat := word32 memory (elf + 24)
def ePhoff (memory : Memory) (elf : Nat) : Nat := word32 memory (elf + 28)
def ePhnum (memory : Memory) (elf : Nat) : Nat := word16 memory (elf + 44)
def pOffset (memory : Memory) (ph : Nat) : Nat := word32 memory (ph + 4)
def pVa (memory : Memory) (ph : Nat) : Nat := word32 memory (ph + 8)
def pMemsz (memory : Memory) (ph : Nat) : Nat := word32 memory (ph + 20)

def phsize : Nat := 32

/-- The loop reads each program header from memory when it comes to it. -/
def loadLoop (disk : Nat → UInt8) (fuel ph eph : Nat) (memory : Memory) : Option Memory :=
  if ph < eph then
    match readseg disk fuel (pVa memory ph) (pMemsz memory ph) (pOffset memory ph) memory with
    | none => none
    | some memory => loadLoop disk fuel (ph + phsize) eph memory
  else some memory
termination_by eph - ph
decreasing_by
  have size : phsize = 32 := rfl
  omega

/-- The loader either finds no valid image or enters it. -/
inductive Exit where
  | bad
  | enter (entry : Nat) (memory : Memory)

def bootmain (disk : Nat → UInt8) (fuel : Nat) (memory : Memory) : Option Exit :=
  match readseg disk fuel elfhdr (sectsize * 8) 0 memory with
  | none => none
  | some memory =>
      if eMagic memory elfhdr ≠ elfMagic then some .bad
      else
        let ph := address (elfhdr + ePhoff memory elfhdr)
        let eph := address (ph + ePhnum memory elfhdr * phsize)
        (loadLoop disk fuel ph eph memory).map fun memory => .enter (eEntry memory elfhdr % 0x1000000) memory

end JosSmp.Boot
