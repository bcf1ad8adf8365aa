import JosSmp.Construction.Kern.Entry
import JosSmp.Construction.Machine.Cpu

/-!
This file models the program of `kern/entry.S`.
-/

namespace JosSmp.Entry
open Machine Mmu

/-- The labels of the program. -/
def relocated : Nat := 7
def spin : Nat := 10

/-- The program, with the addresses that the linker gives it. -/
def entryS (mygdtdesc bootstacktop : UInt32) : List (Bool × Instr) :=
  code true
    [.movwMem 0x1234 0x472,
      .lgdt (reloc mygdtdesc),
      .movlEax dataSel.toUInt32,
      .movwSeg .ds,
      .movwSeg .es,
      .movwSeg .ss,
      .ljmp codeSel.toUInt16 relocated,
      .movlEbp 0x0,
      .movlEsp bootstacktop,
      .call,
      .jmp spin]

/-- The operand of `lgdt`, which holds a physical address. -/
def mygdtdescBytes (mygdt : UInt32) : List UInt8 := word 0x17 ++ long (reloc mygdt)

end JosSmp.Entry
