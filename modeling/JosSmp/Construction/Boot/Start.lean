import JosSmp.Construction.Inc.Mmu
import JosSmp.Construction.Machine.Cpu

/-!
This file models `boot/boot.S`.
-/

namespace JosSmp.Boot
open Machine Mmu

def protModeCseg : UInt16 := 0x8
def protModeDseg : UInt16 := 0x10
def cr0PeOn : UInt32 := 0x1

/-- The labels of the program. -/
def seta20First : Nat := 6
def seta20Second : Nat := 11
def protcseg : Nat := 21
def spin : Nat := 29

/-- The program, with the addresses that it has: `start` is where the firmware loads it. -/
def bootS (start gdtdesc : UInt32) : List (Bool × Instr) :=
  code false
    [.cli,
      .cld,
      .xorwAx,
      .movwSeg .ds,
      .movwSeg .es,
      .movwSeg .ss,
      -- The label `seta20.1` is here.
      .inb 0x64,
      .testb 0x2,
      .jnz seta20First,
      .movbAl 0xd1,
      .outb 0x64,
      -- The label `seta20.2` is here.
      .inb 0x64,
      .testb 0x2,
      .jnz seta20Second,
      .movbAl 0xdf,
      .outb 0x60,
      .lgdt gdtdesc,
      .movlCr0Eax,
      .orlEax cr0PeOn,
      .movlEaxCr0,
      .ljmp protModeCseg protcseg] ++
  code true
    [.movwAx protModeDseg,
      .movwSeg .ds,
      .movwSeg .es,
      .movwSeg .fs,
      .movwSeg .gs,
      .movwSeg .ss,
      .movlEsp start,
      .call,
      .jmp spin]

def gdt : List UInt8 := segNull ++ segAsm (staX ||| staR) 0x0 0xffffffff ++ segAsm staW 0x0 0xffffffff

/-- The operand of `lgdt` for a table of three descriptors. -/
def gdtdescBytes (gdt : UInt32) : List UInt8 := word 0x17 ++ long gdt

end JosSmp.Boot
