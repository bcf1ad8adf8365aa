import JosSmp.Construction.Inc.Mmu

/-!
This file models the constants that `kern/entry.S` sets up, with those of `inc/memlayout.h` that they depend on.
-/

namespace JosSmp.Entry
open Mmu

def kernbase : UInt32 := 0xF0000000

/-- The constant `VPT` of `inc/memlayout.h`. -/
def vptBase : UInt32 := kernbase - ptsize

def srl (val shamt : UInt32) : UInt32 := (val >>> shamt) &&& ~~~(0xFFFFFFFF <<< (32 - shamt))

def reloc (x : UInt32) : UInt32 := x - kernbase

def codeSel : Nat := 0x8
def dataSel : Nat := 0x10

def vpt : UInt32 := vptBase

def vpd : UInt32 := vptBase + srl vptBase 10

def mygdt : List UInt8 :=
  segNull ++ segAsm (staX ||| staR) (-kernbase) 0xffffffff ++ segAsm staW (-kernbase) 0xffffffff

/-- The elements of `vpt` and `vpd` have four bytes. -/
def element (array index : UInt32) : UInt32 := array + 4 * index

end JosSmp.Entry
