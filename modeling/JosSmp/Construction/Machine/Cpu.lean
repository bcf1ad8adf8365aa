import JosSmp.Construction.Machine.Processor
import Mathlib.Logic.Function.Basic

/-!
This file gives the instructions of `boot/boot.S` and `kern/entry.S`, and the processor that runs them.
A fault has no result, and neither has what these programs never do: they use no other tables than the one of `lgdt`,
and no other privilege level than zero.
-/

namespace JosSmp.Machine
open Library

/-- A status byte of the keyboard controller that has not taken its last byte. -/
abbrev Full := {status : UInt8 // status &&& 0x2 ≠ 0}

/-- The keyboard controller, whose output port gates the address line 20. It takes any time for a byte: it is busy for
any number of instructions of the processor, and the byte has no effect until then. The output port is the first one
while the controller is busy, and the next one from then on. -/
structure Controller where
  busy : Nat
  full : Nat → Full
  free : {status : UInt8 // status &&& 0x2 = 0}
  later : Nat → Nat
  taken : Nat
  pending : Bool
  outputPort : UInt8
  nextPort : UInt8

namespace Controller

/-- The time of one instruction. -/
def tick (k : Controller) : Controller := { k with busy := k.busy - 1 }

def status (k : Controller) : UInt8 := if k.busy = 0 then k.free else k.full k.busy

/-- A controller that is not busy takes the command to write the output port, and the byte for it.
The lowest bit of the output port keeps the processor from being reset. -/
def take (port : Nat) (v : UInt8) (k : Controller) : Option Controller :=
  if k.busy ≠ 0 then none
  else if port = 0x64 ∧ v = 0xD1 then
    some { k with busy := k.later k.taken, taken := k.taken + 1, pending := true, outputPort := k.nextPort }
  else if port = 0x60 ∧ k.pending ∧ v &&& 0x1 ≠ 0 then
    some { k with
      busy := k.later k.taken
      taken := k.taken + 1
      pending := false
      outputPort := k.nextPort
      nextPort := v }
  else none

def a20 (k : Controller) : Bool := (if k.busy = 0 then k.nextPort else k.outputPort).toBitVec.getLsbD 1

end Controller

inductive Seg
  | cs | ds | es | fs | gs | ss
  deriving DecidableEq

/-- A segment register with what the processor keeps of its descriptor. -/
structure SegmentRegister where
  selector : UInt16
  base : UInt32
  limit : UInt32
  big : Bool

structure Cpu where
  eax : UInt32
  ebp : UInt32
  esp : UInt32
  zero : Bool
  interrupts : Bool
  down : Bool
  seg : Seg → SegmentRegister
  cr0 : UInt32
  gdtBase : UInt32
  gdtLimit : Nat
  ip : Nat
  memory : Memory
  controller : Controller

/-- The instruction pointer is an index of the program, so a label is the index of an instruction. -/
inductive Instr
  | cli
  | cld
  | xorwAx
  | movwAx (v : UInt16)
  | movbAl (v : UInt8)
  | movlEax (v : UInt32)
  | movwSeg (s : Seg)
  | inb (port : Nat)
  | outb (port : Nat)
  | testb (mask : UInt8)
  | jnz (target : Nat)
  | jmp (target : Nat)
  | lgdt (a : UInt32)
  | movlCr0Eax
  | orlEax (v : UInt32)
  | movlEaxCr0
  | ljmp (selector : UInt16) (target : Nat)
  | movwMem (v : UInt16) (a : UInt32)
  | movlEsp (v : UInt32)
  | movlEbp (v : UInt32)
  | call

/-- Instructions that are assembled for code of 32 bits, or of 16 bits. -/
def code (big : Bool) (instrs : List Instr) : List (Bool × Instr) := instrs.map (big, ·)

/-- The word in four bytes, the lowest byte first. -/
def ofBytes (block : List UInt8) : UInt32 :=
  let part (i : Nat) : BitVec 8 := (block.getD i 0).toBitVec
  UInt32.ofBitVec (part 3 ++ part 2 ++ part 1 ++ part 0)

namespace Cpu

def protectedMode (c : Cpu) : Bool := c.cr0.toBitVec.getLsbD 0

/-- Without the address line 20, an address loses its bit 20. -/
def physical (c : Cpu) (la : UInt32) : Nat := if c.controller.a20 then la.toNat else (la &&& 0xFFEFFFFF).toNat

def bytes (c : Cpu) (la : UInt32) (size : Nat) : List UInt8 :=
  (List.range size).map fun i => c.memory (c.physical (la + UInt32.ofNat i))

/-- The linear address of an operand of `size` bytes in a segment. -/
def linearOf (c : Cpu) (s : Seg) (offset : UInt32) (size : Nat) : Option UInt32 :=
  if offset.toNat + size ≤ (c.seg s).limit.toNat + 1 then some ((c.seg s).base + offset) else none

/-- A descriptor is present and has the right type: executable for `cs`, and writable data for the other registers. -/
def Admits (s : Seg) (descriptor : List UInt8) : Prop :=
  if s = .cs then descriptor.getD 5 0 &&& 0xF8 = 0x98 else descriptor.getD 5 0 &&& 0xFA = 0x92

instance (s : Seg) (descriptor : List UInt8) : Decidable (Admits s descriptor) := by
  unfold Admits
  infer_instance

def setSegment (c : Cpu) (s : Seg) (r : SegmentRegister) : Cpu := { c with seg := Function.update c.seg s r }

/-- The load of a segment register. In protected mode the processor marks the descriptor as accessed, in memory. -/
def loadSegment (c : Cpu) (s : Seg) (selector : UInt16) : Option Cpu :=
  if c.protectedMode then
    let descriptor := c.bytes (c.gdtBase + selector.toUInt32) 8
    if selector &&& 0x7 = 0 ∧ selector ≠ 0 ∧ selector.toNat + 7 ≤ c.gdtLimit ∧ Admits s descriptor then
      let access := c.physical (c.gdtBase + selector.toUInt32 + 5)
      some ({ c with memory := Function.update c.memory access (c.memory access ||| 0x1) }.setSegment s
        ⟨selector, segmentBase descriptor, segmentLimit descriptor, (descriptor.getD 6 0).toBitVec.getLsbD 6⟩)
    else none
  else some (c.setSegment s { c.seg s with selector, base := 16 * selector.toUInt32 })

end Cpu

/-- An instruction, when the instruction pointer has moved on. -/
def Instr.exec : Instr → Cpu → Option Cpu
  | .cli, c => some { c with interrupts := false }
  | .cld, c => some { c with down := false }
  | .xorwAx, c => some { c with eax := c.eax &&& 0xFFFF0000, zero := true }
  | .movwAx v, c => some { c with eax := (c.eax &&& 0xFFFF0000) ||| v.toUInt32 }
  | .movbAl v, c => some { c with eax := (c.eax &&& 0xFFFFFF00) ||| v.toUInt32 }
  | .movlEax v, c => some { c with eax := v }
  | .movwSeg s, c => c.loadSegment s c.eax.toUInt16
  | .inb port, c =>
      if port = 0x64 then some { c with eax := (c.eax &&& 0xFFFFFF00) ||| c.controller.status.toUInt32 } else none
  | .outb port, c => (c.controller.take port c.eax.toUInt8).map fun controller => { c with controller }
  | .testb mask, c => some { c with zero := c.eax.toUInt8 &&& mask == 0 }
  | .jnz target, c => some (if c.zero then c else { c with ip := target })
  | .jmp target, c => some { c with ip := target }
  | .lgdt a, c => do
      let la ← c.linearOf .ds a 6
      let limit := c.bytes la 2
      let base := ofBytes (c.bytes (la + 2) 4)
      -- Code of 16 bits takes three bytes of the base.
      some { c with
        gdtLimit := (limit.getD 0 0).toNat + 256 * (limit.getD 1 0).toNat
        gdtBase := if (c.seg .cs).big then base else base &&& 0xFFFFFF }
  | .movlCr0Eax, c => some { c with eax := c.cr0 }
  | .orlEax v, c => some { c with eax := c.eax ||| v, zero := c.eax ||| v == 0 }
  | .movlEaxCr0, c => some { c with cr0 := c.eax }
  | .ljmp selector target, c =>
      (c.loadSegment .cs selector).map fun c => { c with ip := target }
  | .movwMem v a, c => do
      let la ← c.linearOf .ds a 2
      some { c with
        memory := Function.update (Function.update c.memory (c.physical la) v.toUInt8) (c.physical (la + 1))
          (v >>> 8).toUInt8 }
  | .movlEsp v, c => some { c with esp := v }
  | .movlEbp v, c => some { c with ebp := v }
  -- The function that is called is not one of the program.
  | .call, _ => none

/-- An instruction is fetched. -/
def Cpu.fetched (c : Cpu) : Cpu := { c with ip := c.ip + 1, controller := c.controller.tick }

/-- The next instruction of a program is run if it is assembled for the segment in which it lies. -/
def Cpu.step (program : List (Bool × Instr)) (c : Cpu) : Option Cpu :=
  match program[c.ip]? with
  | none => none
  | some (big, instr) => if (c.seg .cs).big = big then instr.exec c.fetched else none

end JosSmp.Machine
