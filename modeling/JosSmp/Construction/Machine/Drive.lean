import JosSmp.Library.Block
import Mathlib.Logic.Function.Basic

/-!
This file gives the disk drive that `boot/main.c` finds at the ports from `0x1F0` on.
The drive takes any time: it answers the reads of its status by any finite number of bytes that tell the host to wait.
-/

namespace JosSmp.Machine
open Library

/-- A status byte with the busy bit, or without the ready bit. -/
abbrev Unready := {status : UInt8 // status &&& 0xC0 ≠ 0x40}

/-- Why the host does not come to an end with the drive: a loop takes more passes than it may, the drive does not admit
an access to its ports, or the host gives a command that is not modelled. -/
inductive Stop
  | endless
  | refused
  | unmodelled
  deriving DecidableEq

/-- The bytes on the disk, the registers that the host has written, the answers before the drive is ready, the bytes
that wait in the data register, and the answers for each of the commands to come. -/
structure Drive where
  disk : Nat → UInt8
  registers : Nat → UInt8
  busy : List Unready
  data : List UInt8
  later : Nat → List Unready
  commands : Nat

namespace Drive

/-- A read of a port. A drive that is ready tells whether it has data. -/
def inb (port : Nat) (d : Drive) : UInt8 × Drive :=
  if port = 0x1F7 then
    match d.busy with
    | [] => (if d.data = [] then 0x50 else 0x58, d)
    | status :: rest => (status, { d with busy := rest })
  else (d.registers port, d)

/-- The sector that the registers name: four bits of the drive register and three bytes. -/
def sector (d : Drive) : Nat :=
  (d.registers 0x1F3).toNat + 256 * (d.registers 0x1F4).toNat + 65536 * (d.registers 0x1F5).toNat +
    16777216 * ((d.registers 0x1F6).toNat % 16)

/-- The command to read one sector of the first drive by its number; other commands are not modelled. -/
def command (code : UInt8) (d : Drive) : Except Stop Drive :=
  if code = 0x20 ∧ d.registers 0x1F2 = 1 ∧ d.registers 0x1F6 &&& 0x50 = 0x40 then
    .ok { d with
      busy := d.later d.commands
      data := readBlock d.disk (512 * d.sector) 512
      commands := d.commands + 1 }
  else .error .unmodelled

/-- A write to a port. The drive admits none while it is busy or has data. -/
def outb (port : Nat) (v : UInt8) (d : Drive) : Except Stop Drive :=
  if d.busy = [] ∧ d.data = [] then
    if port = 0x1F7 then d.command v else .ok { d with registers := Function.update d.registers port v }
  else .error .refused

/-- A read of four bytes from the data register, which a drive admits only when it has them. -/
def inl (d : Drive) : Except Stop (List UInt8 × Drive) :=
  if d.busy = [] ∧ 4 ≤ d.data.length then .ok (d.data.take 4, { d with data := d.data.drop 4 }) else .error .refused

end Drive

end JosSmp.Machine
