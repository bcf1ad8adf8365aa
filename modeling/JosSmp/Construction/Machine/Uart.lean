import Mathlib.Init

/-!
This file gives the serial device that `kern/console.c` finds at the ports from `COM1` on.
-/

namespace JosSmp.Machine

/-- The registers that the host has written, and the bytes that it has given to the transmitter, in order. -/
structure Uart where
  divisorLow : UInt8
  divisorHigh : UInt8
  interruptEnable : UInt8
  fifoControl : UInt8
  lineControl : UInt8
  modemControl : UInt8
  transmitted : List UInt8
  deriving DecidableEq, Repr

namespace Uart

/-- The divisor latch takes the place of two other registers. -/
def latch (u : Uart) : Prop := u.lineControl &&& 0x80 ≠ 0

instance (u : Uart) : Decidable u.latch := inferInstanceAs (Decidable (_ ≠ _))

/-- A write to a port; a device at `base` ignores every other port. -/
def write (base port : Nat) (data : UInt8) (u : Uart) : Uart :=
  if port = base then
    if u.latch then { u with divisorLow := data } else { u with transmitted := u.transmitted ++ [data] }
  else if port = base + 1 then
    if u.latch then { u with divisorHigh := data } else { u with interruptEnable := data }
  else if port = base + 2 then { u with fifoControl := data }
  else if port = base + 3 then { u with lineControl := data }
  else if port = base + 4 then { u with modemControl := data }
  else u

/-- The device after the writes, which are listed last one first. -/
def after (base : Nat) (u : Uart) (writes : List (Nat × UInt8)) : Uart :=
  writes.foldr (fun w u => u.write base w.1 w.2) u

/-- The clock is divided by 16 times the divisor. -/
def baud (u : Uart) : Nat := 115200 / (u.divisorLow.toNat + 256 * u.divisorHigh.toNat)

end Uart

end JosSmp.Machine
