import JosSmp.Construction.Machine.Memory
import JosSmp.Construction.Lib.Printfmt

/-!
This file models the functions of `lib/printfmt.c` that print into a buffer.
-/

namespace JosSmp.Printfmt
open Machine

def eInval : Int := 3

/-- `struct sprintbuf` together with the memory that it writes. -/
structure Sprintbuf where
  buf : Nat
  ebuf : Nat
  cnt : Int
  memory : Memory

def sprintputch (ch : Int) (b : Sprintbuf) : Sprintbuf :=
  let b := { b with cnt := wrap32 (b.cnt + 1) }
  if b.buf < b.ebuf then
    { b with memory := Function.update b.memory b.buf (UInt8.ofInt ch), buf := address (b.buf + 1) }
  else b

def vsnprintf (memory : Memory) (buf : Nat) (n : Int) (fmt : List UInt8) (env : Environment) :
    Option (Int × Memory) :=
  let b : Sprintbuf := ⟨buf, address (buf + n - 1), 0, memory⟩
  if buf = 0 ∨ n < 1 then some (-eInval, memory)
  else (vprintfmt sprintputch fmt env b).map fun b => (b.cnt, Function.update b.memory b.buf 0)

/-- The argument list starts behind `fmt`. -/
def snprintf (memory : Memory) (buf : Nat) (n : Int) (fmt : List UInt8) (env : Environment) :
    Option (Int × Memory) := vsnprintf memory buf n fmt env

end JosSmp.Printfmt
