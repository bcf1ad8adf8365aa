import JosSmp.Construction.Kern.ConsoleInput
import JosSmp.Construction.Kern.Keyboard
import JosSmp.Construction.Kern.Session

/-!
This file models `getchar` of `kern/console.c` under the monitor: the devices hand over their bytes at interrupts and
when the loop of `getchar` polls them, and the monitor goes on when the loop finds a character.
-/

namespace JosSmp.Monitor
open Machine Console

def comLsrData : UInt8 := 0x01

/-- The serial port answers the two port reads with `status` and `data`. -/
def serialProcData (status data : UInt8) : Int := if status &&& comLsrData = 0 then -1 else data.toNat

/-- What the console input consists of, and the monitor that waits for it. -/
structure Computer where
  serialExists : Bool
  cons : Cons
  shift : BitVec 32
  session : Session

/-- An interrupt of a device with the bytes that it has, or a pass of the loop of `getchar` with the bytes that both
devices have; a backtrace finds the stack if the pass runs it. -/
inductive Input
  | serialIntr (bytes : List UInt8)
  | kbdIntr (codes : List UInt8)
  | getc (bytes codes : List UInt8) (stack : Stack)

namespace Computer

def serialIntr (bytes : List UInt8) (m : Computer) : Computer :=
  { m with cons := Console.serialIntr m.serialExists m.cons (bytes.map (serialProcData comLsrData)) }

/-- The decoder may print a message. -/
def decode (codes : List UInt8) (m : Computer) : Option (List Int × Computer) := do
  let (results, keyboard) ← kbdFeed codes ⟨m.shift, m.session.console⟩
  some (results, { m with shift := keyboard.shift, session := { m.session with console := keyboard.console } })

def kbdIntr (codes : List UInt8) (m : Computer) : Option Computer := do
  let (results, m) ← m.decode codes
  some { m with cons := Console.kbdIntr m.cons results }

/-- The loop of `getchar` goes on while there is no character. -/
def getc (kernel : Kernel) (fuel : Nat) (bytes codes : List UInt8) (stack : Stack) (m : Computer) :
    Option Computer := do
  let (results, m) ← m.decode codes
  let out := consGetc m.serialExists m.cons (bytes.map (serialProcData comLsrData)) results
  let m := { m with cons := out.2 }
  if out.1 = 0 then some m
  else do
    let session ← m.session.step kernel fuel ⟨UInt8.ofInt out.1, stack⟩
    some { m with session }

def step (kernel : Kernel) (fuel : Nat) (m : Computer) : Input → Option Computer
  | .serialIntr bytes => some (m.serialIntr bytes)
  | .kbdIntr codes => m.kbdIntr codes
  | .getc bytes codes stack => m.getc kernel fuel bytes codes stack

end Computer

end JosSmp.Monitor
