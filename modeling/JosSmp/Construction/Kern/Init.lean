import JosSmp.Construction.Kern.ConsoleInit
import JosSmp.Construction.Kern.Getchar
import JosSmp.Construction.Lib.Memset

/-!
This file models `i386_init` of `kern/init.c`.
-/

namespace JosSmp.Monitor
open Machine Console Kdebug

/-- The two lines about a call, and what comes between them. -/
def announced (x : Int) (call : Output → Option (Bool × Output)) (o : Output) : Option (Bool × Output) := do
  let o ← stdio.cprintf (Cstring.literal "entering test_backtrace %d\n") (arguments [UInt32.ofInt x] []) o
  let (panicked, o) ← call o
  if panicked then some (true, o)
  else
    let o ← stdio.cprintf (Cstring.literal "leaving test_backtrace %d\n") (arguments [UInt32.ofInt x] []) o
    some (false, o)

/-- The flag says that `mon_backtrace` has panicked, and so does not return. -/
def testBacktrace (tables : DebugTables) (fuel : Nat) (stack : Stack) (x : Int) : Output → Option (Bool × Output) :=
  announced x (if _ : x > 0 then testBacktrace tables fuel stack (x - 1) else monBacktrace tables fuel stack)
termination_by x.toNat
decreasing_by omega

/-- The addresses of the variables `panicstr`, `shift` and `cons`, which have no initial value in the program. -/
structure Bss where
  panicstr : Nat
  shift : Nat
  cons : Nat

/-- The input buffer that a memory holds, with its two indices behind it. -/
def consAt (a : Nat) (ram : Ram) : Cons :=
  ⟨fun i => ram.byte (a + i), (ram.load32 (a + consbufsize)).toNat, (ram.load32 (a + consbufsize + 4)).toNat⟩

/-- The call of `i386_init` up to the first call of `getchar`. The variables that the later steps keep on their own are
read from the memory that `memset` leaves. -/
def i386Init (kernel : Kernel) (bss : Bss) (fuel : Nat) (display : Display) (stack : Stack) (ram : Ram) (o : Output) :
    Option Computer := do
  let edata := kernel.symbols.edata
  let ram := (Cstring.memset edata.toNat 0 (kernel.symbols.stop - edata).toNat ram).2
  let (serialExists, o) ← consInit display o
  let o ← stdio.cprintf (Cstring.literal "6828 decimal is %o octal!\n") (arguments [6828] []) o
  let (panicked, console) ← testBacktrace kernel.tables fuel stack 5 o
  let s : Session := { panicstr := ram.load32 bss.panicstr ≠ 0, ram, i := 0, console }
  let session ←
    if panicked then
      s.panic (Cstring.literal "kern/kdebug.c") 127 (Cstring.literal "User address") (arguments [] [])
    else s.monitor
  some { serialExists, cons := consAt bss.cons ram, shift := (ram.load32 bss.shift).toBitVec, session }

end JosSmp.Monitor
