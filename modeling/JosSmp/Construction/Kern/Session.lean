import JosSmp.Construction.Kern.Commands

/-!
This file models `monitor` of `kern/monitor.c` and `_panic` of `kern/init.c`.
The kernel waits in `getchar` for the next character of a line, so a step is the work from one character to the next
one. A panic calls `monitor` and never returns.
-/

namespace JosSmp.Monitor
open Machine Console Kdebug

/-- What the linker and the compiler decide: the symbols, the tables of `kern/kdebug.c`, the address of the buffer of
`readline`, and what the array `argv` of `runcmd` holds before it is written. -/
structure Kernel where
  symbols : Symbols
  tables : DebugTables
  buf : Nat
  argv : Argv

/-- The variable `panicstr`, which is a null pointer or not, the memory without the display, the index `i` of
`readline`, and the console. -/
structure Session where
  panicstr : Bool
  ram : Ram
  i : Nat
  console : Output

/-- A character that `getchar` returns, with the stack that `mon_backtrace` finds if the character calls it. -/
structure Event where
  char : UInt8
  stack : Stack

/-- All bytes from an address up to the end of the address space. -/
def bytesFrom (ram : Ram) (p : UInt32) : List UInt8 := Library.readBlock ram.byte p.toNat (4294967296 - p.toNat)

/-- Every command returns zero. -/
def returnValue (_ : Func) (_argc : Nat) (_argv : Argv) (_ : Ram) : Int := 0

/-- What a parsed line does to the console, and whether it has panicked. -/
def perform (kernel : Kernel) (fuel : Nat) (stack : Stack) (out : Outcome) (o : Output) : Option (Bool × Output) :=
  match out.action with
  | .nothing => some (false, o)
  | .message fmt argument =>
      (stdio.cprintf fmt ⟨fun _ => UInt32.ofNat argument, bytesFrom out.ram⟩ o).map (false, ·)
  | .invoke .monHelp => (monHelp o).map (false, ·)
  | .invoke .monKerninfo => (monKerninfo kernel.symbols o).map (false, ·)
  | .invoke .monBacktrace => monBacktrace kernel.tables fuel stack o

namespace Session

/-- The call of `readline` up to its first call of `getchar`. -/
def prompt (s : Session) : Option Session :=
  (Readline.prompted stdio (some (Cstring.literal "K> ")) s.console).map fun console => { s with i := 0, console }

/-- The call of `monitor` up to the first call of `getchar`. -/
def monitor (s : Session) : Option Session := do
  let o ← stdio.cprintf (Cstring.literal "Welcome to the JOS kernel monitor!\n") (arguments [] []) s.console
  let o ← stdio.cprintf (Cstring.literal "Type 'help' for a list of commands.\n") (arguments [] []) o
  prompt { s with console := o }

/-- The call of `_panic` up to the first call of `getchar`. -/
def panic (file : List UInt8) (line : UInt32) (fmt : List UInt8) (ap : Printfmt.Environment) (s : Session) :
    Option Session :=
  if s.panicstr then s.monitor
  else do
    let o ← stdio.cprintf (Cstring.literal "kernel panic at %s:%d: ") (arguments [1, line] [file]) s.console
    let o ← (vcprintf fmt ap o).map Prod.snd
    let o ← stdio.cprintf (Cstring.literal "\n") (arguments [] []) o
    monitor { s with panicstr := true, console := o }

/-- What `readline` finds when a character arrives. -/
def reading (kernel : Kernel) (s : Session) : Readline.State Output :=
  ⟨fun k => s.ram.byte (kernel.buf + k), [], s.i, s.console⟩

/-- The memory receives what `readline` has written, last index first. -/
def keep (kernel : Kernel) (r : Readline.State Output) (s : Session) : Session :=
  { s with
    ram := r.written.foldr (fun k ram => ram.store (kernel.buf + k) [r.buf k]) s.ram
    i := r.i
    console := r.console }

/-- A finished line is run. The loop of `monitor` breaks off for a negative result, and its callers start it again. -/
def command (kernel : Kernel) (fuel : Nat) (stack : Stack) (s : Session) : Option Session :=
  match runcmd returnValue (Readline.buflen + 1) kernel.buf kernel.argv s.ram with
  | none => none
  | some out =>
      match perform kernel fuel stack out s.console with
      | none => none
      | some (true, console) =>
          panic (Cstring.literal "kern/kdebug.c") 127 (Cstring.literal "User address") (arguments [] [])
            { s with ram := out.ram, console }
      | some (false, console) =>
          if out.result < 0 then monitor { s with ram := out.ram, console }
          else prompt { s with ram := out.ram, console }

/-- The work from the return of `getchar` to its next call. -/
def step (kernel : Kernel) (fuel : Nat) (s : Session) (event : Event) : Option Session :=
  match Readline.pass stdio (stdio.iscons 0) event.char.toNat (s.reading kernel) with
  | none => none
  | some (.more r) => some (s.keep kernel r)
  | some (.done false r) => (s.keep kernel r).prompt
  | some (.done true r) => (s.keep kernel r).command kernel fuel event.stack

end Session

end JosSmp.Monitor
