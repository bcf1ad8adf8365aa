import JosSmp.Construction.Kern.Kdebug
import JosSmp.Construction.Kern.Monitor
import JosSmp.Construction.Kern.Printf

/-!
This file models the commands of `kern/monitor.c`.
A loop that has not ended after `fuel` passes has no result.
-/

namespace JosSmp.Monitor
open Machine Console Kdebug

/-- The argument words of a call, and its strings: the pointer to a string is its place among them, from one on. -/
def arguments (words : List UInt32) (strings : List (List UInt8)) : Printfmt.Environment where
  word i := words.getD i 0
  bytes p := strings.getD (p.toNat - 1) []

/-- The field `desc` of the command with this function. -/
def Func.desc : Func → List UInt8
  | .monHelp => Cstring.literal "Display this list of commands"
  | .monKerninfo => Cstring.literal "Display information about the kernel"
  | .monBacktrace => Cstring.literal "Display a listing of function call frames"

def monHelp (o : Output) : Option Output :=
  commands.foldlM (fun o command =>
    stdio.cprintf (Cstring.literal "%s - %s\n") (arguments [1, 2] [command.name, command.func.desc]) o) o

/-- The addresses that the linker defines; `stop` is the symbol `end`. -/
structure Symbols where
  start : UInt32
  etext : UInt32
  edata : UInt32
  stop : UInt32

/-- The size of the kernel in units of 1024 bytes. -/
def Symbols.footprint (symbols : Symbols) : Int :=
  (wrap32 (signedWord (symbols.stop - symbols.start) + 1023)).tdiv 1024

def monKerninfo (symbols : Symbols) (o : Output) : Option Output := do
  let o ← stdio.cprintf (Cstring.literal "Special kernel symbols:\n") (arguments [] []) o
  let o ← stdio.cprintf (Cstring.literal "  _start %08x (virt)  %08x (phys)\n")
    (arguments [symbols.start, symbols.start - kernbase] []) o
  let o ← stdio.cprintf (Cstring.literal "  etext  %08x (virt)  %08x (phys)\n")
    (arguments [symbols.etext, symbols.etext - kernbase] []) o
  let o ← stdio.cprintf (Cstring.literal "  edata  %08x (virt)  %08x (phys)\n")
    (arguments [symbols.edata, symbols.edata - kernbase] []) o
  let o ← stdio.cprintf (Cstring.literal "  end    %08x (virt)  %08x (phys)\n")
    (arguments [symbols.stop, symbols.stop - kernbase] []) o
  stdio.cprintf (Cstring.literal "Kernel executable memory footprint: %dKB\n")
    (arguments [UInt32.ofInt symbols.footprint] []) o

/-- The register `ebp` and the words of the stack when `mon_backtrace` is called. The calls that it makes do not
change the frames that it walks through. -/
structure Stack where
  ebp : UInt32
  word : UInt32 → UInt32

/-- The loop of `mon_backtrace`. The flag says that `debuginfo_eip` has panicked, so that the loop is left there. -/
def backtraceLoop (tables : DebugTables) (word : UInt32 → UInt32) : (fuel : Nat) → (ebp : UInt32) → Output →
    Option (Bool × Output)
  | 0, _, _ => none
  | fuel + 1, ebp, o =>
      if ebp ≠ 0 then
        match stdio.cprintf (Cstring.literal "ebp %08x eip %08x args %08x %08x %08x %08x %08x\n")
            (arguments [ebp, word (ebp + 4), word (ebp + 8), word (ebp + 12), word (ebp + 16), word (ebp + 20),
              word (ebp + 24)] []) o with
        | none => none
        | some o =>
            match debuginfoEip tables (word (ebp + 4)) with
            | .error .userAddress => some (true, o)
            | .error .unterminatedName => none
            | .ok out =>
                match stdio.cprintf (Cstring.literal "\t%s:%d: %.*s+%d\n")
                    (arguments [1, UInt32.ofInt out.info.eipLine, UInt32.ofInt out.info.eipFnNamelen, 2,
                        word (ebp + 4) - out.info.eipFnAddr]
                      [tables.bytes out.info.eipFile, tables.bytes out.info.eipFnName]) o with
                | none => none
                | some o => backtraceLoop tables word fuel (word ebp) o
      else some (false, o)

def monBacktrace (tables : DebugTables) (fuel : Nat) (stack : Stack) (o : Output) : Option (Bool × Output) :=
  backtraceLoop tables stack.word fuel stack.ebp o

end JosSmp.Monitor
