import JosSmp.Construction.Kern.ConsoleOutput
import JosSmp.Construction.Lib.Printfmt
import JosSmp.Construction.Lib.Readline

/-!
This file models `kern/printf.c`, and gives the standard output functions of the kernel.
-/

namespace JosSmp.Console
open Machine

/-- What `putdat` points to, and the console. -/
structure Printing where
  cnt : Int
  console : Output

/-- `*cnt++` moves the local pointer, and leaves the count. -/
def putch (ch : Int) (s : Printing) : Printing := { s with console := s.console.cputchar ch }

/-- The count stays, and the console receives each character. -/
theorem putch_foldl {α : Type} (ch : α → Int) (out : List α) (cnt : Int) (o : Output) :
    out.foldl (fun s b => putch (ch b) s) (⟨cnt, o⟩ : Printing) =
      ⟨cnt, out.foldl (fun o b => o.cputchar (ch b)) o⟩ := by
  induction out generalizing o with
  | nil => rfl
  | cons b out ih => exact ih _

def vcprintf (fmt : List UInt8) (ap : Printfmt.Environment) (o : Output) : Option (Int × Output) :=
  (Printfmt.vprintfmt putch fmt ap ⟨0, o⟩).map fun s => (s.cnt, s.console)

def cprintf (fmt : List UInt8) (ap : Printfmt.Environment) (o : Output) : Option (Int × Output) := vcprintf fmt ap o

def iscons (_fdnum : Int) : Int := 1

/-- The functions that `readline` is linked with in the kernel. -/
def stdio : Readline.Stdio Output where
  cprintf fmt ap o := (cprintf fmt ap o).map Prod.snd
  cputchar := Output.cputchar
  iscons := iscons

end JosSmp.Console
