import JosSmp.Proof.Monitor.Backtrace
import JosSmp.Proof.Monitor.Parse
import JosSmp.Proof.Readline.Returned

/-!
This file says what a user of the kernel monitor sees: the monitor as a machine on lines and texts.
-/

namespace JosSmp.Monitor
open Library Machine Console Kdebug Printfmt Cstring

/-- A stack whose frames end, with the number of frames that `mon_backtrace` goes on behind. -/
structure Trail extends Stack where
  count : Nat
  passes : Passes word (Walks word) ebp count

/-- A character that is typed, and the stack that a backtrace finds then. -/
structure Key where
  char : UInt8
  nonzero : char ≠ 0
  trail : Trail

def Key.event (key : Key) : Event := ⟨key.char, key.trail.toStack⟩

/-- The line that is being typed, and whether the kernel has panicked. -/
structure Shell where
  line : List UInt8
  panicked : Bool

def promptText : List Int := text "K> "

def welcomeText : List Int :=
  text "Welcome to the JOS kernel monitor!\n" ++ text "Type 'help' for a list of commands.\n"

def panicText : List Int := text "kernel panic at kern/kdebug.c:127: User address\n"

def bytesOf (s : String) : List UInt8 := s.toList.map ascii

/-- What a line makes the monitor print, and whether it panics then. -/
def reply (kernel : Kernel) (trail : Trail) (line : List UInt8) : List Int × Bool :=
  if 15 < (words isSeparator line).length then (text "Too many arguments (max 16)\n", false)
  else
    match (words isSeparator line).head? with
    | none => ([], false)
    | some word =>
        if word = bytesOf "help" then (helpText, false)
        else if word = bytesOf "kerninfo" then (kerninfoText kernel.symbols, false)
        else if word = bytesOf "backtrace" then
          (traceText kernel.tables trail.word trail.ebp trail.count, decide (trail.word^[trail.count] trail.ebp ≠ 0))
        else (text "Unknown command '" ++ shownString word ++ text "'\n", false)

/-- What appears of a character that does not end the line. -/
def echoed (line : List UInt8) (c : UInt8) : List Int :=
  if Readline.isErase c ∧ line ≠ [] then [0x08]
  else if 0x20 ≤ c ∧ line.length < Readline.buflen - 1 then [c.toNat]
  else []

/-- A character that ends the line runs it, and each line is followed by a prompt. The first panic has a message. -/
def Shell.step (kernel : Kernel) (shell : Shell) (key : Key) : Shell × List Int :=
  if key.char = 0x0a ∨ key.char = 0x0d then
    let answer := reply kernel key.trail shell.line
    if answer.2 then
      (⟨[], true⟩, text "\n" ++ answer.1 ++ (if shell.panicked then [] else panicText) ++ welcomeText ++ promptText)
    else (⟨[], shell.panicked⟩, text "\n" ++ answer.1 ++ promptText)
  else (⟨Readline.keep shell.line key.char, shell.panicked⟩, echoed shell.line key.char)

/-- The texts of all characters, one behind the other. -/
def Shell.run (kernel : Kernel) : Shell → List Key → Shell × List Int
  | shell, [] => (shell, [])
  | shell, key :: keys =>
      let here := shell.step kernel key
      let later := Shell.run kernel here.1 keys
      (later.1, here.2 ++ later.2)

section Messages

variable {env : Environment} {s tail : List UInt8} {fmt : List UInt8}

/-- A message with one string in it. -/
theorem cprintf_string (before after : String) (plainBefore : ∀ b ∈ before.toList.map ascii, b ≠ ascii '%' ∧ b ≠ 0)
    (plainAfter : ∀ b ∈ after.toList.map ascii, b ≠ ascii '%' ∧ b ≠ 0)
    (format : fmt = formatText [plain before plainBefore, .directive stringSpec, plain after plainAfter] ++ [0])
    (string : stringArgument env 0 = s ++ 0 :: tail) (noEnd : 0 ∉ s) (short : s.length < 1073741824) (o : Output) :
    stdio.cprintf fmt env o = some (put (text before ++ shownString s ++ text after) o) := by
  have start : env.advance 0 = env := by simp only [Environment.advance, Nat.zero_add]
  obtain ⟨valid, printed⟩ := stringSpec_prints string noEnd short
  refine cprintf_items _ o format ⟨trivial, ?_, trivial, trivial⟩ ?_
  · exact start.symm ▸ valid
  · simp only [formatPrinted, Item.printed, Item.words, plain, start, printed, List.append_nil, List.append_assoc]
    rfl

theorem prompt_eq (o : Output) :
    Readline.prompted stdio (some (literal "K> ")) o = some (put promptText o) := by
  have string : stringArgument ⟨fun _ => 1, fun _ => literal "K> "⟩ 0 = bytesOf "K> " ++ 0 :: [] := by decide +kernel
  have shown : text "" ++ shownString (bytesOf "K> ") ++ text "" = promptText := by decide +kernel
  rw [← shown]
  exact cprintf_string "" "" (by decide +kernel) (by decide +kernel) (by decide +kernel) string (by decide +kernel)
    (by decide +kernel) o

theorem cprintf_panic (o : Output) :
    stdio.cprintf (literal "kernel panic at %s:%d: ") (arguments [1, 127] [literal "kern/kdebug.c"]) o =
      some (put (text "kernel panic at kern/kdebug.c:127: ") o) := by
  let items : List Item := [plain "kernel panic at " (by decide +kernel), .directive stringSpec,
    plain ":" (by decide +kernel),
    .directive decimalSpec, plain ": " (by decide +kernel)]
  have string :
      stringArgument (arguments [1, 127] [literal "kern/kdebug.c"]) 0 = bytesOf "kern/kdebug.c" ++ 0 :: [] := by
    decide
  obtain ⟨valid, printed⟩ := stringSpec_prints string (by decide +kernel) (by decide +kernel)
  have start :
      (arguments [1, 127] [literal "kern/kdebug.c"]).advance 0 = arguments [1, 127] [literal "kern/kdebug.c"] :=
    arguments_advance 0
  refine cprintf_items items o (by decide +kernel) ⟨trivial, ?_, trivial, decimalSpec_valid, trivial, trivial⟩ ?_
  · exact start.symm ▸ valid
  simp only [items, formatPrinted, Item.printed, Item.words, plain, arguments_advance, stringSpec_words,
    decimalSpec_words, decimalSpec_printed, List.drop_succ_cons, List.drop_zero, List.append_nil, printed]
  decide +kernel

end Messages

end JosSmp.Monitor
