import JosSmp.Construction.Lib.Printfmt

/-!
This file models `lib/readline.c`.
The list of characters holds the results of the calls of `getchar`.
-/

namespace JosSmp.Readline
open Machine

def buflen : Nat := 1024

/-- The functions of `inc/stdio.h` that `readline` calls besides `getchar`; the state of type `σ` is the console. -/
structure Stdio (σ : Type) where
  cprintf : List UInt8 → Printfmt.Environment → σ → Option σ
  cputchar : Int → σ → σ
  iscons : Int → Int

/-- The static buffer with the indices that have been written, the index `i`, and the console. -/
structure State (σ : Type) where
  buf : Nat → UInt8
  written : List Nat
  i : Nat
  console : σ

/-- A pass of the loop goes on, or returns `buf` or a null pointer. -/
inductive Pass (σ : Type) where
  | more (s : State σ)
  | done (returnsBuf : Bool) (s : State σ)

section Console

variable {σ : Type}

def State.store (s : State σ) (c : Int) : State σ :=
  { s with buf := Function.update s.buf s.i (UInt8.ofInt c), written := s.i :: s.written }

/-- Nothing is printed when `echoing` is zero. -/
def State.echo (stdio : Stdio σ) (echoing c : Int) (s : State σ) : State σ :=
  if echoing ≠ 0 then { s with console := stdio.cputchar c s.console } else s

def pass (stdio : Stdio σ) (echoing c : Int) (s : State σ) : Option (Pass σ) :=
  if c < 0 then
    (stdio.cprintf (Cstring.literal "read error: %e\n") ⟨fun _ => UInt32.ofInt c, fun _ => []⟩ s.console).map
      fun console => .done false { s with console }
  else if (c = 0x08 ∨ c = 0x7f) ∧ s.i > 0 then
    let s := s.echo stdio echoing 0x08
    some (.more { s with i := s.i - 1 })
  else if c ≥ ' '.toNat ∧ s.i < buflen - 1 then
    let s := (s.echo stdio echoing c).store c
    some (.more { s with i := s.i + 1 })
  else if c = '\n'.toNat ∨ c = '\r'.toNat then
    some (.done true ((s.echo stdio echoing '\n'.toNat).store 0))
  else some (.more s)

/-- The loop; it waits for more characters if there are none left. -/
def readLoop (stdio : Stdio σ) (echoing : Int) : List Int → State σ → Option (Bool × State σ)
  | [], _ => none
  | c :: rest, s =>
      match pass stdio echoing c s with
      | none => none
      | some (.more s) => readLoop stdio echoing rest s
      | some (.done returnsBuf s) => some (returnsBuf, s)

/-- The prompt is a null pointer or a string at some nonzero address. -/
def prompted (stdio : Stdio σ) (prompt : Option (List UInt8)) (console : σ) : Option σ :=
  match prompt with
  | none => some console
  | some text => stdio.cprintf (Cstring.literal "%s") ⟨fun _ => 1, fun _ => text⟩ console

/-- Whether `buf` is returned, and the state that is left. -/
def readline (stdio : Stdio σ) (prompt : Option (List UInt8)) (chars : List Int) (buf : Nat → UInt8) (console : σ) :
    Option (Bool × State σ) :=
  match prompted stdio prompt console with
  | none => none
  | some console => readLoop stdio (stdio.iscons 0) chars ⟨buf, [], 0, console⟩

end Console

end JosSmp.Readline
