import JosSmp.Construction.Kern.Printf
import JosSmp.Proof.Console.Overprint
import JosSmp.Proof.Console.Refinement
import JosSmp.Proof.Printfmt.Text

/-!
This file compares a string that is printed through `%s` with the string as the format itself.
-/

namespace JosSmp.Console
open Machine Printfmt

/-- The bytes of a format without directives and of a string. -/
def Plain (s : List UInt8) : Prop := ∀ b ∈ s, b ≠ ascii '%' ∧ b ≠ 0

section Strings

variable {σ : Type} {putch : Int → σ → σ} {env : Environment} {s tail : List UInt8}

/-- A string without a precision is put into the sink as signed characters. -/
theorem putString_plain (noEnd : 0 ∉ s) (width : Int) (lower : -2147483648 ≤ width - s.length) (upper : width ≤ -1)
    (t : σ) :
    putString putch false (s ++ 0 :: tail) width (-1) t =
      some (width - s.length, s.foldl (fun t b => putch (signedChar b) t) t) := by
  have text : IsText (s ++ 0 :: tail) (-1) s := isText_cut noEnd tail (-1)
  rw [putString_text text (wrap32_eq (by omega) (by omega)), wrap32_eq lower (by omega), shown_false]

/-- A format without directives is put into the sink as unsigned characters. -/
theorem vprintfmt_plain (plain : Plain s) (t : σ) :
    vprintfmt putch (s ++ 0 :: tail) env t = some (s.foldl (fun t b => putch b.toNat t) t) := by
  rw [vprintfmt_eq, vprintfmtLoop_plain plain]
  exact vprintfmtLoop_end rfl

/-- `%s` puts a string into the sink as signed characters. -/
theorem vprintfmt_string (plain : Plain s) (object : s.length < 2147483648) (pointer : env.word 0 ≠ 0)
    (string : env.bytes (env.word 0) = s ++ 0 :: tail) (t : σ) :
    vprintfmt putch (Cstring.literal "%s") env t = some (s.foldl (fun t b => putch (signedChar b) t) t) := by
  have noEnd : 0 ∉ s := fun member => (plain 0 member).2 rfl
  have width : ¬ (Directive.initial.width > 0 ∧ Directive.initial.padc ≠ ascii '-') := by decide
  have text : putString putch false (s ++ 0 :: tail) (-1) (-1) t =
      some ((-1 : Int) - s.length, s.foldl (fun t b => putch (signedChar b) t) t) :=
    putString_plain noEnd (-1) (by omega) (by omega) t
  rw [vprintfmt_eq, vprintfmtLoop_message, if_neg pointer, string, printString]
  simp only [if_neg width]
  change ((putString putch false (s ++ 0 :: tail) (-1) (-1) t).map fun out =>
    (padLoop putch (ascii ' ') out.1 out.2).2) = _
  rw [text, Option.map_some, padLoop, if_neg (by omega)]

end Strings

/-- The console after each character of a string has been printed as an `int`. -/
def printed (ch : UInt8 → Int) (s : List UInt8) (o : Output) : Output := s.foldl (fun o b => o.cputchar (ch b)) o

theorem printed_reaches {o : Output} {x : Terminal} (ch : UInt8 → Int) (s : List UInt8) (mirrors : Mirrors 1999 o x) :
    Reaches 1999 o (printed ch s o) (s.foldl (fun x b => x.put (BitVec.ofInt 32 (ch b))) x) :=
  List.foldl_rel (r := Reaches 1999 o) ⟨mirrors, rfl, .refl o⟩ fun _ _ _ _ reached =>
    reached.trans (Output.consPutc_reaches reached.mirrors _)

/-- Two states show the same characters at the same cursor position. -/
def SameDisplay (o o' : Output) : Prop := o.crtPos = o'.crtPos ∧ ∀ i < crtSize, o.cell i = o'.cell i

/-- Two screens are the same exactly when their terminals are the same from the top row on. -/
theorem sameDisplay_iff {o o' : Output} {x x' : Terminal} (first : Mirrors 1999 o x) (second : Mirrors 1999 o' x')
    (aligned : x.Aligned x') : SameDisplay o o' ↔ ∀ i, 80 * x'.t ≤ i → x.cell i = x'.cell i := by
  obtain ⟨cursor, top⟩ := aligned
  have position := first.position
  have position' := second.position
  constructor
  · intro ⟨_, cells⟩ i visible
    by_cases inside : i < 80 * x'.t + crtSize
    · have shown := first.shown (i - 80 * x'.t) (by omega)
      have shown' := second.shown (i - 80 * x'.t) (by omega)
      have place : 80 * x'.t + (i - 80 * x'.t) = i := by omega
      rw [top, place] at shown
      rw [place] at shown'
      rw [← shown, ← shown', cells _ (by omega)]
    · rw [first.blank i (by omega), second.blank i (by omega)]
  · intro same
    refine ⟨by omega, fun i inside => ?_⟩
    rw [first.shown i inside, second.shown i inside, top]
    exact same _ (by omega)

section Screens

variable {o : Output} {env : Environment} {s tail : List UInt8}

theorem cprintf_plain (plain : Plain s) :
    cprintf (s ++ 0 :: tail) env o = some (0, printed (fun b => b.toNat) s o) := by
  rw [cprintf, vcprintf, vprintfmt_plain plain, putch_foldl]
  rfl

theorem cprintf_string (plain : Plain s) (object : s.length < 2147483648) (pointer : env.word 0 ≠ 0)
    (string : env.bytes (env.word 0) = s ++ 0 :: tail) :
    cprintf (Cstring.literal "%s") env o = some (0, printed signedChar s o) := by
  rw [cprintf, vcprintf, vprintfmt_string plain object pointer string, putch_foldl]
  rfl

theorem printed_same_iff (fits : o.Fits) (onScreen : o.crtPos < crtSize) (s : List UInt8) :
    SameDisplay (printed signedChar s o) (printed (fun b => b.toNat) s o) ↔
      Terminal.Hidden (Terminal.initial o.cell o.crtPos) s := by
  have start := Output.initial_mirrors fits onScreen
  have first := (printed_reaches signedChar s start).mirrors
  have second := (printed_reaches (fun b => b.toNat) s start).mirrors
  have aligned : (Terminal.initial o.cell o.crtPos).Aligned (Terminal.initial o.cell o.crtPos) := ⟨rfl, rfl⟩
  have same := Terminal.run_same_iff aligned s
  simp only [ne_eq, not_true, false_implies, implies_true, and_true] at same
  exact (sameDisplay_iff first second (Terminal.run_aligned aligned s)).trans same

/-- A string without directives looks the same through `%s` and as the format exactly when the bytes after each byte
from 0x80 on hide it. -/
theorem cprintf_string_iff (o : Output) (s tail tail' : List UInt8) (env env' : Environment) (plain : Plain s)
    (object : s.length < 2147483648) (pointer : env.word 0 ≠ 0)
    (string : env.bytes (env.word 0) = s ++ 0 :: tail) (fits : o.Fits) (onScreen : o.crtPos < crtSize) :
    (∃ o₁ o₂ : Output, cprintf (Cstring.literal "%s") env o = some (0, o₁) ∧
      cprintf (s ++ 0 :: tail') env' o = some (0, o₂) ∧ SameDisplay o₁ o₂) ↔
        Terminal.Hidden (Terminal.initial o.cell o.crtPos) s := by
  rw [cprintf_string plain object pointer string, cprintf_plain plain, ← printed_same_iff fits onScreen]
  constructor
  · rintro ⟨o₁, o₂, first, second, same⟩
    cases first
    cases second
    exact same
  · intro same
    exact ⟨_, _, rfl, rfl, same⟩

end Screens

/-- The string argument is at one address, and the format's argument list is not read. -/
def stringArgument (s : List UInt8) : Environment := ⟨fun _ => 0xF0100000, fun _ => s ++ [0]⟩

/-- The byte 0x80 is printed with the attribute 0x07 by the format, and with the attribute 0xFF by `%s`. -/
theorem cprintf_string_fails :
    ¬ ∀ (o : Output) (s : List UInt8), Plain s → s.length < 2147483648 → o.Fits → o.crtPos < crtSize →
      ∃ o₁ o₂ : Output, cprintf (Cstring.literal "%s") (stringArgument s) o = some (0, o₁) ∧
        cprintf (s ++ [0]) (stringArgument s) o = some (0, o₂) ∧ SameDisplay o₁ o₂ := by
  intro claim
  let o : Output := ⟨0x3D4, 0xF00B8000, 0, ⟨fun _ => 0, []⟩, fun _ _ => 0xFF, 0, []⟩
  have fits : o.Fits := by
    unfold Output.Fits
    decide
  have plain : Plain [0x80] := by
    unfold Plain
    decide +kernel
  obtain ⟨_, _, first, second, same⟩ := claim o [0x80] plain (by decide) fits (by decide)
  rw [cprintf_string plain (by decide) (by decide) rfl] at first
  rw [cprintf_plain plain] at second
  cases first
  cases second
  have hidden := (printed_same_iff fits (by decide) [0x80]).mp same
  exact hidden.1 (by decide) (by unfold Terminal.Stays; decide)

/-- A byte from 0x80 on that a backspace erases leaves no difference. -/
theorem cprintf_string_erased :
    let o : Output := ⟨0x3D4, 0xF00B8000, 1999, ⟨fun _ => 0, []⟩, fun _ _ => 0xFF, 0, []⟩
    (∃ o₁ o₂ : Output, cprintf (Cstring.literal "%s") (stringArgument [0x80, 0x08]) o = some (0, o₁) ∧
      cprintf ([0x80, 0x08] ++ 0 :: []) (stringArgument []) o = some (0, o₂) ∧ SameDisplay o₁ o₂) ↔
        Terminal.Hidden (Terminal.initial o.cell o.crtPos) [0x80, 0x08] :=
  cprintf_string_iff ⟨0x3D4, 0xF00B8000, 1999, ⟨fun _ => 0, []⟩, fun _ _ => 0xFF, 0, []⟩ [0x80, 0x08] [] []
    (stringArgument [0x80, 0x08]) (stringArgument []) (by unfold Plain; decide +kernel) (by decide) (by decide) rfl
    (by unfold Output.Fits; decide) (by decide)

end JosSmp.Console
