import JosSmp.Construction.Kern.Printf
import JosSmp.Proof.Printfmt.Buffer
import JosSmp.Proof.Printfmt.Silent

/-!
This file compares the count that `cprintf` returns with the characters that it prints.
-/

namespace JosSmp.Console
open Machine Printfmt

theorem vcprintf_eq {fmt : List UInt8} {ap : Environment} {out : List Int} (o : Output)
    (run : output fmt ap = some out) : vcprintf fmt ap o = some (0, out.foldl (fun o ch => o.cputchar ch) o) := by
  rw [vcprintf, vprintfmt_output, run, Option.map_some, Option.map_some, putch_foldl fun ch => ch]

/-- Nothing is printed exactly for a silent format. -/
theorem output_nil_iff (fmt : List UInt8) (ap : Environment) : output fmt ap = some [] ↔ Silent ap 0 ⟨[], fmt⟩ :=
  vprintfmtLoop_silent_iff ap 0 ⟨[], fmt⟩ []

/-- `cprintf` counts the characters that it passes to `cputchar`, as `vsnprintf` counts them, exactly for the formats
that print nothing. -/
theorem cprintf_count_iff (fmt : List UInt8) (ap : Environment) (o : Output) (out : List Int)
    (run : output fmt ap = some out) :
    ∃ value, vcprintf fmt ap o = some (value, out.foldl (fun o ch => o.cputchar ch) o) ∧
      cprintf fmt ap o = some (value, out.foldl (fun o ch => o.cputchar ch) o) ∧
      (value = out.length ∧
          (∀ memory buf n, Buffer buf n → ∃ memory', vsnprintf memory buf n fmt ap = some (value, memory')) ↔
        Silent ap 0 ⟨[], fmt⟩) := by
  refine ⟨0, vcprintf_eq o run, vcprintf_eq o run, ?_⟩
  rw [← output_nil_iff, run, Option.some.injEq]
  constructor
  · intro ⟨count, _⟩
    exact List.length_eq_zero_iff.mp (by omega)
  · rintro rfl
    have none : wrap32 (([] : List Int).length : Nat) = 0 := by decide
    exact ⟨rfl, fun memory buf n buffer => ⟨_, (vsnprintf_eq buffer run).trans (by rw [none])⟩⟩

/-- An empty string prints nothing. -/
theorem cprintf_count_empty :
    let ap : Environment := ⟨fun _ => 0xF0100000, fun _ => [0]⟩
    let o : Output := ⟨0x3D4, 0xF00B8000, 0, ⟨fun _ => 0, []⟩, fun _ _ => 0xFF, 0, []⟩
    ∃ value, vcprintf (Cstring.literal "%s") ap o = some (value, o) ∧
      cprintf (Cstring.literal "%s") ap o = some (value, o) ∧
      (value = 0 ∧ (∀ memory buf n, Buffer buf n →
          ∃ memory', vsnprintf memory buf n (Cstring.literal "%s") ap = some (value, memory')) ↔
        Silent ap 0 ⟨[], Cstring.literal "%s"⟩) :=
  cprintf_count_iff (Cstring.literal "%s") ⟨fun _ => 0xF0100000, fun _ => [0]⟩
    ⟨0x3D4, 0xF00B8000, 0, ⟨fun _ => 0, []⟩, fun _ _ => 0xFF, 0, []⟩ [] (by decide +kernel)

/-- One printed character is not counted. -/
theorem cprintf_count_fails :
    ¬ ∀ (fmt : List UInt8) (ap : Environment) (o : Output) (out : List Int), output fmt ap = some out →
      out.length < 2147483648 → ∃ value, cprintf fmt ap o = some (value, out.foldl (fun o ch => o.cputchar ch) o) ∧
        value = out.length ∧
        ∀ memory buf n, Buffer buf n → ∃ memory', vsnprintf memory buf n fmt ap = some (value, memory') := by
  intro claim
  let ap : Environment := ⟨fun _ => 0, fun _ => []⟩
  have run : output (Cstring.literal "a") ap = some [97] := by decide +kernel
  obtain ⟨value, call, count, _⟩ :=
    claim (Cstring.literal "a") ap ⟨0x3D4, 0xF00B8000, 0, ⟨fun _ => 0, []⟩, fun _ _ => 0xFF, 0, []⟩ [97] run (by decide)
  rw [cprintf, vcprintf_eq _ run, Option.some.injEq, Prod.mk.injEq] at call
  exact absurd (call.1.trans count) (by decide)

end JosSmp.Console
