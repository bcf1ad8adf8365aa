import JosSmp.Proof.Console.Refinement
import JosSmp.Proof.Readline.Returned

/-!
This file proves that the screen shows the line that `readline` holds.
-/

namespace JosSmp.Readline
open Machine Console

section Echo

variable {s : State Output} {x : Terminal} {c : UInt8} {base : Nat}

/-- The characters of the line stand on the terminal from the position `base` on, where the line began. The screen
has not scrolled past that position, because the line is too short. -/
structure Echoed (base : Nat) (s : State Output) (x : Terminal) : Prop where
  mirrors : Mirrors 1999 s.console x
  cursor : x.p = base + s.i
  room : s.i ≤ buflen - 1
  top : x.t = 0 ∨ 80 * x.t + 897 ≤ base
  shown : ∀ j < s.i, x.cell (base + j) = 0x0700 ||| (s.buf j).toUInt16

/-- Each character that does not end the line keeps the line visible. -/
theorem Echoed.next (echoed : Echoed base s x) (c : UInt8) :
    ∃ x', Echoed base (next stdio (stdio.iscons 0) c s) x' := by
  obtain ⟨mirrors, cursor, room, top, shown⟩ := echoed
  have position := mirrors.position
  have onScreen := mirrors.onScreen
  have full : buflen - 1 = 1023 := rfl
  by_cases erase : isErase c ∧ s.i > 0
  · rw [Readline.next, if_pos erase]
    have reached := Output.consPutc_reaches mirrors (BitVec.ofInt 32 0x08)
    rw [Terminal.put_backspace (by omega) (by omega)] at reached
    refine ⟨_, reached.mirrors, ?_, ?_, top, fun j before => ?_⟩
    · dsimp only
      omega
    · dsimp only
      omega
    · dsimp only at before ⊢
      rw [echo_buf, Function.update_of_ne (by omega)]
      exact shown j (by omega)
  by_cases more : 0x20 ≤ c ∧ s.i < buflen - 1
  · rw [Readline.next, if_neg erase, if_pos more]
    have reached := Output.consPutc_reaches mirrors (BitVec.ofInt 32 c.toNat)
    rw [Terminal.put_byte more.1] at reached
    refine ⟨_, reached.mirrors, ?_, ?_, ?_, fun j before => ?_⟩
    · rw [Terminal.follow_p]
      dsimp only
      omega
    · dsimp only
      omega
    · rw [Terminal.follow_t]
      dsimp only
      split <;> omega
    · rw [Terminal.follow_cell]
      simp only [State.store, echo_buf, echo_i, ofInt_byte] at before ⊢
      by_cases last : j = s.i
      · rw [last, ← cursor, Function.update_self, Function.update_self]
      · rw [Function.update_of_ne (by omega), Function.update_of_ne last]
        exact shown j (by omega)
  · rw [Readline.next, if_neg erase, if_neg more]
    exact ⟨x, mirrors, cursor, room, top, shown⟩

/-- Waiting for more characters keeps the line visible. -/
theorem Echoed.waiting (echoed : Echoed base s x) (chars : List UInt8) :
    ∃ x', Echoed base (waiting stdio (stdio.iscons 0) chars s) x' := by
  induction chars generalizing s x with
  | nil => exact ⟨x, echoed⟩
  | cons c chars ih =>
      obtain ⟨x', echoed'⟩ := echoed.next c
      exact ih echoed'

end Echo

/-- After every sequence of characters, each of whose passes goes on, the loop waits with its line on the screen in
front of the cursor. -/
theorem readline_visible (buf : Nat → UInt8) (o : Output) (chars : List UInt8) (fits : o.Fits)
    (onScreen : o.crtPos < crtSize) (typed : Typed chars) :
    ∃ s : State Output,
      (∀ rest, readLoop stdio (stdio.iscons 0) (chars.map (fun c => (c.toNat : Int)) ++ rest) ⟨buf, [], 0, o⟩ =
        readLoop stdio (stdio.iscons 0) rest s) ∧
      chars.foldlM (fun s c => (pass stdio (stdio.iscons 0) c.toNat s).bind Pass.goesOn) ⟨buf, [], 0, o⟩ = some s ∧
      s = waiting stdio (stdio.iscons 0) chars ⟨buf, [], 0, o⟩ ∧ s.i ≤ s.console.crtPos ∧
      ∀ j < s.i, s.console.cell (s.console.crtPos - s.i + j) = 0x0700 ||| (s.buf j).toUInt16 := by
  have start : Echoed o.crtPos (⟨buf, [], 0, o⟩ : State Output) (Terminal.initial o.cell o.crtPos) :=
    ⟨Output.initial_mirrors fits onScreen, rfl, Nat.zero_le _, .inl rfl, fun j none => absurd none (Nat.not_lt_zero j)⟩
  obtain ⟨x, mirrors, cursor, room, top, shown⟩ := start.waiting chars
  have position := mirrors.position
  have screen := mirrors.onScreen
  have full : buflen - 1 = 1023 := rfl
  refine ⟨_, fun rest => readLoop_waiting typed rest _, pass_waiting typed _, rfl, by omega, fun j before => ?_⟩
  rw [← shown j before]
  have place : o.crtPos + j = 80 * x.t + (((waiting stdio (stdio.iscons 0) chars ⟨buf, [], 0, o⟩).console.crtPos -
      (waiting stdio (stdio.iscons 0) chars ⟨buf, [], 0, o⟩).i) + j) := by omega
  rw [place]
  exact mirrors.shown _ (by unfold crtSize crtRows crtCols; omega)

/-- A character at the last cell scrolls the screen, and a backspace goes back over the end of the row. -/
theorem readline_visible_scrolled :
    let o : Output := ⟨0x3D4, 0xF00B8000, 1999, ⟨fun _ => 0, []⟩, fun _ _ => 0xFF, 0, []⟩
    ∃ s : State Output,
      (∀ rest, readLoop stdio (stdio.iscons 0)
        (([0x7f, 0x80, 0x08] : List UInt8).map (fun c => (c.toNat : Int)) ++ rest) ⟨fun _ => 0, [], 0, o⟩ =
          readLoop stdio (stdio.iscons 0) rest s) ∧
      ([0x7f, 0x80, 0x08] : List UInt8).foldlM (fun s c => (pass stdio (stdio.iscons 0) c.toNat s).bind Pass.goesOn)
        ⟨fun _ => 0, [], 0, o⟩ = some s ∧
      s = waiting stdio (stdio.iscons 0) [0x7f, 0x80, 0x08] ⟨fun _ => 0, [], 0, o⟩ ∧ s.i ≤ s.console.crtPos ∧
      ∀ j < s.i, s.console.cell (s.console.crtPos - s.i + j) = 0x0700 ||| (s.buf j).toUInt16 :=
  readline_visible (fun _ => 0) ⟨0x3D4, 0xF00B8000, 1999, ⟨fun _ => 0, []⟩, fun _ _ => 0xFF, 0, []⟩ [0x7f, 0x80, 0x08]
    (by unfold Output.Fits; decide) (by decide) (by unfold Typed; decide +kernel)

end JosSmp.Readline
