import Mathlib.Order.Bounds.Defs

/-!
This file gives a memory under a sequence of partial writes, where the last write to a cell wins.
-/

namespace JosSmp.Library

variable {α : Type*} (writes : Nat → Nat → Option α) (memory : Nat → α)

/-- The memory after the first `count` writes. -/
def overlay : Nat → Nat → α
  | 0, a => memory a
  | count + 1, a => (writes count a).getD (overlay count a)

/-- A cell that no write covers keeps its value. -/
theorem overlay_untouched {count a : Nat} (outside : ∀ i < count, writes i a = none) :
    overlay writes memory count a = memory a := by
  induction count with
  | zero => rfl
  | succ count ih =>
      rw [overlay, outside count (Nat.lt_succ_self count), Option.getD_none]
      exact ih fun i earlier => outside i (Nat.lt_succ_of_lt earlier)

/-- The last write that covers a cell decides its value. -/
theorem overlay_last (count : Nat) {a i : Nat} (last : IsGreatest {i | i < count ∧ writes i a ≠ none} i) :
    some (overlay writes memory count a) = writes i a := by
  induction count with
  | zero => exact absurd last.1.1 (Nat.not_lt_zero i)
  | succ count ih =>
      obtain ⟨⟨before, covers⟩, greatest⟩ := last
      rw [overlay]
      by_cases here : writes count a = none
      · rw [here, Option.getD_none]
        have earlier : i ≠ count := by
          rintro rfl
          exact covers here
        exact ih ⟨⟨by omega, covers⟩, fun j ⟨lower, other⟩ => greatest ⟨Nat.lt_succ_of_lt lower, other⟩⟩
      · have same : i = count :=
          Nat.le_antisymm (Nat.le_of_lt_succ before) (greatest ⟨Nat.lt_succ_self count, here⟩)
        obtain ⟨value, written⟩ := Option.ne_none_iff_exists'.mp here
        rw [same, written, Option.getD_some]

end JosSmp.Library
