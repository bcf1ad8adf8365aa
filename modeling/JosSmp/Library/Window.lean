import Mathlib.Logic.Function.Basic

/-!
This file gives a window of fixed size that moves along an unbounded tape.
-/

namespace JosSmp.Library

variable {α : Type*} {size top : Nat} {tape view view' : Nat → α}

/-- The view shows the tape from `top` on. -/
def Shows (size : Nat) (tape : Nat → α) (top : Nat) (view : Nat → α) : Prop := ∀ i < size, view i = tape (top + i)

/-- A cell written in the view is the same cell written on the tape. -/
theorem Shows.write (shown : Shows size tape top view) (i : Nat) (x : α) :
    Shows size (Function.update tape (top + i) x) top (Function.update view i x) := by
  intro j inside
  by_cases same : j = i
  · rw [same, Function.update_self, Function.update_self]
  · rw [Function.update_of_ne same, Function.update_of_ne (by omega), shown j inside]

/-- A window that moves on shows old cells first and then what lies behind the old window. -/
theorem Shows.scroll (shown : Shows size tape top view) {step : Nat} {x : α}
    (behind : ∀ i, top + size ≤ i → tape i = x)
    (moved : ∀ i < size, view' i = if i + step < size then view (i + step) else x) :
    Shows size tape (top + step) view' := by
  intro i inside
  rw [moved i inside]
  split
  · rename_i old
    rw [shown _ old, Nat.add_assoc, Nat.add_comm i]
  · rw [behind _ (by omega)]

end JosSmp.Library
