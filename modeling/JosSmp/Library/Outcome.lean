import Mathlib.Data.List.Basic

/-!
This file relates the outcomes of two computations that may fail, and runs that feed a sink.
-/

namespace JosSmp.Library

variable {α β γ δ : Type*} {r : α → β → Prop} {r' : γ → δ → Prop}

/-- Mapping related outcomes by related functions relates the results. -/
theorem rel_map {x : Option α} {y : Option β} {f : α → γ} {g : β → δ} (related : Option.Rel r x y)
    (onward : ∀ a b, r a b → r' (f a) (g b)) : Option.Rel r' (x.map f) (y.map g) := by
  cases related with
  | none => exact .none
  | some here => exact .some (onward _ _ here)

/-- An outcome that is related by a function is the mapped outcome. -/
theorem rel_eq_map {f : α → β} {x : Option α} {y : Option β} (related : Option.Rel (fun a b => b = f a) x y) :
    y = x.map f := by
  cases related with
  | none => rfl
  | some here => rw [here, Option.map_some]

/-- A branch on the same condition relates the outcomes of both branches. -/
theorem rel_ite {c : Prop} [Decidable c] {x x' : Option α} {y y' : Option β} (first : Option.Rel r x y)
    (second : Option.Rel r x' y') : Option.Rel r (if c then x else x') (if c then y else y') := by
  by_cases holds : c
  · rwa [if_pos holds, if_pos holds]
  · rwa [if_neg holds, if_neg holds]

section Fault

variable {ε α β : Type}

theorem ok_bind (a : α) (f : α → Except ε β) : (Except.ok a >>= f) = f a := rfl

theorem error_bind (e : ε) (f : α → Except ε β) : (Except.error e >>= f) = Except.error e := rfl

end Fault

end JosSmp.Library
