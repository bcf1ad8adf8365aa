import Mathlib.Data.Option.Basic

/-!
This file gives the states that a deterministic machine comes to, with the rules for a step and a sequence.
-/

namespace JosSmp.Library

section Leads

variable {σ : Type*} (step : σ → Option σ)

/-- So many steps of a machine that may stop. -/
def steps : Nat → σ → Option σ
  | 0, s => some s
  | n + 1, s => (step s).bind (steps n)

/-- The machine comes from this state to a state with the property. -/
def Leads (goal : σ → Prop) (s : σ) : Prop := ∃ n s', steps step n s = some s' ∧ goal s'

variable {step} {goal mid : σ → Prop} {s s' : σ} {n : Nat}

theorem Leads.now (here : goal s) : Leads step goal s := ⟨0, s, rfl, here⟩

theorem steps_add (n k : Nat) (s : σ) : steps step (n + k) s = (steps step n s).bind (steps step k) := by
  induction n generalizing s with
  | zero => rw [Nat.zero_add, steps, Option.bind_some]
  | succ n ih =>
      rw [Nat.add_right_comm, steps, steps, Option.bind_assoc]
      exact congrArg _ (funext ih)

theorem Leads.after (run : steps step n s = some s') (later : Leads step goal s') : Leads step goal s := by
  obtain ⟨k, last, rest, found⟩ := later
  exact ⟨n + k, last, by rw [steps_add, run, Option.bind_some, rest], found⟩

theorem Leads.trans (first : Leads step mid s) (rest : ∀ s, mid s → Leads step goal s) : Leads step goal s := by
  obtain ⟨n, s', run, found⟩ := first
  exact .after run (rest s' found)

end Leads

end JosSmp.Library
