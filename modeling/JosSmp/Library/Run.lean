import Mathlib.Data.List.Basic
import Mathlib.Data.Nat.Find
import Mathlib.Logic.Function.Iterate

/-!
This file gives the induction for the runs of a deterministic machine whose steps may be guarded, and the passes of
a loop.
-/

namespace JosSmp.Library

variable {σ ε : Type*} {step : σ → ε → σ} {guard : σ → ε → Prop}

/-- Every step of the run starts in a state that its guard admits. -/
def Guarded (step : σ → ε → σ) (guard : σ → ε → Prop) : σ → List ε → Prop
  | _, [] => True
  | s, e :: rest => guard s e ∧ Guarded step guard (step s e) rest

/-- A guarded run splits into two guarded runs. -/
theorem guarded_append {s : σ} {before after : List ε} :
    Guarded step guard s (before ++ after) ↔
      Guarded step guard s before ∧ Guarded step guard (before.foldl step s) after := by
  induction before generalizing s with
  | nil => simp [Guarded]
  | cons e rest ih => simp only [List.cons_append, Guarded, List.foldl_cons, ih, and_assoc]

/-- A property that every admitted step preserves holds after every guarded run. -/
theorem Guarded.invariant {holds : σ → Prop} (keeps : ∀ s e, holds s → guard s e → holds (step s e))
    {s : σ} {events : List ε} (guarded : Guarded step guard s events) (start : holds s) :
    holds (events.foldl step s) := by
  induction events generalizing s with
  | nil => exact start
  | cons e rest ih => exact ih guarded.2 (keeps s e start guarded.1)

/-- A loop that makes this many passes: its condition holds before each of them, and no longer behind the last one. -/
def Passes (pass : σ → σ) (go : σ → Prop) (s : σ) (count : Nat) : Prop :=
  (∀ k < count, go (pass^[k] s)) ∧ ¬ go (pass^[count] s)

/-- A loop ends if each pass decreases a measure. -/
theorem exists_passes {pass : σ → σ} {go : σ → Prop} {measure : σ → Nat}
    (falls : ∀ s, go s → measure (pass s) < measure s) (s : σ) : ∃ count ≤ measure s, Passes pass go s count := by
  induction size : measure s using Nat.strongRecOn generalizing s with
  | _ size ih =>
      subst size
      by_cases more : go s
      · obtain ⟨count, few, each, last⟩ := ih _ (falls s more) (pass s) rfl
        have less := falls s more
        refine ⟨count + 1, by omega, fun k below => ?_, last⟩
        cases k with
        | zero => exact more
        | succ k => exact each k (by omega)
      · exact ⟨0, Nat.zero_le _, fun k below => absurd below (Nat.not_lt_zero k), more⟩

section Passes

variable {pass : σ → σ} {go : σ → Prop} {s : σ} {count : Nat}

/-- A loop that does not start makes no pass. -/
theorem passes_zero : Passes pass go s 0 ↔ ¬ go s := by
  simp [Passes]

/-- A loop that starts makes one pass, and then the ones from the state behind it. -/
theorem passes_succ : Passes pass go s (count + 1) ↔ go s ∧ Passes pass go (pass s) count := by
  constructor
  · intro passes
    exact ⟨passes.1 0 (Nat.succ_pos count), fun k below => passes.1 (k + 1) (by omega), passes.2⟩
  · intro both
    refine ⟨fun k below => ?_, both.2.2⟩
    cases k with
    | zero => exact both.1
    | succ k => exact both.2.1 k (by omega)

/-- A loop ends behind some passes, or its condition holds before each of them. -/
theorem passes_or_always (pass : σ → σ) (go : σ → Prop) (s : σ) :
    (∃ count, Passes pass go s count) ∨ ∀ k, go (pass^[k] s) := by
  classical
  by_cases ends : ∃ k, ¬ go (pass^[k] s)
  · exact .inl ⟨Nat.find ends, fun k below => not_not.mp (Nat.find_min ends below), Nat.find_spec ends⟩
  · exact .inr fun k => not_not.mp fun stops => ends ⟨k, stops⟩

end Passes

end JosSmp.Library
