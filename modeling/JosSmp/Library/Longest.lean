import Mathlib.Data.List.Basic

/-!
This file gives the longest run of elements with a property at the start of a list.
-/

namespace JosSmp.Library

variable {α : Type*}

/-- A list does not start with an element that has the property. -/
def Stops (p : α → Prop) (s : List α) : Prop := ∀ b, s.head? = some b → ¬ p b

theorem stops_nil (p : α → Prop) : Stops p [] := fun _ starts => absurd starts (by simp)

theorem stops_cons {p : α → Prop} {b : α} {s : List α} : Stops p (b :: s) ↔ ¬ p b := by
  simp [Stops]

/-- A list starts with a longest run of elements that have a property. -/
theorem exists_longest (p : α → Prop) (s : List α) :
    ∃ run rest, s = run ++ rest ∧ (∀ b ∈ run, p b) ∧ Stops p rest := by
  induction s with
  | nil => exact ⟨[], [], rfl, by simp, stops_nil p⟩
  | cons b s ih =>
      by_cases holds : p b
      · obtain ⟨run, rest, rfl, all, stops⟩ := ih
        exact ⟨b :: run, rest, rfl, List.forall_mem_cons.mpr ⟨holds, all⟩, stops⟩
      · exact ⟨[], b :: s, rfl, by simp, stops_cons.mpr holds⟩

/-- A list stops in front of one element, or starts with it. -/
theorem stops_or_starts (c : α) (s : List α) : Stops (· = c) s ∨ ∃ rest, s = c :: rest := by
  cases s with
  | nil => exact .inl (stops_nil _)
  | cons b s =>
      by_cases same : b = c
      · exact .inr ⟨s, by rw [same]⟩
      · exact .inl (stops_cons.mpr same)

end JosSmp.Library
