import Mathlib.Data.Nat.ModEq

/-!
This file gives the behaviour of a ring whose writer never waits for its reader.
The reader then follows a log of everything written, and skips a whole ring each time it is lapped.
-/

namespace JosSmp.Library

variable {α : Type*} {capacity next : Nat} {log : List α} {slots : Nat → α}

/-- An index moves on by one and returns to zero at the capacity. -/
def advance (capacity index : Nat) : Nat := if index + 1 = capacity then 0 else index + 1

/-- An advancing index counts modulo the capacity. -/
theorem advance_mod (positive : 0 < capacity) (n : Nat) :
    advance capacity (n % capacity) = (n + 1) % capacity := by
  have bound := Nat.mod_lt n positive
  unfold advance
  rw [Nat.add_mod n 1 capacity]
  split
  · rename_i top
    by_cases one : capacity = 1
    · simp [one, Nat.mod_one]
    · rw [Nat.mod_eq_of_lt (by omega : 1 < capacity), top, Nat.mod_self]
  · rw [Nat.mod_eq_of_lt (by omega : 1 < capacity), Nat.mod_eq_of_lt (by omega : n % capacity + 1 < capacity)]

/-- The slots hold the last entries of the log, each at its position modulo the capacity. -/
def Holds (capacity : Nat) (log : List α) (slots : Nat → α) : Prop :=
  ∀ i (inside : i < log.length), log.length ≤ i + capacity → slots (i % capacity) = log[i]

theorem Holds.empty (capacity : Nat) (slots : Nat → α) : Holds capacity [] slots := by
  intro i inside
  exact absurd inside (Nat.not_lt_zero i)

/-- Two positions less than one ring apart use different slots. -/
theorem slot_ne {i j : Nat} (before : i < j) (near : j < i + capacity) : i % capacity ≠ j % capacity := by
  intro same
  obtain ⟨turns, apart⟩ : capacity ∣ j - i := (Nat.modEq_iff_dvd' (le_of_lt before)).mp same
  have := Nat.le_of_dvd (by omega) ⟨turns, apart⟩
  omega

/-- Writing the next entry over the oldest slot keeps the last entries in place. -/
theorem Holds.push (holds : Holds capacity log slots) (x : α) :
    Holds capacity (log ++ [x]) (Function.update slots (log.length % capacity) x) := by
  intro i inside near
  rw [List.length_append, List.length_singleton] at inside near
  obtain old | same := Nat.lt_succ_iff_lt_or_eq.mp inside
  · rw [Function.update_of_ne (slot_ne old (by omega)), holds i old (by omega), List.getElem_append_left old]
  · subst same
    rw [Function.update_self, List.getElem_concat_length rfl]

/-- The reading position after one more entry is written: a lapped reader skips one ring. -/
def lap (capacity next written : Nat) : Nat := if written + 1 = next + capacity then written + 1 else next

/-- A lapped reader stays at its slot. -/
theorem lap_mod (capacity next written : Nat) : lap capacity next written % capacity = next % capacity := by
  unfold lap
  split
  · rename_i lapped
    rw [lapped, Nat.add_mod_right]
  · rfl

/-- The reader and the writer of a ring follow a log and a reading position in it. -/
structure Follows (capacity next : Nat) (log : List α) (slots : Nat → α) (reader writer : Nat) : Prop where
  reached : next ≤ log.length
  near : log.length < next + capacity
  reads : reader = next % capacity
  writes : writer = log.length % capacity
  holds : Holds capacity log slots

namespace Follows

variable {reader writer : Nat}

theorem positive (follows : Follows capacity next log slots reader writer) : 0 < capacity := by
  have := follows.reached
  have := follows.near
  omega

theorem initial (positive : 0 < capacity) (slots : Nat → α) : Follows capacity 0 [] slots 0 0 :=
  ⟨le_refl _, by simpa using positive, (Nat.zero_mod _).symm, (Nat.zero_mod _).symm, .empty _ _⟩

theorem reader_lt (follows : Follows capacity next log slots reader writer) : reader < capacity := by
  rw [follows.reads]
  exact Nat.mod_lt _ follows.positive

theorem writer_lt (follows : Follows capacity next log slots reader writer) : writer < capacity := by
  rw [follows.writes]
  exact Nat.mod_lt _ follows.positive

/-- The two indices agree exactly when the reader has read the whole log. -/
theorem idle (follows : Follows capacity next log slots reader writer) : reader = writer ↔ next = log.length := by
  have reached := follows.reached
  rw [follows.reads, follows.writes]
  constructor
  · intro same
    by_contra behind
    exact slot_ne (by omega) follows.near same
  · intro same
    rw [same]

/-- A reader that has not read the whole log finds its next entry. -/
theorem front (follows : Follows capacity next log slots reader writer) (behind : next < log.length) :
    slots reader = log[next] := by
  rw [follows.reads]
  exact follows.holds next behind (le_of_lt follows.near)

theorem push (follows : Follows capacity next log slots reader writer) (x : α) :
    Follows capacity (lap capacity next log.length) (log ++ [x]) (Function.update slots writer x) reader
      (advance capacity writer) := by
  have reached := follows.reached
  have near := follows.near
  have holds := follows.holds.push x
  rw [← follows.writes] at holds
  have writes : advance capacity writer = (log ++ [x]).length % capacity := by
    rw [follows.writes, advance_mod follows.positive, List.length_append, List.length_singleton]
  have total : (log ++ [x]).length = log.length + 1 := by simp
  have reads : reader = lap capacity next log.length % capacity := follows.reads.trans (lap_mod _ _ _).symm
  refine ⟨?_, ?_, reads, writes, holds⟩
  · unfold lap
    split <;> omega
  · unfold lap
    split <;> omega

theorem pop (follows : Follows capacity next log slots reader writer) (behind : next < log.length) :
    Follows capacity (next + 1) log slots (advance capacity reader) writer := by
  have near := follows.near
  refine ⟨behind, by omega, ?_, follows.writes, follows.holds⟩
  rw [follows.reads, advance_mod follows.positive]

end Follows

theorem le_lap (capacity next written : Nat) (reached : next ≤ written) : next ≤ lap capacity next written := by
  unfold lap
  split <;> omega

/-- A reader that stays within one ring is never lapped. -/
theorem lap_eq {written : Nat} (near : written + 1 < next + capacity) : lap capacity next written = next := by
  unfold lap
  rw [if_neg (by omega)]

/-- The reader of the ring still has these entries to read, the oldest one first. -/
def Queued (capacity : Nat) (waiting : List α) (slots : Nat → α) (reader writer : Nat) : Prop :=
  ∃ next log, Follows capacity next log slots reader writer ∧ log.drop next = waiting

namespace Queued

variable {reader writer : Nat} {waiting : List α}

theorem initial (positive : 0 < capacity) (slots : Nat → α) : Queued capacity [] slots 0 0 :=
  ⟨0, [], .initial positive slots, rfl⟩

/-- A writer that leaves one slot free overwrites nothing. -/
theorem push (queued : Queued capacity waiting slots reader writer) (room : waiting.length + 1 < capacity) (x : α) :
    Queued capacity (waiting ++ [x]) (Function.update slots writer x) reader (advance capacity writer) := by
  obtain ⟨next, log, follows, rfl⟩ := queued
  rw [List.length_drop] at room
  have pushed := follows.push x
  rw [lap_eq (by omega)] at pushed
  exact ⟨next, log ++ [x], pushed, List.drop_append_of_le_length follows.reached⟩

/-- The indices agree exactly when nothing waits. -/
theorem idle (queued : Queued capacity waiting slots reader writer) : reader = writer ↔ waiting = [] := by
  obtain ⟨next, log, follows, rfl⟩ := queued
  have reached := follows.reached
  rw [follows.idle, List.drop_eq_nil_iff]
  omega

/-- The reader finds the oldest entry, and goes on to the next one. -/
theorem pop {x : α} (queued : Queued capacity (x :: waiting) slots reader writer) :
    slots reader = x ∧ Queued capacity waiting slots (advance capacity reader) writer := by
  obtain ⟨next, log, follows, split⟩ := queued
  have behind : next < log.length := by
    by_contra past
    rw [List.drop_eq_nil_of_le (by omega)] at split
    cases split
  rw [List.drop_eq_getElem_cons behind, List.cons.injEq] at split
  exact ⟨(follows.front behind).trans split.1, next + 1, log, follows.pop behind, split.2⟩

end Queued

end JosSmp.Library
