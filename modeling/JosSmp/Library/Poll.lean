import JosSmp.Library.Run

/-!
This file gives the loop that reads a status again and again until it is the one it waits for.
-/

namespace JosSmp.Library

section Poll

variable {σ α : Type*} (read : σ → α × σ) (wanted : α → Prop)

/-- A loop without a body, whose condition reads; it has a result only if `fuel` reads are enough. -/
def poll [DecidablePred wanted] : (fuel : Nat) → σ → Option (α × σ)
  | 0, _ => none
  | fuel + 1, s =>
      let out := read s
      if wanted out.1 then some out else poll fuel out.2

/-- The state behind a read. -/
def polled (s : σ) : σ := (read s).2

/-- The reads that the loop makes in vain. -/
def Vain (s : σ) (count : Nat) : Prop := Passes (polled read) (fun s => ¬ wanted (read s).1) s count

variable {read wanted} {s : σ} {count : Nat}

/-- The loop ends with the first read that finds what is wanted, if it may read so often. -/
theorem Vain.poll [DecidablePred wanted] (vain : Vain read wanted s count) (fuel : Nat) :
    poll read wanted fuel s = if count < fuel then some (read ((polled read)^[count] s)) else none := by
  induction fuel generalizing s count with
  | zero => rw [Library.poll, if_neg (Nat.not_lt_zero count)]
  | succ fuel ih =>
      cases count with
      | zero =>
          have found : ¬ ¬ wanted (read s).1 := vain.2
          rw [Library.poll, if_pos (Nat.succ_pos fuel), Function.iterate_zero, id_eq]
          exact if_pos (not_not.mp found)
      | succ count =>
          obtain ⟨more, later⟩ := passes_succ.mp vain
          have rest := ih later
          simp only [Library.poll, if_neg more, Nat.add_lt_add_iff_right, Function.iterate_succ_apply]
          exact rest

/-- The loop of a device that first gives a list of other answers. -/
theorem vain_of_answers (answers : σ → List α) (other : ∀ s, ∀ a ∈ answers s, ¬ wanted a)
    (next : ∀ s a rest, answers s = a :: rest → (read s).1 = a ∧ answers (read s).2 = rest)
    (last : ∀ s, answers s = [] → wanted (read s).1) (s : σ) : Vain read wanted s (answers s).length := by
  induction waiting : answers s generalizing s with
  | nil => exact passes_zero.mpr (not_not.mpr (last s waiting))
  | cons a rest ih =>
      obtain ⟨here, later⟩ := next s a rest waiting
      refine passes_succ.mpr ⟨?_, ih _ later⟩
      rw [here]
      exact other s a (waiting ▸ List.mem_cons_self)

end Poll

end JosSmp.Library
