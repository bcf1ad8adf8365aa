import JosSmp.Construction.Lib.Readline

/-!
This file compares `readline` with a line editor.
-/

namespace JosSmp.Readline
open Library Machine

/-- Backspace and DEL. -/
def isErase (c : UInt8) : Prop := c = 0x08 ∨ c = 0x7f

instance (c : UInt8) : Decidable (isErase c) := inferInstanceAs (Decidable (_ ∨ _))

/-- What a character does to the line of an editor. -/
def edit (line : List UInt8) (c : UInt8) : List UInt8 :=
  if isErase c then line.dropLast
  else if 0x20 ≤ c ∧ line.length < buflen - 1 then line ++ [c]
  else line

/-- What a character does to the line of `readline`: an empty line has no character to erase. -/
def keep (line : List UInt8) (c : UInt8) : List UInt8 :=
  if isErase c ∧ line ≠ [] then line.dropLast
  else if 0x20 ≤ c ∧ line.length < buflen - 1 then line ++ [c]
  else line

/-- Every DEL that arrives at an empty line is erased again. The line has `n` characters, besides a stray DEL. -/
def clean : (n : Nat) → (stray : Bool) → List UInt8 → Bool
  | _, stray, [] => !stray
  | n, stray, c :: rest =>
      if isErase c then
        if n > 0 then clean (n - 1) stray rest else clean 0 (!stray && c = 0x7f) rest
      else if 0x20 ≤ c ∧ n + stray.toNat < buflen - 1 then clean (n + 1) stray rest
      else clean n stray rest

/-- Characters that `getchar` returns without ending the line. -/
def Typed (chars : List UInt8) : Prop := ∀ c ∈ chars, c ≠ 0 ∧ c ≠ 0x0a ∧ c ≠ 0x0d

/-- The string that starts at `buf`. -/
def returned (buf : Nat → UInt8) : List UInt8 := (readBlock buf 0 buflen).takeWhile (· ≠ 0)

section Lines

variable {chars line edited : List UInt8} {c : UInt8}

theorem keep_erase (erase : isErase c) (nonempty : line ≠ []) : keep line c = line.dropLast := if_pos ⟨erase, nonempty⟩

theorem edit_erase (erase : isErase c) : edit line c = line.dropLast := if_pos erase

/-- Only an erasing character may be treated differently. -/
theorem keep_other (other : ¬ isErase c) : keep line c = edit line c := by
  rw [keep, edit, if_neg fun both => other both.1, if_neg other]

theorem edit_append (other : ¬ isErase c) (room : 0x20 ≤ c ∧ line.length < buflen - 1) : edit line c = line ++ [c] := by
  rw [edit, if_neg other, if_pos room]

theorem edit_ignore (other : ¬ isErase c) (full : ¬ (0x20 ≤ c ∧ line.length < buflen - 1)) : edit line c = line := by
  rw [edit, if_neg other, if_neg full]

theorem clean_erase {n : Nat} {stray : Bool} (erase : isErase c) (some : 0 < n) :
    clean n stray (c :: chars) = clean (n - 1) stray chars := by
  rw [clean, if_pos erase, if_pos some]

theorem clean_empty {stray : Bool} (erase : isErase c) :
    clean 0 stray (c :: chars) = clean 0 (!stray && c = 0x7f) chars := by
  rw [clean, if_pos erase, if_neg (Nat.lt_irrefl 0)]

theorem clean_append {n : Nat} {stray : Bool} (other : ¬ isErase c) (room : 0x20 ≤ c ∧ n + stray.toNat < buflen - 1) :
    clean n stray (c :: chars) = clean (n + 1) stray chars := by
  rw [clean, if_neg other, if_pos room]

theorem clean_ignore {n : Nat} {stray : Bool} (other : ¬ isErase c)
    (full : ¬ (0x20 ≤ c ∧ n + stray.toNat < buflen - 1)) : clean n stray (c :: chars) = clean n stray chars := by
  rw [clean, if_neg other, if_neg full]

theorem append_noDel (noDel : 0x7f ∉ line) (other : ¬ isErase c) : 0x7f ∉ line ++ [c] := by
  rw [List.mem_append, List.mem_singleton]
  rintro (member | rfl)
  · exact noDel member
  · exact other (.inr rfl)

/-- From the same line on, the two lines are the same at the end exactly when no DEL is left over. -/
def SameLine (chars : List UInt8) : Prop :=
  ∀ line, 0x7f ∉ line → (chars.foldl keep line = chars.foldl edit line ↔ clean line.length false chars = true)

/-- A line with a stray DEL is at most as long as the line of the editor, besides the DEL. -/
def StrayLine (chars : List UInt8) : Prop :=
  ∀ line edited, 0x7f ∉ edited → line.length ≤ edited.length → edited.length ≤ line.length + 1 →
    (chars.foldl keep (0x7f :: line) = chars.foldl edit edited ↔ clean line.length true chars = true)

theorem sameLine_cons (same : SameLine chars) (stray : StrayLine chars) : SameLine (c :: chars) := by
  intro line noDel
  rw [List.foldl_cons, List.foldl_cons]
  by_cases erase : isErase c
  · rw [edit_erase erase]
    by_cases empty : line = []
    · subst empty
      rw [List.length_nil, clean_empty erase, List.dropLast_nil]
      obtain rfl | rfl := erase
      · exact same [] (by simp)
      · exact stray [] [] (by simp) (by simp) (by simp)
    · rw [keep_erase erase empty, clean_erase erase (List.length_pos_iff.mpr empty), ← List.length_dropLast]
      exact same _ fun member => noDel (List.dropLast_subset line member)
  · rw [keep_other erase]
    by_cases room : 0x20 ≤ c ∧ line.length < buflen - 1
    · have more := same (line ++ [c]) (append_noDel noDel erase)
      rw [List.length_append, List.length_singleton] at more
      rw [edit_append erase room, clean_append erase room]
      exact more
    · rw [edit_ignore erase room, clean_ignore erase room]
      exact same line noDel

theorem strayLine_cons (same : SameLine chars) (stray : StrayLine chars) : StrayLine (c :: chars) := by
  intro line edited noDel lower upper
  rw [List.foldl_cons, List.foldl_cons]
  by_cases erase : isErase c
  · have noDel' : 0x7f ∉ edited.dropLast := fun member => noDel (List.dropLast_subset edited member)
    have size := edited.length_dropLast
    rw [edit_erase erase, keep_erase erase (List.cons_ne_nil _ _)]
    by_cases empty : line = []
    · subst empty
      rw [List.length_nil] at upper
      have none : edited.dropLast = [] := List.length_eq_zero_iff.mp (by omega)
      rw [none, List.length_nil, clean_empty erase]
      exact same [] (by simp)
    · have some := List.length_pos_iff.mpr empty
      have size' := line.length_dropLast
      rw [List.dropLast_cons_of_ne_nil empty, clean_erase erase some, ← size']
      exact stray _ _ noDel' (by omega) (by omega)
  · have noDel' := append_noDel noDel erase
    have size : (0x7f :: line).length = line.length + 1 := rfl
    have size' : (edited ++ [c]).length = edited.length + 1 := by simp
    have one : true.toNat = 1 := rfl
    rw [keep_other erase]
    by_cases room : 0x20 ≤ c ∧ line.length + 1 < buflen - 1
    · have more := stray (line ++ [c]) (edited ++ [c]) noDel' (by simp; omega) (by simp; omega)
      rw [List.length_append, List.length_singleton] at more
      rw [edit_append erase (by rwa [size]), clean_append erase room, edit_append erase ⟨room.1, by omega⟩]
      exact more
    · rw [edit_ignore erase (by rwa [size]), clean_ignore erase room]
      by_cases room' : 0x20 ≤ c ∧ edited.length < buflen - 1
      · have full : buflen - 1 ≤ line.length + 1 := Nat.le_of_not_lt fun less => room ⟨room'.1, less⟩
        rw [edit_append erase room']
        exact stray line (edited ++ [c]) noDel' (by omega) (by omega)
      · rw [edit_ignore erase room']
        exact stray line edited noDel lower upper

/-- Only a stray DEL makes a difference, and it makes one until it is erased. -/
theorem keep_eq_edit (chars : List UInt8) : SameLine chars ∧ StrayLine chars := by
  induction chars with
  | nil =>
      refine ⟨fun line _ => by simp [clean], fun line edited noDel _ _ => ?_⟩
      have differ : 0x7f :: line ≠ edited := by
        rintro rfl
        exact noDel List.mem_cons_self
      simp [clean, differ]
  | cons c chars ih => exact ⟨sameLine_cons ih.1 ih.2, strayLine_cons ih.1 ih.2⟩

end Lines

end JosSmp.Readline
