import Mathlib.Data.List.Basic
import Mathlib.Logic.Function.Basic

/-!
This file gives the blocks of consecutive cells of a memory: how they are read and written.
-/

namespace JosSmp.Library

variable {α : Type*} {memory : Nat → α} {start : Nat} {block : List α}

def readBlock (memory : Nat → α) (start size : Nat) : List α := (List.range size).map fun i => memory (start + i)

def writeBlock (memory : Nat → α) (start : Nat) (block : List α) : Nat → α := fun a =>
  if start ≤ a then (block[a - start]?).getD (memory a) else memory a

@[simp] theorem readBlock_length (memory : Nat → α) (start size : Nat) :
    (readBlock memory start size).length = size := by simp [readBlock]

theorem readBlock_getElem? (memory : Nat → α) (start size : Nat) {i : Nat} (inside : i < size) :
    (readBlock memory start size)[i]? = some (memory (start + i)) := by
  simp [readBlock, inside]

theorem readBlock_append (memory : Nat → α) (start first second : Nat) :
    readBlock memory start (first + second) =
      readBlock memory start first ++ readBlock memory (start + first) second := by
  simp [readBlock, List.range_add, Nat.add_assoc]

/-- Dropping the first cells of a block reads the rest of it. -/
theorem readBlock_drop (memory : Nat → α) (start : Nat) {skipped size : Nat} (fits : skipped ≤ size) :
    (readBlock memory start size).drop skipped = readBlock memory (start + skipped) (size - skipped) := by
  obtain ⟨more, rfl⟩ := Nat.exists_eq_add_of_le fits
  rw [readBlock_append, List.drop_left' (readBlock_length _ _ _), Nat.add_sub_cancel_left]

/-- Two memories that agree on a block read the same block. -/
theorem readBlock_congr {other : Nat → α} {size : Nat}
    (agree : ∀ a, start ≤ a → a < start + size → memory a = other a) :
    readBlock memory start size = readBlock other start size := by
  apply List.map_congr_left
  intro i inside
  rw [List.mem_range] at inside
  exact agree _ (by omega) (by omega)

theorem readBlock_succ (memory : Nat → α) (start size : Nat) :
    readBlock memory start (size + 1) = memory start :: readBlock memory (start + 1) size := by
  rw [Nat.add_comm, readBlock_append]
  rfl

/-- The block lies in the memory. -/
def BlockAt (memory : Nat → α) (start : Nat) (block : List α) : Prop := readBlock memory start block.length = block

@[simp] theorem blockAt_nil : BlockAt memory start [] := rfl

@[simp] theorem blockAt_cons {a : α} {rest : List α} :
    BlockAt memory start (a :: rest) ↔ memory start = a ∧ BlockAt memory (start + 1) rest := by
  rw [BlockAt, List.length_cons, readBlock_succ, List.cons.injEq, BlockAt]

theorem blockAt_append {first second : List α} :
    BlockAt memory start (first ++ second) ↔
      BlockAt memory start first ∧ BlockAt memory (start + first.length) second := by
  induction first generalizing start with
  | nil => simp
  | cons a first ih =>
      rw [List.cons_append, blockAt_cons, blockAt_cons, ih, and_assoc, List.length_cons, Nat.add_right_comm,
        Nat.add_assoc]

/-- Reading a part of a block that lies in the memory. -/
theorem BlockAt.slice (held : BlockAt memory start block) {skipped size : Nat}
    (inside : skipped + size ≤ block.length) :
    readBlock memory (start + skipped) size = (block.drop skipped).take size := by
  obtain ⟨more, split⟩ := Nat.exists_eq_add_of_le inside
  rw [BlockAt, split, Nat.add_assoc, readBlock_append, readBlock_append] at held
  rw [← held, List.drop_left' (readBlock_length _ _ _), List.take_left' (readBlock_length _ _ _)]

/-- A memory that agrees on the cells of a block holds it too. -/
theorem BlockAt.congr {other : Nat → α} (held : BlockAt memory start block)
    (agree : ∀ a, start ≤ a → a < start + block.length → other a = memory a) : BlockAt other start block := by
  rw [BlockAt, readBlock_congr agree, held]

/-- A memory that has the cells of a block at another place holds it there. -/
theorem BlockAt.moved {other : Nat → α} {place : Nat} (held : BlockAt memory start block)
    (agree : ∀ i < block.length, other (place + i) = memory (start + i)) : BlockAt other place block := by
  rw [BlockAt, ← held, readBlock_length]
  exact List.map_congr_left fun i inside => agree i (List.mem_range.mp inside)

theorem BlockAt.get (held : BlockAt memory start block) {i : Nat} (inside : i < block.length) :
    memory (start + i) = block[i] := by
  have read := readBlock_getElem? memory start block.length inside
  rw [show readBlock memory start block.length = block from held, List.getElem?_eq_getElem inside] at read
  exact (Option.some.inj read).symm

/-- A cell of a block that lies in the memory is written. -/
theorem BlockAt.update (held : BlockAt memory start block) (i : Nat) (a : α) :
    BlockAt (Function.update memory (start + i) a) start (block.set i a) := by
  induction block generalizing start i with
  | nil => exact blockAt_nil
  | cons b block ih =>
      obtain ⟨first, rest⟩ := blockAt_cons.mp held
      cases i with
      | zero =>
          refine blockAt_cons.mpr ⟨Function.update_self .., rest.congr fun k after _ => ?_⟩
          exact Function.update_of_ne (by omega) ..
      | succ i =>
          have later := ih rest i
          rw [Nat.add_assoc, Nat.add_comm 1] at later
          exact blockAt_cons.mpr ⟨(Function.update_of_ne (by omega) ..).trans first, later⟩

@[simp] theorem writeBlock_nil (memory : Nat → α) (start : Nat) : writeBlock memory start [] = memory := by
  funext a
  simp [writeBlock]

theorem writeBlock_inside (memory : Nat → α) (start : Nat) {i : Nat} (inside : i < block.length) :
    writeBlock memory start block (start + i) = block[i] := by
  simp [writeBlock, inside]

theorem writeBlock_outside (memory : Nat → α) {a : Nat} (outside : a < start ∨ start + block.length ≤ a) :
    writeBlock memory start block a = memory a := by
  unfold writeBlock
  split
  · rw [List.getElem?_eq_none (by omega)]
    rfl
  · rfl

/-- A block read in one memory and written to another gives its cells. -/
theorem writeBlock_readBlock (memory : Nat → α) (start : Nat) (source : Nat → α) (origin : Nat) {size i : Nat}
    (inside : i < size) :
    writeBlock memory start (readBlock source origin size) (start + i) = source (origin + i) := by
  have position : i < (readBlock source origin size).length := by rwa [readBlock_length]
  rw [writeBlock_inside _ _ position]
  simp [readBlock]

/-- Writing a block cell by cell writes the block. -/
theorem writeBlock_concat (memory : Nat → α) (start : Nat) (block : List α) (x : α) :
    writeBlock memory start (block ++ [x]) =
      Function.update (writeBlock memory start block) (start + block.length) x := by
  funext a
  by_cases last : a = start + block.length
  · subst last
    rw [Function.update_self, writeBlock_inside _ _ (by simp), List.getElem_concat_length rfl]
  · rw [Function.update_of_ne last]
    by_cases inside : start ≤ a ∧ a < start + block.length
    · obtain ⟨i, rfl⟩ := Nat.exists_eq_add_of_le inside.1
      have earlier : i < block.length := by omega
      rw [writeBlock_inside _ _ (by simp; omega), writeBlock_inside _ _ earlier, List.getElem_append_left earlier]
    · rw [writeBlock_outside _ (by simp; omega), writeBlock_outside _ (by omega)]

/-- Two blocks written one behind the other are one block. -/
theorem writeBlock_append (memory : Nat → α) (start : Nat) (first second : List α) :
    writeBlock (writeBlock memory start first) (start + first.length) second =
      writeBlock memory start (first ++ second) := by
  funext a
  by_cases later : start + first.length ≤ a ∧ a < start + first.length + second.length
  · obtain ⟨i, rfl⟩ := Nat.exists_eq_add_of_le later.1
    have inside : i < second.length := by omega
    have whole : first.length + i < (first ++ second).length := by simp; omega
    rw [writeBlock_inside _ _ inside, Nat.add_assoc, writeBlock_inside _ _ whole,
      List.getElem_append_right (Nat.le_add_right _ _)]
    simp
  · rw [writeBlock_outside _ (by omega)]
    by_cases earlier : start ≤ a ∧ a < start + first.length
    · obtain ⟨i, rfl⟩ := Nat.exists_eq_add_of_le earlier.1
      have inside : i < first.length := by omega
      rw [writeBlock_inside _ _ inside, writeBlock_inside _ _ (by simp; omega), List.getElem_append_left inside]
    · rw [writeBlock_outside _ (by omega), writeBlock_outside _ (by simp; omega)]

/-- Two blocks written one in front of the other are one block. -/
theorem writeBlock_prepend (memory : Nat → α) (start : Nat) (first second : List α) :
    writeBlock (writeBlock memory (start + first.length) second) start first =
      writeBlock memory start (first ++ second) := by
  funext a
  rw [← writeBlock_append]
  by_cases earlier : start ≤ a ∧ a < start + first.length
  · obtain ⟨i, rfl⟩ := Nat.exists_eq_add_of_le earlier.1
    have inside : i < first.length := by omega
    rw [writeBlock_outside _ (.inl earlier.2), writeBlock_inside _ _ inside, writeBlock_inside _ _ inside]
  · rw [writeBlock_outside _ (by omega)]
    by_cases later : start + first.length ≤ a ∧ a < start + first.length + second.length
    · obtain ⟨i, rfl⟩ := Nat.exists_eq_add_of_le later.1
      have inside : i < second.length := by omega
      rw [writeBlock_inside _ _ inside, writeBlock_inside _ _ inside]
    · rw [writeBlock_outside _ (by omega), writeBlock_outside _ (by omega), writeBlock_outside _ (by omega)]

theorem readBlock_writeBlock (memory : Nat → α) (start : Nat) (block : List α) :
    readBlock (writeBlock memory start block) start block.length = block := by
  apply List.ext_getElem?
  intro i
  by_cases inside : i < block.length
  · rw [readBlock_getElem? _ _ _ inside, writeBlock_inside _ _ inside, List.getElem?_eq_getElem inside]
  · rw [List.getElem?_eq_none (by simpa using inside), List.getElem?_eq_none (by simpa using inside)]

/-- Reading past a written block reads the block and then the old cells. -/
theorem readBlock_written (memory : Nat → α) (start : Nat) (block : List α) (size : Nat)
    (fits : block.length ≤ size) :
    readBlock (writeBlock memory start block) start size =
      block ++ readBlock memory (start + block.length) (size - block.length) := by
  obtain ⟨more, rfl⟩ := Nat.exists_eq_add_of_le fits
  rw [readBlock_append, readBlock_writeBlock, Nat.add_sub_cancel_left]
  congr 1
  exact readBlock_congr fun a lower _ => writeBlock_outside _ (.inr lower)

end JosSmp.Library
