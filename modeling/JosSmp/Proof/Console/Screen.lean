import JosSmp.Library.Window
import JosSmp.Construction.Kern.ConsoleOutput
import JosSmp.Proof.Console.Terminal
import JosSmp.Proof.String.Memmove

/-!
This file gives the effect of the display functions on the cells of the screen.
-/

namespace JosSmp.Console
open Library Machine

namespace Output

variable {o o' : Output} {i j : Nat} {c : BitVec 32}

/-- The cell `crt_buf[i]`. -/
def cell (o : Output) (i : Nat) : UInt16 := o.ram.load16 (o.crtBuf + 2 * i)

/-- Moving the cursor changes no cell. -/
theorem cell_setPos (o : Output) (position : Nat) : ({ o with crtPos := position } : Output).cell = o.cell := rfl

/-- The buffer lies in the address space. -/
def Fits (o : Output) : Prop := o.crtBuf + 2 * crtSize ≤ 4294967296

/-- Every access that the code makes from one state to the next lies in `crt_buf`. -/
def Confined (o o' : Output) : Prop :=
  ∀ a ∈ o'.ram.touched, a ∈ o.ram.touched ∨ o.crtBuf ≤ a ∧ a < o.crtBuf + 2 * crtSize

theorem Confined.refl (o : Output) : Confined o o := fun _ earlier => .inl earlier

theorem Confined.trans {o'' : Output} (first : Confined o o') (second : Confined o' o'') (same : o'.crtBuf = o.crtBuf) :
    Confined o o'' := by
  intro a accessed
  obtain earlier | inside := second a accessed
  · exact first a earlier
  · rw [same] at inside
    exact .inr inside

theorem cellAddress (fits : o.Fits) (inside : i < crtSize) : address (o.crtBuf + 2 * i) = o.crtBuf + 2 * i := by
  have size : crtSize = 2000 := rfl
  unfold Fits at fits
  exact address_eq rfl (by omega)

/-- A store writes one cell of the screen. -/
theorem setCell_cell (fits : o.Fits) (inside : i < crtSize) (c : BitVec 32) :
    (o.setCell i c).cell = Function.update o.cell i (Terminal.cellOf c) := by
  funext j
  simp only [cell, setCell, cellAddress fits inside]
  by_cases same : j = i
  · rw [same, Function.update_self, Ram.load16_store16]
    rfl
  · rw [Function.update_of_ne same, Ram.load16_store16_of_ne _ (by omega)]
    rfl

theorem setCell_confined (fits : o.Fits) (inside : i < crtSize) (c : BitVec 32) : Confined o (o.setCell i c) := by
  intro a accessed
  simp only [setCell, cellAddress fits inside] at accessed
  obtain earlier | written := Ram.mem_store_touched accessed
  · exact .inl earlier
  · simp only [List.length_cons, List.length_nil] at written
    exact .inr (by omega)

/-- Clearing fills the screen with blank cells from a position on. -/
theorem clearFrom_spec (fits : o.Fits) (i : Nat) :
    (o.clearFrom i).crtBuf = o.crtBuf ∧ (o.clearFrom i).crtPos = o.crtPos ∧
      (∀ j < crtSize, (o.clearFrom i).cell j = if i ≤ j then blankCell else o.cell j) ∧
      Confined o (o.clearFrom i) := by
  induction left : crtSize - i generalizing i o with
  | zero =>
      rw [clearFrom, if_neg (by omega)]
      refine ⟨rfl, rfl, fun j inside => ?_, .refl o⟩
      rw [if_neg (by omega)]
  | succ left ih =>
      have inside : i < crtSize := by omega
      rw [clearFrom, if_pos inside]
      have fits' : (o.setCell i (0x0700 ||| 0x20)).Fits := fits
      obtain ⟨buf, pos, cells, confined⟩ := ih fits' (i + 1) (by omega)
      refine ⟨buf, pos, fun j screen => ?_, (setCell_confined fits inside _).trans confined rfl⟩
      rw [cells j screen, setCell_cell fits inside]
      by_cases later : i + 1 ≤ j
      · rw [if_pos later, if_pos (by omega)]
      · rw [if_neg later]
        by_cases same : j = i
        · rw [same, Function.update_self, if_pos (Nat.le_refl _)]
          rfl
        · rw [Function.update_of_ne same, if_neg (by omega)]

/-- The copy that scrolls the screen moves each row but the first one up by one row. -/
theorem memmove_cell (fits : o.Fits) :
    let o' := { o with ram := (Cstring.memmove o.crtBuf (address (o.crtBuf + 2 * crtCols))
      ((crtSize - crtCols) * 2) o.ram).2 }
    (∀ j < crtSize, o'.cell j = if j + crtCols < crtSize then o.cell (j + crtCols) else o.cell j) ∧ Confined o o' := by
  have size : crtSize = 2000 := rfl
  have cols : crtCols = 80 := rfl
  unfold Fits at fits
  have source : address (o.crtBuf + 2 * crtCols) = o.crtBuf + 2 * crtCols := address_eq rfl (by omega)
  obtain ⟨_, bytes, access⟩ := Cstring.memmove_up o.crtBuf (o.crtBuf + 2 * crtCols)
    ((crtSize - crtCols) * 2) o.ram (by omega) (by omega)
  dsimp only
  rw [source]
  constructor
  · intro j inside
    simp only [cell, Ram.load16, bytes]
    split
    · have moved {k : Nat} (early : k < (crtSize - crtCols) * 2) :=
        writeBlock_readBlock o.ram.byte o.crtBuf o.ram.byte (o.crtBuf + 2 * crtCols) early
      have low := moved (show 2 * j < _ by omega)
      have high := moved (show 2 * j + 1 < _ by omega)
      have same : o.crtBuf + 2 * (j + crtCols) = o.crtBuf + 2 * crtCols + 2 * j := by omega
      rw [← Nat.add_assoc, ← Nat.add_assoc] at high
      rw [low, high, same]
    · rw [writeBlock_outside _ (by rw [readBlock_length]; omega),
        writeBlock_outside _ (by rw [readBlock_length]; omega)]
  · intro a accessed
    obtain earlier | read | written := access a accessed
    · exact .inl earlier
    · exact .inr (by omega)
    · exact .inr (by omega)

/-- A cursor that leaves the screen moves every row up and clears the last one. -/
theorem scroll_spec (fits : o.Fits) (leaves : o.crtPos ≥ crtSize) :
    o.scroll.crtBuf = o.crtBuf ∧ o.scroll.crtPos = (o.crtPos + 65536 - crtCols) % 65536 ∧
      (∀ j < crtSize, o.scroll.cell j = if j + crtCols < crtSize then o.cell (j + crtCols) else blankCell) ∧
      Confined o o.scroll := by
  obtain ⟨moved, copied⟩ := memmove_cell fits
  have size : crtSize = 2000 := rfl
  have cols : crtCols = 80 := rfl
  rw [scroll, if_pos leaves]
  dsimp only at moved copied ⊢
  generalize Cstring.memmove o.crtBuf (address (o.crtBuf + 2 * crtCols)) ((crtSize - crtCols) * 2) o.ram = memory at *
  have fits' : Fits { o with ram := memory.2 } := fits
  obtain ⟨buf, pos, cells, cleared⟩ := clearFrom_spec fits' (crtSize - crtCols)
  refine ⟨buf, ?_, ?_, fun a accessed => (copied.trans cleared rfl) a accessed⟩
  · rw [pos]
  · intro j inside
    rw [cell_setPos, cells j inside]
    by_cases old : j + crtCols < crtSize
    · rw [if_neg (by omega), if_pos old, moved j inside, if_pos old]
    · rw [if_pos (by omega), if_neg old]

end Output

end JosSmp.Console
