import JosSmp.Construction.Kern.Keyboard
import JosSmp.Proof.Console.Printed

/-!
This file reduces the keyboard decoder to a pure function of the byte and of `shift`.
-/

namespace JosSmp.Keyboard
open Machine Console

/-- An entry of a table with 256 entries. -/
def entry (table : List UInt8) (b : UInt8) : UInt8 := table.getD b.toNat 0

/-- An entry as a set of bits of `shift`. -/
def bits (table : List UInt8) (b : UInt8) : BitVec 32 := (entry table b).toBitVec.setWidth 32

/-- The table that the bits of `shift` choose. -/
def chosen (shift : BitVec 32) : List UInt8 := charcode.getD (shift &&& (ctl ||| shiftBit)).toNat []

/-- The index of a pressed key. -/
def pressIndex (data : UInt8) (shift : BitVec 32) : UInt8 := if shift &&& e0esc ≠ 0 then data ||| 0x80 else data

/-- The index of a released key. -/
def releaseIndex (data : UInt8) (shift : BitVec 32) : UInt8 := if shift &&& e0esc ≠ 0 then data else data &&& 0x7F

/-- What a pressed key does to `shift`, once the escape is gone. -/
def pressed (key : UInt8) (shift : BitVec 32) : BitVec 32 := (shift ||| bits shiftcode key) ^^^ bits togglecode key

/-- What a byte does to `shift`. -/
def next (shift : BitVec 32) (data : UInt8) : BitVec 32 :=
  if data = 0xE0 then shift ||| e0esc
  else if data &&& 0x80 ≠ 0 then shift &&& ~~~(bits shiftcode (releaseIndex data shift) ||| e0esc)
  else pressed (pressIndex data shift) (if shift &&& e0esc ≠ 0 then shift &&& ~~~e0esc else shift)

/-- The character that a byte completes. -/
def decoded (shift : BitVec 32) (data : UInt8) : Int :=
  if data = 0xE0 then 0
  else if data &&& 0x80 ≠ 0 then 0
  else capitalized (next shift data) (entry (chosen (next shift data)) (pressIndex data shift)).toNat

/-- The characters that some bytes complete. -/
def results : List UInt8 → BitVec 32 → List Int
  | [], _ => []
  | data :: rest, shift => decoded shift data :: results rest (next shift data)

theorem initializer_read (first : List UInt8) (designated : List (Nat × UInt8)) (b : UInt8) :
    (initializer first designated)[b.toNat]? = some (entry (initializer first designated) b) := by
  have size : b.toNat < (initializer first designated).length := by
    rw [initializer, List.length_map, List.length_range]
    exact b.toNat_lt
  rw [entry, List.getD_eq_getElem?_getD, List.getElem?_eq_getElem size, Option.getD_some]

theorem entry_initializer (first : List UInt8) (designated : List (Nat × UInt8)) (b : UInt8) :
    entry (initializer first designated) b = (designated.lookup b.toNat).getD (first.getD b.toNat 0) := by
  rw [entry, initializer, List.getD_eq_getElem?_getD, List.getElem?_map, List.getElem?_range b.toNat_lt]
  rfl

/-- The two bits choose one of the four tables. -/
theorem chosen_read (shift : BitVec 32) :
    charcode[(shift &&& (ctl ||| shiftBit)).toNat]? = some (chosen shift) ∧
      ∀ b : UInt8, (chosen shift)[b.toNat]? = some (entry (chosen shift) b) := by
  have small : (shift &&& (ctl ||| shiftBit)).toNat < 4 := by
    rw [BitVec.toNat_and]
    exact Nat.and_lt_two_pow _ (by decide : (ctl ||| shiftBit).toNat < 2 ^ 2)
  unfold chosen
  generalize (shift &&& (ctl ||| shiftBit)).toNat = i at small
  interval_cases i
  · exact ⟨rfl, initializer_read _ _⟩
  · exact ⟨rfl, initializer_read _ _⟩
  · exact ⟨rfl, initializer_read _ _⟩
  · exact ⟨rfl, initializer_read _ _⟩

/-- The message of a reboot is printed. -/
theorem cprintf_rebooting (o : Output) :
    ∃ console, cprintf (Cstring.literal "Rebooting!\n") ⟨fun _ => 0, fun _ => []⟩ o = some (0, console) := by
  have plain : Plain ("Rebooting!\n".toList.map fun c => UInt8.ofNat c.toNat) := by
    unfold Plain
    decide +kernel
  exact ⟨_, cprintf_plain plain⟩

/-- A call that finds a byte has a result, which depends on the byte and on `shift` only. -/
theorem kbdProcData_decodes (data : UInt8) (s : Keyboard) :
    ∃ console, kbdProcData kbsDib data s = some (decoded s.shift data, ⟨next s.shift data, console⟩) := by
  have ready : ¬ kbsDib &&& kbsDib = 0 := by decide
  have shiftRead (b : UInt8) : shiftcode[b.toNat]? = some (entry shiftcode b) := initializer_read _ _ b
  have toggleRead (b : UInt8) : togglecode[b.toNat]? = some (entry togglecode b) := initializer_read _ _ b
  simp only [kbdProcData, decoded, next, if_neg ready]
  by_cases escape : data = 0xE0
  · simp only [escape, if_true]
    exact ⟨_, rfl⟩
  simp only [escape, if_false]
  by_cases release : data &&& 0x80 ≠ 0
  · simp only [release, if_true, ne_eq, not_false_eq_true, shiftRead, Option.bind_eq_bind, Option.bind_some]
    exact ⟨_, rfl⟩
  simp only [release, if_false, Option.bind_eq_bind]
  have split : (if s.shift &&& e0esc ≠ 0 then (data ||| 0x80, s.shift &&& ~~~e0esc) else (data, s.shift)) =
      (pressIndex data s.shift, if s.shift &&& e0esc ≠ 0 then s.shift &&& ~~~e0esc else s.shift) := by
    unfold pressIndex
    split <;> rfl
  rw [split]
  generalize (if s.shift &&& e0esc ≠ 0 then s.shift &&& ~~~e0esc else s.shift) = shift
  generalize pressIndex data s.shift = key
  obtain ⟨map, mapRead⟩ := chosen_read (pressed key shift)
  obtain ⟨console, printed⟩ := cprintf_rebooting s.console
  simp only [shiftRead, toggleRead, Option.bind_some]
  change ∃ console, (charcode[(pressed key shift &&& (ctl ||| shiftBit)).toNat]?.bind _) = _
  rw [map, Option.bind_some, mapRead, Option.bind_some]
  split
  · rw [printed]
    exact ⟨_, rfl⟩
  · exact ⟨_, rfl⟩

/-- Each byte of a history has a result. -/
theorem kbdFeed_decodes (history : List UInt8) (s : Keyboard) :
    ∃ console, kbdFeed history s = some (results history s.shift, ⟨history.foldl next s.shift, console⟩) := by
  induction history generalizing s with
  | nil => exact ⟨s.console, rfl⟩
  | cons data rest ih =>
      obtain ⟨console, first⟩ := kbdProcData_decodes data s
      obtain ⟨console', later⟩ := ih ⟨next s.shift data, console⟩
      refine ⟨console', ?_⟩
      rw [kbdFeed, first, Option.bind_eq_bind, Option.bind_some]
      dsimp only
      rw [later]
      rfl

end JosSmp.Keyboard
