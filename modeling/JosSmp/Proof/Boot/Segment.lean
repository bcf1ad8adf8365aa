import JosSmp.Proof.Boot.Sectors

/-!
This file gives a program segment of the kernel image and what loading one segment does to memory.
-/

namespace JosSmp.Boot
open Library Machine

/-- The kernel image is the disk from its second sector on. -/
def kernel (disk : Nat → UInt8) : Memory := fun i => disk (sectsize + i)

/-- A segment has an address where its bytes belong, a size, and an offset of its bytes in the image. -/
structure Segment where
  start : Nat
  size : Nat
  offset : Nat

/-- The segment that the program header at `ph` describes. -/
def segmentAt (memory : Memory) (ph : Nat) : Segment :=
  ⟨pVa memory ph % 0x1000000, pMemsz memory ph, pOffset memory ph⟩

namespace Segment

variable {s : Segment}

/-- The segment has a byte at an address. -/
def Holds (s : Segment) (x : Nat) : Prop := s.start ≤ x ∧ x < s.start + s.size

/-- The fields are what the loader can find in a program header, and the end of the segment does not wrap. -/
structure Bounded (s : Segment) : Prop where
  start : s.start < 16777216
  stop : s.start + s.size < 4294967296
  offset : s.offset < 4294967296

/-- The number of sectors that the segment meets. -/
def sectors (s : Segment) : Nat := (s.start % 512 + s.size + 511) / 512

/-- The byte that loading a segment puts at an address, if one of its sectors holds the address. -/
def put (image : Memory) (s : Segment) (x : Nat) : Option UInt8 :=
  if s.start - s.start % 512 ≤ x ∧ x - x % 512 < s.start + s.size then
    some (image (s.offset - s.offset % 512 + (x - (s.start - s.start % 512))))
  else none

/-- Loading a segment at the same place of a sector as in the image puts each of its bytes where it belongs. -/
theorem put_own (image : Memory) (congruent : s.start % 512 = s.offset % 512) {i : Nat} (inside : i < s.size) :
    s.put image (s.start + i) = some (image (s.offset + i)) := by
  have place : s.offset - s.offset % 512 + (s.start + i - (s.start - s.start % 512)) = s.offset + i := by omega
  rw [put, if_pos (by omega), place]

/-- Loading a segment ends within `fuel` sectors. -/
structure Ends (s : Segment) (fuel : Nat) : Prop where
  reachable : s.start + s.size ≤ 4294966784
  enough : s.sectors ≤ fuel

/-- Any segment that ends below the last sector of the address space needs at most `2 ^ 23` sectors. -/
theorem ends_of_reachable {fuel : Nat} (reachable : s.start + s.size ≤ 4294966784) (ample : 8388608 ≤ fuel) :
    s.Ends fuel := by
  refine ⟨reachable, ?_⟩
  unfold sectors
  omega

/-- The sectors of the segment as one block are what `put` gives byte by byte. -/
theorem writeBlock_put (disk : Nat → UInt8) (s : Segment) (memory : Memory) :
    writeBlock memory (s.start - s.start % 512)
        (readBlock disk (512 * (s.offset / 512 + 1)) (512 * s.sectors)) =
      fun x => (s.put (kernel disk) x).getD (memory x) := by
  funext x
  have block := readBlock_length disk (512 * (s.offset / 512 + 1)) (512 * s.sectors)
  unfold sectors at block ⊢
  unfold put
  split
  · rename_i covered
    obtain ⟨i, rfl⟩ := Nat.exists_eq_add_of_le covered.1
    rw [writeBlock_readBlock _ _ _ _ (by omega), Nat.add_sub_cancel_left, Option.getD_some, kernel,
      show sectsize = 512 from rfl]
    congr 1
    omega
  · rw [writeBlock_outside _ (by omega), Option.getD_none]

/-- Loading a segment has a result exactly when it ends, and changes memory by `put`. -/
theorem readseg_some_iff (disk : Nat → UInt8) (fuel va : Nat) (memory loaded : Memory) (bounded : s.Bounded)
    (start : va % 0x1000000 = s.start) :
    readseg disk fuel va s.size s.offset memory = some loaded ↔
      s.Ends fuel ∧ loaded = fun x => (s.put (kernel disk) x).getD (memory x) := by
  obtain ⟨low, stop, named⟩ := bounded
  have stopSame : address (s.start + s.size) = s.start + s.size := address_eq rfl stop
  have sectorSame : address (s.offset / sectsize + 1) = s.offset / 512 + 1 := address_eq rfl (by omega)
  rw [readseg, start]
  simp only [stopSame, sectorSame]
  rw [show sectsize = 512 from rfl]
  by_cases reachable : s.start + s.size ≤ 4294966784
  · have count : s.sectors = (s.start % 512 + s.size + 511) / 512 := rfl
    rw [readsegLoop_sectors s.sectors (by omega) (by omega) (by omega) (by omega), writeBlock_put]
    constructor
    · intro result
      split at result
      · exact ⟨⟨reachable, ‹_›⟩, (Option.some.inj result).symm⟩
      · exact absurd result nofun
    · rintro ⟨ends, rfl⟩
      rw [if_pos ends.enough]
  · rw [readsegLoop_endless (by omega) (by omega) (by omega)]
    exact ⟨nofun, fun ⟨ends, _⟩ => absurd ends.reachable reachable⟩

end Segment

end JosSmp.Boot
