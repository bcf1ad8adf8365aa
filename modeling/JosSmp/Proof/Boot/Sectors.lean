import JosSmp.Construction.Boot.Main

/-!
This file proves which bytes `readseg` copies: whole sectors, as long as its address does not wrap.
-/

namespace JosSmp.Boot
open Library Machine

variable {disk : Nat → UInt8} {endVa fuel va offset : Nat} {memory : Memory}

/-- The drive finds the sector that `readsect` asks for, if 28 bits can name it. -/
theorem lba_readsectWrites (named : offset < 268435456) : lba (readsectWrites offset) = offset := by
  have registers : lba (readsectWrites offset) =
      offset % 256 + 256 * ((offset >>> 8) % 256) + 65536 * ((offset >>> 16) % 256) +
        16777216 * (((offset >>> 24) ||| 0xE0) % 256 % 16) := rfl
  have drive : ((offset >>> 24) ||| 0xE0) % 256 % 16 = (offset >>> 24) % 16 := by
    rw [Nat.mod_mod_of_dvd _ (by decide : 16 ∣ 256)]
    exact (Nat.or_mod_two_pow (n := 4)).trans (Nat.or_zero _)
  rw [registers, drive]
  simp only [Nat.shiftRight_eq_div_pow]
  omega

/-- The sectors of a list of calls are copied one after the other. -/
def readAll (disk : Nat → UInt8) (reads : List (Nat × Nat)) (memory : Memory) : Memory :=
  reads.foldl (fun memory read => readsect disk read.1 read.2 memory) memory

/-- The loop changes memory by its calls of `readsect` only. -/
theorem readsegLoop_reads :
    readsegLoop disk endVa fuel va offset memory =
      (readsegLoopReads endVa fuel va offset).map fun reads => readAll disk reads memory := by
  induction fuel generalizing va offset memory with
  | zero =>
      rw [readsegLoop, readsegLoopReads]
      split <;> rfl
  | succ fuel ih =>
      rw [readsegLoop, readsegLoopReads]
      split
      · rw [ih, Option.map_map]
        rfl
      · rfl

/-- The calls for `count` sectors. -/
def sectorReads (va offset count : Nat) : List (Nat × Nat) :=
  (List.range count).map fun k => (va + 512 * k, offset + k)

theorem sectorReads_succ (va offset count : Nat) :
    sectorReads va offset (count + 1) = (va, offset) :: sectorReads (va + 512) (offset + 1) count := by
  rw [sectorReads, List.range_succ_eq_map, List.map_cons, List.map_map, sectorReads]
  congr 1
  apply List.map_congr_left
  intro k _
  simp only [Function.comp_apply, Prod.mk.injEq]
  omega

/-- The loop has nothing left to read at its end. -/
theorem readsegLoopReads_done (done : endVa ≤ va) : readsegLoopReads endVa fuel va offset = some [] := by
  cases fuel with
  | zero => rw [readsegLoopReads, if_neg (by omega)]
  | succ fuel => rw [readsegLoopReads, if_neg (by omega)]

/-- The loop reads `count` sectors when its address stays in the address space. -/
theorem readsegLoopReads_sectors (count : Nat) (reaches : endVa ≤ va + 512 * count)
    (needed : va + 512 * count < endVa + 512) (space : va + 512 * count < 4294967296)
    (numbered : offset + count < 4294967296) :
    readsegLoopReads endVa fuel va offset = if count ≤ fuel then some (sectorReads va offset count) else none := by
  induction count generalizing fuel va offset with
  | zero =>
      rw [if_pos (Nat.zero_le fuel), readsegLoopReads_done (by omega)]
      rfl
  | succ count ih =>
      have more : va < endVa := by omega
      cases fuel with
      | zero => rw [readsegLoopReads, if_pos more, if_neg (by omega)]
      | succ fuel =>
          have vaNext : address (va + sectsize) = va + 512 := address_eq rfl (Nat.lt_of_le_of_lt (by omega) space)
          have offsetNext : address (offset + 1) = offset + 1 := address_eq rfl (by omega)
          rw [readsegLoopReads, if_pos more, vaNext, offsetNext, ih (by omega) (by omega) (by omega) (by omega)]
          simp only [Nat.add_le_add_iff_right]
          split
          · rw [Option.map_some, sectorReads_succ]
          · rfl

/-- An end above the last sector of the address space is never reached: the address wraps to zero first. -/
theorem readsegLoopReads_endless (aligned : va % 512 = 0) (space : va < 4294967296) (above : 4294966784 < endVa) :
    readsegLoopReads endVa fuel va offset = none := by
  induction fuel generalizing va offset with
  | zero =>
      rw [readsegLoopReads, if_pos (by omega)]
  | succ fuel ih =>
      rw [readsegLoopReads, if_pos (by omega)]
      have next : address (va + sectsize) = (va + 512) % 4294967296 := by
        rw [show (sectsize : Int) = 512 from rfl, address]
        omega
      rw [ih (by omega) (by omega), Option.map_none]

/-- Consecutive sectors are copied as one block. -/
theorem readAll_sectors (count : Nat) (named : offset + count < 268435456) :
    readAll disk (sectorReads va offset count) memory =
      writeBlock memory va (readBlock disk (512 * offset) (512 * count)) := by
  induction count generalizing va offset memory with
  | zero => exact (writeBlock_nil memory va).symm
  | succ count ih =>
      have next : readAll disk (sectorReads va offset (count + 1)) memory =
          readAll disk (sectorReads (va + 512) (offset + 1) count) (readsect disk va offset memory) := by
        rw [sectorReads_succ, readAll, List.foldl_cons]
        rfl
      -- The first sector and the sectors behind it are one block.
      have whole := writeBlock_append memory va (readBlock disk (512 * offset) 512)
        (readBlock disk (512 * offset + 512) (512 * count))
      rw [readBlock_length] at whole
      rw [next, ih (by omega), readsect, lba_readsectWrites (by omega), show sectsize = 512 from rfl,
        Nat.mul_succ 512 offset, whole, ← readBlock_append, Nat.mul_succ, Nat.add_comm (512 * count)]

/-- The loop copies `count` whole sectors when its address stays in the address space. -/
theorem readsegLoop_sectors (count : Nat) (reaches : endVa ≤ va + 512 * count) (needed : va + 512 * count < endVa + 512)
    (space : va + 512 * count < 4294967296) (named : offset + count < 268435456) :
    readsegLoop disk endVa fuel va offset memory =
      if count ≤ fuel then some (writeBlock memory va (readBlock disk (512 * offset) (512 * count))) else none := by
  rw [readsegLoop_reads, readsegLoopReads_sectors count reaches needed space (by omega)]
  split
  · rw [Option.map_some, readAll_sectors count named]
  · rfl

theorem readsegLoop_endless (aligned : va % 512 = 0) (space : va < 4294967296) (above : 4294966784 < endVa) :
    readsegLoop disk endVa fuel va offset memory = none := by
  rw [readsegLoop_reads, readsegLoopReads_endless aligned space above, Option.map_none]

end JosSmp.Boot
