import JosSmp.Proof.Boot.Segment

/-!
This file proves which sectors `readseg` reads, and which bytes of the image it loads with them.
-/

namespace JosSmp.Boot
open Library Machine

variable {disk : Nat → UInt8} {fuel va count offset sector : Nat} {memory : Memory}

/-- A call changes memory by its reads only. -/
theorem readseg_reads (disk : Nat → UInt8) (fuel va count offset : Nat) (memory : Memory) :
    readseg disk fuel va count offset memory =
      (readsegReads fuel va count offset).map fun reads => readAll disk reads memory := readsegLoop_reads

/-- The four port writes for a sector below `2 ^ 28` hold its number, and select LBA addressing. -/
def Addressed (sector : Nat) : Prop :=
  sector < 2 ^ 28 ∧ lba (readsectWrites sector) = sector ∧
    ∃ drive, (readsectWrites sector).lookup 0x1F6 = some drive ∧ drive.toNat / 16 = 0xE

theorem addressed (named : sector < 2 ^ 28) : Addressed sector := by
  refine ⟨named, lba_readsectWrites named, _, rfl, ?_⟩
  have high : sector >>> 24 < 2 ^ 4 := by
    rw [Nat.shiftRight_eq_div_pow]
    omega
  have joined : (sector >>> 24) ||| 0xE0 = 0xE0 + sector >>> 24 := by
    rw [Nat.or_comm]
    exact (Nat.two_pow_add_eq_or_of_lt high 14).symm
  rw [joined, UInt8.toNat_ofNat']
  omega

theorem mem_sectorReads {read : Nat × Nat} (member : read ∈ sectorReads va sector count) :
    ∃ k < count, read = (va + 512 * k, sector + k) := by
  obtain ⟨k, inside, rfl⟩ := List.mem_map.mp member
  exact ⟨k, List.mem_range.mp inside, rfl⟩

/-- A request that ends below the last sector of the address space reads the sectors that it meets. -/
theorem readsegReads_eq (fuel : Nat) (reachable : va % 0x1000000 + count ≤ 4294966784)
    (numbered : offset < 4294967296) :
    readsegReads fuel va count offset =
      if (va % 0x1000000 % 512 + count + 511) / 512 ≤ fuel then
        some (sectorReads (va % 0x1000000 - va % 0x1000000 % 512) (offset / 512 + 1)
          ((va % 0x1000000 % 512 + count + 511) / 512))
      else none := by
  have stop : address ((va % 0x1000000 : Nat) + count) = va % 0x1000000 + count := address_eq rfl (by omega)
  have first : address (offset / sectsize + 1) = offset / 512 + 1 := address_eq rfl (by omega)
  rw [readsegReads]
  simp only [stop, first]
  rw [show sectsize = 512 from rfl]
  exact readsegLoopReads_sectors _ (by omega) (by omega) (by omega) (by omega)

/-- A request whose end does not wrap loads exactly its bytes of the image, in whole sectors that 28 bits can name. -/
theorem readseg_loads (disk : Nat → UInt8) (va count offset : Nat) (memory : Memory)
    (room : va % 0x1000000 + count + 512 ≤ 4294967296) (congruent : va % 512 = offset % 512)
    (numbered : offset < 4294967296) :
    ∃ fuel reads memory',
      (∀ fuel' ≥ fuel, readsegReads fuel' va count offset = some reads ∧
        readseg disk fuel' va count offset memory = some memory') ∧
      (∀ read ∈ reads, Addressed read.2) ∧
      (∀ i < count, memory' (va % 0x1000000 + i) = kernel disk (offset + i)) ∧
      ∀ a, a < va % 0x1000000 / 512 * 512 ∨ (va % 0x1000000 + count + 511) / 512 * 512 ≤ a →
        memory' a = memory a := by
  let s : Segment := ⟨va % 0x1000000, count, offset⟩
  have bounded : s.Bounded := ⟨Nat.mod_lt va (by decide), by simp only [s]; omega, numbered⟩
  have reachable : va % 0x1000000 + count ≤ 4294966784 := by omega
  refine ⟨s.sectors, sectorReads (va % 0x1000000 - va % 0x1000000 % 512) (offset / 512 + 1) s.sectors,
    fun x => (s.put (kernel disk) x).getD (memory x),
    fun fuel' enough => ⟨?_, ?_⟩, ?_, ?_, ?_⟩
  · exact (readsegReads_eq _ reachable numbered).trans (if_pos enough)
  · exact (Segment.readseg_some_iff disk fuel' va memory _ bounded rfl).mpr ⟨⟨reachable, enough⟩, rfl⟩
  · intro read member
    obtain ⟨k, inside, rfl⟩ := mem_sectorReads member
    have few : s.sectors = (va % 0x1000000 % 512 + count + 511) / 512 := rfl
    exact addressed (by omega)
  · intro i inside
    exact congrArg (Option.getD · _) (Segment.put_own (s := s) (kernel disk) (by simp only [s]; omega) inside)
  · intro a outside
    simp only [s, Segment.put]
    rw [if_neg (by omega), Option.getD_none]

/-- A kilobyte in the middle of three sectors. -/
theorem readseg_loads_middle :
    ∃ fuel reads memory',
      (∀ fuel' ≥ fuel, readsegReads fuel' 0xF0100100 1024 0x1100 = some reads ∧
        readseg (fun i => UInt8.ofNat i) fuel' 0xF0100100 1024 0x1100 (fun _ => 0) = some memory') ∧
      (∀ read ∈ reads, Addressed read.2) ∧
      (∀ i < 1024, memory' (0x100100 + i) = kernel (fun i => UInt8.ofNat i) (0x1100 + i)) ∧
      ∀ a, a < 0x100000 ∨ 0x100600 ≤ a → memory' a = 0 :=
  readseg_loads (fun i => UInt8.ofNat i) 0xF0100100 1024 0x1100 (fun _ => 0) (by decide) (by decide) (by decide)

/-- The end of the loop with the number of its reads: one for each sector that the request meets, and none for an
empty request. -/
def Terminates (va count offset : Nat) : Prop :=
  ∃ fuel reads, readsegReads fuel va count offset = some reads ∧
    (∀ disk memory, readseg disk fuel va count offset memory = some (readAll disk reads memory)) ∧
    (0 < count → reads.length = (va % 0x1000000 % 512 + count + 511) / 512) ∧
    (count = 0 → va % 0x1000000 % 512 = 0 → reads = [])

/-- A request whose end wraps reads at most one sector. -/
theorem readsegReads_wrapped (wraps : 4294967296 ≤ va % 0x1000000 + count) (small : count < 4294967296)
    (numbered : offset < 4294967296) {reads : List (Nat × Nat)}
    (run : readsegReads fuel va count offset = some reads) : reads.length ≤ 1 := by
  have stop : address ((va % 0x1000000 : Nat) + count) = va % 0x1000000 + count - 4294967296 := by
    unfold address
    omega
  have first : address (offset / sectsize + 1) = offset / 512 + 1 := address_eq rfl (by omega)
  rw [readsegReads] at run
  simp only [stop, first] at run
  rw [show sectsize = 512 from rfl] at run
  by_cases below : va % 0x1000000 + count - 4294967296 ≤ va % 0x1000000 - va % 0x1000000 % 512
  · rw [readsegLoopReads_done below] at run
    cases run
    exact Nat.zero_le 1
  · rw [readsegLoopReads_sectors 1 (by omega) (by omega) (by omega) (by omega)] at run
    split at run
    · cases run
      exact Nat.le_refl 1
    · cases run

/-- The loop ends as it should if and only if its end lies in front of the last sector of the address space. -/
theorem readseg_terminates_iff (va count offset : Nat) (small : count < 4294967296) (numbered : offset < 4294967296) :
    Terminates va count offset ↔ va % 0x1000000 + count ≤ 4294966784 := by
  constructor
  · intro ⟨fuel, reads, run, _, length, _⟩
    by_contra above
    have size := length (by omega)
    by_cases wraps : 4294967296 ≤ va % 0x1000000 + count
    · have few := readsegReads_wrapped wraps small numbered run
      omega
    · have stop : address ((va % 0x1000000 : Nat) + count) = va % 0x1000000 + count := address_eq rfl (by omega)
      rw [readsegReads] at run
      simp only [stop] at run
      rw [show sectsize = 512 from rfl, readsegLoopReads_endless (by omega) (by omega) (by omega)] at run
      cases run
  · intro reachable
    have run := (readsegReads_eq ((va % 0x1000000 % 512 + count + 511) / 512) reachable numbered).trans
      (if_pos (Nat.le_refl _))
    refine ⟨_, _, run, fun disk memory => ?_, fun _ => ?_, fun empty aligned => ?_⟩
    · rw [readseg_reads, run, Option.map_some]
    · rw [sectorReads, List.length_map, List.length_range]
    · rw [empty, aligned]
      rfl

/-- A segment that ends at the last sector of the address space, and takes all of it but the first 16 megabytes. -/
theorem readseg_terminates_last : Terminates 0xF0FFFE00 0xFF000000 0x1000 :=
  (readseg_terminates_iff 0xF0FFFE00 0xFF000000 0x1000 (by decide) (by decide)).mpr (by decide)

/-- The end `0xFFFFFFFF` lies above every sector boundary. -/
theorem readseg_terminates_fails :
    ¬ ∀ va count offset : Nat, va < 4294967296 → count < 4294967296 → offset < 4294967296 →
      Terminates va count offset := by
  intro claim
  obtain ⟨fuel, reads, run, _⟩ := claim 0 0xFFFFFFFF 0 (by decide) (by decide) (by decide)
  have endless : readsegReads fuel 0 0xFFFFFFFF 0 = none :=
    readsegLoopReads_endless (by decide) (by decide) (by decide)
  rw [endless] at run
  cases run

end JosSmp.Boot
