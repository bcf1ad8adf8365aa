import Mathlib.Data.Nat.SuccPred
import Mathlib.Order.SuccPred.Archimedean
import JosSmp.Proof.Boot.Load

/-!
This file proves when the bytes that `readseg` copies beyond a segment are harmless.
-/

namespace JosSmp.Boot
open Library Machine

variable {disk : Nat → UInt8} {i j k x : Nat} {memory : Memory} {image : Memory}

theorem Segment.put_ne_none_iff {s : Segment} :
    s.put image x ≠ none ↔ s.start - s.start % 512 ≤ x ∧ x - x % 512 < s.start + s.size := by
  unfold put
  split
  · rename_i covered
    exact iff_of_true nofun covered
  · rename_i outside
    exact iff_of_false (not_not.mpr rfl) outside

/-- The later segments that begin in the sector of an address. -/
def sharers (image : Memory) (k x : Nat) : Set Nat :=
  {i | k < i ∧ i < ePhnum image 0 ∧ (segment image i).start / 512 = x / 512 ∧
    x - x % 512 < (segment image i).start + (segment image i).size}

/-- No load address wraps, and the last segment that shares the sector of a byte puts the same byte there. -/
structure Harmless (image : Memory) : Prop where
  reachable : ∀ k < ePhnum image 0, (segment image k).start + (segment image k).size ≤ 4294966784
  shared : ∀ k < ePhnum image 0, ∀ j < (segment image k).size, ∀ i,
    IsGreatest (sharers image k ((segment image k).start + j)) i →
      image ((segment image i).offset - (segment image i).offset % 512 + ((segment image k).start + j) % 512) =
        image ((segment image k).offset + j)

/-- The loader enters the kernel with every byte of every segment in its place. -/
def Loads (disk : Nat → UInt8) (memory : Memory) : Prop :=
  ∃ fuel entry loaded, bootmain disk fuel memory = some (.enter entry loaded) ∧
    ∀ k < ePhnum (kernel disk) 0, ∀ j < (segment (kernel disk) k).size,
      loaded ((segment (kernel disk) k).start + j) = kernel disk ((segment (kernel disk) k).offset + j)

/-- A later segment that copies over a byte of an earlier one begins in the sector of the byte. -/
theorem later_put_iff (wellFormed : WellFormed image) (within : i < ePhnum image 0) (later : k < i)
    (inside : j < (segment image k).size) :
    (segment image i).put image ((segment image k).start + j) ≠ none ↔
      i ∈ sharers image k ((segment image k).start + j) := by
  rw [Segment.put_ne_none_iff]
  constructor
  · rintro ⟨lower, upper⟩
    refine ⟨later, within, ?_, upper⟩
    by_contra apart
    -- Otherwise the start of the later segment is a byte of the earlier one.
    have ascending := wellFormed.ascending i within k later
    have disjoint := wellFormed.disjoint i within k later (segment image i).start
    exact disjoint ⟨ascending, by omega⟩ ⟨Nat.le_refl _, by omega⟩
  · rintro ⟨_, _, sector, upper⟩
    exact ⟨by omega, upper⟩

/-- A byte that no later segment shares is the byte of the image. -/
theorem placed_own (wellFormed : WellFormed image) (within : k < ePhnum image 0) (inside : j < (segment image k).size)
    (alone : ∀ i, i ∉ sharers image k ((segment image k).start + j)) :
    placed image memory (ePhnum image 0) ((segment image k).start + j) = image ((segment image k).offset + j) := by
  have own := Segment.put_own image (wellFormed.congruent k within) inside
  have last := overlay_last (fun i => (segment image i).put image) memory (ePhnum image 0) (i := k)
    ⟨⟨within, ne_of_eq_of_ne own nofun⟩, fun i ⟨before, other⟩ => ?_⟩
  · rw [own] at last
    exact Option.some.inj last
  · by_contra later
    exact alone i ((later_put_iff wellFormed before (Nat.lt_of_not_le later) inside).mp other)

/-- A byte that later segments share is a byte of the sector in which the last of them begins. -/
theorem placed_shared (wellFormed : WellFormed image) (inside : j < (segment image k).size)
    (greatest : IsGreatest (sharers image k ((segment image k).start + j)) i) :
    placed image memory (ePhnum image 0) ((segment image k).start + j) =
      image ((segment image i).offset - (segment image i).offset % 512 + ((segment image k).start + j) % 512) := by
  obtain ⟨later, within, sector, _⟩ := greatest.1
  have covers := (later_put_iff wellFormed within later inside).mpr greatest.1
  have last := overlay_last (fun i => (segment image i).put image) memory (ePhnum image 0) (i := i)
    ⟨⟨within, covers⟩, fun i' ⟨before, other⟩ => ?_⟩
  · have position : (segment image k).start + j - ((segment image i).start - (segment image i).start % 512) =
        ((segment image k).start + j) % 512 := by omega
    rw [Segment.put, if_pos (Segment.put_ne_none_iff.mp covers), position] at last
    exact Option.some.inj last
  · by_contra after
    have beyond : k < i' := by omega
    exact after (greatest.2 ((later_put_iff wellFormed before beyond inside).mp other))

theorem bddAbove_sharers (image : Memory) (k x : Nat) : BddAbove (sharers image k x) :=
  ⟨ePhnum image 0, fun _ ⟨_, within, _⟩ => Nat.le_of_lt within⟩

/-- A byte keeps its value exactly when the last segment that shares its sector agrees. -/
theorem placed_iff (wellFormed : WellFormed image) (within : k < ePhnum image 0) (inside : j < (segment image k).size) :
    placed image memory (ePhnum image 0) ((segment image k).start + j) = image ((segment image k).offset + j) ↔
      ∀ i, IsGreatest (sharers image k ((segment image k).start + j)) i →
        image ((segment image i).offset - (segment image i).offset % 512 + ((segment image k).start + j) % 512) =
          image ((segment image k).offset + j) := by
  constructor
  · intro kept i greatest
    rw [← placed_shared wellFormed inside greatest, kept]
  · intro agree
    by_cases shared : (sharers image k ((segment image k).start + j)).Nonempty
    · obtain ⟨i, greatest⟩ := (bddAbove_sharers image k _).exists_isGreatest_of_nonempty shared
      rw [placed_shared wellFormed inside greatest, agree i greatest]
    · exact placed_own wellFormed within inside fun i member => shared ⟨i, member⟩

/-- The segments are loaded exactly when the bytes beyond them are harmless. -/
theorem bootmain_loads_iff (wellFormed : WellFormed (kernel disk)) :
    Loads disk memory ↔ Harmless (kernel disk) := by
  constructor
  · rintro ⟨fuel, entry, loaded, entered, bytes⟩
    obtain ⟨_, ends, rfl, _⟩ := (bootmain_enter_iff wellFormed).mp entered
    exact ⟨fun k within => (ends k within).reachable,
      fun k within j inside => (placed_iff wellFormed within inside).mp (bytes k within j inside)⟩
  · rintro ⟨reachable, shared⟩
    have ends {s : Segment} (below : s.start + s.size ≤ 4294966784) : s.Ends 8388608 :=
      Segment.ends_of_reachable below (Nat.le_refl _)
    refine ⟨8388608, _, _, (bootmain_enter_iff wellFormed).mpr
      ⟨ends (by decide), fun k within => ends (reachable k within), rfl, rfl⟩, ?_⟩
    intro k within j inside
    exact (placed_iff wellFormed within inside).mpr (shared k within j inside)

/-- A disk with an image from its second sector on. -/
def diskOf (image : Memory) : Nat → UInt8 := fun i => image (i - sectsize)

theorem kernel_diskOf (image : Memory) : kernel (diskOf image) = image := by
  funext i
  exact congrArg image (Nat.add_sub_cancel_left sectsize i)

/-- Two segments of 16 bytes, the second one 16 bytes and a gap of pages of 256 bytes behind the first one. -/
def twoSegments (gap : UInt8) : Memory := fun a =>
  (([(0, 0x7F), (1, 0x45), (2, 0x4C), (3, 0x46), (28, 52), (44, 2),
    (57, 0x10), (62, 0x10), (72, 16),
    (88, 0x10), (89, 0x20), (92, 0x10), (93, gap), (94, 0x10), (104, 16),
    (0x1000, 1)] : List (Nat × UInt8)).lookup a).getD 0

/-- The two segments are well formed in one sector and in two. -/
theorem twoSegments_wellFormed {gap : UInt8} (chosen : gap = 0 ∨ gap = 2) : WellFormed (twoSegments gap) := by
  have apart : ∀ k < ePhnum (twoSegments gap) 0, ∀ i < k, (segment (twoSegments gap) i).start +
      (segment (twoSegments gap) i).size ≤ (segment (twoSegments gap) k).start := by
    obtain rfl | rfl := chosen <;> decide +kernel
  obtain rfl | rfl := chosen
  all_goals exact ⟨by decide +kernel, by decide +kernel, by decide +kernel, by decide +kernel, by decide +kernel,
    by decide +kernel, fun k within i earlier x first second =>
      absurd (Nat.lt_of_lt_of_le first.2 (apart k within i earlier)) (Nat.not_lt.mpr second.1)⟩

/-- Two segments of one sector: the second one copies over the first byte of the first one. -/
theorem bootmain_loads_fails : ¬ ∀ disk memory, WellFormed (kernel disk) → Loads disk memory := by
  intro claim
  have image := kernel_diskOf (twoSegments 0)
  have wellFormed : WellFormed (kernel (diskOf (twoSegments 0))) := by
    rw [image]
    exact twoSegments_wellFormed (.inl rfl)
  obtain ⟨fuel, entry, loaded, entered, bytes⟩ := claim (diskOf (twoSegments 0)) (fun _ => 0) wellFormed
  obtain ⟨_, _, rfl, _⟩ := (bootmain_enter_iff wellFormed).mp entered
  rw [image] at bytes
  have within : 0 < ePhnum (twoSegments 0) 0 := by decide +kernel
  have inside : 0 < (segment (twoSegments 0) 0).size := by decide +kernel
  have kept := bytes 0 within 0 inside
  have last : (segment (twoSegments 0) 1).put (twoSegments 0) (segment (twoSegments 0) 0).start = some 0 := by
    decide +kernel
  have two : ePhnum (twoSegments 0) 0 = 2 := by decide +kernel
  have own : twoSegments 0 ((segment (twoSegments 0) 0).offset + 0) = 1 := by decide +kernel
  rw [placed, two, own, Nat.add_zero, overlay, last] at kept
  exact absurd kept (by decide)

/-- Two segments of different sectors are loaded. -/
theorem bootmain_loads_twoSegments : WellFormed (kernel (diskOf (twoSegments 2))) ∧
    Loads (diskOf (twoSegments 2)) (fun _ => 0) := by
  have image := kernel_diskOf (twoSegments 2)
  have wellFormed : WellFormed (kernel (diskOf (twoSegments 2))) := by
    rw [image]
    exact twoSegments_wellFormed (.inr rfl)
  refine ⟨wellFormed, (bootmain_loads_iff wellFormed).mpr ?_⟩
  rw [image]
  have two : ePhnum (twoSegments 2) 0 = 2 := by decide +kernel
  have apart : ∀ k < 2, ∀ i < 2, k < i → ∀ j < (segment (twoSegments 2) k).size,
      (segment (twoSegments 2) i).start / 512 ≠ ((segment (twoSegments 2) k).start + j) / 512 := by decide +kernel
  refine ⟨by decide +kernel, fun k within j inside i greatest => ?_⟩
  obtain ⟨later, before, sector, _⟩ := greatest.1
  rw [two] at within before
  exact absurd sector (apart k within i before later j inside)

end JosSmp.Boot
