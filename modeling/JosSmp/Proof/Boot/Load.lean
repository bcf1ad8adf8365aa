import JosSmp.Library.Overlay
import JosSmp.Proof.Boot.Segment

/-!
This file proves what the load loop of `bootmain` leaves in memory: every segment in table order, the last one on top.
-/

namespace JosSmp.Boot
open Library Machine

variable {disk : Nat → UInt8} {fuel k : Nat} {memory loaded : Memory} {image : Memory}

/-- The address of the `k`-th program header of an image at `elf`. -/
def header (memory : Memory) (elf k : Nat) : Nat := elf + ePhoff memory elf + k * phsize

/-- The segment that the `k`-th program header of the image describes. -/
def segment (image : Memory) (k : Nat) : Segment := segmentAt image (header image 0 k)

theorem header_succ (memory : Memory) (elf k : Nat) : header memory elf (k + 1) = header memory elf k + phsize := by
  rw [header, Nat.succ_mul, ← Nat.add_assoc, header]

theorem header_lt (memory : Memory) (elf : Nat) {i k : Nat} (earlier : i < k) :
    header memory elf i < header memory elf k :=
  Nat.add_lt_add_left (Nat.mul_lt_mul_of_pos_right earlier (by decide)) _

/-- The image is valid, its header table is in its first page, and its segments ascend without overlap,
each at the same place of a sector in memory as in the image. -/
structure WellFormed (image : Memory) : Prop where
  magic : eMagic image 0 = elfMagic
  table : header image 0 (ePhnum image 0) ≤ 4096
  high : ∀ k < ePhnum image 0, 0x100000 ≤ (segment image k).start
  unwrapped : ∀ k < ePhnum image 0, (segment image k).start + (segment image k).size < 4294967296
  congruent : ∀ k < ePhnum image 0, (segment image k).start % 512 = (segment image k).offset % 512
  ascending : ∀ k < ePhnum image 0, ∀ i < k, (segment image i).start ≤ (segment image k).start
  disjoint : ∀ k < ePhnum image 0, ∀ i < k, ∀ x, (segment image i).Holds x → ¬ (segment image k).Holds x

/-- The first page of the image is in memory at `ELFHDR`. -/
def FirstPage (image memory : Memory) : Prop := ∀ a < 4096, memory (elfhdr + a) = image a

theorem word16_lt (memory : Memory) (a : Nat) : word16 memory a < 65536 := by
  have low := (memory a).toNat_lt
  have high := (memory (a + 1)).toNat_lt
  unfold word16
  omega

theorem word32_lt (memory : Memory) (a : Nat) : word32 memory a < 4294967296 := by
  have low := word16_lt memory a
  have high := word16_lt memory (a + 2)
  unfold word32
  omega

namespace FirstPage

theorem word16_eq (page : FirstPage image memory) {a : Nat} (inside : a + 2 ≤ 4096) :
    word16 memory (elfhdr + a) = word16 image a := by
  rw [word16, Nat.add_assoc, page a (by omega), page (a + 1) (by omega), word16]

theorem word32_eq (page : FirstPage image memory) {a : Nat} (inside : a + 4 ≤ 4096) :
    word32 memory (elfhdr + a) = word32 image a := by
  rw [word32, Nat.add_assoc, page.word16_eq (by omega), page.word16_eq (by omega), word32]

theorem ePhoff_eq (page : FirstPage image memory) : ePhoff memory elfhdr = ePhoff image 0 := by
  rw [ePhoff, page.word32_eq (by decide), ePhoff, Nat.zero_add]

theorem ePhnum_eq (page : FirstPage image memory) : ePhnum memory elfhdr = ePhnum image 0 := by
  rw [ePhnum, page.word16_eq (by decide), ePhnum, Nat.zero_add]

theorem eMagic_eq (page : FirstPage image memory) : eMagic memory elfhdr = eMagic image 0 := by
  exact page.word32_eq (a := 0) (by decide)

theorem eEntry_eq (page : FirstPage image memory) : eEntry memory elfhdr = eEntry image 0 := by
  rw [eEntry, page.word32_eq (by decide), eEntry, Nat.zero_add]

/-- A program header in the page describes the same segment in memory and in the image. -/
theorem segmentAt_eq (page : FirstPage image memory) {ph : Nat} (inside : ph + phsize ≤ 4096) :
    segmentAt memory (elfhdr + ph) = segmentAt image ph := by
  have size : phsize = 32 := rfl
  simp only [segmentAt, pVa, pMemsz, pOffset, Nat.add_assoc]
  rw [page.word32_eq (by omega), page.word32_eq (by omega), page.word32_eq (by omega)]

end FirstPage

namespace WellFormed

/-- Every program header of the table is in the first page. -/
theorem header_inside (wellFormed : WellFormed image) (within : k < ePhnum image 0) :
    header image 0 k + phsize ≤ 4096 := by
  rw [← header_succ]
  obtain last | earlier := Nat.eq_or_lt_of_le (Nat.succ_le_of_lt within)
  · rw [show k + 1 = ePhnum image 0 from last]
    exact wellFormed.table
  · exact Nat.le_trans (Nat.le_of_lt (header_lt image 0 earlier)) wellFormed.table

theorem bounded (wellFormed : WellFormed image) (within : k < ePhnum image 0) : (segment image k).Bounded :=
  ⟨Nat.mod_lt _ (by decide), wellFormed.unwrapped k within, word32_lt _ _⟩

/-- The loop starts at the first header of the table in memory. -/
theorem address_first (wellFormed : WellFormed image) :
    address (elfhdr + ePhoff image 0) = elfhdr + header image 0 0 := by
  have table := wellFormed.table
  have base : elfhdr = 65536 := rfl
  unfold header phsize at table ⊢
  exact address_eq (by omega) (by omega)

/-- The loop stops at the end of the table in memory. -/
theorem address_last (wellFormed : WellFormed image) :
    address ((elfhdr + header image 0 0 : Nat) + ePhnum image 0 * phsize) =
      elfhdr + header image 0 (ePhnum image 0) := by
  have table := wellFormed.table
  have base : elfhdr = 65536 := rfl
  unfold header phsize at table ⊢
  exact address_eq (by omega) (by omega)

end WellFormed

/-- The memory after the first `k` segments are loaded. -/
def placed (image memory : Memory) (k : Nat) : Memory := overlay (fun i => (segment image i).put image) memory k

/-- Loading segments keeps the first page. -/
theorem placed_firstPage (wellFormed : WellFormed image) (page : FirstPage image memory)
    (within : k ≤ ePhnum image 0) : FirstPage image (placed image memory k) := by
  intro a inside
  rw [placed, overlay_untouched _ _, page a inside]
  intro i earlier
  have high := wellFormed.high i (by omega)
  have base : elfhdr = 65536 := rfl
  exact if_neg (by omega)

/-- The load loop has a result exactly when every remaining segment ends, and then all of them are placed. -/
theorem loadLoop_some_iff (fuel : Nat) (loaded : Memory) (wellFormed : WellFormed (kernel disk))
    (page : FirstPage (kernel disk) memory) {k : Nat} (within : k ≤ ePhnum (kernel disk) 0) :
    loadLoop disk fuel (elfhdr + header (kernel disk) 0 k)
        (elfhdr + header (kernel disk) 0 (ePhnum (kernel disk) 0)) (placed (kernel disk) memory k) = some loaded ↔
      (∀ i, k ≤ i → i < ePhnum (kernel disk) 0 → (segment (kernel disk) i).Ends fuel) ∧
        loaded = placed (kernel disk) memory (ePhnum (kernel disk) 0) := by
  induction left : ePhnum (kernel disk) 0 - k generalizing k with
  | zero =>
      have last : k = ePhnum (kernel disk) 0 := by omega
      rw [loadLoop, last, if_neg (Nat.lt_irrefl _)]
      constructor
      · intro result
        exact ⟨fun i after before => absurd before (by omega), (Option.some.inj result).symm⟩
      · rintro ⟨_, rfl⟩
        rfl
  | succ left ih =>
      have more : k < ePhnum (kernel disk) 0 := by omega
      have rest := ih (k := k + 1) (by omega) (by omega)
      have before := header_lt (kernel disk) 0 more
      -- The header is still in memory, so the segment is the one that the image describes.
      have described := (placed_firstPage wellFormed page within).segmentAt_eq (wellFormed.header_inside more)
      have read (written : Memory) := Segment.readseg_some_iff disk fuel _ (placed (kernel disk) memory k) written
        (wellFormed.bounded more) (congrArg Segment.start described)
      have size : pMemsz (placed (kernel disk) memory k) (elfhdr + header (kernel disk) 0 k) =
          (segment (kernel disk) k).size := congrArg Segment.size described
      have offset : pOffset (placed (kernel disk) memory k) (elfhdr + header (kernel disk) 0 k) =
          (segment (kernel disk) k).offset := congrArg Segment.offset described
      rw [loadLoop, if_pos (by omega), Nat.add_assoc, ← header_succ, size, offset]
      cases result : readseg disk fuel (pVa (placed (kernel disk) memory k) (elfhdr + header (kernel disk) 0 k))
          (segment (kernel disk) k).size (segment (kernel disk) k).offset (placed (kernel disk) memory k) with
      | none =>
          refine ⟨nofun, fun ⟨ends, _⟩ => ?_⟩
          rw [(read _).mpr ⟨ends k (Nat.le_refl k) more, rfl⟩] at result
          exact absurd result nofun
      | some written =>
          obtain ⟨ends, rfl⟩ := (read written).mp result
          refine rest.trans ⟨fun ⟨later, final⟩ => ⟨fun i after before => ?_, final⟩, fun ⟨all, final⟩ =>
            ⟨fun i after before => all i (by omega) before, final⟩⟩
          obtain rfl | strictly := Nat.eq_or_lt_of_le after
          · exact ends
          · exact later i strictly before

/-- The first page as a segment of its own. -/
def firstPage : Segment := ⟨elfhdr, sectsize * 8, 0⟩

/-- The memory after the first page is read. -/
def paged (image memory : Memory) : Memory := fun x => (firstPage.put image x).getD (memory x)

theorem paged_firstPage (image memory : Memory) : FirstPage image (paged image memory) := by
  intro a inside
  have covered : Segment.put image firstPage (elfhdr + a) = some (image a) := by
    have base : elfhdr = 65536 := rfl
    have stop : firstPage.start + firstPage.size = 69632 := rfl
    have start : firstPage.start - firstPage.start % 512 = elfhdr := rfl
    have offset : firstPage.offset - firstPage.offset % 512 = 0 := rfl
    rw [Segment.put, start, stop, offset, if_pos (by omega), Nat.zero_add, Nat.add_sub_cancel_left]
  rw [paged, covered, Option.getD_some]

theorem readseg_firstPage (disk : Nat → UInt8) (fuel : Nat) (memory loaded : Memory) :
    readseg disk fuel elfhdr (sectsize * 8) 0 memory = some loaded ↔
      firstPage.Ends fuel ∧ loaded = paged (kernel disk) memory :=
  firstPage.readseg_some_iff disk fuel elfhdr memory loaded ⟨by decide, by decide, by decide⟩ rfl

/-- The loader enters the kernel exactly when every segment ends, with all of them placed over the first page. -/
theorem bootmain_enter_iff (wellFormed : WellFormed (kernel disk)) {entry : Nat} :
    bootmain disk fuel memory = some (.enter entry loaded) ↔
      firstPage.Ends fuel ∧ (∀ i < ePhnum (kernel disk) 0, (segment (kernel disk) i).Ends fuel) ∧
        loaded = placed (kernel disk) (paged (kernel disk) memory) (ePhnum (kernel disk) 0) ∧
        entry = eEntry (kernel disk) 0 % 0x1000000 := by
  have page := paged_firstPage (kernel disk) memory
  have final := placed_firstPage wellFormed page (Nat.le_refl _)
  rw [bootmain]
  cases result : readseg disk fuel elfhdr (sectsize * 8) 0 memory with
  | none =>
      refine ⟨nofun, fun ⟨ends, _⟩ => ?_⟩
      rw [(readseg_firstPage disk fuel memory _).mpr ⟨ends, rfl⟩] at result
      exact absurd result nofun
  | some written =>
      obtain ⟨ends, rfl⟩ := (readseg_firstPage disk fuel memory written).mp result
      dsimp only
      rw [page.eMagic_eq, if_neg (not_not.mpr wellFormed.magic), page.ePhoff_eq, page.ePhnum_eq,
        wellFormed.address_first, wellFormed.address_last, Option.map_eq_some_iff]
      have loop (out : Memory) := loadLoop_some_iff fuel out wellFormed page (Nat.zero_le _)
      constructor
      · rintro ⟨out, finished, same⟩
        obtain ⟨all, rfl⟩ := (loop out).mp finished
        obtain ⟨rfl, rfl⟩ := Exit.enter.inj same
        rw [final.eEntry_eq]
        exact ⟨ends, fun i before => all i (Nat.zero_le i) before, rfl, rfl⟩
      · rintro ⟨_, all, rfl, rfl⟩
        refine ⟨_, (loop _).mpr ⟨fun i _ before => all i before, rfl⟩, ?_⟩
        rw [final.eEntry_eq]

end JosSmp.Boot
