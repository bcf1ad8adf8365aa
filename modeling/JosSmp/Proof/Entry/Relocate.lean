import JosSmp.Proof.Boot.Segment
import JosSmp.Proof.Entry.Descriptor

/-!
This file proves that the kernel finds itself where the boot loader puts it.
-/

namespace JosSmp.Entry
open Machine Mmu Boot

/-- The code and the data segment are descriptors of `mygdt`. -/
theorem descriptor_mygdt {selector : Nat} (listed : selector ∈ [codeSel, dataSel]) :
    ∃ type < 16, (mygdt.drop selector).take 8 = segAsm type (-kernbase) 0xffffffff := by
  simp only [List.mem_cons, List.not_mem_nil, or_false] at listed
  obtain rfl | rfl := listed
  · exact ⟨staX ||| staR, by decide, rfl⟩
  · exact ⟨staW, by decide, rfl⟩

section Addresses

variable {va : UInt32}

/-- Subtracting `KERNBASE` from an address of the kernel clears its highest byte. -/
theorem reloc_eq (high : va >>> 24 = 0xF0) : reloc va = va &&& 0xFFFFFF := by
  have top := congrArg UInt32.toNat high
  have bound := va.toNat_lt
  rw [UInt32.toNat_shiftRight, Nat.shiftRight_eq_div_pow] at top
  apply UInt32.toNat_inj.mp
  rw [reloc, UInt32.toNat_sub, toNat_mask va 24 rfl]
  simp only [kernbase, UInt32.reduceToNat, Nat.reduceMod, Nat.reducePow] at top ⊢
  omega

theorem linear_eq (high : va >>> 24 = 0xF0) {selector : Nat} (listed : selector ∈ [codeSel, dataSel]) :
    linear mygdt selector va = va &&& 0xFFFFFF := by
  obtain ⟨type, small, same⟩ := descriptor_mygdt listed
  rw [linear, same, segmentBase_segAsm small, ← UInt32.sub_eq_add_neg]
  exact reloc_eq high

theorem linear_toNat (high : va >>> 24 = 0xF0) {selector : Nat} (listed : selector ∈ [codeSel, dataSel]) :
    (linear mygdt selector va).toNat = va.toNat % 0x1000000 := by
  rw [linear_eq high listed]
  exact toNat_mask va 24 rfl

end Addresses

/-- The byte of a segment that belongs at the virtual address `va` is loaded to the address `a`. -/
def LoadedAt (va : UInt32) (a : Nat) : Prop :=
  ∀ (disk : Nat → UInt8) (start count offset i : Nat) (memory : Memory),
    start / 0x1000000 = 0xF0 → va.toNat = start + i → i < count → start % 0x1000000 + count + 512 ≤ 4294967296 →
      start % 512 = offset % 512 → offset < 4294967296 →
      ∃ fuel loaded, readseg disk fuel start count offset memory = some loaded ∧ loaded a = kernel disk (offset + i)

/-- The loader jumps to the address `a` if the image gives `va` as its entry. -/
def EnteredAt (va : UInt32) (a : Nat) : Prop :=
  ∀ (disk : Nat → UInt8) (fuel entry : Nat) (memory loaded : Memory),
    bootmain disk fuel memory = some (.enter entry loaded) → eEntry loaded elfhdr = va.toNat → entry = a

theorem loadedAt (va : UInt32) (high : va.toNat / 0x1000000 = 0xF0) : LoadedAt va (va.toNat % 0x1000000) := by
  intro disk start count offset i memory kernelStart place inside room congruent numbered
  let s : Segment := ⟨start % 0x1000000, count, offset⟩
  have bounded : s.Bounded := ⟨Nat.mod_lt start (by decide), by simp only [s]; omega, numbered⟩
  have reachable : s.start + s.size ≤ 4294966784 := by simp only [s]; omega
  have run := (Segment.readseg_some_iff disk s.sectors start memory _ bounded rfl).mpr
    ⟨⟨reachable, Nat.le_refl _⟩, rfl⟩
  have address : va.toNat % 0x1000000 = s.start + i := by simp only [s]; omega
  refine ⟨_, _, run, ?_⟩
  rw [address, Segment.put_own (kernel disk) (by simp only [s]; omega) inside]
  rfl

theorem enteredAt (va : UInt32) : EnteredAt va (va.toNat % 0x1000000) := by
  intro disk fuel entry memory loaded run same
  rw [bootmain] at run
  split at run
  · cases run
  · split at run
    · cases run
    · obtain ⟨final, _, enters⟩ := Option.map_eq_some_iff.mp run
      cases enters
      rw [same]

/-- Both encodings of a descriptor agree and are decoded to its base and limit. Through the segments of `mygdt`, an
address of the kernel is the address to which the loader copies it and jumps, which `RELOC` gives as well. -/
theorem segment_relocates (type base lim va : UInt32) (small : type < 16) (high : va >>> 24 = 0xF0) :
    (seg type base lim 0).bytes = segAsm type base lim ∧ segmentBase (segAsm type base lim) = base ∧
      segmentLimit (segAsm type base lim) = lim ||| 0xFFF ∧ reloc va = va &&& 0xFFFFFF ∧
      ∀ selector ∈ [codeSel, dataSel], linear mygdt selector va = va &&& 0xFFFFFF ∧
        LoadedAt va (linear mygdt selector va).toNat ∧ EnteredAt va (linear mygdt selector va).toNat := by
  have top : va.toNat / 0x1000000 = 0xF0 := by
    have top := congrArg UInt32.toNat high
    rwa [UInt32.toNat_shiftRight, Nat.shiftRight_eq_div_pow] at top
  refine ⟨seg_bytes small, segmentBase_segAsm small, segmentLimit_segAsm small, reloc_eq high,
    fun selector listed => ⟨linear_eq high listed, ?_, ?_⟩⟩
  · rw [linear_toNat high listed]
    exact loadedAt va top
  · rw [linear_toNat high listed]
    exact enteredAt va

/-- The code segment of the kernel, and the address at which the kernel is linked. -/
theorem segment_relocates_start :
    (seg 10 (-kernbase) 0xffffffff 0).bytes = segAsm 10 (-kernbase) 0xffffffff ∧
      segmentBase (segAsm 10 (-kernbase) 0xffffffff) = -kernbase ∧
      segmentLimit (segAsm 10 (-kernbase) 0xffffffff) = 0xffffffff ||| 0xFFF ∧
      reloc 0xF0100020 = 0xF0100020 &&& 0xFFFFFF ∧
      ∀ selector ∈ [codeSel, dataSel], linear mygdt selector 0xF0100020 = 0xF0100020 &&& 0xFFFFFF ∧
        LoadedAt 0xF0100020 (linear mygdt selector 0xF0100020).toNat ∧
        EnteredAt 0xF0100020 (linear mygdt selector 0xF0100020).toNat :=
  segment_relocates 10 (-kernbase) 0xffffffff 0xF0100020 (by decide) (by decide)

end JosSmp.Entry
