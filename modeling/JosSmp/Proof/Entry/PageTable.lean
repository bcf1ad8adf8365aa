import JosSmp.Construction.Kern.Entry
import JosSmp.Construction.Machine.Processor

/-!
This file proves that the window at `VPT` holds the page tables: a walk through it ends at the entry it names.
-/

namespace JosSmp.Entry
open Machine Mmu

section Indices

variable (la : UInt32)

theorem directoryIndex_eq : directoryIndex la = la.toNat / 4194304 := by
  have bound := la.toNat_lt
  rw [directoryIndex, BitVec.extractLsb_toNat, UInt32.toNat_toBitVec, Nat.shiftRight_eq_div_pow]
  omega

theorem tableIndex_eq : tableIndex la = la.toNat / 4096 % 1024 := by
  rw [tableIndex, BitVec.extractLsb_toNat, UInt32.toNat_toBitVec, Nat.shiftRight_eq_div_pow]

theorem pageOffset_eq : pageOffset la = la.toNat % 4096 := by
  rw [pageOffset, BitVec.extractLsb_toNat, UInt32.toNat_toBitVec, Nat.shiftRight_eq_div_pow, Nat.pow_zero, Nat.div_one]

theorem ppn_toNat : (ppn la).toNat = la.toNat / 4096 := by
  rw [ppn, UInt32.toNat_shiftRight, Nat.shiftRight_eq_div_pow]
  rfl

theorem pdx_toNat : (pdx la).toNat = la.toNat / 4194304 := by
  have bound := la.toNat_lt
  rw [pdx, toNat_mask _ 10 rfl, UInt32.toNat_shiftRight, Nat.shiftRight_eq_div_pow]
  simp only [pdxshift, UInt32.reduceToNat, Nat.reduceMod, Nat.reducePow]
  omega

theorem ptx_toNat : (ptx la).toNat = la.toNat / 4096 % 1024 := by
  rw [ptx, toNat_mask _ 10 rfl, UInt32.toNat_shiftRight, Nat.shiftRight_eq_div_pow]
  rfl

theorem pgoff_toNat : (pgoff la).toNat = la.toNat % 4096 := toNat_mask la 12 rfl

/-- The three parts of a linear address put it together again. -/
theorem pgaddr_parts : pgaddr (pdx la) (ptx la) (pgoff la) = la := by
  have bound := la.toNat_lt
  apply UInt32.toNat_inj.mp
  have table : 2 ^ 22 * (la.toNat / 4194304) + 2 ^ 12 * (la.toNat / 4096 % 1024) =
      2 ^ 22 * (la.toNat / 4194304) ||| 2 ^ 12 * (la.toNat / 4096 % 1024) :=
    Nat.two_pow_add_eq_or_of_lt (by omega) _
  have offset : 2 ^ 12 * (la.toNat / 4096) + la.toNat % 4096 = 2 ^ 12 * (la.toNat / 4096) ||| la.toNat % 4096 :=
    Nat.two_pow_add_eq_or_of_lt (by omega) _
  have page : 2 ^ 22 * (la.toNat / 4194304) + 2 ^ 12 * (la.toNat / 4096 % 1024) = 2 ^ 12 * (la.toNat / 4096) := by omega
  have directoryPart : (pdx la <<< pdxshift).toNat = 2 ^ 22 * (la.toNat / 4194304) := by
    rw [UInt32.toNat_shiftLeft, pdx_toNat, Nat.shiftLeft_eq]
    simp only [pdxshift, UInt32.reduceToNat, Nat.reduceMod, Nat.reducePow]
    omega
  have tablePart : (ptx la <<< ptxshift).toNat = 2 ^ 12 * (la.toNat / 4096 % 1024) := by
    rw [UInt32.toNat_shiftLeft, ptx_toNat, Nat.shiftLeft_eq]
    simp only [ptxshift, UInt32.reduceToNat, Nat.reduceMod, Nat.reducePow]
    omega
  rw [pgaddr, UInt32.toNat_or, UInt32.toNat_or, directoryPart, tablePart, pgoff_toNat, ← table, page, ← offset]
  omega

/-- An element of `vpt` lies in the window. -/
theorem element_vpt : (element vpt (ppn la)).toNat = 0xEFC00000 + 4 * (la.toNat / 4096) := by
  have bound := la.toNat_lt
  have start : vpt.toNat = 0xEFC00000 := by decide
  rw [element, UInt32.toNat_add, UInt32.toNat_mul, start, ppn_toNat]
  simp only [UInt32.reduceToNat]
  omega

/-- An element of `vpd` lies in the page of the window that holds the page directory. -/
theorem element_vpd : (element vpd (pdx la)).toNat = 0xEFFBF000 + 4 * (la.toNat / 4194304) := by
  have bound := la.toNat_lt
  have start : vpd.toNat = 0xEFFBF000 := by decide
  rw [element, UInt32.toNat_add, UInt32.toNat_mul, start, pdx_toNat]
  simp only [UInt32.reduceToNat]
  omega

end Indices

/-- If the page directory contains itself as the page table at `VPT`, then a walk of an element of `vpd` ends at the
directory entry of its address, and a walk of an element of `vpt` at the page table entry. -/
theorem window_walks (ram : Ram) (directory : Nat) (la : UInt32)
    (valid : present (ram.load32 (directory + 4 * (pdx vptBase).toNat)) = true)
    (own : frame (ram.load32 (directory + 4 * (pdx vptBase).toNat)) = directory) :
    walk ram directory (element vpd (pdx la)) = some (directory + 4 * (pdx la).toNat) ∧
      (∀ table, present (ram.load32 (directory + 4 * (pdx la).toNat)) = true →
        frame (ram.load32 (directory + 4 * (pdx la).toNat)) = table →
          walk ram directory (element vpt (ppn la)) = some (table + 4 * (ptx la).toNat)) ∧
      pgaddr (pdx la) (ptx la) (pgoff la) = la := by
  have bound := la.toNat_lt
  have slot : (pdx vptBase).toNat = 0x3BF := by decide
  rw [slot] at valid own
  refine ⟨?_, fun table mapped place => ?_, pgaddr_parts la⟩
  · have first : directoryIndex (element vpd (pdx la)) = 0x3BF := by
      rw [directoryIndex_eq, element_vpd]
      omega
    have second : tableIndex (element vpd (pdx la)) = 0x3BF := by
      rw [tableIndex_eq, element_vpd]
      omega
    have third : pageOffset (element vpd (pdx la)) = 4 * (pdx la).toNat := by
      rw [pageOffset_eq, element_vpd, pdx_toNat]
      omega
    simp only [walk, first, second, third, valid, own, if_true]
  · have first : directoryIndex (element vpt (ppn la)) = 0x3BF := by
      rw [directoryIndex_eq, element_vpt]
      omega
    have second : tableIndex (element vpt (ppn la)) = (pdx la).toNat := by
      rw [tableIndex_eq, element_vpt, pdx_toNat]
      omega
    have third : pageOffset (element vpt (ppn la)) = 4 * (ptx la).toNat := by
      rw [pageOffset_eq, element_vpt, ptx_toNat]
      omega
    simp only [walk, first, second, third, valid, own, mapped, place, if_true]

/-- A directory at `0x1000` that contains itself and one page table, and an address in the window. -/
theorem window_walks_self :
    let ram : Ram := ⟨fun a => if a = 0x1EFC then 1 else if a = 0x1EFD then 0x10 else 0, []⟩
    walk ram 0x1000 (element vpd (pdx 0xEFFBFEFC)) = some (0x1000 + 4 * (pdx 0xEFFBFEFC).toNat) ∧
      (∀ table, present (ram.load32 (0x1000 + 4 * (pdx 0xEFFBFEFC).toNat)) = true →
        frame (ram.load32 (0x1000 + 4 * (pdx 0xEFFBFEFC).toNat)) = table →
          walk ram 0x1000 (element vpt (ppn 0xEFFBFEFC)) = some (table + 4 * (ptx 0xEFFBFEFC).toNat)) ∧
      pgaddr (pdx 0xEFFBFEFC) (ptx 0xEFFBFEFC) (pgoff 0xEFFBFEFC) = 0xEFFBFEFC :=
  window_walks ⟨fun a => if a = 0x1EFC then 1 else if a = 0x1EFD then 0x10 else 0, []⟩ 0x1000 0xEFFBFEFC (by decide)
    (by decide)

end JosSmp.Entry
