import JosSmp.Construction.Kern.Entry
import JosSmp.Construction.Machine.Processor

/-!
This file proves that the two encodings of a segment descriptor agree, and that the processor decodes them.
-/

namespace JosSmp.Mmu
open Machine

variable {type base lim : UInt32}

/-- The byte of a word from bit `k` on. -/
def part (v : UInt32) (k : Nat) : BitVec 8 := v.toBitVec.extractLsb' k 8

theorem part_toNat (v : UInt32) (k : Nat) : (UInt8.ofBitVec (part v k)).toNat = v.toNat / 2 ^ k % 256 := by
  change (part v k).toNat = _
  rw [part, BitVec.extractLsb'_toNat, Nat.shiftRight_eq_div_pow, UInt32.toNat_toBitVec]

/-- The bits above a byte and the byte are bits of the word without a gap. -/
theorem append_part (v : UInt32) (k n : Nat) :
    v.toBitVec.extractLsb' (k + 8) n ++ part v k = v.toBitVec.extractLsb' k (n + 8) :=
  BitVec.extractLsb'_append_extractLsb'_eq_extractLsb' rfl

theorem part_shift (v k : UInt32) (small : k.toNat < 32) (i : Nat) : part (v >>> k) i = part v (k.toNat + i) := by
  have amount : (k.toBitVec % 32).toNat = k.toNat := Nat.mod_eq_of_lt small
  apply BitVec.eq_of_getLsbD_eq
  intro j inside
  rw [part, part, BitVec.getLsbD_extractLsb', BitVec.getLsbD_extractLsb', UInt32.toBitVec_shiftRight,
    BitVec.ushiftRight_eq', BitVec.getLsbD_ushiftRight, amount, Nat.add_assoc]

/-- A masked half word is emitted as two bytes. -/
theorem word_part (v : UInt32) : word (v &&& 0xffff) = [part v 0, part v 8].map UInt8.ofBitVec := by
  have masked : (v &&& 0xffff).toNat = v.toNat % 2 ^ 16 := toNat_mask v 16 rfl
  simp only [word, List.map_cons, List.map_nil, List.cons.injEq, and_true]
  constructor
  · apply UInt8.toNat_inj.mp
    rw [part_toNat, UInt32.toNat_toUInt8, masked]
    omega
  · apply UInt8.toNat_inj.mp
    rw [part_toNat, UInt32.toNat_toUInt8, UInt32.toNat_shiftRight, masked, Nat.shiftRight_eq_div_pow]
    simp only [UInt32.reduceToNat, Nat.reduceMod, Nat.reducePow]
    omega

theorem byte_part (v : UInt32) : (v &&& 0xff).toUInt8 = UInt8.ofBitVec (part v 0) := by
  apply UInt8.toNat_inj.mp
  rw [part_toNat, UInt32.toNat_toUInt8, toNat_mask v 8 rfl]
  omega

/-- A masked bit field holds the same bytes. -/
theorem field_part (v : UInt32) (i : Nat) (inside : i + 8 ≤ 16) :
    ((v &&& 0xffff).toBitVec.setWidth 16).extractLsb' i 8 = part v i := by
  have mask : (0xffff : UInt32).toBitVec = (BitVec.allOnes 16).setWidth 32 := rfl
  apply BitVec.eq_of_getLsbD_eq
  intro j before
  rw [part, UInt32.toBitVec_and, mask]
  simp (disch := omega) only [BitVec.getLsbD_extractLsb', BitVec.getLsbD_setWidth, BitVec.getLsbD_and,
    BitVec.getLsbD_allOnes, decide_eq_true, Bool.true_and, Bool.and_true]

/-- A byte of two parts of four bits. -/
theorem byte_nibbles (high : UInt32) (low : BitVec 4) (v : UInt32) (highPart : high.toNat % 16 = 0)
    (same : v.toNat = low.toNat) :
    (high ||| v).toUInt8 = UInt8.ofBitVec (BitVec.ofNat 4 (high.toNat / 16) ++ low) := by
  have join (n : Nat) : 16 * n + low.toNat = 16 * n ||| low.toNat :=
    Nat.two_pow_add_eq_or_of_lt (i := 4) low.isLt n
  have split : high.toNat = 16 * (high.toNat / 16) := by omega
  have bound := low.isLt
  apply UInt8.toNat_inj.mp
  change _ = (BitVec.ofNat 4 (high.toNat / 16) ++ low).toNat
  rw [UInt32.toNat_toUInt8, UInt32.toNat_or, same, split, ← join, BitVec.toNat_append, Nat.shiftLeft_eq,
    Nat.mul_comm _ (2 ^ 4), show (2 : Nat) ^ 4 = 16 from rfl, ← join, BitVec.toNat_ofNat]
  omega

/-- The bytes of a descriptor of the assembler. -/
theorem segAsm_eq (small : type < 16) :
    segAsm type base lim = [part lim 12, part lim 20, part base 0, part base 8, part base 16,
      9#4 ++ type.toBitVec.setWidth 4, 12#4 ++ lim.toBitVec.extractLsb' 28 4, part base 24].map UInt8.ofBitVec := by
  have typeBound : type.toNat < 16 := small
  have access : ((0x90 : UInt32) ||| type).toUInt8 = UInt8.ofBitVec (9#4 ++ type.toBitVec.setWidth 4) :=
    byte_nibbles 0x90 _ type (by decide) (by
      rw [BitVec.toNat_setWidth, UInt32.toNat_toBitVec]
      omega)
  have flags : ((0xC0 : UInt32) ||| ((lim >>> 28) &&& 0xf)).toUInt8 =
      UInt8.ofBitVec (12#4 ++ lim.toBitVec.extractLsb' 28 4) :=
    byte_nibbles 0xC0 _ _ (by decide) (by
      rw [toNat_mask _ 4 rfl, UInt32.toNat_shiftRight, BitVec.extractLsb'_toNat]
      rfl)
  rw [segAsm, word_part, word_part, access, flags, byte_part, byte_part, part_shift lim 12 (by decide),
    part_shift lim 12 (by decide), part_shift base 16 (by decide), part_shift base 24 (by decide)]
  rfl

/-- The bit fields between the two parts of the base address make two bytes. -/
theorem layout_access (d : Segdesc) : d.layout.extractLsb' 40 8 = d.sdP ++ d.sdDpl ++ d.sdS ++ d.sdType := by
  rw [Segdesc.layout]
  simp (disch := omega) only [BitVec.extractLsb'_append_eq_of_le, Nat.reduceSub]
  apply BitVec.eq_of_getLsbD_eq
  intro i inside
  simp only [BitVec.getLsbD_extractLsb', BitVec.getLsbD_append, decide_eq_true inside, Bool.true_and]
  repeat' split
  all_goals first
    | omega
    | (congr 1; omega)

theorem layout_flags (d : Segdesc) :
    d.layout.extractLsb' 48 8 = d.sdG ++ d.sdDb ++ d.sdRsv1 ++ d.sdAvl ++ d.sdLim1916 := by
  rw [Segdesc.layout]
  simp (disch := omega) only [BitVec.extractLsb'_append_eq_of_le, Nat.reduceSub]
  apply BitVec.eq_of_getLsbD_eq
  intro i inside
  simp only [BitVec.getLsbD_extractLsb', BitVec.getLsbD_append, decide_eq_true inside, Bool.true_and]
  repeat' split
  all_goals first
    | omega
    | (congr 1; omega)

/-- The bytes of a descriptor of C. -/
theorem Segdesc.bytes_eq (d : Segdesc) :
    d.bytes = [d.sdLim150.extractLsb' 0 8, d.sdLim150.extractLsb' 8 8, d.sdBase150.extractLsb' 0 8,
      d.sdBase150.extractLsb' 8 8, d.sdBase2316, d.sdP ++ d.sdDpl ++ d.sdS ++ d.sdType,
      d.sdG ++ d.sdDb ++ d.sdRsv1 ++ d.sdAvl ++ d.sdLim1916, d.sdBase3124].map UInt8.ofBitVec := by
  have fields : d.layout.extractLsb' 0 8 = d.sdLim150.extractLsb' 0 8 ∧
      d.layout.extractLsb' 8 8 = d.sdLim150.extractLsb' 8 8 ∧
      d.layout.extractLsb' 16 8 = d.sdBase150.extractLsb' 0 8 ∧
      d.layout.extractLsb' 24 8 = d.sdBase150.extractLsb' 8 8 ∧
      d.layout.extractLsb' 32 8 = d.sdBase2316.extractLsb' 0 8 ∧
      d.layout.extractLsb' 56 8 = d.sdBase3124.extractLsb' 0 8 := by
    rw [Segdesc.layout]
    simp (disch := omega) only [BitVec.extractLsb'_append_eq_of_add_le, BitVec.extractLsb'_append_eq_of_le,
      Nat.reduceSub, and_self]
  obtain ⟨lim0, lim1, base0, base1, base2, base3⟩ := fields
  rw [BitVec.extractLsb'_eq_self] at base2 base3
  rw [← layout_access, ← layout_flags, ← lim0, ← lim1, ← base0, ← base1, ← base2, ← base3]
  rfl

/-- The two encodings of a descriptor have the same bytes. -/
theorem seg_bytes (small : type < 16) : (seg type base lim 0).bytes = segAsm type base lim := by
  have middle : ((base >>> 16) &&& 0xff).toBitVec.setWidth 8 = part (base >>> 16) 0 :=
    congrArg UInt8.toBitVec (byte_part (base >>> 16))
  have high : (base >>> 24).toBitVec.setWidth 8 = part (base >>> 24) 0 := BitVec.setWidth_eq_extractLsb' (by decide)
  have limit : (lim >>> 28).toBitVec.setWidth 4 = lim.toBitVec.extractLsb' 28 4 := by
    apply BitVec.eq_of_toNat_eq
    rw [BitVec.toNat_setWidth, BitVec.extractLsb'_toNat, UInt32.toNat_toBitVec, UInt32.toNat_shiftRight]
    rfl
  rw [Segdesc.bytes_eq, segAsm_eq small]
  simp only [seg, middle, high, limit, field_part, Nat.reduceAdd, Nat.reduceLeDiff]
  rw [part_shift lim 12 (by decide), part_shift lim 12 (by decide), part_shift base 16 (by decide),
    part_shift base 24 (by decide)]
  rfl

/-- The processor finds the base address in the bytes of a descriptor. -/
theorem segmentBase_segAsm (small : type < 16) : segmentBase (segAsm type base lim) = base := by
  have join : part base 24 ++ part base 16 ++ part base 8 ++ part base 0 = base.toBitVec := by
    rw [part, append_part base 16, append_part base 8, append_part base 0]
    exact BitVec.extractLsb'_eq_self
  rw [segAsm_eq small]
  exact UInt32.toBitVec_inj.mp join

/-- The processor finds the limit, in pages. -/
theorem segmentLimit_segAsm (small : type < 16) : segmentLimit (segAsm type base lim) = lim ||| 0xFFF := by
  have granular : (12#4 ++ lim.toBitVec.extractLsb' 28 4).getLsbD 7 = true := by
    rw [BitVec.getLsbD_append]
    rfl
  have pages : (12#4 ++ lim.toBitVec.extractLsb' 28 4).extractLsb' 0 4 ++ part lim 20 ++ part lim 12 =
      lim.toBitVec.extractLsb' 12 20 := by
    rw [BitVec.extractLsb'_append_eq_right, append_part lim 20, append_part lim 12]
  rw [segAsm_eq small]
  apply UInt32.toBitVec_inj.mp
  change (if (12#4 ++ lim.toBitVec.extractLsb' 28 4).getLsbD 7 = true then
      (12#4 ++ lim.toBitVec.extractLsb' 28 4).extractLsb' 0 4 ++ part lim 20 ++ part lim 12 ++ BitVec.allOnes 12
    else _) = lim.toBitVec ||| (BitVec.allOnes 12).setWidth 32
  rw [if_pos granular, pages]
  apply BitVec.eq_of_getLsbD_eq
  intro i inside
  rw [BitVec.getLsbD_append, BitVec.getLsbD_or, BitVec.getLsbD_setWidth]
  by_cases low : i < 12
  · rw [if_pos low, BitVec.getLsbD_allOnes, decide_eq_true low, decide_eq_true inside, Bool.true_and, Bool.or_true]
  · simp only [if_neg low, BitVec.getLsbD_extractLsb', BitVec.getLsbD_allOnes, decide_eq_false low, Bool.and_false,
      Bool.or_false, decide_eq_true (show i - 12 < 20 by omega), Bool.true_and]
    congr 1
    omega

end JosSmp.Mmu
