import JosSmp.Construction.Lib.Memmove

/-!
This file proves what `memmove` leaves in memory.
-/

namespace JosSmp.Cstring
open Library Machine

/-- The addresses accessed by a copy lie in the source and in the destination. -/
def CopyAccess (dst src n : Nat) (before after : List Nat) : Prop :=
  ∀ a ∈ after, a ∈ before ∨ (src ≤ a ∧ a < src + n) ∨ dst ≤ a ∧ a < dst + n

/-- A rising copy moves the old source, unless the destination starts inside it. -/
theorem repMovs_up (size : Nat) (positive : 0 < size) (count src dst : Nat) (ram : Ram)
    (srcFits : src + count * size ≤ 4294967296) (dstFits : dst + count * size ≤ 4294967296)
    (order : dst ≤ src ∨ src + count * size ≤ dst) :
    (repMovs size false count src dst ram).byte =
        writeBlock ram.byte dst (readBlock ram.byte src (count * size)) ∧
      CopyAccess dst src (count * size) ram.touched (repMovs size false count src dst ram).touched := by
  induction count generalizing src dst ram with
  | zero => exact ⟨by simp [repMovs, readBlock], fun a earlier => .inl earlier⟩
  | succ count ih =>
      rw [Nat.succ_mul] at srcFits dstFits order ⊢
      -- One unit is copied first, and the rest of the source does not meet it.
      let first := readBlock ram.byte src size
      let moved := (ram.load src size).2.store dst first
      have step : repMovs size false (count + 1) src dst ram =
          repMovs size false count (address (src + size)) (address (dst + size)) moved := by
        simp [repMovs, moved, first]
      have access : CopyAccess dst src (count * size + size) ram.touched moved.touched := by
        intro a accessed
        obtain earlier | written := Ram.mem_store_touched accessed
        · obtain before | read := Ram.mem_load_touched earlier
          · exact .inl before
          · exact .inr (.inl (by omega))
        · rw [readBlock_length] at written
          exact .inr (.inr (by omega))
      have bytes : moved.byte = writeBlock ram.byte dst first := rfl
      rw [step]
      cases count with
      | zero =>
          refine ⟨?_, access⟩
          rw [Nat.zero_mul, Nat.zero_add]
          exact bytes
      | succ count =>
          rw [Nat.succ_mul] at srcFits dstFits order access ih ⊢
          have srcNext : address (src + size) = src + size := address_eq (by omega) (by omega)
          have dstNext : address (dst + size) = dst + size := address_eq (by omega) (by omega)
          rw [srcNext, dstNext]
          obtain ⟨memory, touched⟩ := ih (src + size) (dst + size) moved (by omega) (by omega) (by omega)
          have rest : readBlock moved.byte (src + size) (count * size + size) =
              readBlock ram.byte (src + size) (count * size + size) := by
            apply readBlock_congr
            intro a lower upper
            rw [bytes, writeBlock_outside]
            rw [readBlock_length]
            omega
          constructor
          · rw [memory, rest, bytes]
            have whole := writeBlock_append ram.byte dst first (readBlock ram.byte (src + size) (count * size + size))
            rw [readBlock_length] at whole
            rw [whole, ← readBlock_append, Nat.add_comm size]
          · intro a accessed
            obtain earlier | read | written := touched a accessed
            · exact access a earlier
            · exact .inr (.inl (by omega))
            · exact .inr (.inr (by omega))

section Rising

variable {dst src n : Nat} {ram : Ram}

/-- A move to an address that does not lie inside the source rises, and copies the old source. -/
theorem memmove_rising (rising : ¬ (src < dst ∧ address (src + n) > dst)) (order : dst ≤ src ∨ src + n ≤ dst)
    (dstFits : dst + n ≤ 4294967296) (srcFits : src + n ≤ 4294967296) :
    (memmove dst src n ram).1 = dst ∧
      (memmove dst src n ram).2.byte = writeBlock ram.byte dst (readBlock ram.byte src n) ∧
      CopyAccess dst src n ram.touched (memmove dst src n ram).2.touched := by
  simp only [memmove, if_neg rising]
  split
  · rename_i aligned
    have whole : n / 4 * 4 = n := by omega
    have copied := repMovs_up 4 (by decide) (n / 4) src dst ram (by omega) (by omega) (by omega)
    rw [whole] at copied
    exact ⟨rfl, copied⟩
  · have copied := repMovs_up 1 (by decide) n src dst ram (by omega) (by omega) (by omega)
    rw [Nat.mul_one] at copied
    exact ⟨rfl, copied⟩

end Rising

/-- A move to a lower address copies the old source, however the two overlap. -/
theorem memmove_up (dst src n : Nat) (ram : Ram) (order : dst ≤ src) (fits : src + n ≤ 4294967296) :
    (memmove dst src n ram).1 = dst ∧
      (memmove dst src n ram).2.byte = writeBlock ram.byte dst (readBlock ram.byte src n) ∧
      CopyAccess dst src n ram.touched (memmove dst src n ram).2.touched :=
  memmove_rising (by omega) (.inl order) (by omega) fits

/-- A falling copy moves the old source, unless the destination ends inside it. -/
theorem repMovs_down (size : Nat) (positive : 0 < size) (count src dst : Nat) (ram : Ram)
    (srcFits : src + count * size ≤ 4294967296) (dstFits : dst + count * size ≤ 4294967296)
    (order : src ≤ dst ∨ dst + count * size ≤ src) :
    (repMovs size true count (address ((src + count * size : Nat) - size))
        (address ((dst + count * size : Nat) - size)) ram).byte =
      writeBlock ram.byte dst (readBlock ram.byte src (count * size)) := by
  induction count generalizing ram with
  | zero => simp [repMovs, readBlock]
  | succ count ih =>
      rw [Nat.succ_mul] at srcFits dstFits order ⊢
      -- The last unit is copied first, and the rest of the source does not meet it.
      let last := readBlock ram.byte (src + count * size) size
      let moved := (ram.load (src + count * size) size).2.store (dst + count * size) last
      have srcLast : address ((src + (count * size + size) : Nat) - size) = src + count * size :=
        address_eq (by omega) (by omega)
      have dstLast : address ((dst + (count * size + size) : Nat) - size) = dst + count * size :=
        address_eq (by omega) (by omega)
      have step : repMovs size true (count + 1) (src + count * size) (dst + count * size) ram =
          repMovs size true count (address ((src + count * size : Nat) - size))
            (address ((dst + count * size : Nat) - size)) moved := by
        simp [repMovs, moved, last]
      have rest : readBlock moved.byte src (count * size) = readBlock ram.byte src (count * size) := by
        apply readBlock_congr
        intro a lower upper
        apply writeBlock_outside
        rw [readBlock_length]
        omega
      have whole := writeBlock_prepend ram.byte dst (readBlock ram.byte src (count * size)) last
      rw [readBlock_length] at whole
      rw [srcLast, dstLast, step, ih moved (by omega) (by omega) (by omega), rest, readBlock_append]
      exact whole

/-- A move to an address inside the source falls, and copies the old source. -/
theorem memmove_falling {dst src n : Nat} {ram : Ram} (falling : src < dst ∧ address (src + n) > dst)
    (dstFits : dst + n ≤ 4294967296) (srcFits : src + n ≤ 4294967296) :
    (memmove dst src n ram).2.byte = writeBlock ram.byte dst (readBlock ram.byte src n) := by
  simp only [memmove, if_pos falling, address_sub]
  split
  · rename_i aligned
    have whole : n / 4 * 4 = n := by omega
    have copied := repMovs_down 4 (by decide) (n / 4) src dst ram (by omega) (by omega) (by omega)
    rw [whole] at copied
    exact copied
  · have copied := repMovs_down 1 (by decide) n src dst ram (by omega) (by omega) (by omega)
    rw [Nat.mul_one] at copied
    exact copied

/-- The address of the `k`-th unit that a copy writes. -/
def unitAt (size : Nat) (down : Bool) (edi k : Nat) : Nat :=
  address (if down then (edi : Int) - k * size else edi + k * size)

theorem unitAt_succ (size : Nat) (down : Bool) (edi k : Nat) :
    unitAt size down (address (if down then (edi : Int) - size else edi + size)) k = unitAt size down edi (k + 1) := by
  have more : ((k + 1 : Nat) : Int) * size = k * size + size := by rw [Int.natCast_succ, Int.add_mul, Int.one_mul]
  unfold unitAt
  rw [more]
  generalize (k : Int) * size = skipped
  cases down <;>
  · simp only [Bool.false_eq_true, if_false, if_true]
    unfold address
    omega

/-- A copy leaves every byte alone that lies in none of its units, wherever it reads. -/
theorem repMovs_outside (size : Nat) (down : Bool) (count esi edi : Nat) (ram : Ram) {a : Nat}
    (start : edi < 4294967296)
    (apart : ∀ k < count, a < unitAt size down edi k ∨ unitAt size down edi k + size ≤ a) :
    (repMovs size down count esi edi ram).byte a = ram.byte a := by
  induction count generalizing esi edi ram with
  | zero => rfl
  | succ count ih =>
      have first : unitAt size down edi 0 = edi := by
        unfold unitAt address
        rw [Int.natCast_zero, Int.zero_mul]
        split <;> omega
      have here := apart 0 (Nat.zero_lt_succ count)
      rw [first] at here
      rw [repMovs, ih _ _ _ (address_lt _)]
      · apply writeBlock_outside
        rwa [Ram.load_fst, readBlock_length]
      · intro k before
        rw [unitAt_succ]
        exact apart (k + 1) (Nat.succ_lt_succ before)

/-- A move writes to its destination only, wherever it reads. -/
theorem memmove_outside (dst src n : Nat) (ram : Ram) {a : Nat} (start : dst < 4294967296)
    (fits : dst + n ≤ 4294967296) (outside : a < dst ∨ dst + n ≤ a) :
    (memmove dst src n ram).2.byte a = ram.byte a := by
  simp only [memmove, address_sub]
  split
  · split
    · apply repMovs_outside 4 true _ _ _ _ (address_lt _)
      intro k before
      simp only [unitAt, if_true, address]
      omega
    · apply repMovs_outside 1 true _ _ _ _ (address_lt _)
      intro k before
      simp only [unitAt, if_true, address]
      omega
  · split
    · apply repMovs_outside 4 false _ _ _ _ start
      intro k before
      simp only [unitAt, Bool.false_eq_true, if_false, address]
      omega
    · apply repMovs_outside 1 false _ _ _ _ start
      intro k before
      simp only [unitAt, Bool.false_eq_true, if_false, address]
      omega

/-- The two loops without string instructions copy single bytes in the same order. -/
theorem moveDown_eq (n s d : Nat) (ram : Ram) :
    moveDown n s d ram = repMovs 1 true n (address ((s : Int) - 1)) (address ((d : Int) - 1)) ram := by
  induction n generalizing s d ram with
  | zero => rfl
  | succ n ih =>
      rw [moveDown, repMovs]
      exact ih _ _ _

theorem moveUp_eq (n s d : Nat) (ram : Ram) : moveUp n s d ram = repMovs 1 false n s d ram := by
  induction n generalizing s d ram with
  | zero => rfl
  | succ n ih =>
      rw [moveUp, repMovs]
      exact ih _ _ _

/-- Both versions leave the old source at the destination. -/
theorem memmove_bytes (dst src n : Nat) (ram : Ram) (dstFits : dst + n ≤ 4294967296) (srcFits : src + n ≤ 4294967296) :
    (memmove dst src n ram).2.byte = writeBlock ram.byte dst (readBlock ram.byte src n) ∧
      (memmoveFallback dst src n ram).2.byte = writeBlock ram.byte dst (readBlock ram.byte src n) := by
  by_cases falling : src < dst ∧ address (src + n) > dst
  · have single := repMovs_down 1 (by decide) n src dst ram (by omega) (by omega) (by omega)
    rw [Nat.mul_one] at single
    refine ⟨memmove_falling falling dstFits srcFits, ?_⟩
    simp only [memmoveFallback, if_pos falling, moveDown_eq, address_sub]
    exact single
  · have order : dst ≤ src ∨ src + n ≤ dst := by
      by_cases lower : src < dst
      · have srcEnd : address (src + n) = src + n := address_eq rfl (by omega)
        omega
      · exact .inl (by omega)
    have single := repMovs_up 1 (by decide) n src dst ram (by omega) (by omega) (by omega)
    rw [Nat.mul_one] at single
    refine ⟨(memmove_rising falling order dstFits srcFits).2.1, ?_⟩
    simp only [memmoveFallback, if_neg falling, moveUp_eq]
    exact single.1

/-- The compiled `memmove` and the version without string instructions leave the same memory, in which the
destination holds the old source and nothing else has changed. -/
theorem memmove_moves (dst src n : Nat) (ram : Ram) (dstFits : dst + n ≤ 4294967296)
    (srcFits : src + n ≤ 4294967296) :
    (memmove dst src n ram).1 = dst ∧ (memmoveFallback dst src n ram).1 = dst ∧
      (memmove dst src n ram).2.byte = (memmoveFallback dst src n ram).2.byte ∧
      (∀ i < n, (memmove dst src n ram).2.byte (dst + i) = ram.byte (src + i)) ∧
      ∀ a, a < dst ∨ dst + n ≤ a → (memmove dst src n ram).2.byte a = ram.byte a := by
  obtain ⟨compiled, fallback⟩ := memmove_bytes dst src n ram dstFits srcFits
  refine ⟨?_, ?_, compiled.trans fallback.symm, fun i inside => ?_, fun a outside => ?_⟩
  · simp only [memmove]
    split <;> split <;> rfl
  · simp only [memmoveFallback]
    split <;> rfl
  · rw [compiled, writeBlock_readBlock _ _ _ _ inside]
  · rw [compiled, writeBlock_outside]
    rwa [readBlock_length]

/-- Eight bytes that move up by four end at the last address. -/
theorem memmove_moves_last :
    let ram : Ram := ⟨fun a => UInt8.ofNat a, []⟩
    (memmove 0xFFFFFFF8 0xFFFFFFF4 8 ram).1 = 0xFFFFFFF8 ∧
      (memmoveFallback 0xFFFFFFF8 0xFFFFFFF4 8 ram).1 = 0xFFFFFFF8 ∧
      (memmove 0xFFFFFFF8 0xFFFFFFF4 8 ram).2.byte = (memmoveFallback 0xFFFFFFF8 0xFFFFFFF4 8 ram).2.byte ∧
      (∀ i < 8, (memmove 0xFFFFFFF8 0xFFFFFFF4 8 ram).2.byte (0xFFFFFFF8 + i) = ram.byte (0xFFFFFFF4 + i)) ∧
      ∀ a, a < 0xFFFFFFF8 ∨ 0xFFFFFFF8 + 8 ≤ a → (memmove 0xFFFFFFF8 0xFFFFFFF4 8 ram).2.byte a = ram.byte a :=
  memmove_moves 0xFFFFFFF8 0xFFFFFFF4 8 ⟨fun a => UInt8.ofNat a, []⟩ (by decide) (by decide)

end JosSmp.Cstring
