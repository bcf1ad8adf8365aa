import JosSmp.Construction.Lib.Memset

/-!
This file proves what `memset` leaves in memory.
-/

namespace JosSmp.Cstring
open Library Machine

/-- The low byte of `c` is repeated in all four bytes of the word that is stored. -/
theorem eaxBytes_fill (c : UInt32) :
    let low := c &&& 0xFF
    eaxBytes ((low <<< 24) ||| (low <<< 16) ||| (low <<< 8) ||| low) = List.replicate 4 c.toUInt8 := by
  have masked : c &&& 0xFF = c.toUInt8.toUInt32 := by
    apply UInt32.toNat_inj.mp
    rw [toNat_mask c 8 rfl, UInt8.toNat_toUInt32, UInt32.toNat_toUInt8]
  dsimp only
  rw [masked]
  generalize c.toUInt8 = b
  revert b
  apply forall_byte
  decide +kernel

theorem eaxBytes_first (c : UInt32) : (eaxBytes c).take 1 = List.replicate 1 c.toUInt8 := rfl

/-- A fill with equal bytes writes a block of them. -/
theorem repStos_fill {size : Nat} {eax : UInt32} {b : UInt8} (positive : 0 < size)
    (fill : (eaxBytes eax).take size = List.replicate size b) (count edi : Nat) (ram : Ram)
    (fits : edi + count * size ≤ 4294967296) :
    (repStos size eax count edi ram).byte = writeBlock ram.byte edi (List.replicate (count * size) b) := by
  induction count generalizing edi ram with
  | zero => simp [repStos]
  | succ count ih =>
      rw [Nat.succ_mul] at fits ⊢
      have unit := writeBlock_append ram.byte edi (List.replicate size b) (List.replicate (count * size) b)
      rw [List.length_replicate, List.replicate_append_replicate, Nat.add_comm size] at unit
      rw [repStos, fill, ← unit]
      cases count with
      | zero => simp [repStos]
      | succ count =>
          -- The address wraps at most behind the last unit.
          have onward : address (edi + size) = edi + size := address_eq (by omega) (by rw [Nat.succ_mul] at fits; omega)
          rw [onward]
          exact ih (edi + size) (ram.store edi (List.replicate size b)) (by omega)

/-- The compiled `memset` fills its destination. -/
theorem memset_bytes (v : Nat) (c : UInt32) (n : Nat) (ram : Ram) (fits : v + n ≤ 4294967296) :
    (memset v c n ram).2.byte = writeBlock ram.byte v (List.replicate n c.toUInt8) := by
  rw [memset]
  split
  · rename_i zero
    rw [zero, List.replicate_zero, writeBlock_nil]
  · split
    · rename_i aligned
      have whole : n / 4 * 4 = n := by omega
      have filled := repStos_fill (by decide) ((List.take_of_length_le (by simp [eaxBytes])).trans (eaxBytes_fill c))
        (n / 4) v ram (by omega)
      rw [whole] at filled
      exact filled
    · have filled := repStos_fill (by decide) (eaxBytes_first c) n v ram (by omega)
      rw [Nat.mul_one] at filled
      exact filled

theorem repStos_single (c : UInt32) (count edi : Nat) (ram : Ram) :
    repStos 1 c (count + 1) edi ram = repStos 1 c count (address (edi + 1)) (ram.store edi [c.toUInt8]) := rfl

/-- The loop without string instructions stores single bytes as often as its counter says. -/
theorem memsetLoop_eq (c : UInt32) (m p : Nat) (ram : Ram) : memsetLoop c.toUInt8 m p ram = repStos 1 c m p ram := by
  induction m generalizing p ram with
  | zero =>
      rw [memsetLoop, if_neg (by decide)]
      rfl
  | succ m ih =>
      have less : ((m + 1 : Nat) : Int) - 1 = m := by omega
      rw [memsetLoop, less, if_pos (Int.natCast_nonneg m), ih, repStos_single]

/-- A counter that is not positive ends the loop at once. -/
theorem memsetLoop_done (c : UInt8) (p : Nat) (ram : Ram) {m : Int} (done : m ≤ 0) : memsetLoop c m p ram = ram := by
  rw [memsetLoop, if_neg (by omega)]

/-- The version without string instructions fills its destination if the size is below `2 ^ 31`, and stores nothing
otherwise. -/
theorem memsetFallback_bytes (v : Nat) (c : UInt32) (n : Nat) (ram : Ram) (fits : v + n ≤ 4294967296) :
    (memsetFallback v c n ram).2.byte =
      if n < 2147483648 then writeBlock ram.byte v (List.replicate n c.toUInt8) else ram.byte := by
  simp only [memsetFallback]
  split
  · rename_i small
    have filled := repStos_fill (by decide) (eaxBytes_first c) n v ram (by omega)
    rw [Nat.mul_one] at filled
    rw [wrap32_eq (by omega) (by omega), memsetLoop_eq, filled]
  · have negative : wrap32 n ≤ 0 := by
      unfold wrap32
      omega
    rw [memsetLoop_done _ _ _ negative]

/-- The compiled `memset` and the version without string instructions leave the same memory, filled with the low byte of
`c`, exactly for the sizes below `2 ^ 31`, and where the destination held that byte before. -/
theorem memset_agrees_iff (v : Nat) (c : UInt32) (n : Nat) (ram : Ram) (fits : v + n ≤ 4294967296) :
    (memset v c n ram).2.byte = (memsetFallback v c n ram).2.byte ∧
        (∀ i < n, (memset v c n ram).2.byte (v + i) = c.toUInt8) ∧
        (∀ a, a < v ∨ v + n ≤ a → (memset v c n ram).2.byte a = ram.byte a) ↔
      n < 2147483648 ∨ ∀ i < n, ram.byte (v + i) = c.toUInt8 := by
  have inside (i : Nat) (below : i < n) : writeBlock ram.byte v (List.replicate n c.toUInt8) (v + i) = c.toUInt8 := by
    rw [writeBlock_inside _ _ (by rwa [List.length_replicate]), List.getElem_replicate]
  have outside (a : Nat) (apart : a < v ∨ v + n ≤ a) :
      writeBlock ram.byte v (List.replicate n c.toUInt8) a = ram.byte a :=
    writeBlock_outside _ (by rwa [List.length_replicate])
  rw [memset_bytes v c n ram fits, memsetFallback_bytes v c n ram fits]
  constructor
  · rintro ⟨same, _⟩
    by_cases small : n < 2147483648
    · exact .inl small
    · rw [if_neg small] at same
      exact .inr fun i below => (congrFun same _).symm.trans (inside i below)
  · intro meets
    refine ⟨?_, inside, outside⟩
    split
    · rfl
    · rename_i large
      have held := meets.resolve_left large
      funext a
      by_cases apart : a < v ∨ v + n ≤ a
      · exact outside a apart
      · obtain ⟨i, rfl⟩ := Nat.exists_eq_add_of_le (show v ≤ a by omega)
        rw [inside i (by omega), held i (by omega)]

/-- The largest size that the `int` counter takes. -/
theorem memset_agrees_largest :
    let ram : Ram := ⟨fun _ => 1, []⟩
    (memset 0 0x1FF 0x7FFFFFFF ram).2.byte = (memsetFallback 0 0x1FF 0x7FFFFFFF ram).2.byte ∧
        (∀ i < 0x7FFFFFFF, (memset 0 0x1FF 0x7FFFFFFF ram).2.byte (0 + i) = 0xFF) ∧
        (∀ a, a < 0 ∨ 0 + 0x7FFFFFFF ≤ a → (memset 0 0x1FF 0x7FFFFFFF ram).2.byte a = ram.byte a) ↔
      0x7FFFFFFF < 2147483648 ∨ ∀ i < 0x7FFFFFFF, ram.byte (0 + i) = 0xFF :=
  memset_agrees_iff 0 0x1FF 0x7FFFFFFF ⟨fun _ => 1, []⟩ (by decide)

/-- A size above the values of an `int` is negative as a counter. -/
theorem memset_agrees_fails :
    ¬ ∀ (v : Nat) (c : UInt32) (n : Nat) (ram : Ram), v + n ≤ 4294967296 →
      (memset v c n ram).2.byte = (memsetFallback v c n ram).2.byte := by
  intro claim
  have same := claim 0 0 0x80000001 ⟨fun _ => 1, []⟩ (by decide)
  rw [memset_bytes _ _ _ _ (by decide), memsetFallback_bytes _ _ _ _ (by decide), if_neg (by decide)] at same
  have first := congrFun same (0 + 0)
  rw [writeBlock_inside _ _ (by rw [List.length_replicate]; decide), List.getElem_replicate] at first
  exact absurd first (by decide)

end JosSmp.Cstring
