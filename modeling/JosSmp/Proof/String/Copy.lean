import JosSmp.Construction.Lib.Copy

/-!
This file proves what the bounded string copies read and store.
-/

namespace JosSmp.Cstring
open Library Machine

/-- A string with its final zero lies in the memory. -/
structure StringAt (memory : Memory) (src : Nat) (text : List UInt8) : Prop where
  held : BlockAt memory src (text ++ [0])
  noEnd : 0 ∉ text
  fits : src + text.length < 4294967296

namespace StringAt

variable {memory : Memory} {src : Nat} {b : UInt8} {text : List UInt8}

theorem first_nil (string : StringAt memory src []) : memory src = 0 := (blockAt_cons.mp string.held).1

theorem first_cons (string : StringAt memory src (b :: text)) : memory src = b := (blockAt_cons.mp string.held).1

theorem nonzero (string : StringAt memory src (b :: text)) : b ≠ 0 := fun zero =>
  string.noEnd (by rw [zero]; exact List.mem_cons_self)

theorem rest (string : StringAt memory src (b :: text)) : StringAt memory (src + 1) text where
  held := (blockAt_cons.mp string.held).2
  noEnd later := string.noEnd (List.mem_cons_of_mem _ later)
  fits := by
    have fits := string.fits
    rw [List.length_cons] at fits
    omega

theorem next (string : StringAt memory src (b :: text)) : address (src + 1) = src + 1 := by
  have fits := string.fits
  rw [List.length_cons] at fits
  exact address_eq rfl (by omega)

/-- A store outside of a string keeps it. -/
theorem store (string : StringAt memory src text) {dst : Nat} (apart : dst < src ∨ src + text.length < dst)
    (c : UInt8) : StringAt (writeBlock memory dst [c]) src text where
  held := string.held.congr fun a lower upper => by
    rw [List.length_append, List.length_singleton] at upper
    exact writeBlock_outside _ (by rw [List.length_singleton]; omega)
  noEnd := string.noEnd
  fits := string.fits

end StringAt

/-- A copy has stored a block from `dst` on, byte by byte, and has loaded from some addresses only. -/
structure Stored (dst : Nat) (block : List UInt8) (reads : Nat → Prop) (before after : Traced) : Prop where
  byte : after.byte = writeBlock before.byte dst block
  stores : after.stores = (List.range' dst block.length).reverse ++ before.stores
  loads : ∀ a ∈ after.loads, a ∈ before.loads ∨ reads a

namespace Stored

variable {dst : Nat} {block : List UInt8} {reads : Nat → Prop} {before after : Traced}

theorem refl (dst : Nat) (reads : Nat → Prop) (s : Traced) : Stored dst [] reads s s :=
  ⟨(writeBlock_nil _ _).symm, rfl, fun _ earlier => .inl earlier⟩

theorem mono {reads' : Nat → Prop} (stored : Stored dst block reads before after) (weaker : ∀ a, reads a → reads' a) :
    Stored dst block reads' before after :=
  ⟨stored.byte, stored.stores, fun a loaded => (stored.loads a loaded).imp_right (weaker a)⟩

/-- A load comes first. -/
theorem load (a : Nat) (stored : Stored dst block reads (before.load a).2 after) (read : reads a) :
    Stored dst block reads before after where
  byte := stored.byte
  stores := stored.stores
  loads c loaded := by
    obtain earlier | later := stored.loads c loaded
    · obtain rfl | before := List.mem_cons.mp earlier
      · exact .inr read
      · exact .inl before
    · exact .inr later

/-- A store comes first. -/
theorem store {b : UInt8} (stored : Stored (dst + 1) block reads (before.store dst b) after) :
    Stored dst (b :: block) reads before after where
  byte := stored.byte.trans (writeBlock_append before.byte dst [b] block)
  stores := by
    rw [stored.stores, List.length_cons, List.range'_succ, List.reverse_cons, List.append_assoc]
    rfl
  loads := stored.loads

/-- A store comes last. -/
theorem store_last (stored : Stored dst block reads before after) (b : UInt8) :
    Stored dst (block ++ [b]) reads before (after.store (dst + block.length) b) where
  byte := by
    rw [← writeBlock_append, ← stored.byte]
    rfl
  stores := by
    rw [List.length_append, List.length_singleton, List.range'_concat, List.reverse_append, Nat.one_mul,
      List.append_assoc, ← stored.stores]
    rfl
  loads := stored.loads

end Stored

section Loops

variable {dst src size left : Nat} {text : List UInt8} {s : Traced}

/-- The address behind the last byte is not used. -/
theorem strncpyLoop_onward (room : dst + (left + 1) ≤ 4294967296) (src : Nat) (s : Traced) :
    strncpyLoop left (address (dst + 1)) src s = strncpyLoop left (dst + 1) src s := by
  cases left with
  | zero => rfl
  | succ left =>
      have onward : address ((dst : Int) + 1) = dst + 1 := address_eq rfl (by omega)
      rw [onward]

/-- `strncpy` stores the characters up to the size, and fills the rest with zeros. -/
theorem strncpyLoop_stored (string : StringAt s.byte src text) (room : dst + left ≤ 4294967296)
    (apart : ∀ a, dst ≤ a → a < dst + left → a < src ∨ src + text.length < a) :
    Stored dst (text.take left ++ List.replicate (left - text.length) 0) (fun a => src ≤ a ∧ a ≤ src + text.length) s
      (strncpyLoop left dst src s) := by
  induction left generalizing dst src text s with
  | zero =>
      rw [List.take_zero, Nat.zero_sub]
      exact .refl dst _ s
  | succ left ih =>
      have kept := string.store (apart dst (Nat.le_refl _) (by omega)) (s.byte src)
      have step : strncpyLoop (left + 1) dst src s = strncpyLoop left (address (dst + 1))
          (if writeBlock s.byte dst [s.byte src] src ≠ 0 then address (src + 1) else src)
          (((s.load src).2.store dst (s.byte src)).load src).2 := rfl
      rw [step, strncpyLoop_onward room]
      cases text with
      | nil =>
          rw [kept.first_nil, if_neg (not_not.mpr rfl), string.first_nil, List.take_nil, List.nil_append,
            List.length_nil, Nat.sub_zero, List.replicate_succ]
          rw [string.first_nil] at kept
          have filled := ih (s := (((s.load src).2.store dst 0).load src).2) kept
            (show dst + 1 + left ≤ 4294967296 by omega) fun a lower upper => apart a (by omega) (by omega)
          rw [List.take_nil, List.nil_append, List.length_nil, Nat.sub_zero] at filled
          exact .load src (.store (.load src filled (by simp))) (by simp)
      | cons b text =>
          rw [kept.first_cons, if_pos string.nonzero, string.first_cons, string.next, List.take_succ_cons,
            List.length_cons, Nat.add_sub_add_right, List.cons_append]
          rw [string.first_cons] at kept
          rw [List.length_cons] at apart
          have copied := ih (s := (((s.load src).2.store dst b).load src).2) kept.rest
            (show dst + 1 + left ≤ 4294967296 by omega) fun a lower upper => by
              have := apart a (by omega) (by omega)
              omega
          exact .load src (.store (.load src (copied.mono fun a read => by omega) (by omega))) (by omega)

/-- `strlcpy` stores the characters in front of its last byte. -/
theorem strlcpyLoop_stored (string : StringAt s.byte src text) (room : dst + size < 4294967296)
    (apart : ∀ a, dst ≤ a → a < dst + size → a < src ∨ src + text.length < a) :
    (strlcpyLoop size dst src s).1 = dst + (text.take size).length ∧
      Stored dst (text.take size) (fun a => src ≤ a ∧ a ≤ src + text.length ∧ a < src + size) s
        (strlcpyLoop size dst src s).2 := by
  induction size generalizing dst src text s with
  | zero => exact ⟨rfl, .refl dst _ s⟩
  | succ size ih =>
      cases text with
      | nil =>
          have stop : strlcpyLoop (size + 1) dst src s = (dst, (s.load src).2) :=
            if_neg fun more => more string.first_nil
          rw [stop, List.take_nil]
          exact ⟨rfl, .load src (.refl dst _ _) (by simp)⟩
      | cons b text =>
          have onward : address ((dst : Int) + 1) = dst + 1 := address_eq rfl (by omega)
          have step : strlcpyLoop (size + 1) dst src s =
              strlcpyLoop size (dst + 1) (src + 1) (((s.load src).2.load src).2.store dst b) := by
            refine (if_pos (fun zero => string.nonzero (string.first_cons.symm.trans zero))).trans ?_
            rw [onward, string.next, ← string.first_cons]
            rfl
          rw [List.length_cons] at apart ⊢
          have kept := string.store (apart dst (Nat.le_refl _) (by omega)) b
          obtain ⟨ends, copied⟩ := ih (s := ((s.load src).2.load src).2.store dst b) kept.rest
            (show dst + 1 + size < 4294967296 by omega) fun a lower upper => by
              have := apart a (by omega) (by omega)
              omega
          rw [step, List.take_succ_cons, ends, List.length_cons]
          exact ⟨by omega, .load src (.load src (.store (copied.mono fun a read => by omega)) (by omega)) (by omega)⟩

/-- `strlcpy` stores nothing if the size is zero, and otherwise the characters that fit and a final zero. -/
theorem strlcpy_stored (string : StringAt s.byte src text) (room : dst + size ≤ 4294967296)
    (apart : ∀ a, dst ≤ a → a < dst + size → a < src ∨ src + text.length < a) :
    (strlcpy dst src size s).1 = (text.take (size - 1)).length ∧
      Stored dst (if size = 0 then [] else text.take (size - 1) ++ [0])
        (fun a => src ≤ a ∧ a ≤ src + text.length ∧ a < src + (size - 1)) s (strlcpy dst src size s).2 := by
  by_cases empty : size = 0
  · subst empty
    have none : strlcpy dst src 0 s = (0, s) := by
      rw [strlcpy, if_neg (by decide), Int.sub_self]
      rfl
    rw [none]
    exact ⟨rfl, .refl dst _ s⟩
  · obtain ⟨ends, copied⟩ := strlcpyLoop_stored string (show dst + (size - 1) < 4294967296 by omega)
      fun a lower upper => apart a lower (by omega)
    have shorter := List.length_take_le (size - 1) text
    rw [strlcpy, if_pos (by omega), if_neg empty]
    dsimp only
    rw [ends]
    exact ⟨address_eq (by omega) (by omega), copied.store_last 0⟩

end Loops

/-- A block that was written is found again, as is each part at its start. -/
theorem blockAt_written (memory : Memory) (dst : Nat) (first second : List UInt8) :
    BlockAt (writeBlock memory dst (first ++ second)) dst first :=
  (blockAt_append.mp (readBlock_writeBlock memory dst (first ++ second))).1

/-- The bounded copies keep to their bounds. `strlcpy` reads fewer source bytes than the size and stores what fits and a
final zero; `strncpy` reads up to the final zero and stores exactly as many bytes as the size says; both leave the whole
string where it is shorter than the size. -/
theorem copies_bounded (memory : Memory) (dst src size : Nat) (text : List UInt8) (string : StringAt memory src text)
    (room : dst + size ≤ 4294967296)
    (apart : ∀ a, dst ≤ a → a < dst + size → a < src ∨ src + text.length < a) :
    let start : Traced := ⟨memory, [], []⟩
    let bounded := strlcpy dst src size start
    let padded := strncpy dst src size start
    ((∀ a ∈ bounded.2.loads, src ≤ a ∧ a ≤ src + text.length ∧ a < src + (size - 1)) ∧
      (size = 0 → bounded.2.byte = memory ∧ bounded.2.stores = []) ∧
      (0 < size → bounded.2.byte = writeBlock memory dst (text.take (size - 1) ++ [0]) ∧
        bounded.2.stores = (List.range' dst (min text.length (size - 1) + 1)).reverse) ∧
      bounded.1 = min text.length (size - 1)) ∧
    ((∀ a ∈ padded.2.loads, src ≤ a ∧ a ≤ src + text.length) ∧
      padded.2.byte = writeBlock memory dst (text.take size ++ List.replicate (size - text.length) 0) ∧
      padded.2.stores = (List.range' dst size).reverse ∧ padded.1 = dst) ∧
    (text.length < size → BlockAt bounded.2.byte dst (text ++ [0]) ∧ BlockAt padded.2.byte dst (text ++ [0])) := by
  intro start bounded padded
  obtain ⟨returned, copied⟩ := strlcpy_stored (s := start) string room apart
  have filled := strncpyLoop_stored (s := start) string room apart
  have count : (text.take (size - 1)).length = min text.length (size - 1) := by rw [List.length_take, Nat.min_comm]
  have whole : (text.take size ++ List.replicate (size - text.length) 0).length = size := by
    rw [List.length_append, List.length_take, List.length_replicate]
    omega
  refine ⟨⟨?_, ?_, ?_, returned.trans count⟩, ⟨?_, filled.byte, ?_, rfl⟩, ?_⟩
  · exact fun a loaded => (copied.loads a loaded).resolve_left List.not_mem_nil
  · intro empty
    rw [if_pos empty] at copied
    exact ⟨copied.byte.trans (writeBlock_nil _ _), copied.stores⟩
  · intro positive
    rw [if_neg (by omega)] at copied
    refine ⟨copied.byte, copied.stores.trans ?_⟩
    rw [List.length_append, count, List.length_singleton, List.append_nil]
  · exact fun a loaded => (filled.loads a loaded).resolve_left List.not_mem_nil
  · exact filled.stores.trans ((List.append_nil _).trans (by rw [whole]))
  · intro short
    rw [if_neg (by omega), List.take_of_length_le (by omega)] at copied
    have pad : size - text.length = (size - text.length - 1) + 1 := by omega
    have block : text.take size ++ List.replicate (size - text.length) 0 =
        (text ++ [0]) ++ List.replicate (size - text.length - 1) 0 := by
      rw [List.take_of_length_le (by omega), pad, List.replicate_succ, List.append_assoc]
      rfl
    have first := blockAt_written memory dst (text ++ [0]) []
    rw [List.append_nil, ← copied.byte] at first
    have second := blockAt_written memory dst (text ++ [0]) (List.replicate (size - text.length - 1) 0)
    rw [← block, ← filled.byte] at second
    exact ⟨first, second⟩

/-- A string of two characters in a buffer of four bytes. -/
theorem copies_bounded_four :
    let memory : Memory := fun a => if a = 8 then 97 else if a = 9 then 98 else if a = 10 then 0 else 170
    let start : Traced := ⟨memory, [], []⟩
    let bounded := strlcpy 4 8 4 start
    let padded := strncpy 4 8 4 start
    ((∀ a ∈ bounded.2.loads, 8 ≤ a ∧ a ≤ 8 + 2 ∧ a < 8 + (4 - 1)) ∧
      (4 = 0 → bounded.2.byte = memory ∧ bounded.2.stores = []) ∧
      (0 < 4 → bounded.2.byte = writeBlock memory 4 [97, 98, 0] ∧
        bounded.2.stores = (List.range' 4 (min 2 (4 - 1) + 1)).reverse) ∧
      bounded.1 = min 2 (4 - 1)) ∧
    ((∀ a ∈ padded.2.loads, 8 ≤ a ∧ a ≤ 8 + 2) ∧ padded.2.byte = writeBlock memory 4 [97, 98, 0, 0] ∧
      padded.2.stores = (List.range' 4 4).reverse ∧ padded.1 = 4) ∧
    (2 < 4 → BlockAt bounded.2.byte 4 [97, 98, 0] ∧ BlockAt padded.2.byte 4 [97, 98, 0]) :=
  copies_bounded (fun a => if a = 8 then 97 else if a = 9 then 98 else if a = 10 then 0 else 170) 4 8 4 [97, 98]
    ⟨rfl, by decide, by decide⟩ (by decide) fun a lower upper => .inl (by omega)

end JosSmp.Cstring
