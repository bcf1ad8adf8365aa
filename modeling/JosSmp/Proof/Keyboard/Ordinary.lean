import JosSmp.Proof.Console.InputRun
import JosSmp.Proof.Keyboard.Modifiers

/-!
This file proves that the keys that are no modifiers and no locks leave the keyboard decoder as it was.
-/

namespace JosSmp.Keyboard
open Library Machine Console

section Step

variable {shift : BitVec 32}

/-- The tables use the seven lower bits. -/
theorem bits_small (b : UInt8) : (bits shiftcode b).toNat < 2 ^ 7 ∧ (bits togglecode b).toNat < 2 ^ 7 := by
  simp only [bits, shiftcode, togglecode, entry_initializer]
  revert b
  apply forall_byte
  decide +kernel

theorem pressed_small (key : UInt8) (small : shift.toNat < 2 ^ 7) : (pressed key shift).toNat < 2 ^ 7 := by
  obtain ⟨shiftSmall, toggleSmall⟩ := bits_small key
  rw [pressed, BitVec.toNat_xor, BitVec.toNat_or]
  exact Nat.xor_lt_two_pow (Nat.or_lt_two_pow small shiftSmall) toggleSmall

/-- A mask keeps the bits within the seven lower ones. -/
theorem masked_small (mask : BitVec 32) (small : shift.toNat < 2 ^ 7) : (shift &&& mask).toNat < 2 ^ 7 := by
  rw [BitVec.toNat_and]
  exact Nat.lt_of_le_of_lt Nat.and_le_left small

/-- A byte keeps `shift` within its seven bits. -/
theorem next_small (data : UInt8) (small : shift.toNat < 2 ^ 7) : (next shift data).toNat < 2 ^ 7 := by
  unfold next
  split
  · rw [BitVec.toNat_or]
    exact Nat.or_lt_two_pow small (by decide)
  split
  · exact masked_small _ small
  · apply pressed_small
    split
    · exact masked_small _ small
    · exact small

/-- The escape bit is set behind the escape byte, and behind no other byte. -/
theorem next_escape (shift : BitVec 32) (data : UInt8) : next shift data &&& e0esc ≠ 0 ↔ data = 0xE0 := by
  unfold next
  split
  · rename_i escape
    exact iff_of_true (escape_set shift) escape
  · rename_i other
    refine iff_of_false ?_ other
    rw [test_escape]
    split
    · rw [BitVec.getLsbD_and, BitVec.getLsbD_not, BitVec.getLsbD_or, escape_place]
      simp
    · obtain ⟨noShift, noToggle⟩ := bits_escape (pressIndex data shift)
      have none : (if shift &&& e0esc ≠ 0 then shift &&& ~~~e0esc else shift).getLsbD 6 = false := by
        split
        · rw [BitVec.getLsbD_and, BitVec.getLsbD_not, escape_place]
          simp
        · rename_i clear
          exact Bool.eq_false_of_not_eq_true (mt test_escape.mpr clear)
      rw [pressed, BitVec.getLsbD_xor, BitVec.getLsbD_or, none, noShift, noToggle]
      exact Bool.false_ne_true

theorem history_small (history : List UInt8) (small : shift.toNat < 2 ^ 7) :
    (history.foldl next shift).toNat < 2 ^ 7 := by
  induction history generalizing shift with
  | nil => exact small
  | cons data rest ih => exact ih (next_small data small)

/-- The last byte decides the escape bit. -/
theorem history_escape (history : List UInt8) :
    history.foldl next 0 &&& e0esc ≠ 0 ↔ history.getLast? = some 0xE0 := by
  obtain rfl | ⟨before, last, rfl⟩ := List.eq_nil_or_concat history
  · exact iff_of_false (by decide) (by decide)
  · rw [List.concat_eq_append, List.foldl_append, List.foldl_cons, List.foldl_nil, next_escape, List.getLast?_concat,
      Option.some_inj]

/-- A completed character is a byte. -/
theorem decoded_byte (shift : BitVec 32) (data : UInt8) : ∃ b : UInt8, decoded shift data = b.toNat := by
  have byte (c : Int) (lower : 0 ≤ c) (upper : c < 256) : ∃ b : UInt8, c = b.toNat := by
    refine ⟨UInt8.ofNat c.toNat, ?_⟩
    rw [UInt8.toNat_ofNat']
    omega
  have capital (shift : BitVec 32) (b : UInt8) : 0 ≤ capitalized shift b.toNat ∧ capitalized shift b.toNat < 256 := by
    have small := b.toNat_lt
    unfold capitalized
    simp only [show 'a'.toNat = 97 by decide, show 'z'.toNat = 122 by decide, show 'A'.toNat = 65 by decide,
      show 'Z'.toNat = 90 by decide]
    split
    · split
      · omega
      split <;> omega
    · omega
  unfold decoded
  split
  · exact ⟨0, rfl⟩
  split
  · exact ⟨0, rfl⟩
  · exact byte _ (capital _ _).1 (capital _ _).2

theorem results_bytes (history : List UInt8) (shift : BitVec 32) : ∃ bytes, results history shift = chars bytes := by
  induction history generalizing shift with
  | nil => exact ⟨[], rfl⟩
  | cons data rest ih =>
      obtain ⟨b, first⟩ := decoded_byte shift data
      obtain ⟨bytes, later⟩ := ih (next shift data)
      refine ⟨b :: bytes, ?_⟩
      rw [results, first, later, chars_cons]

theorem results_append (first second : List UInt8) (shift : BitVec 32) :
    results (first ++ second) shift = results first shift ++ results second (first.foldl next shift) := by
  induction first generalizing shift with
  | nil => rfl
  | cons data rest ih => exact congrArg (List.cons _) (ih _)

/-- `cons_intr` takes every byte up to the end of data, and stores the nonzero ones. -/
theorem consIntr_bytes (cons : Cons) (bytes : List UInt8) :
    consIntr cons (chars bytes ++ [-1]) = (bytes.filter (· ≠ 0)).foldl (fun cons b => cons.store b.toNat) cons := by
  induction bytes generalizing cons with
  | nil => rfl
  | cons b rest ih =>
      have data : ((b.toNat : Nat) : Int) ≠ -1 := by omega
      have zero : ((b.toNat : Nat) : Int) = 0 ↔ b = 0 := by
        rw [← UInt8.toNat_inj]
        exact Int.natCast_eq_zero
      rw [chars_cons, List.cons_append, consIntr, if_neg data]
      simp only [zero]
      by_cases none : b = 0
      · rw [if_pos none, ih, List.filter_cons_of_neg (by simpa using none)]
      · rw [if_neg none, ih, List.filter_cons_of_pos (by simpa using none), List.foldl_cons]

end Step

/-- A key goes down any number of times, and up again. -/
def stroke (k : Key) (count : Nat) : List Event := List.replicate count ⟨k, true⟩ ++ [⟨k, false⟩]

/-- The events of a key without entries leave `shift` alone. -/
theorem ordinary_next {shift : BitVec 32} {k : Key} (clear : shift &&& e0esc = 0) (noShift : bits shiftcode k.index = 0)
    (noToggle : bits togglecode k.index = 0) (down : Bool) : (Event.bytes ⟨k, down⟩).foldl next shift = shift := by
  cases down with
  | true =>
      rw [press_next k clear, pressed, noShift, noToggle]
      exact BitVec.xor_zero.trans BitVec.or_zero
  | false =>
      have mask : (0 : BitVec 32) ||| e0esc = e0esc := BitVec.zero_or
      rw [release_next k clear, noShift, mask, escape_clear clear]

theorem stroke_next {shift : BitVec 32} {k : Key} (clear : shift &&& e0esc = 0) (noShift : bits shiftcode k.index = 0)
    (noToggle : bits togglecode k.index = 0) (count : Nat) :
    ((stroke k count).flatMap Event.bytes).foldl next shift = shift := by
  have still := ordinary_next clear noShift noToggle
  rw [List.foldl_flatMap, stroke, List.foldl_append, List.foldl_cons, List.foldl_nil]
  have repeated : (List.replicate count (⟨k, true⟩ : Event)).foldl (fun shift e => e.bytes.foldl next shift) shift =
      shift := by
    induction count with
    | zero => rfl
    | succ count ih => rw [List.replicate_succ, List.foldl_cons, still, ih]
  rw [repeated, still]

/-- An entry that the code reads as zero has no bits. -/
theorem bits_none {table : List UInt8} {b : UInt8} (none : table[b.toNat]? = some 0) : bits table b = 0 := by
  rw [bits, entry, List.getD_eq_getElem?_getD, none]
  rfl

/-- Behind every history all lookups succeed, `shift` has seven bits, the escape bit tells the last byte, and each
result is a byte. A key without entries leaves `shift` and all characters that are decoded later as they are. -/
theorem kbdFeed_ordinary (history : List UInt8) (o : Output) (cons : Cons) :
    ∃ out s, kbdFeed history ⟨0, o⟩ = some (out, s) ∧ s.shift.toNat < 2 ^ 7 ∧
      (s.shift &&& e0esc ≠ 0 ↔ history.getLast? = some 0xE0) ∧
      (∃ bytes : List UInt8, out = chars bytes ∧
        kbdIntr cons (out ++ [-1]) = (bytes.filter (· ≠ 0)).foldl (fun cons b => cons.store b.toNat) cons) ∧
      ∀ (k : Key) (count : Nat), history.getLast? ≠ some 0xE0 → shiftcode[k.index.toNat]? = some 0 →
        togglecode[k.index.toNat]? = some 0 →
        ∃ typed s', kbdFeed (history ++ (stroke k count).flatMap Event.bytes) ⟨0, o⟩ = some (out ++ typed, s') ∧
          s'.shift = s.shift ∧
          ∀ later, ∃ rest s₁ s₂, kbdFeed (history ++ later) ⟨0, o⟩ = some (out ++ rest, s₁) ∧
            kbdFeed (history ++ (stroke k count).flatMap Event.bytes ++ later) ⟨0, o⟩ =
              some (out ++ typed ++ rest, s₂) := by
  have feed (bytes : List UInt8) := kbdFeed_decodes bytes ⟨0, o⟩
  obtain ⟨console, fed⟩ := feed history
  obtain ⟨bytes, read⟩ := results_bytes history 0
  refine ⟨_, _, fed, history_small history (Nat.two_pow_pos 7), history_escape history, ⟨bytes, read, ?_⟩, ?_⟩
  · rw [kbdIntr, read]
    exact consIntr_bytes cons bytes
  · intro k count ended noShift noToggle
    have clear : history.foldl next 0 &&& e0esc = 0 := not_not.mp (mt (history_escape history).mp ended)
    have still := stroke_next clear (bits_none noShift) (bits_none noToggle) count
    obtain ⟨_, stroked⟩ := feed (history ++ (stroke k count).flatMap Event.bytes)
    rw [results_append, List.foldl_append, still] at stroked
    refine ⟨_, _, stroked, rfl, fun later => ?_⟩
    obtain ⟨_, without⟩ := feed (history ++ later)
    obtain ⟨_, inserted⟩ := feed (history ++ (stroke k count).flatMap Event.bytes ++ later)
    rw [results_append] at without
    rw [results_append, results_append, List.foldl_append, still] at inserted
    exact ⟨_, _, _, without, inserted⟩

end JosSmp.Keyboard
