import JosSmp.Library.Numeral
import JosSmp.Construction.Lib.Printfmt

/-!
This file proves that `strtol` reads the numerals that `printnum` prints.
-/

namespace JosSmp.Cstring
open Library Machine Printfmt

/-- A digit as `printnum` stores it in a string. -/
def digitByte (k : Nat) : UInt8 := UInt8.ofInt (digitChar k)

theorem digit_digitByte : ∀ k < 16, digit (digitByte k) = some (k : Int) := by decide

theorem digitByte_zero : ∀ k < 16, digitByte k = ascii '0' → k = 0 := by decide

/-- No digit is taken for a space or a sign. -/
theorem digitByte_plain : ∀ k < 16, digitByte k ≠ ascii ' ' ∧ digitByte k ≠ ascii '\t' ∧ digitByte k ≠ ascii '+' ∧
    digitByte k ≠ ascii '-' := by decide

theorem digit_nul : digit 0 = none := by decide

/-- The digits of a number in a string. -/
def digitBytes (base num : Nat) : List UInt8 := (numeral base num).map digitByte

section Digits

variable {base : Nat} {tail : List UInt8}

/-- The loop accumulates a run of digits modulo `2 ^ 32`. -/
theorem strtolDigits_run {text : List UInt8} {digits : List Nat}
    (spelt : List.Forall₂ (fun b (k : Nat) => digit b = some (k : Int)) text digits) (below : ∀ k ∈ digits, k < base)
    (rest : List UInt8) (val : Nat) :
    strtolDigits base (wrap32 val) (text ++ rest) =
      strtolDigits base (wrap32 (digits.foldl (fun value k => value * base + k) val : Nat)) rest := by
  induction spelt generalizing val with
  | nil => rfl
  | @cons b k text digits value _ ih =>
      have small := below k List.mem_cons_self
      have next : wrap32 (wrap32 val * base + k) = wrap32 ((val * base + k : Nat) : Int) := by
        apply wrap32_congr
        push_cast
        rw [Int.add_emod, Int.mul_emod, wrap32_mod, ← Int.mul_emod, ← Int.add_emod]
      rw [List.cons_append, strtolDigits, value]
      dsimp only
      rw [if_neg (by omega), next, ih fun j member => below j (List.mem_cons_of_mem _ member)]
      rfl

/-- The digits that `printnum` prints are read up to the final zero. -/
theorem strtolDigits_foldl (most : base ≤ 16) {digits : List Nat} (below : ∀ k ∈ digits, k < base) (val : Nat) :
    strtolDigits base (wrap32 val) (digits.map digitByte ++ 0 :: tail) =
      some (wrap32 (digits.foldl (fun value k => value * base + k) val : Nat), 0 :: tail) := by
  have spelt : List.Forall₂ (fun b (k : Nat) => digit b = some (k : Int)) (digits.map digitByte) digits := by
    rw [List.forall₂_map_left_iff, List.forall₂_same]
    exact fun k member => digit_digitByte k (lt_of_lt_of_le (below k member) most)
  rw [strtolDigits_run spelt below, strtolDigits, digit_nul]

/-- A numeral is read back modulo `2 ^ 32`. -/
theorem strtolDigits_numeral (least : 2 ≤ base) (most : base ≤ 16) (num : Nat) :
    strtolDigits base 0 (digitBytes base num ++ 0 :: tail) = some (wrap32 num, 0 :: tail) := by
  have read : strtolDigits base 0 (digitBytes base num ++ 0 :: tail) =
      some (wrap32 (valueOf base (numeral base num) : Nat), 0 :: tail) :=
    strtolDigits_foldl most (numeral_lt least) 0
  rwa [valueOf_numeral] at read

/-- Only zero is printed with a leading zero, and then as a single digit. -/
theorem digitBytes_cases (base : Nat) (least : 2 ≤ base) (most : base ≤ 16) (num : Nat) :
    (num = 0 ∧ digitBytes base num = [ascii '0']) ∨
      num ≠ 0 ∧ ∃ first rest, digitBytes base num = first :: rest ∧ first ≠ ascii '0' := by
  by_cases zero : num = 0
  · subst zero
    exact .inl ⟨rfl, rfl⟩
  · obtain ⟨first, rest, same, nonzero⟩ := numeral_head base zero
    have small := numeral_lt least first (by rw [same]; exact List.mem_cons_self)
    refine .inr ⟨zero, digitByte first, rest.map digitByte, by rw [digitBytes, same, List.map_cons], fun leading => ?_⟩
    exact nonzero (digitByte_zero first (by omega) leading)

end Digits

/-- The unsigned part of a number is read up to the final zero, with the value modulo `2 ^ 32`. -/
def Reads (base : Int) (text : List UInt8) (num : Nat) : Prop :=
  ∀ tail, ∃ base' s, strtolPrefix base (text ++ 0 :: tail) = some (base', s) ∧
    strtolDigits base' 0 s = some (wrap32 num, 0 :: tail)

theorem reads_base {base : Nat} (least : 2 ≤ base) (most : base < 16) (num : Nat) :
    Reads base (digitBytes base num) num := by
  intro tail
  refine ⟨base, _, ?_, strtolDigits_numeral least (by omega) num⟩
  unfold strtolPrefix
  rw [if_neg (by omega)]

/-- Base sixteen takes a numeral without a prefix as it is. -/
theorem reads_hexadecimal (num : Nat) : Reads 16 (digitBytes 16 num) num := by
  intro tail
  refine ⟨16, _, ?_, strtolDigits_numeral (by decide) (by decide) num⟩
  obtain ⟨_, same⟩ | ⟨_, first, rest, same, nonzero⟩ := digitBytes_cases 16 (by decide) (by decide) num
  · rw [same]
    rfl
  · unfold strtolPrefix
    rw [same, List.cons_append, if_pos (.inr rfl)]
    dsimp only
    rw [if_neg nonzero, if_neg (by decide)]

/-- With base zero or sixteen a prefix selects base sixteen. -/
theorem reads_prefixed {base : Int} (either : base = 0 ∨ base = 16) (num : Nat) :
    Reads base (ascii '0' :: ascii 'x' :: digitBytes 16 num) num := by
  intro tail
  refine ⟨16, _, ?_, strtolDigits_numeral (by decide) (by decide) num⟩
  unfold strtolPrefix
  rw [List.cons_append, List.cons_append, if_pos either]
  rfl

/-- Base zero reads a decimal numeral in base ten; a single zero is read in base eight. -/
theorem reads_zero (num : Nat) : Reads 0 (digitBytes 10 num) num := by
  intro tail
  obtain ⟨rfl, same⟩ | ⟨_, first, rest, same, nonzero⟩ := digitBytes_cases 10 (by decide) (by decide) num
  · exact ⟨8, 0 :: tail, by rw [same]; rfl, rfl⟩
  · refine ⟨10, _, ?_, strtolDigits_numeral (by decide) (by decide) num⟩
    unfold strtolPrefix
    rw [same, List.cons_append, if_pos (.inl rfl)]
    dsimp only
    rw [if_neg nonzero, if_pos rfl]

/-- A text that starts with neither a space nor a sign is read as its unsigned part. -/
theorem strtol_unsigned {base : Int} {text : List UInt8} {num : Nat} (reads : Reads base text num)
    {first : UInt8} {rest : List UInt8} (starts : text = first :: rest)
    (plain : first ≠ ascii ' ' ∧ first ≠ ascii '\t' ∧ first ≠ ascii '+' ∧ first ≠ ascii '-') (tail : List UInt8) :
    strtol (text ++ 0 :: tail) base = some (wrap32 num, 0 :: tail) := by
  obtain ⟨base', s, prefixed, digits⟩ := reads tail
  obtain ⟨space, tab, plus, minus⟩ := plain
  subst starts
  rw [List.cons_append] at prefixed ⊢
  have start : strtolSpaces (first :: (rest ++ 0 :: tail)) = some (first :: (rest ++ 0 :: tail)) := by
    rw [strtolSpaces, if_neg (by simp [space, tab])]
  simp only [strtol, start, plus, minus, or_self, if_false, prefixed, digits, Option.map_some]

/-- A minus sign negates the unsigned part. -/
theorem strtol_negative {base : Int} {text : List UInt8} {num : Nat} (reads : Reads base text num)
    (tail : List UInt8) :
    strtol (ascii '-' :: text ++ 0 :: tail) base = some (wrap32 (-wrap32 num), 0 :: tail) := by
  obtain ⟨base', s, prefixed, digits⟩ := reads tail
  have start : strtolSpaces (ascii '-' :: text ++ 0 :: tail) = some (ascii '-' :: (text ++ 0 :: tail)) := rfl
  simp only [strtol, start, or_true, if_true, prefixed, digits, Option.map_some]

end JosSmp.Cstring
