import Mathlib.Data.Nat.Digits.Lemmas

/-!
This file gives the canonical numeral of a number in a base, most significant digit first.
-/

namespace JosSmp.Library

/-- Zero has one digit. -/
def numeral (base num : Nat) : List Nat := if num = 0 then [0] else (Nat.digits base num).reverse

variable {base num : Nat}

/-- The value of a list of digits, most significant digit first. -/
def valueOf (base : Nat) (digits : List Nat) : Nat := digits.foldl (fun value digit => value * base + digit) 0

theorem numeral_small (small : num < base) : numeral base num = [num] := by
  unfold numeral
  split
  · rename_i zero
    rw [zero]
  · rename_i nonzero
    rw [Nat.digits_of_lt base num nonzero small]
    rfl

/-- The last digit is the remainder and the digits before it are the numeral of the quotient. -/
theorem numeral_large (least : 2 ≤ base) (large : base ≤ num) :
    numeral base num = numeral base (num / base) ++ [num % base] := by
  have quotient : num / base ≠ 0 := Nat.ne_of_gt (Nat.div_pos large (by omega))
  rw [numeral, if_neg (by omega), numeral, if_neg quotient, Nat.digits_def' (by omega) (by omega), List.reverse_cons]

/-- A number counts down along its numeral. -/
theorem numeral_induction {P : Nat → Prop} (least : 2 ≤ base) (small : ∀ num, num < base → P num)
    (large : ∀ num, base ≤ num → P (num / base) → P num) (num : Nat) : P num := by
  induction num using Nat.strong_induction_on with
  | _ num ih =>
      by_cases below : num < base
      · exact small num below
      · exact large num (not_lt.mp below) (ih _ (Nat.div_lt_self (by omega) (by omega)))

theorem numeral_lt (least : 2 ≤ base) : ∀ digit ∈ numeral base num, digit < base := by
  intro digit member
  unfold numeral at member
  split at member
  · rw [List.mem_singleton.mp member]
    omega
  · exact Nat.digits_lt_base (by omega) (List.mem_reverse.mp member)

theorem valueOf_zero (base : Nat) : valueOf base [0] = 0 := by simp [valueOf]

/-- The digits evaluate as Mathlib's digit lists do, which have the least significant digit first. -/
theorem valueOf_eq_ofDigits (base : Nat) (digits : List Nat) :
    valueOf base digits = Nat.ofDigits base digits.reverse := by
  rw [valueOf, Nat.ofDigits_eq_foldr, List.foldr_reverse]
  congr 1
  funext value digit
  rw [Nat.cast_id, Nat.add_comm, Nat.mul_comm]

/-- The numeral evaluates to its number. -/
theorem valueOf_numeral (base num : Nat) : valueOf base (numeral base num) = num := by
  unfold numeral
  split
  · rename_i zero
    rw [zero, valueOf_zero]
  · rw [valueOf_eq_ofDigits, List.reverse_reverse, Nat.ofDigits_digits]

theorem numeral_ne_nil (base num : Nat) : numeral base num ≠ [] := by
  unfold numeral
  split
  · exact List.cons_ne_nil 0 []
  · rename_i positive
    rw [ne_eq, List.reverse_eq_nil_iff]
    exact Nat.digits_ne_nil_iff_ne_zero.mpr positive

/-- Only zero starts with the digit zero. -/
theorem numeral_head (base : Nat) (positive : num ≠ 0) :
    ∃ first rest, numeral base num = first :: rest ∧ first ≠ 0 := by
  have nonempty : Nat.digits base num ≠ [] := Nat.digits_ne_nil_iff_ne_zero.mpr positive
  have split := List.dropLast_append_getLast nonempty
  refine ⟨(Nat.digits base num).getLast nonempty, (Nat.digits base num).dropLast.reverse, ?_,
    Nat.getLast_digit_ne_zero base positive⟩
  rw [numeral, if_neg positive, ← List.reverse_concat, split]

/-- The digits of a number without a leading zero, most significant digit first. -/
structure Canonical (base num : Nat) (digits : List Nat) : Prop where
  nonempty : digits ≠ []
  below : ∀ digit ∈ digits, digit < base
  leading : digits.head? = some 0 → digits = [0]
  value : valueOf base digits = num

theorem numeral_canonical (least : 2 ≤ base) (num : Nat) : Canonical base num (numeral base num) := by
  refine ⟨numeral_ne_nil base num, numeral_lt least, ?_, valueOf_numeral base num⟩
  intro leading
  by_cases zero : num = 0
  · rw [zero]
    rfl
  · obtain ⟨first, rest, same, nonzero⟩ := numeral_head base zero
    rw [same] at leading
    exact absurd (Option.some.inj leading) nonzero

/-- The digits are those of the numeral. -/
theorem Canonical.eq_numeral {digits : List Nat} (least : 2 ≤ base) (canonical : Canonical base num digits) :
    digits = numeral base num := by
  obtain ⟨nonempty, below, leading, rfl⟩ := canonical
  by_cases zero : digits.head? = some 0
  · rw [leading zero, valueOf_zero]
    rfl
  · have reversed : Nat.digits base (valueOf base digits) = digits.reverse := by
      rw [valueOf_eq_ofDigits]
      apply Nat.digits_ofDigits base (by omega)
      · intro digit member
        exact below digit (List.mem_reverse.mp member)
      · intro other last
        rw [List.getLast_reverse] at last
        exact zero (by rw [List.head?_eq_some_head nonempty, last])
    have positive : valueOf base digits ≠ 0 := by
      intro none
      rw [none, Nat.digits_zero] at reversed
      exact nonempty (List.reverse_eq_nil_iff.mp reversed.symm)
    rw [numeral, if_neg positive, reversed, List.reverse_reverse]

/-- A number below a power of the base has no more digits than the exponent. -/
theorem numeral_length_le (least : 2 ≤ base) {k : Nat} (small : num < base ^ (k + 1)) :
    (numeral base num).length ≤ k + 1 := by
  unfold numeral
  split
  · simp
  · rw [List.length_reverse]
    exact (Nat.digits_length_le_iff (by omega) num).mpr small

end JosSmp.Library
