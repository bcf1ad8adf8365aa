import JosSmp.Proof.Printfmt.Field

/-!
This file proves when a number is justified in its field, on the right and with the flag `-` on the left.
-/

namespace JosSmp.Printfmt
open Library Machine Cstring

section Signed

/-- The words of a `long long`, lower one first, or the word of an `int` or a `long`. -/
def Passes (env : Environment) (ap : Nat) (lflag v : Int) : Prop :=
  if lflag ≥ 2 then
    -9223372036854775808 ≤ v ∧ v < 9223372036854775808 ∧ env.word ap = UInt32.ofInt v ∧
      env.word (ap + 1) = UInt32.ofInt (v / 4294967296)
  else -2147483648 ≤ v ∧ v < 2147483648 ∧ env.word ap = UInt32.ofInt v

/-- A value is read as it was passed. -/
theorem getint_passes {env : Environment} {ap : Nat} {lflag v : Int} (passes : Passes env ap lflag v) :
    (getint env ap lflag).1 = v := by
  unfold Passes at passes
  unfold getint
  split at passes
  · rename_i double
    obtain ⟨lower, upper, low, high⟩ := passes
    rw [if_pos double, low, high, toNat_ofInt, toNat_ofInt]
    unfold wrap64
    omega
  · rename_i single
    obtain ⟨lower, upper, word⟩ := passes
    rw [if_neg single, word, signedWord, toNat_ofInt]
    unfold wrap32
    omega

/-- A passed value is in the range of its size. -/
theorem Passes.range {env : Environment} {ap : Nat} {lflag v : Int} (passes : Passes env ap lflag v) :
    -9223372036854775808 ≤ v ∧ v < 9223372036854775808 := by
  unfold Passes at passes
  split at passes <;> omega

/-- The decimal digits of the absolute value. -/
def decimalDigits (v : Int) : List Int := digitsOf .decimal v.natAbs

/-- The decimal text of a value, with its minus sign. -/
def decimal (v : Int) : List Int := signOf v ++ decimalDigits v

theorem magnitude_natAbs {v : Int} (lower : -9223372036854775808 ≤ v) (upper : v < 9223372036854775808) :
    magnitude v = v.natAbs := by
  unfold magnitude toUnsigned64 wrap64
  split <;> omega

/-- The field of a right-justified value, with the sign in front of zeros and behind spaces. -/
def RightJustified (zero : Bool) (w : Nat) (v : Int) (out : List Int) : Prop :=
  out.length = max w (decimal v).length ∧
    out = if zero then signOf v ++ List.replicate (w - (decimal v).length) (signedChar (ascii '0')) ++ decimalDigits v
      else List.replicate (w - (decimal v).length) (signedChar (ascii ' ')) ++ decimal v

/-- The pad flag of a field. -/
def zeroFlag (zero : Bool) : List UInt8 := if zero then [ascii '0'] else []

section Justified

variable {zero : Bool} {w c : Nat} {v : Int}

/-- What is printed for a field: the sign, then `c` pad characters, then the digits. -/
def signedField (zero : Bool) (c : Nat) (v : Int) : List Int :=
  signOf v ++ List.replicate c (signedChar (padOf (zeroFlag zero))) ++ decimalDigits v

/-- The length decides how much is padded. -/
theorem RightJustified.count (justified : RightJustified zero w v (signedField zero c v)) :
    c = w - (decimal v).length := by
  have length := justified.1
  simp only [signedField, decimal, List.length_append, List.length_replicate] at length ⊢
  omega

/-- The sign stands in its place when there is none, or nothing is padded. -/
theorem rightJustified_field (count : c = w - (decimal v).length) (place : 0 ≤ v ∨ c = 0) :
    RightJustified zero w v (signedField zero c v) := by
  constructor
  · simp only [signedField, decimal, List.length_append, List.length_replicate] at count ⊢
    omega
  · rw [← count]
    cases zero with
    | true => rfl
    | false =>
        have pad : padOf (zeroFlag false) = ascii ' ' := rfl
        rw [signedField, pad, decimal, if_neg Bool.false_ne_true]
        obtain nonneg | none := place
        · rw [signOf, if_neg (by omega), List.nil_append, List.nil_append]
        · rw [none, List.replicate_zero, List.nil_append, List.append_nil]

end Justified

theorem decimalDigits_le {env : Environment} {ap : Nat} {lflag v : Int} (passes : Passes env ap lflag v) :
    (decimalDigits v).length ≤ 64 := by
  rw [decimalDigits, ← magnitude_natAbs passes.range.1 passes.range.2]
  exact digitCount_le .decimal v

theorem output_signed {env : Environment} {v : Int} {k w : Nat} (zero : Bool) (long : k ≤ 2) (positive : 1 ≤ w)
    (passes : Passes env 0 k v) :
    output (fieldFormat (zeroFlag zero) w k (ascii 'd')) env =
      some (signedField zero (wrap32 (w - (decimalDigits v).length)).toNat v) := by
  have all : ∀ b ∈ zeroFlag zero, isSetting b := by
    cases zero with
    | true => exact List.forall_mem_singleton.mpr (by decide)
    | false => exact List.forall_mem_nil _
  have size : wrap32 (k : Int) = k := wrap32_eq (by omega) (by omega)
  have value : argument env 0 k (ascii 'd') = v := (if_pos rfl).trans (getint_passes passes)
  have listed : (ascii 'd', Base.decimal.value) ∈ numeric := by decide
  have run := output_field env k .decimal listed all positive
  simp only [size, value, digitCount, magnitude_natAbs passes.range.1 passes.range.2] at run
  exact run

/-- A signed number is right-justified exactly when it needs no padding, or has no sign and a width that does not
wrap. -/
theorem output_signed_iff (env : Environment) (v : Int) (k w : Nat) (zero : Bool) (long : k ≤ 2) (positive : 1 ≤ w)
    (passes : Passes env 0 k v) :
    (∃ out, output (fieldFormat (zeroFlag zero) w k (ascii 'd')) env = some out ∧ RightJustified zero w v out) ↔
      w ≤ (decimalDigits v).length ∨ 0 ≤ v ∧ w < 2147483648 + (decimalDigits v).length := by
  have run := output_signed zero long positive passes
  have short := decimalDigits_le passes
  have sign : (signOf v).length = if v < 0 then 1 else 0 := by
    unfold signOf
    split <;> rfl
  have length : (decimal v).length = (signOf v).length + (decimalDigits v).length := List.length_append
  rw [run]
  constructor
  · rintro ⟨out, same, justified⟩
    obtain rfl := Option.some.inj same
    have count := justified.count
    unfold wrap32 at count
    split at sign <;> omega
  · intro fits
    refine ⟨_, rfl, rightJustified_field ?_ ?_⟩
    · unfold wrap32
      split at sign <;> omega
    · unfold wrap32
      omega

/-- An argument list of one word. -/
def oneWord (word : UInt32) : Environment := ⟨fun _ => word, fun _ => []⟩

/-- `%05d` prints 42 as `00042`. -/
theorem output_signed_zeros :
    (∃ out, output (fieldFormat (zeroFlag true) 5 0 (ascii 'd')) (oneWord 42) = some out ∧
      RightJustified true 5 42 out) ↔
        5 ≤ (decimalDigits 42).length ∨ (0 : Int) ≤ 42 ∧ 5 < 2147483648 + (decimalDigits 42).length :=
  output_signed_iff (oneWord 42) 42 0 5 true (by decide) (by decide) (by unfold Passes; decide)

/-- `%5d` prints -42 as a minus sign, three spaces and two digits. -/
theorem output_signed_fails :
    ¬ ∀ (env : Environment) (v : Int) (k w : Nat) (zero : Bool), k ≤ 2 → 1 ≤ w → Passes env 0 k v →
      ∃ out, output (fieldFormat (zeroFlag zero) w k (ascii 'd')) env = some out ∧ RightJustified zero w v out := by
  intro claim
  have passes : Passes (oneWord 0xFFFFFFD6) 0 (0 : Nat) (-42) := by
    unfold Passes
    decide
  obtain ⟨out, run, justified⟩ := claim (oneWord 0xFFFFFFD6) (-42) 0 5 false (by decide) (by decide) passes
  rw [output_signed false (by decide) (by decide) passes] at run
  obtain rfl := Option.some.inj run
  have count := justified.count
  revert count
  decide

end Signed

section Left

variable {conv : UInt8}

theorem digitChar_ge (i : Nat) : 48 ≤ digitChar i := by
  have zero : '0'.toNat = 48 := by decide
  have a : 'a'.toNat = 97 := by decide
  unfold digitChar
  split <;> omega

/-- No digit is taken for the pad character of the flag `-`. -/
theorem digitsOf_head (base : Base) (num : Nat) :
    ∃ first rest, digitsOf base num = first :: rest ∧ first ≠ signedChar (ascii '-') := by
  cases same : numeral base.value num with
  | nil => exact absurd same (numeral_ne_nil base.value num)
  | cons k rest =>
      refine ⟨digitChar k, rest.map digitChar, by rw [digitsOf, same, List.map_cons], fun minus => ?_⟩
      have lower := digitChar_ge k
      have code : signedChar (ascii '-') = 45 := by decide
      omega

/-- The flag `-` left-justifies a number exactly when its digits fill the width, so that nothing is padded. -/
theorem output_left_iff (env : Environment) (base : Base) (conv : UInt8) (k w : Nat)
    (listed : (conv, base.value) ∈ numeric) (positive : 1 ≤ w) :
    (∃ out, output (plainFormat k conv) env = some out ∧
      output (fieldFormat [ascii '-'] w k conv) env =
        some (out ++ List.replicate (w - out.length) (signedChar (ascii ' ')))) ↔
      w ≤ digitCount base (argument env 0 (wrap32 k) conv) := by
  have flags : ∀ b ∈ [ascii '-'], isSetting b := List.forall_mem_singleton.mpr (by decide)
  have pad : padOf [ascii '-'] = ascii '-' := rfl
  have plain := output_plain env k base listed
  have padded := output_field env k base listed flags positive
  have short := digitCount_le base (argument env 0 (wrap32 k) conv)
  dsimp only at plain padded
  generalize argument env 0 (wrap32 k) conv = v at *
  have length : (signOf v ++ digitsOf base (magnitude v)).length = (signOf v).length + digitCount base v :=
    List.length_append
  have sign : (signOf v).length ≤ 1 := by
    unfold signOf
    split <;> decide
  rw [plain, padded, pad]
  constructor
  · rintro ⟨out, same, left⟩
    obtain rfl := Option.some.inj same
    have equal := Option.some.inj left
    rw [List.append_assoc, List.append_assoc, List.append_right_inj] at equal
    have none : (wrap32 (w - digitCount base v)).toNat = 0 := by
      obtain ⟨first, rest, digits, other⟩ := digitsOf_head base (magnitude v)
      rw [digits] at equal
      cases count : (wrap32 (w - digitCount base v)).toNat with
      | zero => rfl
      | succ c =>
          rw [count, List.replicate_succ] at equal
          exact absurd (List.cons.inj equal).1.symm other
    rw [none, List.replicate_zero, List.nil_append] at equal
    have filled := congrArg List.length equal
    rw [List.length_append, List.length_replicate, length] at filled
    unfold wrap32 at none
    omega
  · intro filled
    have none : (wrap32 (w - digitCount base v)).toNat = 0 := by
      unfold wrap32
      omega
    have room : w - (signOf v ++ digitsOf base (magnitude v)).length = 0 := by omega
    refine ⟨_, rfl, ?_⟩
    rw [none, room, List.replicate_zero, List.replicate_zero, List.append_nil, List.append_nil]

/-- `%-2d` prints 42 as its two digits. -/
theorem output_left_filled :
    (∃ out, output (plainFormat 0 (ascii 'd')) (oneWord 42) = some out ∧
      output (fieldFormat [ascii '-'] 2 0 (ascii 'd')) (oneWord 42) =
        some (out ++ List.replicate (2 - out.length) (signedChar (ascii ' ')))) ↔
      2 ≤ digitCount .decimal (argument (oneWord 42) 0 (wrap32 (0 : Nat)) (ascii 'd')) :=
  output_left_iff (oneWord 42) .decimal (ascii 'd') 0 2 (by decide) (by decide)

/-- `%-5d` prints 42 as three minus signs and two digits. -/
theorem output_left_fails :
    ¬ ∀ (env : Environment) (base : Base) (conv : UInt8) (k w : Nat), (conv, base.value) ∈ numeric → 1 ≤ w →
      ∃ out, output (plainFormat k conv) env = some out ∧
        output (fieldFormat [ascii '-'] w k conv) env =
          some (out ++ List.replicate (w - out.length) (signedChar (ascii ' '))) := by
  intro claim
  have listed : (ascii 'd', Base.decimal.value) ∈ numeric := by decide
  have flags : ∀ b ∈ [ascii '-'], isSetting b := List.forall_mem_singleton.mpr (by decide)
  obtain ⟨out, plain, left⟩ := claim (oneWord 42) .decimal (ascii 'd') 0 5 listed (by decide)
  rw [output_plain (oneWord 42) 0 .decimal listed] at plain
  obtain rfl := Option.some.inj plain
  rw [output_field (oneWord 42) 0 .decimal listed flags (by decide)] at left
  revert left
  decide

end Left

end JosSmp.Printfmt
