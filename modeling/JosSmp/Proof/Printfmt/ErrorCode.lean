import JosSmp.Proof.Printfmt.Text

/-!
This file gives what `%e` prints of an error code.
-/

namespace JosSmp.Printfmt
open Machine Cstring

/-- The message that the table has for a code. -/
def message (code : Nat) : List UInt8 := ((errorString.getD code none).getD []).dropLast

/-- The message of an error code of either sign, or its absolute value. -/
def errorText (err : Int) : List Int :=
  if 1 ≤ err.natAbs ∧ err.natAbs ≤ maxerror then (message err.natAbs).map signedChar
  else ("error ".toList.map fun c => (c.toNat : Int)) ++ digitsOf .decimal err.natAbs

section Codes

variable {env : Environment} {ap : Nat}

theorem errorCode_natAbs (valid : signedWord (env.word ap) ≠ -2147483648) :
    errorCode env ap = (signedWord (env.word ap)).natAbs := by
  have range := wrap32_range (env.word ap).toNat
  rw [← signedWord] at range
  unfold errorCode
  split
  · rw [wrap32_eq (by omega) (by omega)]
    omega
  · omega

/-- The codes from one on have messages, which end with their only zero. -/
theorem errorMessage_table : ∀ code : Nat, code < 7 →
    errorMessage code = some (if 1 ≤ code then some (message code ++ [0]) else none) ∧ 0 ∉ message code ∧
      (message code).length < 64 := by
  decide +kernel

theorem errorMessage_absent {code : Nat} (outside : ¬ (1 ≤ code ∧ (code : Int) ≤ maxerror)) :
    (if (code : Int) > maxerror then some none else errorMessage code) = some none := by
  have last : maxerror = 6 := rfl
  by_cases large : (code : Int) > maxerror
  · exact if_pos large
  · obtain rfl : code = 0 := by omega
    rfl

theorem errorMessage_present {code : Nat} (inside : 1 ≤ code ∧ (code : Int) ≤ maxerror) :
    (if (code : Int) > maxerror then some none else errorMessage code) = some (some (message code ++ [0])) := by
  have last : maxerror = 6 := rfl
  rw [if_neg (by omega), (errorMessage_table code (by omega)).1, if_pos inside.1]

end Codes

section Output

variable {env : Environment} {out : List Int}
  {printfmt : List UInt8 → Environment → List Int → Option (List Int)}

/-- The nested call for a code without a message prints its decimal digits. -/
theorem nested_code (bytes : UInt32 → List UInt8) {code : Nat} (small : code < 2147483648) :
    vprintfmtLoop printfmt collect ⟨fun _ => UInt32.ofInt code, bytes⟩ 0 ⟨[], literal "error %d"⟩ [] =
      some (("error ".toList.map fun c => (c.toNat : Int)) ++ digitsOf .decimal code) := by
  have value : signedWord (UInt32.ofInt code) = code := by
    have bits := toNat_ofInt code
    unfold signedWord wrap32
    omega
  have number : (getint ⟨fun _ => UInt32.ofInt code, bytes⟩ 0 0).1 = code := value
  have positive : ¬ (code : Int) < 0 := by omega
  have size : magnitude code = code := by
    rw [magnitude, if_neg positive, toUnsigned64]
    omega
  have none : signOf code = [] := if_neg positive
  have text : ("error ".toList.map ascii).foldl (fun s b => collect b.toNat s) [] =
      "error ".toList.map fun c => (c.toNat : Int) := by
    decide
  rw [vprintfmtLoop_error, number, size, none, text, List.foldl_nil, printnum_plain .decimal (by omega)]

/-- The nested call for a message prints it. -/
theorem nested_message {code : Nat} (small : code < 7) :
    vprintfmtLoop printfmt collect ⟨fun _ => 1, fun _ => message code ++ [0]⟩ 0 ⟨[], literal "%s"⟩ [] =
      some ((message code).map signedChar) := by
  obtain ⟨_, noEnd, short⟩ := errorMessage_table code small
  have text : IsText (message code ++ [0]) Directive.initial.precision (message code) :=
    ⟨noEnd, 0, [], rfl, .inl ⟨rfl, .inl (by decide)⟩⟩
  have range : Directive.initial.InRange := ⟨by decide, by decide⟩
  have width : Directive.initial.width = -1 := rfl
  rw [vprintfmtLoop_message, if_neg (show (1 : UInt32) ≠ 0 by decide)]
  exact printString_bare text range (by decide) rfl (by rw [width]; omega)

/-- Every code except the least one is printed. -/
theorem output_code (valid : signedWord (env.word 0) ≠ -2147483648) :
    output (literal "%e") env = some (errorText (signedWord (env.word 0))) := by
  have code := errorCode_natAbs valid
  have range := wrap32_range (env.word 0).toNat
  rw [← signedWord] at range
  have format : literal "%e" = ascii '%' :: [ascii 'e', 0] := by decide
  have last : maxerror = 6 := rfl
  unfold errorText
  rw [format]
  by_cases inside : 1 ≤ (signedWord (env.word 0)).natAbs ∧ ((signedWord (env.word 0)).natAbs : Int) ≤ maxerror
  · have selected := errorMessage_present inside
    rw [← code] at selected
    have run := conversion_code (printfmtNested collect 1) collect .initial ⟨[ascii 'e', ascii '%'], [0]⟩ [] selected
    dsimp only at run
    rw [printfmtNested, nested_message (by omega)] at run
    rw [if_pos inside]
    exact output_directive (reswitch_end (by decide)) run
  · have selected := errorMessage_absent inside
    rw [← code] at selected
    have run := conversion_code (printfmtNested collect 1) collect .initial ⟨[ascii 'e', ascii '%'], [0]⟩ [] selected
    dsimp only at run
    rw [printfmtNested, code, nested_code env.bytes (by omega)] at run
    rw [if_neg inside]
    exact output_directive (reswitch_end (by decide)) run

theorem signedWord_neg (word : UInt32) : signedWord (-word) = wrap32 (-signedWord word) := by
  have bits : (-word).toNat = (4294967296 - word.toNat) % 4294967296 := by
    rw [UInt32.toNat_neg]
  have small := word.toNat_lt
  unfold signedWord wrap32
  omega

theorem errorText_neg (err : Int) : errorText (-err) = errorText err := by
  rw [errorText, errorText, Int.natAbs_neg]

end Output

/-- `%e` reads the table inside its bounds and prints the message of the table or the absolute value, the same for both
signs, exactly for the codes other than the least `int`. -/
theorem output_error_iff (env env' : Environment) (negated : env'.word 0 = -env.word 0) :
    ((errorCode env 0 ≤ maxerror → 0 ≤ errorCode env 0 ∧ (errorMessage (errorCode env 0)).isSome) ∧
      output (literal "%e") env = some (errorText (signedWord (env.word 0))) ∧
      output (literal "%e") env' = output (literal "%e") env) ↔ signedWord (env.word 0) ≠ -2147483648 := by
  have range := wrap32_range (env.word 0).toNat
  rw [← signedWord] at range
  constructor
  · rintro ⟨inside, _⟩ least
    have wrapped : errorCode env 0 = -2147483648 := by
      rw [errorCode, least]
      decide
    rw [wrapped] at inside
    exact absurd (inside (by decide)).1 (by decide)
  · intro valid
    have other : signedWord (env'.word 0) = -signedWord (env.word 0) := by
      rw [negated, signedWord_neg, wrap32_eq (by omega) (by omega)]
    have code := errorCode_natAbs valid
    refine ⟨fun inside => ?_, output_code valid, ?_⟩
    · have last : maxerror = 6 := rfl
      have entry := (errorMessage_table (signedWord (env.word 0)).natAbs (by omega)).1
      rw [code, entry]
      exact ⟨Int.natCast_nonneg _, rfl⟩
    · rw [output_code valid, output_code (by omega), other, errorText_neg]

/-- The code `-E_NO_MEM` has the message of `E_NO_MEM`. -/
theorem output_error_noMemory :
    let env : Environment := ⟨fun _ => 0xFFFFFFFC, fun _ => []⟩
    let env' : Environment := ⟨fun _ => 4, fun _ => []⟩
    ((errorCode env 0 ≤ maxerror → 0 ≤ errorCode env 0 ∧ (errorMessage (errorCode env 0)).isSome) ∧
      output (literal "%e") env = some (errorText (signedWord (env.word 0))) ∧
      output (literal "%e") env' = output (literal "%e") env) ↔ signedWord (env.word 0) ≠ -2147483648 :=
  output_error_iff ⟨fun _ => 0xFFFFFFFC, fun _ => []⟩ ⟨fun _ => 4, fun _ => []⟩ (by decide)

/-- The least `int` is its own negation, and is used as the index. -/
theorem output_error_fails :
    ¬ ∀ env env' : Environment, env'.word 0 = -env.word 0 →
      (errorCode env 0 ≤ maxerror → 0 ≤ errorCode env 0 ∧ (errorMessage (errorCode env 0)).isSome) ∧
        output (literal "%e") env = some (errorText (signedWord (env.word 0))) ∧
        output (literal "%e") env' = output (literal "%e") env := by
  intro claim
  let env : Environment := ⟨fun _ => 0x80000000, fun _ => []⟩
  have wrapped : errorCode env 0 = -2147483648 := by decide
  have inside := (claim env env (by decide)).1
  rw [wrapped] at inside
  exact absurd (inside (by decide)).1 (by decide)

end JosSmp.Printfmt
