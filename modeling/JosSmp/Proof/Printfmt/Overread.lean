import JosSmp.Proof.Printfmt.Precision

/-!
This file proves that `%.*s` reads one byte behind its precision.
-/

namespace JosSmp.Printfmt
open Machine

section Reads

variable {env : Environment} {flags s : List UInt8} {width : Width}

theorem output_unended (all : ∀ b ∈ flags, isSetting b) (noEnd : 0 ∉ s) (pointer : env.word (width.words + 1) ≠ 0)
    (precision : signedWord (env.word width.words) = s.length)
    (readable : env.bytes (env.word (width.words + 1)) = s) :
    output (precisionFormat flags width (ascii 's')) env = none := by
  have within : (s.length : Int) ≤ (precisionDirective env flags width).precision := ge_of_eq precision
  rw [output_precision env width all, stringArgument, if_neg pointer, readable, printString_unended noEnd (.inr within)]

/-- No byte behind the one at the index of the precision is read. -/
theorem output_behind (all : ∀ b ∈ flags, isSetting b) (noEnd : 0 ∉ s) (pointer : env.word (width.words + 1) ≠ 0)
    (precision : signedWord (env.word width.words) = s.length) {b : UInt8} {rest : List UInt8}
    (readable : env.bytes (env.word (width.words + 1)) = s ++ b :: rest) :
    ∃ out, output (precisionFormat flags width (ascii 's')) env = some out := by
  have range := precisionDirective_inRange env flags width
  have text : IsText (s ++ b :: rest) (precisionDirective env flags width).precision s :=
    ⟨noEnd, b, rest, rfl, .inr precision⟩
  have bounds := wrap32_range (env.word width.words).toNat
  rw [← signedWord, precision] at bounds
  rw [output_precision env width all, stringArgument, if_neg pointer, readable]
  by_cases right : (precisionDirective env flags width).width > 0 ∧
      (precisionDirective env flags width).padc ≠ ascii '-'
  · exact ⟨_, printString_right text range right (by omega)⟩
  · exact ⟨_, printString_left text range right⟩

/-- A text without an end is read up to the byte at the index of the precision, even though it prints no more
characters than the precision allows. -/
theorem precision_overread (env : Environment) (flags s : List UInt8) (width : Width)
    (all : ∀ b ∈ flags, isSetting b) (noEnd : 0 ∉ s) (pointer : env.word (width.words + 1) ≠ 0)
    (precision : signedWord (env.word width.words) = s.length)
    (readable : env.bytes (env.word (width.words + 1)) = s) :
    ¬ ∃ out, output (precisionFormat flags width (ascii 's')) env = some out := by
  rw [output_unended all noEnd pointer precision readable]
  simp

/-- A precision of three, and three readable bytes. -/
def threeBytes : Environment := ⟨fun _ => 3, fun _ => [97, 98, 99]⟩

/-- `%-*.*s` reads a fourth byte for a precision of three. -/
theorem precision_overread_three :
    ¬ ∃ out, output (precisionFormat [ascii '-'] .argument (ascii 's')) threeBytes = some out :=
  precision_overread threeBytes [ascii '-'] [97, 98, 99] .argument (List.forall_mem_singleton.mpr (by decide)) (by decide)
    (by decide) (by decide) rfl

/-- `%.*s` reads a fourth byte as well. -/
theorem precision_overread_fails :
    ¬ ∀ (env : Environment) (flags s : List UInt8) (width : Width), (∀ b ∈ flags, isSetting b) → 0 ∉ s →
      env.word (width.words + 1) ≠ 0 → signedWord (env.word width.words) = s.length →
      env.bytes (env.word (width.words + 1)) = s →
      ∃ out, output (precisionFormat flags width (ascii 's')) env = some out := by
  intro claim
  have noFlags : ∀ b ∈ ([] : List UInt8), isSetting b := by simp
  have unread : output (precisionFormat [] .absent (ascii 's')) threeBytes = none :=
    output_unended noFlags (by decide) (by decide) (by decide) rfl
  obtain ⟨out, run⟩ := claim threeBytes [] [97, 98, 99] .absent noFlags (by decide) (by decide) (by decide) rfl
  rw [unread] at run
  cases run

end Reads

end JosSmp.Printfmt
