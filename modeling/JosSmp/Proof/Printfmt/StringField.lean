import JosSmp.Proof.Printfmt.Precision

/-!
This file proves when the field of a string is exact.
-/

namespace JosSmp.Printfmt
open Machine

/-- A directive whose width and precision are arguments. -/
def starFormat (flags : List UInt8) (conv : UInt8) : List UInt8 := precisionFormat flags .argument conv

/-- A text in its field: spaces behind it for the pad flag `-`, and pad characters in front of it otherwise. -/
def stringField (pad : UInt8) (w : Int) (text : List Int) : List Int :=
  if pad = ascii '-' then text ++ List.replicate (w - text.length).toNat (signedChar (ascii ' '))
  else List.replicate (w - text.length).toNat (signedChar pad) ++ text

/-- The text that `%s` prints of a string. -/
def shownText (flags s : List UInt8) (p : Int) : List Int := (cut s p).map (shown (decide (ascii '#' ∈ flags)))

section Field

variable {env : Environment} {flags s tail : List UInt8} {w p : Int}

theorem cut_length_le (s : List UInt8) (p : Int) : (cut s p).length ≤ s.length := by
  unfold cut
  split
  · exact le_rfl
  · rw [List.length_take]
    exact Nat.min_le_right _ _

theorem shownText_length (flags s : List UInt8) (p : Int) : (shownText flags s p).length = (cut s p).length :=
  List.length_map _

/-- The settings behind two argument words, of which the string is cut to the second one. -/
theorem star_width (flags : List UInt8) (width : signedWord (env.word 0) = w) :
    (precisionDirective env flags .argument).width = max w 0 := by
  rw [precisionDirective_width, Width.value, width]

theorem star_text (flags tail : List UInt8) (precision : signedWord (env.word 1) = p) (noEnd : 0 ∉ s) :
    IsText (s ++ 0 :: tail) (precisionDirective env flags .argument).precision (cut s p) := by
  rw [precisionDirective_precision, Width.words, precision]
  exact isText_cut noEnd tail p

theorem output_star (all : ∀ b ∈ flags, isSetting b) (string : stringArgument env 2 = s ++ 0 :: tail) :
    output (starFormat flags (ascii 's')) env =
      printString collect (precisionDirective env flags .argument) (s ++ 0 :: tail) [] := by
  rw [starFormat, output_precision env .argument all, Width.words, string]

/-- Nothing is padded in front: the field is exact. -/
theorem output_field_left (all : ∀ b ∈ flags, isSetting b) (width : signedWord (env.word 0) = w)
    (precision : signedWord (env.word 1) = p) (noEnd : 0 ∉ s) (object : s.length < 2147483648)
    (string : stringArgument env 2 = s ++ 0 :: tail) (left : w ≤ 0 ∨ padOf flags = ascii '-') :
    output (starFormat flags (ascii 's')) env = some (stringField (padOf flags) w (shownText flags s p)) := by
  have text := star_text flags tail precision noEnd
  have field := star_width flags width
  have range := precisionDirective_inRange env flags .argument
  have short := cut_length_le s p
  have less : wrap32 (max w 0 - (cut s p).length) = max w 0 - (cut s p).length := by
    have bounds := wrap32_range (max w 0)
    rw [← field, range.1, field] at bounds
    exact wrap32_eq (by omega) (by omega)
  rw [output_star all string, printString_left text range, List.nil_append, precisionDirective_altflag, field, less,
    ← shownText, stringField, shownText_length]
  · by_cases minus : padOf flags = ascii '-'
    · have room : (max w 0 - (cut s p).length).toNat = (w - (cut s p).length).toNat := by omega
      rw [if_pos minus, room]
    · have nonpos : w ≤ 0 := left.resolve_right minus
      have none : (max w 0 - (cut s p).length).toNat = 0 := by omega
      have none' : (w - (cut s p).length).toNat = 0 := by omega
      rw [if_neg minus, none, none', List.replicate_zero, List.replicate_zero, List.append_nil, List.nil_append]
  · rw [field, precisionDirective_padc]
    intro ⟨positive, other⟩
    exact left.elim (fun nonpos => by omega) other

/-- Pad characters are printed in front, and the width is counted down below zero behind them. -/
theorem output_field_right (all : ∀ b ∈ flags, isSetting b) (width : signedWord (env.word 0) = w)
    (precision : signedWord (env.word 1) = p) (noEnd : 0 ∉ s) (object : s.length < 2147483648)
    (string : stringArgument env 2 = s ++ 0 :: tail) (positive : 0 < w) (other : padOf flags ≠ ascii '-') :
    output (starFormat flags (ascii 's')) env =
      some (stringField (padOf flags) w (shownText flags s p) ++
        List.replicate (wrap32 (min (w - (cut s p).length) 0 - (cut s p).length)).toNat (signedChar (ascii ' '))) := by
  have text := star_text flags tail precision noEnd
  have range := precisionDirective_inRange env flags .argument
  have short := cut_length_le s p
  have field : (precisionDirective env flags .argument).width = w :=
    (star_width flags width).trans (max_eq_left (by omega))
  rw [output_star all string, printString_right text range ⟨by rw [field]; exact positive, other⟩ (by omega),
    List.nil_append, precisionDirective_altflag, precisionDirective_padc, field, ← shownText, stringField,
    if_neg other, shownText_length]

/-- The field of a string is exact, except that the width of a long text wraps. -/
theorem output_string_field_iff (env : Environment) (flags s tail : List UInt8) (w p : Int)
    (all : ∀ b ∈ flags, isSetting b) (width : signedWord (env.word 0) = w)
    (precision : signedWord (env.word 1) = p) (noEnd : 0 ∉ s) (object : s.length < 2147483648)
    (string : stringArgument env 2 = s ++ 0 :: tail) :
    output (starFormat flags (ascii 's')) env = some (stringField (padOf flags) w (shownText flags s p)) ↔
      w ≤ 0 ∨ padOf flags = ascii '-' ∨ 2 * (cut s p).length ≤ w + 2147483648 := by
  by_cases left : w ≤ 0 ∨ padOf flags = ascii '-'
  · exact iff_of_true (output_field_left all width precision noEnd object string left)
      (left.imp_right Or.inl)
  · obtain ⟨positive, other⟩ := not_or.mp left
    have short := cut_length_le s p
    have bounds := wrap32_range (env.word 0).toNat
    rw [← signedWord, width] at bounds
    rw [output_field_right all width precision noEnd object string (by omega) other]
    constructor
    · intro same
      have behind := congrArg List.length (List.append_right_eq_self.mp (Option.some.inj same))
      rw [List.length_replicate, List.length_nil] at behind
      unfold wrap32 at behind
      omega
    · intro fits
      have near := (fits.resolve_left positive).resolve_left other
      have none : (wrap32 (min (w - (cut s p).length) 0 - (cut s p).length)).toNat = 0 := by
        rw [wrap32_eq (by omega) (by omega)]
        omega
      rw [none, List.replicate_zero, List.append_nil]

/-- A width, a precision and a string at one address. -/
def starArguments (w p : UInt32) (s : List UInt8) : Environment :=
  ⟨fun i => if i = 0 then w else if i = 1 then p else 1, fun _ => s ++ [0]⟩

/-- `%0*.*s` prints the first two characters of a string behind a zero. -/
theorem output_string_field_cut :
    output (starFormat [ascii '0'] (ascii 's')) (starArguments 3 2 [104, 105, 33]) =
        some (stringField (padOf [ascii '0']) 3 (shownText [ascii '0'] [104, 105, 33] 2)) ↔
      (3 : Int) ≤ 0 ∨ padOf [ascii '0'] = ascii '-' ∨ 2 * (cut [104, 105, 33] 2).length ≤ (3 : Int) + 2147483648 :=
  output_string_field_iff (starArguments 3 2 [104, 105, 33]) [ascii '0'] [104, 105, 33] [] 3 2
    (List.forall_mem_singleton.mpr (by decide)) (by decide) (by decide) (by decide) (by decide) rfl

/-- In a field of one character, spaces follow a string of `2 ^ 30 + 1` characters. -/
theorem output_string_field_fails :
    ¬ ∀ (env : Environment) (flags s tail : List UInt8) (w p : Int), (∀ b ∈ flags, isSetting b) →
      signedWord (env.word 0) = w → signedWord (env.word 1) = p → 0 ∉ s → s.length < 2147483648 →
      stringArgument env 2 = s ++ 0 :: tail →
      output (starFormat flags (ascii 's')) env = some (stringField (padOf flags) w (shownText flags s p)) := by
  intro claim
  obtain ⟨s, noEnd, length⟩ : ∃ s : List UInt8, 0 ∉ s ∧ s.length = 1073741825 :=
    ⟨List.replicate 1073741825 (ascii 'a'), fun member => absurd (List.eq_of_mem_replicate member) (by decide),
      List.length_replicate⟩
  have whole : cut s (-1) = s := if_pos (by decide)
  have width : signedWord ((starArguments 1 0xFFFFFFFF s).word 0) = 1 := show signedWord 1 = 1 by decide
  have precision : signedWord ((starArguments 1 0xFFFFFFFF s).word 1) = -1 := show signedWord 0xFFFFFFFF = -1 by decide
  have noFlags : ∀ b ∈ ([] : List UInt8), isSetting b := by simp
  have field := claim (starArguments 1 0xFFFFFFFF s) [] s [] 1 (-1) noFlags width precision noEnd (by omega) rfl
  have run : output (starFormat [] (ascii 's')) (starArguments 1 0xFFFFFFFF s) =
      some (stringField (padOf []) 1 (shownText [] s (-1)) ++
        List.replicate (wrap32 (min ((1 : Int) - (cut s (-1)).length) 0 - (cut s (-1)).length)).toNat
          (signedChar (ascii ' '))) :=
    output_field_right noFlags width precision noEnd (by omega) rfl (by decide) (by decide)
  rw [run] at field
  have behind := congrArg List.length (List.append_right_eq_self.mp (Option.some.inj field))
  rw [whole, List.length_replicate, List.length_nil, length] at behind
  revert behind
  decide

end Field

end JosSmp.Printfmt
