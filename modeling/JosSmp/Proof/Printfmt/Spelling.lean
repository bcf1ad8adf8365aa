import JosSmp.Proof.Printfmt.Field
import JosSmp.Proof.Printfmt.StringField

/-!
This file compares a width and a precision in the format with the same ones as arguments.
-/

namespace JosSmp.Printfmt
open Library Machine Cstring

/-- A directive whose width and precision are written in decimal. -/
def literalFormat (w p : Nat) (conv : UInt8) : List UInt8 :=
  ascii '%' :: (digitBytes 10 w ++ ascii '.' :: (digitBytes 10 p ++ [conv, 0]))

/-- The settings that such a directive selects: the numeral zero is the flag `0`. -/
def literalDirective (w p : Nat) : Directive :=
  { Directive.initial with
    padc := if w = 0 ∨ p = 0 then ascii '0' else ascii ' '
    width := w
    precision := if p = 0 then -1 else p }

section Literal

variable {env : Environment} {d : Directive} {passed rest : List UInt8} {conv : UInt8} {w p : Nat}

theorem reswitch_zero : reswitch env d 0 ⟨passed, digitBytes 10 0 ++ rest⟩ =
    reswitch env { d with padc := ascii '0' } 0 ⟨ascii '0' :: passed, rest⟩ := reswitch_cons

theorem reswitch_literal_width (env : Environment) (passed rest : List UInt8) (small : w < 2147483648) :
    ∃ passed', reswitch env .initial 0 ⟨passed, digitBytes 10 w ++ ascii '.' :: rest⟩ =
      reswitch env { Directive.initial with padc := if w = 0 then ascii '0' else ascii ' ', width := w } 0
        ⟨passed', rest⟩ := by
  obtain rfl | positive := Nat.eq_zero_or_pos w
  · refine ⟨ascii '.' :: ascii '0' :: passed, ?_⟩
    rw [reswitch_zero, reswitch_dot]
    rfl
  · have same : wrap32 (w : Int) = w := wrap32_eq (by omega) (by omega)
    have first : Directive.initial.processPrecision w = { Directive.initial with width := w } :=
      if_pos (show (-1 : Int) < 0 by decide)
    have given : ¬ (w : Int) < 0 := by omega
    refine ⟨ascii '.' :: ((digitBytes 10 w).reverse ++ passed), ?_⟩
    rw [reswitch_number positive (by decide), same, first, reswitch_dot, if_neg given, if_neg (by omega)]
    rfl

theorem reswitch_literal_precision (env : Environment) (passed : List UInt8) (given : 0 ≤ d.width)
    (small : p < 2147483648) (last : ¬ isFlag conv) (ends : EndsNumber conv) :
    ∃ passed', reswitch env d 0 ⟨passed, digitBytes 10 p ++ [conv, 0]⟩ =
      some (if p = 0 then { d with padc := ascii '0' } else { d with precision := p }, 0, conv, ⟨passed', [0]⟩) := by
  obtain rfl | positive := Nat.eq_zero_or_pos p
  · refine ⟨conv :: ascii '0' :: passed, ?_⟩
    rw [reswitch_zero, reswitch_end last, if_pos rfl]
  · have same : wrap32 (p : Int) = p := wrap32_eq (by omega) (by omega)
    have second : d.processPrecision p = { d with precision := p } := if_neg (by omega)
    refine ⟨conv :: ((digitBytes 10 p).reverse ++ passed), ?_⟩
    rw [reswitch_number positive ends, same, second, reswitch_end last, if_neg (by omega)]

theorem reswitch_literal (env : Environment) (width : w < 2147483648) (precision : p < 2147483648)
    (last : ¬ isFlag conv) (ends : EndsNumber conv) :
    ∃ passed, reswitch env .initial 0
        ⟨[ascii '%'], digitBytes 10 w ++ ascii '.' :: (digitBytes 10 p ++ [conv, 0])⟩ =
      some (literalDirective w p, 0, conv, ⟨passed, [0]⟩) := by
  obtain ⟨passed, first⟩ := reswitch_literal_width env [ascii '%'] (digitBytes 10 p ++ [conv, 0]) width
  obtain ⟨passed', second⟩ := reswitch_literal_precision env passed
    (d := { Directive.initial with padc := if w = 0 then ascii '0' else ascii ' ', width := w }) (Int.natCast_nonneg w)
    precision last ends
  refine ⟨passed', ?_⟩
  rw [first, second, literalDirective]
  by_cases zero : p = 0
  · simp only [zero, or_true, if_true]
    rfl
  · simp only [zero, or_false, if_false]

end Literal

section Numbers

variable {env : Environment} {w p : Nat} {conv : UInt8}

theorem word_small {word : UInt32} {n : Nat} (value : signedWord word = n) : n < 2147483648 := by
  have bounds := wrap32_range word.toNat
  rw [← signedWord, value] at bounds
  omega

/-- The base of a numeric directive. -/
def baseOf (conv : UInt8) : Base :=
  if conv = ascii 'o' then .octal else if conv = ascii 'x' then .hexadecimal else .decimal

/-- The two spellings of a directive print the same. -/
def SameSpelling (env : Environment) (w p : Nat) (conv : UInt8) : Prop :=
  output (literalFormat w p conv) (env.advance 2) = output (starFormat [] conv) env

theorem argument_advance (env : Environment) (lflag : Int) (conv : UInt8) :
    argument (env.advance 2) 0 lflag conv = argument env 2 lflag conv := by
  have same := sameArguments_advance env 2
  rw [argument, argument, getint_same same, getuint_same same]

/-- A number in a field of a width in the range of `int`. -/
def numberField (pad : UInt8) (w : Nat) (base : Base) (v : Int) : List Int :=
  signOf v ++ List.replicate (w - digitCount base v) (signedChar pad) ++ digitsOf base (magnitude v)

theorem padded_count {width : Int} (field : width = w) (small : w < 2147483648) (base : Base) (v : Int) :
    (wrap32 (width - digitCount base v)).toNat = w - digitCount base v := by
  have short := digitCount_le base v
  rw [field, wrap32_eq (by omega) (by omega)]
  omega

theorem output_literal_number (numbers : (conv, (baseOf conv).value) ∈ numeric) (width : w < 2147483648)
    (precision : p < 2147483648) :
    output (literalFormat w p conv) (env.advance 2) =
      some (numberField (if w = 0 ∨ p = 0 then ascii '0' else ascii ' ') w (baseOf conv) (argument env 2 0 conv)) := by
  obtain ⟨last, ends⟩ : ¬ isFlag conv ∧ EndsNumber conv := numeric_plain _ numbers
  obtain ⟨_, read⟩ := reswitch_literal (env.advance 2) width precision last ends
  have field : (literalDirective w p).width = w := rfl
  rw [literalFormat, output_numeric (baseOf conv) numbers read, numberField, ← argument_advance,
    ← padded_count field width]
  rfl

theorem output_star_number (numbers : (conv, (baseOf conv).value) ∈ numeric)
    (width : signedWord (env.word 0) = w) (small : w < 2147483648) :
    output (starFormat [] conv) env = some (numberField (ascii ' ') w (baseOf conv) (argument env 2 0 conv)) := by
  have noFlags : ∀ b ∈ ([] : List UInt8), isSetting b := by simp
  have last : ¬ isFlag conv := (numeric_plain _ numbers).1
  have field : (precisionDirective env [] .argument).width = w :=
    (star_width [] width).trans (max_eq_left (Int.natCast_nonneg w))
  obtain ⟨_, read⟩ := reswitch_precisionFormat env .argument noFlags last
  rw [starFormat, precisionFormat, output_numeric (baseOf conv) numbers read, numberField, ← padded_count field small]
  rfl

/-- A number is padded with zeros instead of spaces when its precision is written as zero. -/
theorem sameSpelling_number (numbers : (conv, (baseOf conv).value) ∈ numeric) (width : signedWord (env.word 0) = w)
    (precision : signedWord (env.word 1) = p) :
    SameSpelling env w p conv ↔ 0 < p ∨ w ≤ digitCount (baseOf conv) (argument env 2 0 conv) := by
  have small := word_small width
  rw [SameSpelling, output_literal_number numbers small (word_small precision), output_star_number numbers width small,
    Option.some.injEq, numberField, numberField, List.append_left_inj, List.append_right_inj]
  generalize digitCount (baseOf conv) (argument env 2 0 conv) = n
  constructor
  · intro same
    by_contra neither
    have zero : p = 0 := by omega
    have padded : w - n = (w - n - 1) + 1 := by omega
    rw [if_pos (.inr zero), padded, List.replicate_succ, List.replicate_succ] at same
    exact absurd (List.cons.inj same).1 (by decide)
  · rintro (nonzero | filled)
    · by_cases zero : w = 0
      · rw [zero, Nat.zero_sub, List.replicate_zero, List.replicate_zero]
      · rw [if_neg (by omega)]
    · rw [Nat.sub_eq_zero_of_le filled, List.replicate_zero, List.replicate_zero]

end Numbers

section Strings

variable {env : Environment} {w p : Nat} {bytes s tail : List UInt8}

/-- A text of spaces that fills the field, or a string that cannot be read at all. -/
def Blank (w : Nat) (bytes : List UInt8) : Prop :=
  bytes = [] ∨ ∃ tail, bytes = List.replicate w (ascii ' ') ++ 0 :: tail

theorem output_literal_string (width : w < 2147483648) (precision : p < 2147483648) :
    output (literalFormat w p (ascii 's')) (env.advance 2) =
      printString collect (literalDirective w p) (stringArgument env 2) [] := by
  have string : ¬ isFlag (ascii 's') ∧ EndsNumber (ascii 's') := by decide
  obtain ⟨_, read⟩ := reswitch_literal (env.advance 2) width precision string.1 string.2
  exact output_string read

theorem literalDirective_inRange (width : w < 2147483648) (precision : p < 2147483648) :
    (literalDirective w p).InRange := by
  constructor
  · exact wrap32_eq (show -2147483648 ≤ (w : Int) by omega) (show (w : Int) < 2147483648 by omega)
  · have either : (literalDirective w p).precision = if p = 0 then -1 else (p : Int) := rfl
    rw [either]
    split <;> exact wrap32_eq (by omega) (by omega)

/-- Without a width the pad character is not used. -/
theorem printString_pad (d : Directive) (none : d.width = 0) (padc : UInt8) :
    printString collect { d with padc } bytes [] = printString collect d bytes [] := by
  simp only [printString, none, gt_iff_lt, lt_irrefl, false_and, if_false]

/-- The precision zero prints the field without a text. -/
theorem printString_blank {d : Directive} (width : d.width = w) (small : w < 2147483648) (space : d.padc = ascii ' ')
    (zero : d.precision = 0) (nonempty : bytes ≠ []) :
    printString collect d bytes [] = some (List.replicate w (signedChar (ascii ' '))) := by
  obtain ⟨b, rest, rfl⟩ := List.exists_cons_of_ne_nil nonempty
  have text : IsText (b :: rest) d.precision [] := ⟨by simp, b, rest, rfl, .inr zero⟩
  have range : d.InRange := by
    rw [Directive.InRange, width, zero]
    exact ⟨wrap32_eq (by omega) (by omega), by decide⟩
  obtain rfl | positive := Nat.eq_zero_or_pos w
  · have left : ¬ (d.width > 0 ∧ d.padc ≠ ascii '-') := by
      rw [width]
      simp
    rw [printString_left text range left, width]
    rfl
  · have right : d.width > 0 ∧ d.padc ≠ ascii '-' := by
      rw [width, space]
      exact ⟨by omega, by decide⟩
    have behind : (wrap32 (min ((w : Int) - ([] : List UInt8).length) 0 - ([] : List UInt8).length)).toNat = 0 := by
      rw [List.length_nil, min_eq_right (by omega)]
      decide
    have before : ((w : Int) - ([] : List UInt8).length).toNat = w := by
      rw [List.length_nil]
      omega
    rw [printString_right text range right (by decide), width, space, behind, before]
    simp

theorem shown_space {b : UInt8} (space : shown false b = signedChar (ascii ' ')) : b = ascii ' ' := by
  apply UInt8.toNat_inj.mp
  have small := b.toNat_lt
  have code : signedChar (ascii ' ') = 32 ∧ (ascii ' ').toNat = 32 := by decide
  rw [shown, if_neg (by simp), code.1, signedChar] at space
  rw [code.2]
  split at space <;> omega

/-- A string that fits into its field is printed behind zeros when the precision is written as zero. -/
theorem printString_zeros (width : w < 2147483648) (noEnd : 0 ∉ s) (fits : s.length ≤ w) :
    printString collect (literalDirective w 0) (s ++ 0 :: tail) [] =
      some (List.replicate (w - s.length) (signedChar (ascii '0')) ++ s.map (shown false)) := by
  have range := literalDirective_inRange (p := 0) width (by decide)
  have field : (literalDirective w 0).width = w := rfl
  have text : IsText (s ++ 0 :: tail) (literalDirective w 0).precision s :=
    isText_cut noEnd tail (literalDirective w 0).precision
  have zero : (literalDirective w 0).padc = ascii '0' := if_pos (.inr rfl)
  have plain : (literalDirective w 0).altflag = false := rfl
  obtain rfl | positive := Nat.eq_zero_or_pos w
  · obtain rfl := List.eq_nil_of_length_eq_zero (Nat.le_zero.mp fits)
    have left : ¬ ((literalDirective 0 0).width > 0 ∧ (literalDirective 0 0).padc ≠ ascii '-') := by decide
    rw [printString_left text range left]
    rfl
  · have right : (literalDirective w 0).width > 0 ∧ (literalDirective w 0).padc ≠ ascii '-' := by
      rw [field, zero]
      exact ⟨by omega, by decide⟩
    have before : ((w : Int) - s.length).toNat = w - s.length := by omega
    have behind : (wrap32 (min ((w : Int) - s.length) 0 - s.length)).toNat = 0 := by
      rw [min_eq_right (by omega), wrap32_eq (by omega) (by omega)]
      omega
    rw [printString_right text range right (by omega), field, zero, plain, before, behind]
    simp

/-- The text in front of the first zero is determined. -/
theorem text_unique {s' tail' : List UInt8} (noEnd : 0 ∉ s) (noEnd' : 0 ∉ s')
    (same : s ++ 0 :: tail = s' ++ 0 :: tail') : s = s' := by
  have before (t rest : List UInt8) (noEnd : 0 ∉ t) : (t ++ 0 :: rest).takeWhile (· != 0) = t := by
    have all : ∀ b ∈ t, (b != 0) = true := fun b member => bne_iff_ne.mpr fun zero => noEnd (zero ▸ member)
    rw [List.takeWhile_append_of_pos all, List.takeWhile_cons_of_neg (by decide), List.append_nil]
  rw [← before s tail noEnd, same, before s' tail' noEnd']

/-- A string is printed as the spaces of its field only when it consists of them. -/
theorem printString_spaces (width : w < 2147483648) (noEnd : 0 ∉ s) :
    printString collect (literalDirective w 0) (s ++ 0 :: tail) [] =
      some (List.replicate w (signedChar (ascii ' '))) ↔ s = List.replicate w (ascii ' ') := by
  have range := literalDirective_inRange (p := 0) width (by decide)
  have text : IsText (s ++ 0 :: tail) (literalDirective w 0).precision s :=
    isText_cut noEnd tail (literalDirective w 0).precision
  constructor
  · intro same
    have fits : s.length ≤ w := by
      obtain ⟨before, behind, run⟩ := printString_any text (by simp) range
      have length := congrArg List.length (Option.some.inj (run.symm.trans same))
      simp only [List.length_append, List.length_replicate, List.length_map, List.length_nil] at length
      omega
    rw [printString_zeros width noEnd fits, Option.some.injEq, List.eq_replicate_iff] at same
    obtain ⟨_, spaces⟩ := same
    rw [List.eq_replicate_iff]
    constructor
    · by_contra short
      have padded : w - s.length = (w - s.length - 1) + 1 := by omega
      rw [padded, List.replicate_succ] at spaces
      exact absurd (spaces _ List.mem_cons_self) (by decide)
    · intro b member
      exact shown_space (spaces _ (List.mem_append_right _ (List.mem_map_of_mem member)))
  · rintro rfl
    have shows : shown false (ascii ' ') = signedChar (ascii ' ') := by decide
    rw [printString_zeros width noEnd (by simp), List.length_replicate, Nat.sub_self, List.replicate_zero,
      List.nil_append, List.map_replicate, shows]

/-- A precision other than zero is read alike in both spellings, and the width zero needs no pad character. -/
theorem printString_same (width : signedWord (env.word 0) = w) (precision : signedWord (env.word 1) = p)
    (positive : 0 < p) :
    printString collect (literalDirective w p) bytes [] =
      printString collect (precisionDirective env [] .argument) bytes [] := by
  have field : (precisionDirective env [] .argument).width = w :=
    (star_width [] width).trans (max_eq_left (Int.natCast_nonneg w))
  have given : (precisionDirective env [] .argument).precision = p := precision
  have same : literalDirective w p =
      { precisionDirective env [] .argument with padc := if w = 0 then ascii '0' else ascii ' ' } := by
    have nonzero : p ≠ 0 := by omega
    dsimp only
    rw [field, given, literalDirective]
    simp only [nonzero, or_false, if_false]
    rfl
  rw [same]
  by_cases zero : w = 0
  · exact printString_pad _ (by rw [field, zero]; rfl) _
  · rw [if_neg zero]
    rfl

/-- With the precision zero, the arguments print a field of spaces and the format prints the string behind zeros. -/
theorem printString_zero_iff (width : signedWord (env.word 0) = w) (precision : signedWord (env.word 1) = (0 : Nat)) :
    printString collect (literalDirective w 0) bytes [] =
      printString collect (precisionDirective env [] .argument) bytes [] ↔ Blank w bytes := by
  have small := word_small width
  have field : (precisionDirective env [] .argument).width = w :=
    (star_width [] width).trans (max_eq_left (Int.natCast_nonneg w))
  have literal : (literalDirective w 0).precision < 0 := show (-1 : Int) < 0 by decide
  by_cases empty : bytes = []
  · subst empty
    have given : (([] : List UInt8).length : Int) ≤ (precisionDirective env [] .argument).precision :=
      ge_of_eq precision
    rw [printString_unended (by simp) (.inl literal), printString_unended (by simp) (.inr given)]
    exact iff_of_true rfl (.inl rfl)
  rw [printString_blank field small rfl precision empty, Blank, or_iff_right empty]
  by_cases terminated : 0 ∈ bytes
  · obtain ⟨s, tail, rfl, noEnd⟩ := List.eq_append_cons_of_mem terminated
    rw [printString_spaces small noEnd]
    constructor
    · rintro rfl
      exact ⟨tail, rfl⟩
    · intro ⟨tail', same⟩
      exact text_unique noEnd (fun member => absurd (List.eq_of_mem_replicate member) (by decide)) same
  · rw [printString_unended terminated (.inl literal)]
    apply iff_of_false (by simp)
    rintro ⟨tail, rfl⟩
    exact terminated (by simp)

/-- With the precision written as zero the whole string is printed, and only a text of spaces looks the same. -/
theorem sameSpelling_string (width : signedWord (env.word 0) = w) (precision : signedWord (env.word 1) = p) :
    SameSpelling env w p (ascii 's') ↔ 0 < p ∨ Blank w (stringArgument env 2) := by
  have noFlags : ∀ b ∈ ([] : List UInt8), isSetting b := by simp
  rw [SameSpelling, output_literal_string (word_small width) (word_small precision), starFormat,
    output_precision env .argument noFlags, Width.words]
  obtain rfl | positive := Nat.eq_zero_or_pos p
  · rw [printString_zero_iff width precision, or_iff_right (Nat.lt_irrefl 0)]
  · exact iff_of_true (printString_same width precision positive) (.inl positive)

end Strings

/-- A width and a precision in the format mean the same as the arguments, unless the precision is zero: it is then
taken for the pad flag, which shows when a number is padded or a string is not blank. -/
theorem spelling_iff (env : Environment) (w p : Nat) (conv : UInt8)
    (listed : conv ∈ ['s', 'd', 'u', 'o', 'x'].map ascii) (width : signedWord (env.word 0) = w)
    (precision : signedWord (env.word 1) = p) :
    output (literalFormat w p conv) (env.advance 2) = output (starFormat [] conv) env ↔
      0 < p ∨ if conv = ascii 's' then Blank w (stringArgument env 2)
        else w ≤ digitCount (baseOf conv) (argument env 2 0 conv) := by
  simp only [List.map_cons, List.map_nil, List.mem_cons, List.not_mem_nil, or_false] at listed
  obtain rfl | number := listed
  · rw [if_pos rfl]
    exact sameSpelling_string width precision
  · have other : conv ≠ ascii 's' := by
      obtain rfl | rfl | rfl | rfl := number <;> decide
    have numbers : (conv, (baseOf conv).value) ∈ numeric := by
      obtain rfl | rfl | rfl | rfl := number <;> decide
    rw [if_neg other]
    exact sameSpelling_number numbers width precision

/-- `%5.3x` is read as `%*.*x` with five and three. -/
theorem spelling_nonzero :
    output (literalFormat 5 3 (ascii 'x')) ((starArguments 5 3 []).advance 2) =
        output (starFormat [] (ascii 'x')) (starArguments 5 3 []) ↔
      0 < 3 ∨ if ascii 'x' = ascii 's' then Blank 5 (stringArgument (starArguments 5 3 []) 2)
        else 5 ≤ digitCount (baseOf (ascii 'x')) (argument (starArguments 5 3 []) 2 0 (ascii 'x')) :=
  spelling_iff (starArguments 5 3 []) 5 3 (ascii 'x') (by decide) (by decide) (by decide)

/-- `%5.0d` pads with zeros, and `%*.*d` with five and zero pads with spaces. -/
theorem spelling_fails :
    ¬ ∀ (env : Environment) (w p : Nat) (conv : UInt8), conv ∈ ['s', 'd', 'u', 'o', 'x'].map ascii →
      signedWord (env.word 0) = w → signedWord (env.word 1) = p →
      output (literalFormat w p conv) (env.advance 2) = output (starFormat [] conv) env := by
  intro claim
  have listed : (ascii 'd', (baseOf (ascii 'd')).value) ∈ numeric := by decide
  have width : signedWord ((starArguments 5 0 []).word 0) = (5 : Nat) := by decide
  have same := claim (starArguments 5 0 []) 5 0 (ascii 'd') (by decide) width (by decide)
  rw [output_literal_number listed (by decide) (by decide), output_star_number listed width (by decide)] at same
  revert same
  decide

end JosSmp.Printfmt
