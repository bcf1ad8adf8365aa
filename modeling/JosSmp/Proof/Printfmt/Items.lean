import JosSmp.Proof.Printfmt.Compose
import JosSmp.Proof.Printfmt.ErrorCode
import JosSmp.Proof.Printfmt.Field
import JosSmp.Proof.Printfmt.StringField

/-!
This file gives the meaning of a format as a list of items, and proves that `vprintfmt` prints it.
-/

namespace JosSmp.Printfmt
open Library Machine Cstring

/-- The precision of a directive: none, a numeral, or an argument. -/
inductive Precision
  | absent
  | numeral (num : Nat) (positive : 0 < num)
  | argument

def Precision.text : Precision → List UInt8
  | .absent => []
  | .numeral num _ => ascii '.' :: digitBytes 10 num
  | .argument => [ascii '.', ascii '*']

/-- The number of argument words that the precision consumes. -/
def Precision.words : Precision → Nat
  | .argument => 1
  | _ => 0

/-- The precision that is set, when its argument is at `ap`. -/
def Precision.value (env : Environment) (ap : Nat) : Precision → Int
  | .absent => -1
  | .numeral num _ => wrap32 num
  | .argument => signedWord (env.word ap)

/-- A dot makes the width at least zero. -/
def Precision.width : Precision → Int → Int
  | .absent, w => w
  | _, w => max w 0

/-- What a directive converts; the numbers have their base. -/
inductive Conversion
  | char
  | error
  | string
  | number (letter : UInt8) (base : Base) (listed : (letter, base.value) ∈ numeric)
  | pointer
  | percent

def Conversion.byte : Conversion → UInt8
  | .char => ascii 'c'
  | .error => ascii 'e'
  | .string => ascii 's'
  | .number letter _ _ => letter
  | .pointer => ascii 'p'
  | .percent => ascii '%'

/-- A directive with its flags in the order of `printf`. -/
structure Spec where
  flags : List UInt8
  settings : ∀ b ∈ flags, isSetting b
  width : Width
  precision : Precision
  longs : Nat
  conv : Conversion

/-- What stands between the `%` and the conversion. -/
def Spec.modifiers (spec : Spec) : List UInt8 :=
  spec.flags ++ (spec.width.text ++ (spec.precision.text ++ List.replicate spec.longs (ascii 'l')))

def Spec.text (spec : Spec) : List UInt8 := ascii '%' :: spec.modifiers ++ [spec.conv.byte]

/-- The index of the word that is converted. -/
def Spec.ap (spec : Spec) : Nat := spec.width.words + spec.precision.words

/-- The argument words that the directive consumes. -/
def Spec.words (spec : Spec) : Nat := spec.ap + conversionWords (List.replicate spec.longs (ascii 'l')) spec.conv.byte

/-- The settings that the directive selects. -/
def Spec.directive (spec : Spec) (env : Environment) : Directive where
  padc := padOf spec.flags
  width := spec.precision.width (spec.width.value env)
  precision := spec.precision.value env spec.width.words
  lflag := wrap32 spec.longs
  altflag := decide (ascii '#' ∈ spec.flags)

/-- A number in a field: the pad characters stand between the sign and the digits. -/
def paddedNumber (d : Directive) (base : Base) (v : Int) : List Int :=
  signOf v ++ List.replicate (d.width - digitCount base v).toNat (signedChar d.padc) ++ digitsOf base (magnitude v)

/-- The string at an argument word, up to its end. -/
def stringText (env : Environment) (ap : Nat) : List UInt8 := (stringArgument env ap).takeWhile (· ≠ 0)

/-- What a directive prints. -/
def Spec.printed (spec : Spec) (env : Environment) : List Int :=
  let d := spec.directive env
  match spec.conv with
  | .char => [signedWord (env.word spec.ap)]
  | .error => errorText (signedWord (env.word spec.ap))
  | .string => stringField d.padc d.width ((cut (stringText env spec.ap) d.precision).map (shown d.altflag))
  | .number letter base _ => paddedNumber d base (argument env spec.ap d.lflag letter)
  | .pointer => [('0'.toNat : Int), 'x'.toNat] ++ paddedNumber d .hexadecimal (env.word spec.ap).toNat
  | .percent => ['%'.toNat]

/-- A width in the arguments is not too negative, a string ends, and an error code has an absolute value. -/
structure Spec.Valid (spec : Spec) (env : Environment) : Prop where
  width : -1073741824 ≤ (spec.directive env).width
  string : spec.conv = .string →
    0 ∈ stringArgument env spec.ap ∧ (stringText env spec.ap).length < 1073741824
  error : spec.conv = .error → signedWord (env.word spec.ap) ≠ -2147483648

section Read

variable {d : Directive} {conv : UInt8}

theorem Conversion.listed (conv : Conversion) : isConversion conv.byte := by
  cases conv with
  | number letter base listed =>
      simp only [numeric, List.mem_cons, Prod.mk.injEq, List.not_mem_nil, or_false] at listed
      obtain ⟨rfl, _⟩ | ⟨rfl, _⟩ | ⟨rfl, _⟩ | ⟨rfl, _⟩ := listed <;> simp only [byte] <;> decide
  | _ => simp only [byte]; decide

theorem isConversion_endsNumber {b : UInt8} (listed : isConversion b) : EndsNumber b := by
  simp only [isConversion, List.map_cons, List.map_nil, List.mem_cons, List.not_mem_nil, or_false] at listed
  obtain rfl | rfl | rfl | rfl | rfl | rfl | rfl | rfl | rfl := listed <;> decide

/-- What follows a number in a directive ends it. -/
theorem sized_head (k : Nat) (ends : EndsNumber conv) : ∃ ch rest, sized k conv = ch :: rest ∧ EndsNumber ch := by
  cases k with
  | zero => exact ⟨conv, [0], rfl, ends⟩
  | succ k => exact ⟨ascii 'l', sized k conv, rfl, by decide⟩

theorem reswitch_sized_at (env : Environment) (ap k : Nat) (passed : List UInt8) (short : d.lflag = 0)
    (last : ¬ isFlag conv) :
    ∃ passed', reswitch env d ap ⟨passed, sized k conv⟩ =
      some ({ d with lflag := wrap32 k }, ap, conv, ⟨passed', [0]⟩) := by
  have start : d = { d with lflag := wrap32 0 } := by
    rw [show wrap32 0 = 0 by decide, ← short]
  refine ⟨conv :: (List.replicate k (ascii 'l') ++ passed), ?_⟩
  rw [sized, start, reswitch_longs, reswitch_end last, Int.zero_add]

/-- The precision is read behind the width. -/
theorem Precision.read (precision : Precision) (env : Environment) (ap k : Nat) (passed : List UInt8)
    (unset : d.precision = -1) (ends : EndsNumber conv) :
    ∃ passed', reswitch env d ap ⟨passed, precision.text ++ sized k conv⟩ =
      reswitch env { d with width := precision.width d.width, precision := precision.value env ap }
        (ap + precision.words) ⟨passed', sized k conv⟩ := by
  have dot : (if d.width < 0 then { d with width := 0 } else d) = { d with width := max d.width 0 } := by
    by_cases negative : d.width < 0
    · rw [if_pos negative, max_eq_right (by omega)]
    · rw [if_neg negative, max_eq_left (by omega)]
  have second (value : Int) : Directive.processPrecision { d with width := max d.width 0 } value =
      { d with width := max d.width 0, precision := value } := if_neg (by dsimp only; omega)
  cases precision with
  | absent =>
      refine ⟨passed, ?_⟩
      rw [Precision.width, Precision.value, ← unset]
      rfl
  | numeral num positive =>
      obtain ⟨ch, rest, tail, stops⟩ := sized_head k ends
      refine ⟨(digitBytes 10 num).reverse ++ ascii '.' :: passed, ?_⟩
      rw [Precision.text, List.cons_append, reswitch_dot, dot, tail, reswitch_number positive stops, second]
      rfl
  | argument =>
      refine ⟨ascii '*' :: ascii '.' :: passed, ?_⟩
      rw [Precision.text, List.cons_append, List.singleton_append, reswitch_dot, dot, reswitch_star, second]
      rfl

/-- The width is read behind the flags. -/
theorem Width.read (width : Width) (env : Environment) (passed rest : List UInt8) (unset : d.width = -1)
    (none : d.precision = -1) {ch : UInt8} (stops : EndsNumber ch) :
    ∃ passed', reswitch env d 0 ⟨passed, width.text ++ ch :: rest⟩ =
      reswitch env { d with width := width.value env } width.words ⟨passed', ch :: rest⟩ := by
  have first (value : Int) : d.processPrecision value = { d with width := value } := by
    rw [Directive.processPrecision, if_pos (by omega), none]
  cases width with
  | absent =>
      refine ⟨passed, ?_⟩
      rw [Width.value, ← unset]
      rfl
  | numeral num positive =>
      refine ⟨(digitBytes 10 num).reverse ++ passed, ?_⟩
      rw [Width.text, reswitch_number positive stops, first]
      rfl
  | argument =>
      refine ⟨ascii '*' :: passed, ?_⟩
      rw [Width.text, List.singleton_append, reswitch_star, first]
      rfl

/-- The modifiers select the settings of the directive. -/
theorem Spec.read (spec : Spec) (env : Environment) :
    ∃ passed, reswitch env .initial 0 ⟨[ascii '%'], spec.modifiers ++ [spec.conv.byte, 0]⟩ =
      some (spec.directive env, spec.ap, spec.conv.byte, ⟨passed, [0]⟩) := by
  obtain ⟨flags, all, width, precision, longs, conv⟩ := spec
  have listed := conv.listed
  have ends := isConversion_endsNumber listed
  have tail : (flags ++ (width.text ++ (precision.text ++ List.replicate longs (ascii 'l')))) ++ [conv.byte, 0] =
      flags ++ (width.text ++ (precision.text ++ sized longs conv.byte)) := by
    simp only [sized, List.append_assoc]
  obtain ⟨ch, rest, behind, stops⟩ :
      ∃ ch rest, precision.text ++ sized longs conv.byte = ch :: rest ∧ EndsNumber ch := by
    cases precision with
    | absent => exact sized_head longs ends
    | numeral num => exact ⟨ascii '.', digitBytes 10 num ++ sized longs conv.byte, rfl, by decide⟩
    | argument => exact ⟨ascii '.', ascii '*' :: sized longs conv.byte, rfl, by decide⟩
  let d₁ : Directive := { Directive.settings flags with width := width.value env }
  let d₂ : Directive := { d₁ with
    width := precision.width (width.value env), precision := precision.value env width.words }
  obtain ⟨passed₁, first⟩ := width.read env (flags.reverse ++ [ascii '%']) rest (d := .settings flags) rfl rfl stops
  obtain ⟨passed₂, second⟩ := precision.read env width.words longs passed₁ (d := d₁) rfl ends
  obtain ⟨passed₃, third⟩ := reswitch_sized_at env (width.words + precision.words) longs passed₂ (d := d₂) rfl
    (isConversion_not_isFlag listed)
  refine ⟨passed₃, ?_⟩
  unfold Spec.modifiers
  dsimp only
  rw [tail, reswitch_settings all, behind, first, ← behind, second, third]
  rfl

end Read

section Words

variable (spec : Spec)

theorem digitBytes_flags (num : Nat) : ∀ b ∈ digitBytes 10 num, isFlag b ∧ b ≠ ascii '*' ∧ b ≠ ascii 'l' := by
  have each : ∀ k < 10, isFlag (digitByte k) ∧ digitByte k ≠ ascii '*' ∧ digitByte k ≠ ascii 'l' := by decide
  intro b member
  obtain ⟨k, listed, rfl⟩ := List.mem_map.mp member
  exact each k (numeral_lt (by decide) k listed)

theorem isSetting_flags {b : UInt8} (setting : isSetting b) : isFlag b ∧ b ≠ ascii '*' ∧ b ≠ ascii 'l' := by
  simp only [isSetting, List.map_cons, List.map_nil, List.mem_cons, List.not_mem_nil, or_false] at setting
  obtain rfl | rfl | rfl := setting <;> decide

theorem Spec.modifiers_flags : ∀ b ∈ spec.modifiers, isFlag b := by
  obtain ⟨flags, all, width, precision, longs, conv⟩ := spec
  intro b member
  obtain setting | member := List.mem_append.mp member
  · exact (isSetting_flags (all b setting)).1
  obtain inWidth | member := List.mem_append.mp member
  · cases width with
    | absent => cases inWidth
    | numeral num => exact (digitBytes_flags num b inWidth).1
    | argument => exact (List.mem_singleton.mp inWidth) ▸ (by decide)
  obtain inPrecision | long := List.mem_append.mp member
  · cases precision with
    | absent => cases inPrecision
    | numeral num =>
        obtain rfl | digit := List.mem_cons.mp inPrecision
        · decide
        · exact (digitBytes_flags num b digit).1
    | argument =>
        simp only [Precision.text, List.mem_cons, List.not_mem_nil, or_false] at inPrecision
        obtain rfl | rfl := inPrecision <;> decide
  · exact (List.eq_of_mem_replicate long) ▸ (by decide)

/-- How often a letter occurs among the modifiers. -/
theorem Spec.modifiers_count (letter : UInt8) :
    spec.modifiers.count letter = spec.flags.count letter + (spec.width.text.count letter +
      (spec.precision.text.count letter + (List.replicate spec.longs (ascii 'l')).count letter)) := by
  simp only [modifiers, List.count_append]

theorem Width.text_count (width : Width) :
    width.text.count (ascii '*') = width.words ∧ width.text.count (ascii 'l') = 0 := by
  cases width with
  | absent => exact ⟨rfl, rfl⟩
  | numeral num =>
      exact ⟨List.count_eq_zero.mpr fun member => (digitBytes_flags num _ member).2.1 rfl,
        List.count_eq_zero.mpr fun member => (digitBytes_flags num _ member).2.2 rfl⟩
  | argument => exact ⟨rfl, rfl⟩

theorem Precision.text_count (precision : Precision) :
    precision.text.count (ascii '*') = precision.words ∧ precision.text.count (ascii 'l') = 0 := by
  cases precision with
  | absent => exact ⟨rfl, rfl⟩
  | numeral num =>
      rw [text, List.count_cons_of_ne (by decide), List.count_cons_of_ne (by decide)]
      exact ⟨List.count_eq_zero.mpr fun member => (digitBytes_flags num _ member).2.1 rfl,
        List.count_eq_zero.mpr fun member => (digitBytes_flags num _ member).2.2 rfl⟩
  | argument => exact ⟨rfl, rfl⟩

theorem Spec.stars_modifiers : stars spec.modifiers = spec.ap := by
  have none : spec.flags.count (ascii '*') = 0 :=
    List.count_eq_zero.mpr fun member => (isSetting_flags (spec.settings _ member)).2.1 rfl
  have longs : (List.replicate spec.longs (ascii 'l')).count (ascii '*') = 0 := by
    rw [List.count_replicate, if_neg (by decide)]
  rw [stars, spec.modifiers_count, none, longs, spec.width.text_count.1, spec.precision.text_count.1, Nat.zero_add,
    Nat.add_zero]
  rfl

theorem Spec.longFlag_modifiers :
    longFlag spec.modifiers = longFlag (List.replicate spec.longs (ascii 'l')) := by
  have none : spec.flags.count (ascii 'l') = 0 :=
    List.count_eq_zero.mpr fun member => (isSetting_flags (spec.settings _ member)).2.2 rfl
  rw [longFlag, longFlag, spec.modifiers_count, none, spec.width.text_count.2, spec.precision.text_count.2]
  simp only [Nat.zero_add]

theorem Spec.words_eq : stars spec.modifiers + conversionWords spec.modifiers spec.conv.byte = spec.words := by
  rw [spec.stars_modifiers, conversionWords, spec.longFlag_modifiers]
  rfl

end Words

section Printing

variable {spec : Spec} {env : Environment}

theorem Spec.directive_inRange (spec : Spec) (env : Environment) : (spec.directive env).InRange := by
  obtain ⟨flags, all, width, precision, longs, conv⟩ := spec
  have bounds := wrap32_range (width.value env)
  rw [width.value_range env] at bounds
  constructor
  · dsimp only [directive]
    cases precision with
    | absent => exact width.value_range env
    | _ => exact wrap32_eq (le_max_of_le_right (by decide)) (max_lt bounds.2 (by decide))
  · dsimp only [directive]
    cases precision with
    | absent => exact wrap32_eq (show (-2147483648 : Int) ≤ -1 by decide) (show (-1 : Int) < 2147483648 by decide)
    | numeral num => exact wrap32_eq (wrap32_range num).1 (wrap32_range num).2
    | argument => exact signedWord_range _

theorem Spec.Valid.width_lt (valid : spec.Valid env) :
    -1073741824 ≤ (spec.directive env).width ∧ (spec.directive env).width < 2147483648 := by
  have bounds := wrap32_range (spec.directive env).width
  rw [(spec.directive_inRange env).1] at bounds
  exact ⟨valid.width, bounds.2⟩

/-- The digits never count the width down past the least integer. -/
theorem Spec.Valid.count (valid : spec.Valid env) (base : Base) (v : Int) :
    wrap32 ((spec.directive env).width - digitCount base v) = (spec.directive env).width - digitCount base v := by
  have bounds := valid.width_lt
  have short := digitCount_le base v
  exact wrap32_eq (by omega) (by omega)

/-- The end of the string lies behind its text. -/
theorem stringText_split {ap : Nat} (terminated : 0 ∈ stringArgument env ap) :
    0 ∉ stringText env ap ∧ ∃ tail, stringArgument env ap = stringText env ap ++ 0 :: tail := by
  obtain ⟨text, rest, split, plain, stops⟩ := exists_longest (· ≠ 0) (stringArgument env ap)
  have noEnd : 0 ∉ text := fun member => plain 0 member rfl
  obtain ⟨tail, rfl⟩ : ∃ tail, rest = 0 :: tail := by
    cases rest with
    | nil => exact absurd terminated (by rwa [split, List.append_nil])
    | cons b tail =>
        obtain rfl : b = 0 := not_not.mp (stops b rfl)
        exact ⟨tail, rfl⟩
  have same : stringText env ap = text := by
    rw [stringText, split, List.takeWhile_append_of_pos fun b member => decide_eq_true (plain b member)]
    simp
  exact ⟨same ▸ noEnd, tail, same ▸ split⟩

/-- A string is printed in its field. -/
theorem Spec.printString_field (valid : spec.Valid env) (string : spec.conv = .string) :
    printString collect (spec.directive env) (stringArgument env spec.ap) [] = some (spec.printed env) := by
  obtain ⟨terminated, object⟩ := valid.string string
  obtain ⟨noEnd, tail, split⟩ := stringText_split terminated
  have bounds := valid.width_lt
  have range := spec.directive_inRange env
  have text := isText_cut noEnd tail (spec.directive env).precision
  have short := cut_length_le (stringText env spec.ap) (spec.directive env).precision
  have meaning : spec.printed env = stringField (spec.directive env).padc (spec.directive env).width
      ((cut (stringText env spec.ap) (spec.directive env).precision).map (shown (spec.directive env).altflag)) := by
    rw [Spec.printed, string]
  rw [split, meaning, stringField, List.length_map]
  by_cases right : (spec.directive env).width > 0 ∧ (spec.directive env).padc ≠ ascii '-'
  · have behind : wrap32 (min ((spec.directive env).width -
        (cut (stringText env spec.ap) (spec.directive env).precision).length) 0 -
        (cut (stringText env spec.ap) (spec.directive env).precision).length) ≤ 0 := by
      rw [wrap32_eq (by omega) (by omega)]
      omega
    rw [printString_right text range right (by omega), Int.toNat_of_nonpos behind, if_neg right.2]
    simp
  · rw [printString_left text range right, wrap32_eq (by omega) (by omega)]
    by_cases minus : (spec.directive env).padc = ascii '-'
    · rw [if_pos minus, List.nil_append]
    · have none : (spec.directive env).width ≤ 0 := by
        by_contra positive
        exact right ⟨by omega, minus⟩
      rw [if_neg minus, Int.toNat_of_nonpos (by omega)]
      simp

/-- An error code is printed as its text, whatever the settings are. -/
theorem conversion_errorText {d : Directive} {ap : Nat} {fmt : Cursor}
    (valid : signedWord (env.word ap) ≠ -2147483648) :
    conversion (printfmtNested collect 1) collect env d ap (ascii 'e') fmt [] =
      some (ap + 1, fmt, errorText (signedWord (env.word ap))) := by
  have code := errorCode_natAbs valid
  have range := wrap32_range (env.word ap).toNat
  rw [← signedWord] at range
  have last : maxerror = 6 := rfl
  unfold errorText
  by_cases inside : 1 ≤ (signedWord (env.word ap)).natAbs ∧ ((signedWord (env.word ap)).natAbs : Int) ≤ maxerror
  · have selected := errorMessage_present inside
    rw [← code] at selected
    have run := conversion_code (printfmtNested collect 1) collect d fmt [] selected
    dsimp only at run
    rw [printfmtNested, nested_message (by omega)] at run
    rw [if_pos inside]
    exact run
  · have selected := errorMessage_absent inside
    rw [← code] at selected
    have run := conversion_code (printfmtNested collect 1) collect d fmt [] selected
    dsimp only at run
    rw [printfmtNested, code, nested_code env.bytes (by omega)] at run
    rw [if_neg inside]
    exact run

/-- A format of one directive prints what the directive means. -/
theorem Spec.output (valid : spec.Valid env) : Printfmt.output (spec.text ++ [0]) env = some (spec.printed env) := by
  obtain ⟨passed, read⟩ := spec.read env
  have format : spec.text ++ [0] = ascii '%' :: (spec.modifiers ++ [spec.conv.byte, 0]) := by
    rw [Spec.text, List.append_assoc]
    rfl
  have small := (env.word spec.ap).toNat_lt
  rw [format]
  cases conv : spec.conv with
  | char =>
      rw [conv] at read
      rw [Spec.printed, conv]
      exact output_directive read rfl
  | error =>
      rw [conv] at read
      rw [Spec.printed, conv]
      exact output_directive read (conversion_errorText (valid.error conv))
  | string =>
      rw [conv] at read
      exact (output_string read).trans (spec.printString_field valid conv)
  | number letter base listed =>
      rw [conv] at read
      have run := output_numeric base listed read
      dsimp only at run
      rw [valid.count] at run
      rw [Spec.printed, conv]
      exact run
  | pointer =>
      rw [conv] at read
      have run : conversion (printfmtNested collect 1) collect env (spec.directive env) spec.ap (ascii 'p')
          ⟨passed, [0]⟩ [] = some (spec.ap + 1, ⟨passed, [0]⟩, spec.printed env) := by
        have size : magnitude (env.word spec.ap).toNat = (env.word spec.ap).toNat := magnitude_unsigned (by omega)
        have count := valid.count .hexadecimal (env.word spec.ap).toNat
        rw [digitCount, size] at count
        rw [conversion_pointer, printnum_wrapped, count, Spec.printed, conv, paddedNumber, signOf_unsigned, digitCount,
          size]
        simp [collect]
      exact output_directive read run
  | percent =>
      rw [conv] at read
      rw [Spec.printed, conv]
      exact output_directive read rfl

theorem Spec.Valid.argument (valid : spec.Valid env) : ValidArgument env spec.ap spec.conv.byte := by
  constructor
  · intro same
    have string : spec.conv = .string := by
      cases conv : spec.conv with
      | string => rfl
      | number letter base listed =>
          rw [conv] at same
          obtain rfl : letter = ascii 's' := same
          revert listed
          simp only [numeric, List.mem_cons, Prod.mk.injEq, List.not_mem_nil, or_false]
          rintro (⟨other, _⟩ | ⟨other, _⟩ | ⟨other, _⟩ | ⟨other, _⟩) <;> exact absurd other (by decide)
      | _ =>
          rw [conv] at same
          exact absurd same (by decide)
    have terminated := (valid.string string).1
    unfold stringArgument at terminated
    split at terminated
    · exact .inl ‹_›
    · exact .inr terminated
  · intro same
    have error : spec.conv = .error := by
      cases conv : spec.conv with
      | error => rfl
      | number letter base listed =>
          rw [conv] at same
          obtain rfl : letter = ascii 'e' := same
          revert listed
          simp only [numeric, List.mem_cons, Prod.mk.injEq, List.not_mem_nil, or_false]
          rintro (⟨other, _⟩ | ⟨other, _⟩ | ⟨other, _⟩ | ⟨other, _⟩) <;> exact absurd other (by decide)
      | _ =>
          rw [conv] at same
          exact absurd same (by decide)
    intro least
    apply valid.error error
    rw [least]
    decide

theorem Spec.prints (valid : spec.Valid env) : Prints env spec.text spec.words (spec.printed env) := by
  have argument := valid.argument
  rw [← spec.stars_modifiers] at argument
  rw [← spec.words_eq]
  refine .of_advances (fun s => ?_) (Spec.output valid)
  exact advances_directive spec.modifiers_flags spec.conv.listed (by rwa [Nat.zero_add])

end Printing

/-- A piece of a format: characters that stand for themselves, or a directive. -/
inductive Item
  | literal (text : List UInt8) (plain : ∀ b ∈ text, b ≠ ascii '%' ∧ b ≠ 0)
  | directive (spec : Spec)

def Item.text : Item → List UInt8
  | .literal text _ => text
  | .directive spec => spec.text

def Item.words : Item → Nat
  | .literal _ _ => 0
  | .directive spec => spec.words

def Item.printed : Item → Environment → List Int
  | .literal text _, _ => text.map fun b => (b.toNat : Int)
  | .directive spec, env => spec.printed env

def Item.Valid : Item → Environment → Prop
  | .literal _ _, _ => True
  | .directive spec, env => spec.Valid env

theorem Item.prints {item : Item} {env : Environment} (valid : item.Valid env) :
    Prints env item.text item.words (item.printed env) := by
  cases item with
  | literal text plain =>
      intro s
      have here : Advances collect env 0 text 0 s (emit collect text s) := advances_plain plain
      rwa [emit, foldl_collect fun b : UInt8 => (b.toNat : Int)] at here
  | directive spec => exact Spec.prints valid

/-- The bytes of a format. -/
def formatText (items : List Item) : List UInt8 := items.flatMap Item.text

/-- What a format prints: each item takes the argument words that the earlier ones have left. -/
def formatPrinted : List Item → Environment → List Int
  | [], _ => []
  | item :: rest, env => item.printed env ++ formatPrinted rest (env.advance item.words)

def FormatValid : List Item → Environment → Prop
  | [], _ => True
  | item :: rest, env => item.Valid env ∧ FormatValid rest (env.advance item.words)

theorem prints_items {items : List Item} {env : Environment} (valid : FormatValid items env) :
    ∃ words, Prints env (formatText items) words (formatPrinted items env) := by
  induction items generalizing env with
  | nil => exact ⟨0, prints_nil env⟩
  | cons item rest ih =>
      obtain ⟨words, later⟩ := ih valid.2
      exact ⟨item.words + words, (Item.prints valid.1).append later⟩

theorem output_items {items : List Item} {env : Environment} (valid : FormatValid items env) :
    output (formatText items ++ [0]) env = some (formatPrinted items env) := by
  obtain ⟨words, prints⟩ := prints_items valid
  exact prints.output

/-- `vprintfmt` puts into its sink exactly the characters that the items of its format mean. -/
theorem vprintfmt_items {σ : Type} (putch : Int → σ → σ) (items : List Item) (env : Environment) (s : σ)
    (valid : FormatValid items env) :
    vprintfmt putch (formatText items ++ [0]) env s =
      some ((formatPrinted items env).foldl (fun s ch => putch ch s) s) := by
  rw [vprintfmt_output, output_items valid, Option.map_some]

/-- The format `"<%-4.*s|%08lx>"` with the precision two, a string and a number. -/
theorem vprintfmt_items_two :
    let items : List Item := [.literal [60] (by decide +kernel),
      .directive ⟨[45], by decide +kernel, .numeral 4 (by decide +kernel), .argument, 0, .string⟩,
      .literal [124] (by decide +kernel),
      .directive ⟨[48], by decide +kernel, .numeral 8 (by decide +kernel), .absent, 1,
        .number (ascii 'x') .hexadecimal (by decide +kernel)⟩,
      .literal [62] (by decide +kernel)]
    let env : Environment := ⟨fun i => if i = 0 then 2 else 4096, fun _ => [65, 66, 67, 0]⟩
    vprintfmt collect (formatText items ++ [0]) env [] =
      some ((formatPrinted items env).foldl (fun s ch => collect ch s) []) :=
  vprintfmt_items collect _ ⟨fun i => if i = 0 then 2 else 4096, fun _ => [65, 66, 67, 0]⟩ []
    ⟨trivial, ⟨by decide +kernel, fun _ => by decide +kernel, nofun⟩, trivial, ⟨by decide +kernel, nofun, nofun⟩,
      trivial, trivial⟩

end JosSmp.Printfmt
