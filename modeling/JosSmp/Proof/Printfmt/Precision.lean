import JosSmp.Proof.Printfmt.Text

/-!
This file gives the settings of a directive whose precision is an argument.
-/

namespace JosSmp.Printfmt
open Machine Cstring

/-- The width of a directive: none, a numeral, or an argument. -/
inductive Width
  | absent
  | numeral (num : Nat) (positive : 0 < num)
  | argument

def Width.text : Width → List UInt8
  | .absent => []
  | .numeral num _ => digitBytes 10 num
  | .argument => [ascii '*']

/-- The number of argument words that the width consumes. -/
def Width.words : Width → Nat
  | .argument => 1
  | _ => 0

/-- A directive whose precision is an argument. -/
def precisionFormat (flags : List UInt8) (width : Width) (conv : UInt8) : List UInt8 :=
  ascii '%' :: (flags ++ (width.text ++ [ascii '.', ascii '*', conv, 0]))

section Precision

variable {env : Environment} {flags : List UInt8} {width : Width} {conv : UInt8}

/-- The width that is set, minus one without any. -/
def Width.value (env : Environment) : Width → Int
  | .absent => -1
  | .numeral num _ => wrap32 num
  | .argument => signedWord (env.word 0)

theorem Width.value_range (env : Environment) (width : Width) : wrap32 (width.value env) = width.value env := by
  cases width with
  | absent => exact wrap32_eq (show -2147483648 ≤ -1 by decide) (show -1 < 2147483648 by decide)
  | numeral num => exact wrap32_eq (wrap32_range num).1 (wrap32_range num).2
  | argument => exact signedWord_range _

/-- A width is read up to the dot behind it. -/
theorem reswitch_width (env : Environment) (d : Directive) (given : d.width = -1) (none : d.precision = -1)
    (passed rest : List UInt8) (width : Width) :
    ∃ passed', reswitch env d 0 ⟨passed, width.text ++ ascii '.' :: rest⟩ =
      reswitch env { d with width := width.value env } width.words ⟨passed', ascii '.' :: rest⟩ := by
  have first (value : Int) : d.processPrecision value = { d with width := value } := by
    rw [Directive.processPrecision, if_pos (by omega), none]
  cases width with
  | absent =>
      refine ⟨passed, ?_⟩
      rw [Width.value, ← given]
      rfl
  | numeral num positive =>
      refine ⟨(digitBytes 10 num).reverse ++ passed, ?_⟩
      rw [Width.text, reswitch_number positive (by decide), first]
      rfl
  | argument =>
      refine ⟨ascii '*' :: passed, ?_⟩
      rw [Width.text, List.singleton_append, reswitch_star, first]
      rfl

/-- The directive that the flags, the width and the precision select. -/
def precisionDirective (env : Environment) (flags : List UInt8) (width : Width) : Directive :=
  { Directive.settings flags with
    width := max (width.value env) 0
    precision := signedWord (env.word width.words) }

@[simp] theorem precisionDirective_padc : (precisionDirective env flags width).padc = padOf flags := rfl

@[simp] theorem precisionDirective_width : (precisionDirective env flags width).width = max (width.value env) 0 := rfl

@[simp] theorem precisionDirective_precision :
    (precisionDirective env flags width).precision = signedWord (env.word width.words) := rfl

@[simp] theorem precisionDirective_altflag :
    (precisionDirective env flags width).altflag = decide (ascii '#' ∈ flags) := rfl

theorem precisionDirective_inRange (env : Environment) (flags : List UInt8) (width : Width) :
    (precisionDirective env flags width).InRange := by
  have bounds := wrap32_range (width.value env)
  rw [width.value_range env] at bounds
  exact ⟨wrap32_eq (le_max_of_le_right (by decide)) (max_lt bounds.2 (by decide)), signedWord_range _⟩

theorem reswitch_precisionFormat (env : Environment) (width : Width) (all : ∀ b ∈ flags, isSetting b)
    (last : ¬ isFlag conv) :
    ∃ passed, reswitch env .initial 0 ⟨[ascii '%'], flags ++ (width.text ++ [ascii '.', ascii '*', conv, 0])⟩ =
      some (precisionDirective env flags width, width.words + 1, conv, ⟨passed, [0]⟩) := by
  obtain ⟨passed, read⟩ := reswitch_width env (.settings flags) rfl rfl (flags.reverse ++ [ascii '%'])
    [ascii '*', conv, 0] width
  refine ⟨conv :: ascii '*' :: ascii '.' :: passed, ?_⟩
  rw [reswitch_settings all, read, reswitch_precision last]
  rfl

/-- The string is the argument behind the precision. -/
theorem output_precision (env : Environment) (width : Width) (all : ∀ b ∈ flags, isSetting b) :
    output (precisionFormat flags width (ascii 's')) env =
      printString collect (precisionDirective env flags width) (stringArgument env (width.words + 1)) [] := by
  obtain ⟨passed, read⟩ := reswitch_precisionFormat env width all (show ¬ isFlag (ascii 's') by decide)
  exact output_string read

end Precision

end JosSmp.Printfmt
