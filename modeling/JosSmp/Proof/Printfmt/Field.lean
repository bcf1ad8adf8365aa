import JosSmp.Proof.Printfmt.Settings

/-!
This file gives what a numeric directive prints with flags and a width.
-/

namespace JosSmp.Printfmt
open Library Machine Cstring

/-- The directives that print a number of any size, with their bases. -/
def numeric : List (UInt8 × Nat) := [(ascii 'd', 10), (ascii 'u', 10), (ascii 'o', 8), (ascii 'x', 16)]

/-- The value that a numeric directive reads. -/
def argument (env : Environment) (ap : Nat) (lflag : Int) (conv : UInt8) : Int :=
  if conv = ascii 'd' then (getint env ap lflag).1 else (getuint env ap lflag).1

section Conversion

variable {env : Environment} {d : Directive} {ap : Nat} {fmt : Cursor} {conv : UInt8} {out : List Int}
  {printfmt : List UInt8 → Environment → List Int → Option (List Int)}

theorem getuint_lt (env : Environment) (ap : Nat) (lflag : Int) : (getuint env ap lflag).1 < 2 ^ 64 := by
  have low := (env.word ap).toNat_lt
  have high := (env.word (ap + 1)).toNat_lt
  unfold getuint
  split <;> dsimp only <;> omega

theorem magnitude_unsigned {num : Nat} (small : num < 2 ^ 64) : magnitude num = num := by
  rw [magnitude, if_neg (by omega), toUnsigned64]
  omega

theorem signOf_unsigned (num : Nat) : signOf num = [] := if_neg (by omega)

/-- Each numeric directive prints a sign, and passes the magnitude to `printnum`. -/
theorem conversion_numeric (base : Base) (listed : (conv, base.value) ∈ numeric) :
    ∃ ap', conversion printfmt collect env d ap conv fmt out =
      some (ap', fmt, printnum collect (magnitude (argument env ap d.lflag conv)) base d.width d.padc
        (out ++ signOf (argument env ap d.lflag conv))) := by
  obtain ⟨rfl, same⟩ | unsigned := List.mem_cons.mp listed |>.imp_left Prod.mk.inj
  · obtain rfl : base = .decimal := by
      obtain ⟨value, least, most⟩ := base
      subst same
      rfl
    refine ⟨(getint env ap d.lflag).2, ?_⟩
    rw [conversion_decimal, argument, if_pos rfl]
    unfold signOf
    split <;> simp [collect]
  · have other : conv ≠ ascii 'd' := by
      rintro rfl
      simp only [List.mem_cons, Prod.mk.injEq, List.not_mem_nil, or_false] at unsigned
      obtain ⟨same, _⟩ | ⟨same, _⟩ | ⟨same, _⟩ := unsigned <;> exact absurd same (by decide)
    refine ⟨(getuint env ap d.lflag).2, ?_⟩
    rw [conversion_unsigned base unsigned, argument, if_neg other,
      magnitude_unsigned (getuint_lt env ap d.lflag), signOf_unsigned, List.append_nil]

/-- The number of digits that a numeric directive prints. -/
def digitCount (base : Base) (v : Int) : Nat := (digitsOf base (magnitude v)).length

theorem digitCount_le (base : Base) (v : Int) : digitCount base v ≤ 64 := digitsOf_le base (magnitude_lt v)

/-- A format whose only directive is numeric prints a sign, what is padded, and digits. -/
theorem output_numeric {flags passed : List UInt8} (base : Base) (listed : (conv, base.value) ∈ numeric)
    (read : reswitch env .initial 0 ⟨[ascii '%'], flags⟩ = some (d, ap, conv, ⟨passed, [0]⟩)) :
    let v := argument env ap d.lflag conv
    output (ascii '%' :: flags) env =
      some (signOf v ++ List.replicate (wrap32 (d.width - digitCount base v)).toNat (signedChar d.padc) ++
        digitsOf base (magnitude v)) := by
  intro v
  obtain ⟨ap', run⟩ : ∃ ap', conversion (printfmtNested collect 1) collect env d ap conv ⟨passed, [0]⟩ [] =
      some (ap', ⟨passed, [0]⟩, printnum collect (magnitude v) base d.width d.padc ([] ++ signOf v)) :=
    conversion_numeric base listed
  rw [printnum_wrapped, List.nil_append] at run
  exact output_directive read run

end Conversion

section Formats

variable {env : Environment} {conv : UInt8} {flags : List UInt8} {k w : Nat}

/-- The end of a format whose only directive has `k` times the modifier `l`. -/
def sized (k : Nat) (conv : UInt8) : List UInt8 := List.replicate k (ascii 'l') ++ [conv, 0]

/-- The format of a numeric directive without flags and width. -/
def plainFormat (k : Nat) (conv : UInt8) : List UInt8 := ascii '%' :: sized k conv

/-- The format of a numeric directive with a width. -/
def fieldFormat (flags : List UInt8) (w k : Nat) (conv : UInt8) : List UInt8 :=
  ascii '%' :: (flags ++ (digitBytes 10 w ++ sized k conv))

theorem numeric_plain : ∀ entry ∈ numeric, ¬ isFlag entry.1 ∧ EndsNumber entry.1 := by decide

theorem reswitch_sized (env : Environment) (k : Nat) {d : Directive} (passed : List UInt8) (short : d.lflag = 0)
    (last : ¬ isFlag conv) :
    reswitch env d 0 ⟨passed, sized k conv⟩ =
      some ({ d with lflag := wrap32 k }, 0, conv, ⟨conv :: (List.replicate k (ascii 'l') ++ passed), [0]⟩) := by
  have start : d = { d with lflag := wrap32 0 } := by
    rw [show wrap32 0 = 0 by decide, ← short]
  rw [sized, start, reswitch_longs, reswitch_end last, Int.zero_add]

/-- A width is read behind its flags, and wraps. -/
theorem reswitch_field (env : Environment) (k : Nat) (all : ∀ b ∈ flags, isSetting b) (positive : 0 < w)
    (last : ¬ isFlag conv) (ends : EndsNumber conv) :
    ∃ passed', reswitch env .initial 0 ⟨[ascii '%'], flags ++ (digitBytes 10 w ++ sized k conv)⟩ =
      some ({ Directive.settings flags with width := wrap32 w, lflag := wrap32 k }, 0, conv, ⟨passed', [0]⟩) := by
  obtain ⟨ch, rest, first, stops⟩ : ∃ ch rest, sized k conv = ch :: rest ∧ EndsNumber ch := by
    cases k with
    | zero => exact ⟨conv, [0], rfl, ends⟩
    | succ k => exact ⟨ascii 'l', sized k conv, rfl, by decide⟩
  rw [reswitch_settings all, first, reswitch_number positive stops, ← first]
  exact ⟨_, reswitch_sized env k _ (d := { Directive.settings flags with width := wrap32 w }) rfl last⟩

theorem output_field (env : Environment) (k : Nat) (base : Base) (listed : (conv, base.value) ∈ numeric)
    (all : ∀ b ∈ flags, isSetting b) (positive : 0 < w) :
    let v := argument env 0 (wrap32 k) conv
    output (fieldFormat flags w k conv) env =
      some (signOf v ++ List.replicate (wrap32 (w - digitCount base v)).toNat (signedChar (padOf flags)) ++
        digitsOf base (magnitude v)) := by
  intro v
  obtain ⟨last, ends⟩ : ¬ isFlag conv ∧ EndsNumber conv := numeric_plain _ listed
  obtain ⟨passed, read⟩ := reswitch_field env k all positive last ends
  have same : wrap32 (wrap32 w - digitCount base v) = wrap32 (w - digitCount base v) := by
    apply wrap32_congr
    have same := wrap32_mod w
    omega
  have run := output_numeric base listed read
  dsimp only [Directive.settings] at run
  rw [same] at run
  exact run

theorem output_plain (env : Environment) (k : Nat) (base : Base) (listed : (conv, base.value) ∈ numeric) :
    let v := argument env 0 (wrap32 k) conv
    output (plainFormat k conv) env = some (signOf v ++ digitsOf base (magnitude v)) := by
  intro v
  have last : ¬ isFlag conv := (numeric_plain _ listed).1
  have short := digitCount_le base v
  have none : wrap32 (-1 - digitCount base v) = -1 - digitCount base v := wrap32_eq (by omega) (by omega)
  have read := reswitch_sized env k (d := .initial) [ascii '%'] rfl last
  have run := output_numeric base listed read
  dsimp only [Directive.initial] at run
  rw [none, Int.toNat_of_nonpos (by omega), List.replicate_zero, List.append_nil] at run
  exact run

end Formats

section Words

variable {env : Environment} {ch : UInt8}

/-- The text of a signed word. -/
def decimalText (word : UInt32) : List Int :=
  signOf (signedWord word) ++ digitsOf .decimal (magnitude (signedWord word))

/-- With at most one `l` a signed number is one word. -/
theorem output_word (env : Environment) (k : Nat) (short : wrap32 k < 2) :
    output (plainFormat k (ascii 'd')) env = some (decimalText (env.word 0)) := by
  have listed : (ascii 'd', Base.decimal.value) ∈ numeric := by decide
  have value : argument env 0 (wrap32 k) (ascii 'd') = signedWord (env.word 0) := by
    rw [argument, if_pos rfl, getint_short short]
  rw [output_plain env k .decimal listed, value, decimalText]

theorem output_decimal : output (literal "%d") env = some (decimalText (env.word 0)) := output_word env 0 (by decide)

theorem output_long : output (literal "%ld") env = some (decimalText (env.word 0)) := output_word env 1 (by decide)

theorem output_unsigned (base : Base) (listed : (ch, base.value) ∈ numeric) (other : ch ≠ ascii 'd') :
    output [ascii '%', ch, 0] env = some (digitsOf base (env.word 0).toNat) := by
  have small := (env.word 0).toNat_lt
  have value : argument env 0 (wrap32 (0 : Nat)) ch = (env.word 0).toNat := by
    rw [argument, if_neg other, getuint_short (by decide)]
  refine (output_plain env 0 base listed).trans ?_
  rw [value, signOf_unsigned, magnitude_unsigned (by omega), List.nil_append]

end Words

end JosSmp.Printfmt
