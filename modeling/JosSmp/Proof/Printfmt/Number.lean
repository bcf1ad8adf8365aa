import JosSmp.Library.Numeral
import JosSmp.Proof.Printfmt.Sink

/-!
This file gives the text that `printnum` and a numeric directive print.
-/

namespace JosSmp.Printfmt
open Library Machine

/-- A padding loop prints its character as often as the width says. -/
theorem padLoop_collect (padc : UInt8) (width : Int) (out : List Int) :
    padLoop collect padc width out =
      (width - width.toNat, out ++ List.replicate width.toNat (signedChar padc)) := by
  fun_induction padLoop collect padc width out with
  | case1 width out positive ih =>
      have count : width.toNat = (width - 1).toNat + 1 := by omega
      have left : width - 1 - (width - 1).toNat = width - width.toNat := by omega
      rw [ih, left, collect, List.append_assoc, count, List.replicate_succ]
      rfl
  | case2 width out done =>
      rw [Int.toNat_of_nonpos (by omega), List.replicate_zero, List.append_nil]
      simp

/-- The digits of a number as `printnum` prints them. -/
def digitsOf (base : Base) (num : Nat) : List Int := (numeral base.value num).map digitChar

theorem digitsOf_length (base : Base) (num : Nat) :
    (digitsOf base num).length = (numeral base.value num).length := List.length_map _

/-- The width is counted down modulo `2 ^ 32` once for each digit, and what is left is padded. -/
theorem printnum_wrapped (base : Base) (num : Nat) (width : Int) (padc : UInt8) (out : List Int) :
    printnum collect num base width padc out =
      out ++ List.replicate (wrap32 (width - (digitsOf base num).length)).toNat (signedChar padc) ++
        digitsOf base num := by
  induction num using numeral_induction base.least generalizing width with
  | small num below =>
      have one : digitsOf base num = [digitChar num] := by rw [digitsOf, numeral_small below, List.map_singleton]
      rw [one, List.length_singleton, printnum, if_neg (not_le.mpr below), padLoop_collect, collect,
        Nat.mod_eq_of_lt below]
      rfl
  | large num above ih =>
      have more : digitsOf base num = digitsOf base (num / base.value) ++ [digitChar (num % base.value)] := by
        rw [digitsOf, numeral_large base.least above, List.map_append, List.map_singleton, digitsOf]
      have count : wrap32 (wrap32 (width - 1) - (digitsOf base (num / base.value)).length) =
          wrap32 (width - (digitsOf base num).length) := by
        apply wrap32_congr
        have same := wrap32_mod (width - 1)
        rw [more, List.length_append, List.length_singleton]
        omega
      rw [printnum, if_pos above, ih, count, collect, more, ← List.append_assoc]

theorem digitsOf_short (base : Base) {num : Nat} (k : Nat) (small : num < base.value ^ (k + 1)) :
    (digitsOf base num).length ≤ k + 1 := by
  rw [digitsOf_length]
  exact numeral_length_le base.least small

theorem digitsOf_le (base : Base) {num : Nat} (small : num < 2 ^ 64) : (digitsOf base num).length ≤ 64 :=
  digitsOf_short base 63 (lt_of_lt_of_le small (Nat.pow_le_pow_left base.least 64))

/-- A width that the digits cannot count down past the least integer pads the number up to it. -/
theorem printnum_padded (base : Base) {num : Nat} (small : num < 2 ^ 64) {width : Int}
    (lower : -2147483648 + 64 ≤ width) (upper : width ≤ 2147483647) (padc : UInt8) (out : List Int) :
    printnum collect num base width padc out =
      out ++ List.replicate (width - (digitsOf base num).length).toNat (signedChar padc) ++ digitsOf base num := by
  have short := digitsOf_le base small
  rw [printnum_wrapped, wrap32_eq (by omega) (by omega)]

/-- A number without a width is printed as its digits. -/
theorem printnum_plain (base : Base) {num : Nat} (small : num < 2 ^ 64) (padc : UInt8) (out : List Int) :
    printnum collect num base (-1) padc out = out ++ digitsOf base num := by
  rw [printnum_padded base small (by decide) (by decide), Int.toNat_of_nonpos (by omega), List.replicate_zero,
    List.append_nil]

/-- The digits are printed in lower case. -/
theorem digitsOf_lower (base : Base) (num : Nat) :
    digitsOf base num = (numeral base.value num).map fun k => ((Nat.digitChar k).toNat : Int) := by
  have lower : ∀ k < 16, digitChar k = ((Nat.digitChar k).toNat : Int) := by decide
  rw [digitsOf]
  apply List.map_congr_left
  intro k member
  exact lower k (lt_of_lt_of_le (numeral_lt base.least k member) base.most)

/-- `printnum` passes to its sink the pad characters that the width leaves room for, and then the one list of digits
without a leading zero that evaluates to the number. -/
theorem printnum_canonical {σ : Type} (putch : Int → σ → σ) (num : Nat) (base : Base) (width : Int) (padc : UInt8)
    (s : σ) (small : num < 2 ^ 64) (lower : -2147483648 + 64 < width) (upper : width ≤ 2147483647) :
    (∃! digits, Canonical base.value num digits) ∧ ∀ digits, Canonical base.value num digits →
      printnum putch num base width padc s =
        (List.replicate (width - digits.length).toNat (signedChar padc) ++
          digits.map fun k => ((Nat.digitChar k).toNat : Int)).foldl (fun s ch => putch ch s) s := by
  refine ⟨⟨numeral base.value num, numeral_canonical base.least num, ?_⟩, ?_⟩
  · intro digits canonical
    exact canonical.eq_numeral base.least
  · intro digits canonical
    have printed := printnum_padded base small (le_of_lt lower) upper padc []
    rw [digitsOf_length, digitsOf_lower, List.nil_append] at printed
    rw [printnum_output, printed, canonical.eq_numeral base.least]

/-- Two digits in a width of four are padded with two zeros. -/
theorem printnum_canonical_four :
    (∃! digits, Canonical 16 255 digits) ∧ ∀ digits, Canonical 16 255 digits →
      printnum collect 255 .hexadecimal 4 (ascii '0') [] =
        (List.replicate (4 - (digits.length : Int)).toNat (signedChar (ascii '0')) ++
          digits.map fun k => ((Nat.digitChar k).toNat : Int)).foldl (fun s ch => collect ch s) [] :=
  printnum_canonical collect 255 .hexadecimal 4 (ascii '0') [] (by decide) (by decide) (by decide)

section Flags

variable {env : Environment} {d : Directive} {ap : Nat} {passed rest : List UInt8} {ch : UInt8}

/-- One step of the flags. -/
theorem reswitch_cons :
    reswitch env d ap ⟨passed, ch :: rest⟩ =
      if ch = ascii '-' then reswitch env { d with padc := ascii '-' } ap ⟨ch :: passed, rest⟩
      else if ch = ascii '0' then reswitch env { d with padc := ascii '0' } ap ⟨ch :: passed, rest⟩
      else if ascii '1' ≤ ch ∧ ch ≤ ascii '9' then
        (digits (ch :: passed) 0 ch.toNat rest).bind fun number =>
          reswitch env (d.processPrecision number.1) ap number.2
      else if ch = ascii '*' then
        reswitch env (d.processPrecision (signedWord (env.word ap))) (ap + 1) ⟨ch :: passed, rest⟩
      else if ch = ascii '.' then
        reswitch env (if d.width < 0 then { d with width := 0 } else d) ap ⟨ch :: passed, rest⟩
      else if ch = ascii '#' then reswitch env { d with altflag := true } ap ⟨ch :: passed, rest⟩
      else if ch = ascii 'l' then reswitch env { d with lflag := wrap32 (d.lflag + 1) } ap ⟨ch :: passed, rest⟩
      else some (d, ap, ch, ⟨ch :: passed, rest⟩) := by
  rw [reswitch]
  dsimp only
  split
  · rfl
  split
  · rfl
  split
  · split
    · rename_i unread
      rw [unread, Option.bind_none]
    · rename_i number
      rw [number, Option.bind_some]
  · rfl

/-- A character that is no flag ends the flags. -/
theorem reswitch_end (last : ¬ isFlag ch) :
    reswitch env d ap ⟨passed, ch :: rest⟩ = some (d, ap, ch, ⟨ch :: passed, rest⟩) := by
  simp only [isFlag, not_or] at last
  obtain ⟨minus, digit, star, dot, sharp, long⟩ := last
  have zero : ch ≠ ascii '0' := by
    rintro rfl
    exact digit (by decide)
  have nonzero : ¬ (ascii '1' ≤ ch ∧ ch ≤ ascii '9') := fun inside =>
    digit ⟨UInt8.le_trans (by decide) inside.1, inside.2⟩
  rw [reswitch_cons, if_neg minus, if_neg zero, if_neg nonzero, if_neg star, if_neg dot, if_neg sharp, if_neg long]

theorem reswitch_long :
    reswitch env d ap ⟨passed, ascii 'l' :: rest⟩ =
      reswitch env { d with lflag := wrap32 (d.lflag + 1) } ap ⟨ascii 'l' :: passed, rest⟩ := by
  rw [reswitch_cons]
  rfl

end Flags

section Conversion

variable {σ : Type} {printfmt : List UInt8 → Environment → σ → Option σ} {putch : Int → σ → σ} {env : Environment}
  {d : Directive} {ap : Nat} {fmt : Cursor} {ch : UInt8} {passed rest : List UInt8} {s : σ}

/-- The sign that `%d` prints, and the magnitude that it passes to `printnum`. -/
def signOf (num : Int) : List Int := if num < 0 then ['-'.toNat] else []

def magnitude (num : Int) : Nat := toUnsigned64 (if num < 0 then wrap64 (-num) else num)

theorem conversion_decimal :
    conversion printfmt putch env d ap (ascii 'd') fmt s =
      some ((getint env ap d.lflag).2, fmt,
        printnum putch (magnitude (getint env ap d.lflag).1) .decimal d.width d.padc
          ((signOf (getint env ap d.lflag).1).foldl (fun s ch => putch ch s) s)) := by
  have unfolded : conversion printfmt putch env d ap (ascii 'd') fmt s =
      if (getint env ap d.lflag).1 < 0 then
        some ((getint env ap d.lflag).2, fmt,
          printnum putch (toUnsigned64 (wrap64 (-(getint env ap d.lflag).1))) .decimal d.width d.padc
            (putch '-'.toNat s))
      else some ((getint env ap d.lflag).2, fmt,
          printnum putch (toUnsigned64 (getint env ap d.lflag).1) .decimal d.width d.padc s) := rfl
  rw [unfolded, magnitude, signOf]
  split <;> rfl

/-- The directives that print an unsigned number differ only in the base. -/
theorem conversion_unsigned (base : Base)
    (listed : (ch, base.value) ∈ [(ascii 'u', 10), (ascii 'o', 8), (ascii 'x', 16)]) :
    conversion printfmt putch env d ap ch fmt s =
      some ((getuint env ap d.lflag).2, fmt,
        printnum putch (getuint env ap d.lflag).1 base d.width d.padc s) := by
  obtain ⟨value, least, most⟩ := base
  simp only [List.mem_cons, Prod.mk.injEq, List.not_mem_nil, or_false] at listed
  obtain ⟨rfl, rfl⟩ | ⟨rfl, rfl⟩ | ⟨rfl, rfl⟩ := listed <;> rfl

theorem conversion_pointer :
    conversion printfmt putch env d ap (ascii 'p') fmt s =
      some (ap + 1, fmt, printnum putch (env.word ap).toNat .hexadecimal d.width d.padc
        (putch 'x'.toNat (putch '0'.toNat s))) := rfl

/-- A directive without flags is its conversion with the initial settings. -/
theorem vprintfmtLoop_conversion (last : ¬ isFlag ch) :
    vprintfmtLoop printfmt putch env ap ⟨passed, ascii '%' :: ch :: rest⟩ s =
      (conversion printfmt putch env .initial ap ch ⟨ch :: ascii '%' :: passed, rest⟩ s).bind fun (ap, fmt, s) =>
        vprintfmtLoop printfmt putch env ap fmt s := by
  rw [vprintfmtLoop_directive rfl, reswitch_end last]
  rfl

end Conversion

theorem magnitude_lt (num : Int) : magnitude num < 2 ^ 64 := by
  unfold magnitude toUnsigned64
  omega

section Output

variable {env : Environment} {ch : UInt8}

/-- A format that ends behind its only conversion prints what the conversion prints. -/
theorem output_directive {fmt : List UInt8} {d : Directive} {ap ap' : Nat} {passed : List UInt8} {out : List Int}
    (flags : reswitch env .initial 0 ⟨[ascii '%'], fmt⟩ = some (d, ap, ch, ⟨passed, [0]⟩))
    (run : conversion (printfmtNested collect 1) collect env d ap ch ⟨passed, [0]⟩ [] =
      some (ap', ⟨passed, [0]⟩, out)) : output (ascii '%' :: fmt) env = some out := by
  change vprintfmtLoop (printfmtNested collect 1) collect env 0 ⟨[], ascii '%' :: fmt⟩ [] = some out
  rw [vprintfmtLoop_directive rfl, flags, Option.bind_some]
  dsimp only
  rw [run, Option.bind_some]
  exact vprintfmtLoop_end rfl

theorem getint_short {lflag : Int} (short : lflag < 2) (ap : Nat) :
    getint env ap lflag = (signedWord (env.word ap), ap + 1) := by
  rw [getint, if_neg (by omega)]

theorem getuint_short {lflag : Int} (short : lflag < 2) (ap : Nat) :
    getuint env ap lflag = ((env.word ap).toNat, ap + 1) := by
  rw [getuint, if_neg (by omega)]

theorem output_pointer :
    output (Cstring.literal "%p") env =
      some ([('0'.toNat : Int), 'x'.toNat] ++ digitsOf .hexadecimal (env.word 0).toNat) := by
  have small := (env.word 0).toNat_lt
  have run : conversion (printfmtNested collect 1) collect env .initial 0 (ascii 'p') ⟨[ascii 'p', ascii '%'], [0]⟩ [] =
      some (1, ⟨[ascii 'p', ascii '%'], [0]⟩,
        [('0'.toNat : Int), 'x'.toNat] ++ digitsOf .hexadecimal (env.word 0).toNat) := by
    rw [conversion_pointer]
    dsimp only [Directive.initial]
    rw [printnum_plain _ (by omega)]
    rfl
  exact output_directive (reswitch_end (by decide)) run

end Output

end JosSmp.Printfmt
