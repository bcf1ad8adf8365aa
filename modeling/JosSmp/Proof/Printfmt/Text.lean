import JosSmp.Proof.Printfmt.Directive
import JosSmp.Proof.Printfmt.Settings

/-!
This file gives what `%s` prints of a string, and how it justifies the text in its field.
-/

namespace JosSmp.Printfmt
open Machine

/-- A byte of a string as it is printed; the flag `#` replaces the characters outside of `' '` to `'~'`. -/
def shown (altflag : Bool) (b : UInt8) : Int :=
  if altflag ∧ (signedChar b < ' '.toNat ∨ signedChar b > '~'.toNat) then '?'.toNat else signedChar b

theorem shown_false : shown false = signedChar := by
  funext b
  exact if_neg (by simp)

section Walk

variable {σ : Type} {putch : Int → σ → σ} {altflag : Bool} {t rest : List UInt8} {width precision : Int}

/-- The precision that is left behind some characters. -/
def precisionLeft (precision : Int) (count : Nat) : Int := if precision < 0 then precision else precision - count

/-- Characters within the precision are printed one by one, and each counts down the width. -/
theorem putString_walk (noEnd : 0 ∉ t) (within : precision < 0 ∨ t.length ≤ precision)
    (range : wrap32 width = width) (s : σ) :
    putString putch altflag (t ++ rest) width precision s =
      putString putch altflag rest (wrap32 (width - t.length)) (precisionLeft precision t.length)
        (t.foldl (fun s b => putch (shown altflag b) s) s) := by
  induction t generalizing width precision s with
  | nil =>
      have left : precisionLeft precision 0 = precision := by
        unfold precisionLeft
        split <;> simp
      rw [List.length_nil, left, Int.natCast_zero, Int.sub_zero, range]
      rfl
  | cons b t ih =>
      obtain ⟨nonzero, noEnd⟩ := not_or.mp (List.mem_cons.not.mp noEnd)
      have more : precision < 0 ∨ precision - 1 ≥ 0 := by
        rw [List.length_cons] at within
        omega
      have within' : (if precision < 0 then precision else precision - 1) < 0 ∨
          t.length ≤ if precision < 0 then precision else precision - 1 := by
        rw [List.length_cons] at within
        split <;> omega
      have count : wrap32 (wrap32 (width - 1) - t.length) = wrap32 (width - (t.length + 1 : Nat)) := by
        apply wrap32_congr
        have same := wrap32_mod (width - 1)
        omega
      have left : precisionLeft (if precision < 0 then precision else precision - 1) t.length =
          precisionLeft precision (t.length + 1) := by
        unfold precisionLeft
        by_cases negative : precision < 0
        · simp only [if_pos negative]
        · rw [if_neg negative, if_neg negative]
          split <;> omega
      rw [List.cons_append, putString]
      simp only [if_neg (mt signedChar_eq_zero.mp (Ne.symm nonzero)), if_pos more]
      rw [ih noEnd within' (wrap32_eq (wrap32_range _).1 (wrap32_range _).2), count, left]
      rfl

/-- The part of the readable bytes that `%s` prints: it ends in front of a zero, or with the precision. -/
def IsText (bytes : List UInt8) (precision : Int) (t : List UInt8) : Prop :=
  0 ∉ t ∧ ∃ b rest, bytes = t ++ b :: rest ∧
    (b = 0 ∧ (precision < 0 ∨ t.length ≤ precision) ∨ precision = t.length)

/-- A string that ends, cut to the precision. -/
def cut (s : List UInt8) (precision : Int) : List UInt8 := if precision < 0 then s else s.take precision.toNat

theorem isText_cut {s : List UInt8} (noEnd : 0 ∉ s) (tail : List UInt8) (precision : Int) :
    IsText (s ++ 0 :: tail) precision (cut s precision) := by
  unfold cut
  split
  · rename_i negative
    exact ⟨noEnd, 0, tail, rfl, .inl ⟨rfl, .inl negative⟩⟩
  · rename_i nonneg
    refine ⟨fun member => noEnd (List.mem_of_mem_take member), ?_⟩
    by_cases short : s.length ≤ precision.toNat
    · rw [List.take_of_length_le short]
      exact ⟨0, tail, rfl, .inl ⟨rfl, .inr (by omega)⟩⟩
    · have inside : precision.toNat < s.length := by omega
      refine ⟨s[precision.toNat], s.drop (precision.toNat + 1) ++ 0 :: tail, ?_, .inr ?_⟩
      · rw [← List.cons_append, ← List.drop_eq_getElem_cons inside, ← List.append_assoc, List.take_append_drop]
      · rw [List.length_take]
        omega

variable {bytes : List UInt8}

theorem putString_text (text : IsText bytes precision t) (range : wrap32 width = width) (s : σ) :
    putString putch altflag bytes width precision s =
      some (wrap32 (width - t.length), t.foldl (fun s b => putch (shown altflag b) s) s) := by
  obtain ⟨noEnd, b, rest, rfl, ends⟩ := text
  have within : precision < 0 ∨ t.length ≤ precision := by omega
  rw [putString_walk noEnd within range, putString]
  obtain ⟨rfl, _⟩ | full := ends
  · exact if_pos rfl
  · have none : precisionLeft precision t.length = 0 := by
      unfold precisionLeft
      split <;> omega
    simp [none]

/-- A string without an end within the precision is read up to the end of its readable bytes. -/
theorem putString_unended (noEnd : 0 ∉ bytes) (within : precision < 0 ∨ bytes.length ≤ precision) (s : σ) :
    putString putch altflag bytes width precision s = none := by
  induction bytes generalizing width precision s with
  | nil => rfl
  | cons b bytes ih =>
      obtain ⟨nonzero, noEnd⟩ := not_or.mp (List.mem_cons.not.mp noEnd)
      rw [List.length_cons] at within
      have more : precision < 0 ∨ precision - 1 ≥ 0 := by omega
      rw [putString]
      simp only [if_neg (mt signedChar_eq_zero.mp (Ne.symm nonzero)), if_pos more]
      apply ih noEnd
      split <;> omega

/-- The characters in front of the end are counted. -/
theorem strnlen_count {k : Nat} (noEnd : 0 ∉ t) (ends : Cstring.strnlen rest k = some 0)
    (object : t.length < 2147483648) : Cstring.strnlen (t ++ rest) (t.length + k) = some (t.length : Int) := by
  induction t with
  | nil => simpa using ends
  | cons b t ih =>
      obtain ⟨nonzero, noEnd⟩ := not_or.mp (List.mem_cons.not.mp noEnd)
      rw [List.length_cons] at object ⊢
      have step : t.length + 1 + k = t.length + k + 1 := by omega
      have next : wrap32 ((t.length : Int) + 1) = (t.length + 1 : Nat) := wrap32_eq (by omega) (by omega)
      rw [List.cons_append, step, Cstring.strnlen, if_pos (Ne.symm nonzero), ih noEnd (by omega), Option.map_some, next]

theorem strnlen_text (text : IsText bytes precision t) (object : t.length < 2147483648)
    (range : wrap32 precision = precision) :
    Cstring.strnlen bytes (precision % 4294967296).toNat = some (t.length : Int) := by
  obtain ⟨noEnd, b, rest, rfl, ends⟩ := text
  have bounds := wrap32_range precision
  rw [range] at bounds
  obtain ⟨k, size⟩ : ∃ k, (precision % 4294967296).toNat = t.length + k := Nat.exists_eq_add_of_le (by omega)
  rw [size]
  apply strnlen_count noEnd _ object
  cases k with
  | zero => rfl
  | succ k =>
      obtain ⟨rfl, _⟩ | full := ends
      · rfl
      · omega

end Walk

section Collected

variable {d : Directive} {bytes t : List UInt8} {out : List Int}

theorem foldl_collect {α : Type} (f : α → Int) (t : List α) (out : List Int) :
    t.foldl (fun s b => collect (f b) s) out = out ++ t.map f := by
  induction t generalizing out with
  | nil => simp
  | cons b t ih => rw [List.foldl_cons, ih, collect, List.append_assoc, List.map_cons, List.singleton_append]

/-- The width and the precision of a directive are values of type `int`. -/
def Directive.InRange (d : Directive) : Prop := wrap32 d.width = d.width ∧ wrap32 d.precision = d.precision

/-- Without padding in front, what is left of the width is padded behind the text. -/
theorem printString_left (text : IsText bytes d.precision t) (range : d.InRange)
    (left : ¬ (d.width > 0 ∧ d.padc ≠ ascii '-')) :
    printString collect d bytes out =
      some (out ++ t.map (shown d.altflag) ++
        List.replicate (wrap32 (d.width - t.length)).toNat (signedChar (ascii ' '))) := by
  rw [printString]
  simp only [if_neg left]
  rw [putString_text text range.1, Option.map_some, padLoop_collect, foldl_collect]

/-- Without a width, a text is printed as it is. -/
theorem printString_bare (text : IsText bytes d.precision t) (range : d.InRange) (width : d.width ≤ 0)
    (plain : d.altflag = false) (object : d.width - t.length ≥ -2147483648) :
    printString collect d bytes out = some (out ++ t.map signedChar) := by
  have left : ¬ (d.width > 0 ∧ d.padc ≠ ascii '-') := fun right => by omega
  have none : wrap32 (d.width - t.length) = d.width - t.length := wrap32_eq object (by omega)
  rw [printString_left text range left, plain, shown_false, none, Int.toNat_of_nonpos (by omega), List.replicate_zero,
    List.append_nil]

/-- With padding in front, what strnlen counts is taken from the width, and so is each character of the text. -/
theorem printString_counted (text : IsText bytes d.precision t) (right : d.width > 0 ∧ d.padc ≠ ascii '-') {n : Int}
    (count : Cstring.strnlen bytes (d.precision % 4294967296).toNat = some n) :
    printString collect d bytes out =
      some (out ++ List.replicate (wrap32 (d.width - n)).toNat (signedChar d.padc) ++ t.map (shown d.altflag) ++
        List.replicate (wrap32 (min (wrap32 (d.width - n)) 0 - t.length)).toNat (signedChar (ascii ' '))) := by
  have bounds := wrap32_range (d.width - n)
  have left : wrap32 (d.width - n) - (wrap32 (d.width - n)).toNat = min (wrap32 (d.width - n)) 0 := by omega
  have inside : wrap32 (min (wrap32 (d.width - n)) 0) = min (wrap32 (d.width - n)) 0 :=
    wrap32_eq (by omega) (by omega)
  rw [printString]
  simp only [if_pos right, count, Option.map_some, padLoop_collect, left]
  rw [putString_text text inside, Option.map_some, foldl_collect]

/-- A text in the range of `int` is counted exactly. -/
theorem printString_right (text : IsText bytes d.precision t) (range : d.InRange)
    (right : d.width > 0 ∧ d.padc ≠ ascii '-') (object : t.length < 2147483648) :
    printString collect d bytes out =
      some (out ++ List.replicate (d.width - t.length).toNat (signedChar d.padc) ++ t.map (shown d.altflag) ++
        List.replicate (wrap32 (min (d.width - t.length) 0 - t.length)).toNat (signedChar (ascii ' '))) := by
  have bounds := wrap32_range d.width
  rw [range.1] at bounds
  have less : wrap32 (d.width - t.length) = d.width - t.length := wrap32_eq (by omega) (by omega)
  rw [printString_counted text right (strnlen_text text object range.2), less]

/-- Some padding, the text, and some more padding are printed of a string of any length. -/
theorem printString_any (text : IsText bytes d.precision t) (terminated : 0 ∈ bytes) (range : d.InRange) :
    ∃ before behind, printString collect d bytes out =
      some (out ++ List.replicate before (signedChar d.padc) ++ t.map (shown d.altflag) ++
        List.replicate behind (signedChar (ascii ' '))) := by
  by_cases right : d.width > 0 ∧ d.padc ≠ ascii '-'
  · obtain ⟨n, count⟩ := strnlen_terminated terminated (d.precision % 4294967296).toNat
    exact ⟨_, _, printString_counted text right count⟩
  · refine ⟨0, (wrap32 (d.width - t.length)).toNat, ?_⟩
    rw [printString_left text range right, List.replicate_zero, List.append_nil]

/-- Without an end within the precision nothing is returned. -/
theorem printString_unended (noEnd : 0 ∉ bytes) (within : d.precision < 0 ∨ bytes.length ≤ d.precision) :
    printString collect d bytes out = none := by
  rw [printString]
  split
  · rfl
  · rw [putString_unended noEnd within, Option.map_none]

end Collected

section Output

variable {env : Environment} {d : Directive} {ap : Nat}

/-- The readable bytes of a string argument; a null pointer stands for a text of its own. -/
def stringArgument (env : Environment) (ap : Nat) : List UInt8 :=
  if env.word ap = 0 then Cstring.literal "(null)" else env.bytes (env.word ap)

/-- A format whose only directive is `%s` prints its string. -/
theorem output_string {flags passed : List UInt8}
    (read : reswitch env .initial 0 ⟨[ascii '%'], flags⟩ = some (d, ap, ascii 's', ⟨passed, [0]⟩)) :
    output (ascii '%' :: flags) env = printString collect d (stringArgument env ap) [] := by
  have string : conversion (printfmtNested collect 1) collect env d ap (ascii 's') ⟨passed, [0]⟩ [] =
      (printString collect d (stringArgument env ap) []).map (ap + 1, ⟨passed, [0]⟩, ·) := rfl
  change vprintfmtLoop (printfmtNested collect 1) collect env 0 ⟨[], ascii '%' :: flags⟩ [] = _
  rw [vprintfmtLoop_directive rfl, read, Option.bind_some]
  dsimp only
  rw [string]
  cases printString collect d (stringArgument env ap) [] with
  | none => rfl
  | some out =>
      rw [Option.map_some, Option.bind_some]
      exact vprintfmtLoop_end rfl

end Output

end JosSmp.Printfmt
