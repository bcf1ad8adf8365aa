import JosSmp.Proof.Printfmt.Text

/-!
This file says which formats print nothing.
-/

namespace JosSmp.Printfmt
open Machine

/-- A string of which no character is printed: it is empty, or the precision is zero. -/
def Unprinted (bytes : List UInt8) (precision : Int) : Prop :=
  ∃ b rest, bytes = b :: rest ∧ (b = 0 ∨ precision = 0)

/-- The rest of a format consists of `%s` directives without a width whose strings are not printed. -/
inductive Silent (env : Environment) : Nat → Cursor → Prop
  | done {ap : Nat} {fmt : Cursor} {rest : List UInt8} : fmt.rest = 0 :: rest → Silent env ap fmt
  | string {ap ap' : Nat} {fmt fmt' : Cursor} {rest : List UInt8} {d : Directive} : fmt.rest = ascii '%' :: rest →
      reswitch env .initial ap ⟨ascii '%' :: fmt.passed, rest⟩ = some (d, ap', ascii 's', fmt') → d.width ≤ 0 →
      Unprinted (stringArgument env ap') d.precision → Silent env (ap' + 1) fmt' → Silent env ap fmt

section Range

variable {env : Environment} {d : Directive} {ap : Nat} {fmt : Cursor}

theorem digits_range {passed rest : List UInt8} {precision ch value : Int}
    (run : digits passed precision ch rest = some (value, fmt)) : wrap32 value = value := by
  induction rest generalizing passed precision ch with
  | nil => simp [digits] at run
  | cons b rest ih =>
      simp only [digits] at run
      split at run
      · obtain ⟨rfl, _⟩ := Prod.mk.inj (Option.some.inj run)
        exact wrap32_eq (wrap32_range _).1 (wrap32_range _).2
      · exact ih run

theorem processPrecision_inRange {value : Int} (range : d.InRange) (inside : wrap32 value = value) :
    (d.processPrecision value).InRange := by
  unfold Directive.processPrecision
  split
  · exact ⟨inside, show wrap32 (-1) = -1 by decide⟩
  · exact ⟨range.1, inside⟩

/-- The flags keep the width and the precision in the range of `int`. -/
theorem reswitch_inRange {d' : Directive} {ap' : Nat} {ch : UInt8} {fmt' : Cursor} (range : d.InRange)
    (run : reswitch env d ap fmt = some (d', ap', ch, fmt')) : d'.InRange := by
  fun_induction reswitch env d ap fmt with
  | case1 => simp at run
  | case2 d ap fmt rest read _ ih => exact ih range run
  | case3 d ap fmt rest read _ _ ih => exact ih range run
  | case4 => simp at run
  | case5 d ap fmt ch rest read _ _ _ digit precision fmt'' number ih =>
      exact ih (processPrecision_inRange range (digits_range number)) run
  | case6 d ap fmt rest read _ _ _ _ ih => exact ih (processPrecision_inRange range (signedWord_range _)) run
  | case7 d ap fmt rest read _ _ _ _ _ ih =>
      refine ih ?_ run
      split
      · exact ⟨show wrap32 0 = 0 by decide, range.2⟩
      · exact range
  | case8 d ap fmt rest read _ _ _ _ _ _ ih => exact ih range run
  | case9 d ap fmt rest read _ _ _ _ _ _ _ ih => exact ih range run
  | case10 d ap fmt ch rest read =>
      simp only [Option.some.injEq, Prod.mk.injEq] at run
      obtain ⟨rfl, _⟩ := run
      exact range

end Range

section Strings

variable {d : Directive} {bytes : List UInt8} {width precision : Int} {altflag : Bool} {s : List Int}

theorem putString_length {out : Int × List Int} (run : putString collect altflag bytes width precision s = some out) :
    s.length ≤ out.2.length := by
  induction bytes generalizing width precision s with
  | nil => simp [putString] at run
  | cons b rest ih =>
      simp only [putString] at run
      split at run
      · cases run
        exact Nat.le_refl _
      split at run
      · have longer := ih run
        rw [collect, List.length_append] at longer
        omega
      · cases run
        exact Nat.le_refl _

/-- The text of a string is either left out, or the output grows. -/
theorem putString_silent {out : Int × List Int} (run : putString collect altflag bytes width precision s = some out) :
    out = (width, s) ∧ Unprinted bytes precision ∨ s.length < out.2.length ∧ ¬ Unprinted bytes precision := by
  cases bytes with
  | nil => simp [putString] at run
  | cons b rest =>
      have unprinted : Unprinted (b :: rest) precision ↔ b = 0 ∨ precision = 0 := by
        constructor
        · rintro ⟨_, _, same, ends⟩
          cases same
          exact ends
        · intro ends
          exact ⟨b, rest, rfl, ends⟩
      rw [unprinted]
      simp only [putString] at run
      by_cases zero : b = 0
      · subst zero
        cases run
        exact .inl ⟨rfl, .inl rfl⟩
      rw [if_neg (mt signedChar_eq_zero.mp zero)] at run
      by_cases more : precision < 0 ∨ precision - 1 ≥ 0
      · rw [if_pos more] at run
        have longer := putString_length run
        rw [collect, List.length_append, List.length_singleton] at longer
        exact .inr ⟨by omega, fun ends => ends.elim zero fun none => by omega⟩
      · rw [if_neg more] at run
        cases run
        exact .inl ⟨rfl, .inr (by omega)⟩

theorem strnlen_unprinted (unprinted : Unprinted bytes precision) :
    Cstring.strnlen bytes (precision % 4294967296).toNat = some 0 := by
  obtain ⟨b, rest, rfl, ends⟩ := unprinted
  cases size : (precision % 4294967296).toNat with
  | zero => rfl
  | succ k =>
      obtain rfl | rfl := ends
      · rfl
      · cases size

/-- A string that is padded on the left is never silent. -/
theorem printString_padded {s' : List Int} (range : wrap32 d.width = d.width)
    (right : d.width > 0 ∧ d.padc ≠ ascii '-') (run : printString collect d bytes s = some s') :
    s.length < s'.length := by
  rw [printString] at run
  simp only [if_pos right] at run
  cases count : Cstring.strnlen bytes (d.precision % 4294967296).toNat with
  | none =>
      rw [count] at run
      cases run
  | some n =>
      rw [count, Option.map_some, padLoop_collect] at run
      obtain ⟨out, put, rfl⟩ := Option.map_eq_some_iff.mp run
      have longer := putString_length put
      rw [padLoop_collect, List.length_append]
      rw [List.length_append, List.length_replicate] at longer
      by_cases padded : 0 < wrap32 (d.width - n)
      · omega
      · obtain ⟨_, unprinted⟩ | ⟨grown, _⟩ := putString_silent put
        · -- Nothing to print would leave the whole width to the padding in front.
          rw [strnlen_unprinted unprinted] at count
          obtain rfl := Option.some.inj count
          rw [Int.sub_zero, range] at padded
          omega
        · rw [List.length_append] at grown
          omega

/-- A string is either silent, or the output grows. -/
theorem printString_silent {s' : List Int} (range : wrap32 d.width = d.width)
    (run : printString collect d bytes s = some s') :
    s' = s ∧ d.width ≤ 0 ∧ Unprinted bytes d.precision ∨
      s.length < s'.length ∧ ¬ (d.width ≤ 0 ∧ Unprinted bytes d.precision) := by
  by_cases right : d.width > 0 ∧ d.padc ≠ ascii '-'
  · exact .inr ⟨printString_padded range right run, fun silent => absurd right.1 (by omega)⟩
  · rw [printString] at run
    simp only [if_neg right] at run
    obtain ⟨out, put, rfl⟩ := Option.map_eq_some_iff.mp run
    rw [padLoop_collect]
    obtain ⟨rfl, unprinted⟩ | ⟨grown, printed⟩ := putString_silent put
    · by_cases width : d.width ≤ 0
      · rw [Int.toNat_of_nonpos width, List.replicate_zero, List.append_nil]
        exact .inl ⟨rfl, width, unprinted⟩
      · refine .inr ⟨?_, fun silent => width silent.1⟩
        rw [List.length_append, List.length_replicate]
        dsimp only
        omega
    · rw [List.length_append]
      exact .inr ⟨by omega, fun silent => printed silent.2⟩

/-- A string that is not printed is read up to its first byte. -/
theorem printString_unprinted (width : d.width ≤ 0) (unprinted : Unprinted bytes d.precision) :
    printString collect d bytes s = some s := by
  obtain ⟨b, rest, rfl, ends⟩ := unprinted
  have put : putString collect d.altflag (b :: rest) d.width d.precision s = some (d.width, s) := by
    rw [putString]
    obtain rfl | none := ends
    · rfl
    · simp [none]
  rw [printString]
  simp only [if_neg (show ¬ (d.width > 0 ∧ d.padc ≠ ascii '-') from fun right => by omega)]
  rw [put, Option.map_some, padLoop_collect, Int.toNat_of_nonpos width, List.replicate_zero, List.append_nil]

end Strings

section Conversion

variable {printfmt : List UInt8 → Environment → List Int → Option (List Int)} {env : Environment} {d : Directive}
  {ap : Nat} {conv : UInt8} {fmt : Cursor} {s : List Int}

/-- An outcome in which the output has grown. -/
def Grows (s : List Int) (out : Option (Nat × Cursor × List Int)) : Prop :=
  ∀ ap fmt s', out = some (ap, fmt, s') → s.length < s'.length

theorem Grows.put (ap : Nat) (fmt : Cursor) (ch : Int) {t : List Int} (start : s.length ≤ t.length) :
    Grows s (some (ap, fmt, collect ch t)) := by
  intro _ _ _ same
  cases same
  rw [collect, List.length_append, List.length_singleton]
  omega

/-- A number has at least one digit. -/
theorem printnum_grows (num : Nat) (base : Base) (width : Int) (padc : UInt8) {t : List Int}
    (start : s.length ≤ t.length) : s.length < (printnum collect num base width padc t).length := by
  rw [printnum, collect, List.length_append, List.length_singleton, Nat.lt_succ_iff]
  split
  · rw [printnum_wrapped, List.length_append, List.length_append]
    omega
  · rw [padLoop_collect, List.length_append]
    omega

theorem Grows.number (ap : Nat) (fmt : Cursor) (num : Nat) (base : Base) (width : Int) (padc : UInt8) {t : List Int}
    (start : s.length ≤ t.length) : Grows s (some (ap, fmt, printnum collect num base width padc t)) := by
  intro _ _ _ same
  cases same
  exact printnum_grows num base width padc start

theorem Grows.nested (ap : Nat) (fmt : Cursor) {out : Option (List Int)}
    (grown : ∀ s', out = some s' → s.length < s'.length) : Grows s (out.map (ap, fmt, ·)) := by
  intro _ _ _ same
  obtain ⟨_, run, ended⟩ := Option.map_eq_some_iff.mp same
  cases ended
  exact grown _ run

theorem Grows.ite {c : Prop} [Decidable c] {first second : Option (Nat × Cursor × List Int)} (yes : Grows s first)
    (no : Grows s second) : Grows s (if c then first else second) := by
  split
  · exact yes
  · exact no

/-- No message is empty. -/
theorem errorString_first : ∀ p, some p ∈ errorString → p.head? ≠ some 0 := by
  simp only [errorString, List.mem_cons, reduceCtorEq, false_or, Option.some.injEq, List.not_mem_nil, or_false]
  rintro p (rfl | rfl | rfl | rfl | rfl | rfl) <;> decide

theorem errorMessage_listed {err : Int} {p : List UInt8}
    (selected : (if err > maxerror then some none else errorMessage err) = some (some p)) : some p ∈ errorString := by
  split at selected
  · cases selected
  · rw [errorMessage] at selected
    split at selected
    · cases selected
    · exact List.mem_of_getElem? selected

/-- The nested call for a code without a message prints a character. -/
theorem nested_code_grows {s' : List Int}
    (run : printfmtNested collect 1 (Cstring.literal "error %d") env s = some s') : s.length < s'.length := by
  rw [printfmtNested, vprintfmtLoop_error, foldl_collect, foldl_collect] at run
  cases run
  apply printnum_grows
  rw [List.length_append, List.length_append]
  omega

/-- The nested call for a message prints a character. -/
theorem nested_message_grows {p : List UInt8} {s' : List Int} (listed : some p ∈ errorString)
    (run : printfmtNested collect 1 (Cstring.literal "%s") ⟨fun _ => 1, fun _ => p⟩ s = some s') :
    s.length < s'.length := by
  rw [printfmtNested, vprintfmtLoop_message, if_neg (show (1 : UInt32) ≠ 0 by decide)] at run
  obtain ⟨_, _, b, rest, same, ends⟩ | ⟨grown, _⟩ := printString_silent (by decide) run
  · obtain rfl | none := ends
    · have first : p.head? = some 0 := congrArg List.head? same
      exact absurd first (errorString_first p listed)
    · exact absurd none (by decide)
  · exact grown

/-- Every conversion other than `%s` prints a character. -/
theorem conversion_grows (other : conv ≠ ascii 's') :
    Grows s (conversion (printfmtNested collect 1) collect env d ap conv fmt s) := by
  have start : s.length ≤ s.length := Nat.le_refl _
  have put (ch : Int) {t : List Int} (start : s.length ≤ t.length) : s.length ≤ (collect ch t).length := by
    rw [collect, List.length_append]
    omega
  simp only [conversion, if_neg other]
  -- The cases follow the branches of the conversion: `c`, `e`, `d`, `u`, `o`, `p`, `x`, `%`, and any other character.
  apply Grows.ite (.put _ _ _ start)
  apply Grows.ite
  · split
    · intro _ _ _ same
      cases same
    · exact .nested _ _ fun s' run => nested_code_grows run
    · rename_i p selected
      exact .nested _ _ fun s' run => nested_message_grows (errorMessage_listed selected) run
  apply Grows.ite
  · apply Grows.ite
    · exact .number _ _ _ _ _ _ (put '-'.toNat start)
    · exact .number _ _ _ _ _ _ start
  apply Grows.ite (.number _ _ _ _ _ _ start)
  apply Grows.ite (.number _ _ _ _ _ _ start)
  apply Grows.ite (.number _ _ _ _ _ _ (put 'x'.toNat (put '0'.toNat start)))
  apply Grows.ite (.number _ _ _ _ _ _ start)
  apply Grows.ite (.put _ _ _ start)
  cases rewind fmt with
  | none =>
      intro _ _ _ same
      cases same
  | some moved => exact .put _ _ _ start

/-- A string that is not printed leaves the output as it is. -/
theorem conversion_unprinted (width : d.width ≤ 0) (unprinted : Unprinted (stringArgument env ap) d.precision)
    (fmt : Cursor) (s : List Int) :
    conversion (printfmtNested collect 1) collect env d ap (ascii 's') fmt s = some (ap + 1, fmt, s) := by
  have run : conversion (printfmtNested collect 1) collect env d ap (ascii 's') fmt s =
      (printString collect d (stringArgument env ap) s).map (ap + 1, fmt, ·) := rfl
  rw [run, printString_unprinted width unprinted, Option.map_some]

end Conversion

section Format

variable {env : Environment} {ap : Nat} {fmt : Cursor} {s : List Int}

/-- A run keeps what was printed before it. -/
theorem vprintfmtLoop_length {out : List Int}
    (run : vprintfmtLoop (printfmtNested collect 1) collect env ap fmt s = some out) : s.length ≤ out.length := by
  have keeps (ch : Int) (t t' : List Int) (related : t = t' ∧ s.length ≤ t.length) :
      collect ch t = collect ch t' ∧ s.length ≤ (collect ch t).length := by
    rw [related.1, collect, List.length_append]
    exact ⟨rfl, by have := related.2; rw [related.1] at this; omega⟩
  have related := vprintfmtLoop_related (R := fun t t' : List Int => t = t' ∧ s.length ≤ t.length) keeps
    (fun fmt env t t' start => printfmtNested_related keeps 1 fmt env start) env ap fmt ⟨rfl, Nat.le_refl s.length⟩
  rw [run] at related
  cases related with
  | some kept => exact kept.2

/-- A silent format starts with its final zero or with a directive. -/
theorem Silent.starts {b : UInt8} {rest : List UInt8} (silent : Silent env ap fmt) (read : fmt.rest = b :: rest) :
    b = 0 ∨ b = ascii '%' := by
  cases silent with
  | done ended => exact .inl (List.cons.inj (read.symm.trans ended)).1
  | string percent => exact .inr (List.cons.inj (read.symm.trans percent)).1

/-- The directive that a silent format starts with is a silent string. -/
theorem silent_directive_iff {rest : List UInt8} (read : fmt.rest = ascii '%' :: rest) :
    Silent env ap fmt ↔ ∃ d ap' fmt', reswitch env .initial ap ⟨ascii '%' :: fmt.passed, rest⟩ =
        some (d, ap', ascii 's', fmt') ∧ d.width ≤ 0 ∧ Unprinted (stringArgument env ap') d.precision ∧
      Silent env (ap' + 1) fmt' := by
  constructor
  · intro silent
    cases silent with
    | done ended => exact absurd (List.cons.inj (read.symm.trans ended)).1 (by decide)
    | string percent flags width unprinted later =>
        obtain ⟨_, rfl⟩ := List.cons.inj (read.symm.trans percent)
        exact ⟨_, _, _, flags, width, unprinted, later⟩
  · rintro ⟨d, ap', fmt', flags, width, unprinted, later⟩
    exact .string read flags width unprinted later

/-- A run prints nothing exactly for a silent format. -/
theorem vprintfmtLoop_silent_iff (env : Environment) (ap : Nat) (fmt : Cursor) (s : List Int) :
    vprintfmtLoop (printfmtNested collect 1) collect env ap fmt s = some s ↔ Silent env ap fmt := by
  fun_induction vprintfmtLoop (printfmtNested collect 1) collect env ap fmt s with
  | case1 ap fmt s read =>
      refine iff_of_false (Option.some_ne_none _).symm fun silent => ?_
      cases silent with
      | done ended => exact absurd (read.symm.trans ended) (List.cons_ne_nil _ _).symm
      | string percent => exact absurd (read.symm.trans percent) (List.cons_ne_nil _ _).symm
  | case2 ap fmt s rest read percent => exact iff_of_true rfl (.done read)
  | case3 ap fmt s ch rest read percent character ih =>
      refine iff_of_false (fun same => ?_) fun silent => (silent.starts read).elim character percent
      have longer := vprintfmtLoop_length same
      rw [collect, List.length_append, List.length_singleton] at longer
      omega
  | case4 ap fmt s ch rest read percent unread =>
      obtain rfl := not_not.mp percent
      rw [silent_directive_iff read, unread]
      refine iff_of_false (Option.some_ne_none _).symm fun silent => ?_
      obtain ⟨_, _, _, flags, _⟩ := silent
      exact Option.some_ne_none _ flags.symm
  | case5 ap fmt s ch rest read percent d ap' conv fmt' flags failed =>
      obtain rfl := not_not.mp percent
      rw [silent_directive_iff read]
      refine iff_of_false (Option.some_ne_none _).symm fun silent => ?_
      obtain ⟨_, _, _, other, width, unprinted, _⟩ := silent
      cases flags.symm.trans other
      exact Option.some_ne_none _ ((conversion_unprinted width unprinted fmt' s).symm.trans failed)
  | case6 ap fmt s ch rest read percent d ap' conv fmt' flags ap'' fmt'' s' done ih =>
      obtain rfl := not_not.mp percent
      have range := reswitch_inRange ⟨by decide, by decide⟩ flags
      rw [silent_directive_iff read]
      constructor
      · intro same
        have short := vprintfmtLoop_length same
        -- The run that follows never takes back what this directive printed.
        by_cases string : conv = ascii 's'
        · subst string
          obtain ⟨printed, run, ended⟩ := Option.map_eq_some_iff.mp
            (show (printString collect d (stringArgument env ap') s).map (ap' + 1, fmt', ·) = some (ap'', fmt'', s')
              from done)
          cases ended
          obtain ⟨rfl, width, unprinted⟩ | ⟨grown, _⟩ := printString_silent range.1 run
          · exact ⟨d, ap', fmt', flags, width, unprinted, ih.mp same⟩
          · omega
        · exact absurd (conversion_grows string _ _ _ done) (by omega)
      · rintro ⟨_, _, _, other, width, unprinted, later⟩
        cases flags.symm.trans other
        cases done.symm.trans (conversion_unprinted width unprinted fmt' s)
        exact ih.mpr later

end Format

end JosSmp.Printfmt
