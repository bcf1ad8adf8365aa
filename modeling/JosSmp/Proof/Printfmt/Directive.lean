import JosSmp.Proof.Printfmt.Format

/-!
This file proves what a directive reads: its flags from the format, and its argument words.
-/

namespace JosSmp.Printfmt
open Machine

section Flags

variable {env : Environment} {d : Directive} {ap : Nat} {passed rest : List UInt8} {ch : UInt8}

/-- A number in front of other flags is read up to the first of them. -/
theorem digits_read {flags : List UInt8} (all : ∀ b ∈ flags, isFlag b) (last : ¬ isFlag ch) (value digit : Int) :
    ∃ value' number flags', flags = number ++ flags' ∧ (∀ b ∈ number, b ≠ ascii '*' ∧ b ≠ ascii 'l') ∧
      ∀ passed rest, digits passed value digit (flags ++ ch :: rest) =
        some (value', ⟨number.reverse ++ passed, flags' ++ ch :: rest⟩) := by
  have decimal (b : UInt8) : ¬ (signedChar b < '0'.toNat ∨ signedChar b > '9'.toNat) ↔
      ascii '0' ≤ b ∧ b ≤ ascii '9' := by
    have zero : (ascii '0').toNat = 48 ∧ '0'.toNat = 48 := by decide
    have nine : (ascii '9').toNat = 57 ∧ '9'.toNat = 57 := by decide
    have byte := b.toNat_lt
    rw [UInt8.le_iff_toNat_le, UInt8.le_iff_toNat_le, signedChar]
    split <;> omega
  induction flags generalizing value digit with
  | nil =>
      have ends := fun inside => last (.inr (.inl ((decimal ch).mp inside)))
      refine ⟨wrap32 (value * 10 + digit - '0'.toNat), [], [], rfl, by simp, fun passed rest => ?_⟩
      rw [List.nil_append, digits, if_pos (not_not.mp ends)]
      rfl
  | cons b flags ih =>
      obtain ⟨_, all⟩ := List.forall_mem_cons.mp all
      by_cases inside : signedChar b < '0'.toNat ∨ signedChar b > '9'.toNat
      · refine ⟨wrap32 (value * 10 + digit - '0'.toNat), [], b :: flags, rfl, by simp, fun passed rest => ?_⟩
        rw [List.cons_append, digits, if_pos inside]
        rfl
      · obtain ⟨value', number, flags', rfl, plain, run⟩ := ih all _ (signedChar b)
        refine ⟨value', b :: number, flags', rfl, ?_, fun passed rest => ?_⟩
        · refine List.forall_mem_cons.mpr ⟨?_, plain⟩
          obtain ⟨lower, upper⟩ := (decimal b).mp inside
          constructor
          · rintro rfl
            exact absurd lower (by decide)
          · rintro rfl
            exact absurd upper (by decide)
        · rw [List.cons_append, digits, if_neg inside, run, List.reverse_cons, List.append_assoc]
          rfl

theorem count_number {number flags : List UInt8} (plain : ∀ b ∈ number, b ≠ ascii '*' ∧ b ≠ ascii 'l') :
    stars (number ++ flags) = stars flags ∧
      (number ++ flags).count (ascii 'l') = flags.count (ascii 'l') := by
  have star : ascii '*' ∉ number := fun member => (plain _ member).1 rfl
  have long : ascii 'l' ∉ number := fun member => (plain _ member).2 rfl
  rw [stars, List.count_append, List.count_append, List.count_eq_zero_of_not_mem star,
    List.count_eq_zero_of_not_mem long, Nat.zero_add, Nat.zero_add]
  exact ⟨rfl, rfl⟩

/-- The flags are read up to the character `ch` behind them. What they say depends on the argument words only. -/
def FlagsRead (env : Environment) (d : Directive) (ap : Nat) (flags : List UInt8) (ch : UInt8) : Prop :=
  ∃ d' : Directive, (∀ n : Int, d.lflag = wrap32 n → d'.lflag = wrap32 (n + flags.count (ascii 'l'))) ∧
    ∀ env' ap' passed rest, SameArguments env ap env' ap' →
      reswitch env' d ap' ⟨passed, flags ++ ch :: rest⟩ =
        some (d', ap' + stars flags, ch, ⟨ch :: (flags.reverse ++ passed), rest⟩)

theorem flagsRead_nil (last : ¬ isFlag ch) : FlagsRead env d ap [] ch := by
  refine ⟨d, fun n same => by simpa using same, fun env' ap' passed rest _ => ?_⟩
  rw [List.nil_append, reswitch_end last]
  rfl

/-- A flag that reads no argument only changes the settings. -/
theorem FlagsRead.setting {flags : List UInt8} {b : UInt8} (d₁ : Directive) (later : FlagsRead env d₁ ap flags ch)
    (star : b ≠ ascii '*')
    (long : ∀ n : Int, d.lflag = wrap32 n → d₁.lflag = wrap32 (n + [b].count (ascii 'l')))
    (step : ∀ env' ap' passed rest,
      reswitch env' d ap' ⟨passed, b :: rest⟩ = reswitch env' d₁ ap' ⟨b :: passed, rest⟩) :
    FlagsRead env d ap (b :: flags) ch := by
  obtain ⟨d', count, run⟩ := later
  refine ⟨d', fun n same => ?_, fun env' ap' passed rest agree => ?_⟩
  · have split : (b :: flags).count (ascii 'l') = [b].count (ascii 'l') + flags.count (ascii 'l') := by
      rw [← List.count_append, List.singleton_append]
    rw [count _ (long n same), split, Int.natCast_add, Int.add_assoc]
  · rw [List.cons_append, step, run _ _ _ _ agree, stars, stars, List.count_cons_of_ne star,
      List.reverse_cons, List.append_assoc]
    rfl

/-- A setting that is no `l` keeps the size of the argument. -/
theorem count_other {d₁ : Directive} (same : d₁.lflag = d.lflag) {b : UInt8} (other : [b].count (ascii 'l') = 0)
    (n : Int) (start : d.lflag = wrap32 n) : d₁.lflag = wrap32 (n + [b].count (ascii 'l')) := by
  rw [other, same, start, Int.natCast_zero, Int.add_zero]

theorem processPrecision_lflag (d : Directive) (value : Int) : (d.processPrecision value).lflag = d.lflag := by
  unfold Directive.processPrecision
  split <;> rfl

/-- A digit other than zero is the first one of a number. -/
theorem FlagsRead.number {number flags : List UInt8} {b : UInt8} {value : Int} (lower : ascii '0' ≤ b)
    (upper : b ≤ ascii '9') (zero : b ≠ ascii '0') (plain : ∀ c ∈ number, c ≠ ascii '*' ∧ c ≠ ascii 'l')
    (read : ∀ passed rest, digits passed 0 b.toNat (number ++ flags ++ ch :: rest) =
      some (value, ⟨number.reverse ++ passed, flags ++ ch :: rest⟩))
    (later : FlagsRead env (d.processPrecision value) ap flags ch) :
    FlagsRead env d ap (b :: (number ++ flags)) ch := by
  have nonzero : ascii '1' ≤ b ∧ b ≤ ascii '9' := by
    refine ⟨?_, upper⟩
    have positive : b.toNat ≠ (ascii '0').toNat := fun same => zero (UInt8.toNat_inj.mp same)
    have bounds : (ascii '0').toNat = 48 ∧ (ascii '1').toNat = 49 := by decide
    rw [UInt8.le_iff_toNat_le] at lower ⊢
    omega
  have kind : b ≠ ascii '-' ∧ b ≠ ascii '*' ∧ b ≠ ascii 'l' := by
    refine ⟨?_, ?_, ?_⟩ <;>
    · rintro rfl
      revert nonzero
      decide
  obtain ⟨d', count, run⟩ := later
  obtain ⟨star, longs⟩ : stars (b :: (number ++ flags)) = stars flags ∧
      (b :: (number ++ flags)).count (ascii 'l') = flags.count (ascii 'l') :=
    count_number (List.forall_mem_cons.mpr ⟨kind.2, plain⟩)
  refine ⟨d', fun n start => ?_, fun env' ap' passed rest agree => ?_⟩
  · rw [count n ((processPrecision_lflag d value).trans start), longs]
  · rw [List.cons_append, reswitch_cons, if_neg kind.1, if_neg zero, if_pos nonzero, read, Option.bind_some,
      run _ _ _ _ agree, star, List.reverse_cons, List.reverse_append]
    simp only [List.append_assoc, List.singleton_append]

/-- An asterisk reads a word. -/
theorem FlagsRead.star {flags : List UInt8}
    (later : FlagsRead env (d.processPrecision (signedWord (env.word ap))) (ap + 1) flags ch) :
    FlagsRead env d ap (ascii '*' :: flags) ch := by
  obtain ⟨d', count, run⟩ := later
  refine ⟨d', fun n start => ?_, fun env' ap' passed rest agree => ?_⟩
  · rw [count n ((processPrecision_lflag d _).trans start), List.count_cons_of_ne (by decide)]
  · have step : reswitch env' d ap' ⟨passed, ascii '*' :: (flags ++ ch :: rest)⟩ =
        reswitch env' (d.processPrecision (signedWord (env'.word ap'))) (ap' + 1)
          ⟨ascii '*' :: passed, flags ++ ch :: rest⟩ := reswitch_cons
    rw [List.cons_append, step, agree.word, run _ _ _ _ (agree.add 1), stars, stars, List.count_cons_self,
      List.reverse_cons, List.append_assoc, Nat.add_assoc, Nat.add_comm 1]
    rfl

/-- Any flags are read. The induction is on their number, because a number takes several of them. -/
theorem reswitch_read {flags : List UInt8} (all : ∀ b ∈ flags, isFlag b) (last : ¬ isFlag ch) (env : Environment)
    (d : Directive) (ap : Nat) : FlagsRead env d ap flags ch := by
  induction size : flags.length using Nat.strongRecOn generalizing flags d ap with
  | _ size' ih =>
      subst size
      cases flags with
      | nil => exact flagsRead_nil last
      | cons b flags =>
          obtain ⟨flag, others⟩ := List.forall_mem_cons.mp all
          have later (d₁ : Directive) (ap : Nat) : FlagsRead env d₁ ap flags ch :=
            ih flags.length (by simp) others d₁ ap rfl
          obtain rfl | digit | rfl | rfl | rfl | rfl := flag
          · exact .setting { d with padc := ascii '-' } (later _ ap) (by decide) (count_other rfl (by decide))
              fun _ _ _ _ => reswitch_cons.trans (if_pos rfl)
          · by_cases zero : b = ascii '0'
            · subst zero
              exact .setting { d with padc := ascii '0' } (later _ ap) (by decide) (count_other rfl (by decide))
                fun _ _ _ _ => reswitch_cons
            · obtain ⟨value, number, flags', rfl, plain, read⟩ := digits_read others last 0 b.toNat
              have onward := ih flags'.length (by simp)
                (fun c member => others c (List.mem_append_right _ member)) (d.processPrecision value) ap rfl
              exact .number digit.1 digit.2 zero plain read onward
          · exact .star (later _ (ap + 1))
          · exact .setting (if d.width < 0 then { d with width := 0 } else d) (later _ ap) (by decide)
              (count_other (by split <;> rfl) (by decide)) fun _ _ _ _ => reswitch_cons
          · exact .setting { d with altflag := true } (later _ ap) (by decide) (count_other rfl (by decide))
              fun _ _ _ _ => reswitch_cons
          · refine .setting { d with lflag := wrap32 (d.lflag + 1) } (later _ ap) (by decide) (fun n start => ?_)
              fun _ _ _ _ => reswitch_long
            have one : [ascii 'l'].count (ascii 'l') = 1 := by decide
            rw [one, start]
            apply wrap32_congr
            have same := wrap32_mod n
            omega

end Flags

section Arguments

variable {env env' : Environment} {ap ap' : Nat}

theorem getuint_same (agree : SameArguments env ap env' ap') (lflag : Int) :
    getuint env' ap' lflag = ((getuint env ap lflag).1, ap' + if lflag ≥ 2 then 2 else 1) := by
  unfold getuint
  rw [agree.word, agree.2 1]
  split <;> rfl

theorem getint_same (agree : SameArguments env ap env' ap') (lflag : Int) :
    getint env' ap' lflag = ((getint env ap lflag).1, ap' + if lflag ≥ 2 then 2 else 1) := by
  unfold getint
  rw [agree.word, agree.2 1]
  split <;> rfl

end Arguments

section Conversion

variable {σ : Type} {putch : Int → σ → σ} {env : Environment} {d : Directive} {ap : Nat} {s : σ}

theorem strnlen_terminated {p : List UInt8} (terminated : 0 ∈ p) (size : Nat) :
    ∃ n, Cstring.strnlen p size = some n := by
  induction p generalizing size with
  | nil => cases terminated
  | cons b rest ih =>
      cases size with
      | zero => exact ⟨0, rfl⟩
      | succ size =>
          rw [Cstring.strnlen]
          by_cases last : b = 0
          · exact ⟨0, if_neg (not_not.mpr last)⟩
          · obtain ⟨n, count⟩ := ih ((List.mem_cons.mp terminated).resolve_left (Ne.symm last)) size
            exact ⟨wrap32 (n + 1), by rw [if_pos last, count, Option.map_some]⟩

theorem putString_terminated (putch : Int → σ → σ) {p : List UInt8} (terminated : 0 ∈ p) (altflag : Bool)
    (width precision : Int) (s : σ) :
    ∃ out, putString putch altflag p width precision s = some out := by
  induction p generalizing width precision s with
  | nil => cases terminated
  | cons b rest ih =>
      simp only [putString]
      by_cases last : signedChar b = 0
      · exact ⟨_, if_pos last⟩
      · have nonzero : (0 : UInt8) ≠ b := by
          rintro rfl
          exact last (by decide)
        rw [if_neg last]
        split
        · exact ih ((List.mem_cons.mp terminated).resolve_left nonzero) _ _ _
        · exact ⟨_, rfl⟩

/-- A string that ends is printed without a read behind its end. -/
theorem printString_terminated (putch : Int → σ → σ) {p : List UInt8} (terminated : 0 ∈ p) (d : Directive) (s : σ) :
    ∃ s', printString putch d p s = some s' := by
  simp only [printString]
  split
  · rename_i none
    split at none
    · obtain ⟨n, count⟩ := strnlen_terminated terminated (d.precision % 4294967296).toNat
      rw [count] at none
      cases none
    · cases none
  · rename_i width s₁ _
    obtain ⟨out, run⟩ := putString_terminated putch terminated d.altflag width d.precision s₁
    exact ⟨_, by rw [run, Option.map_some]⟩

/-- Every message of the table ends. -/
theorem errorString_terminated : ∀ p, some p ∈ errorString → 0 ∈ p := by
  simp only [errorString, List.mem_cons, reduceCtorEq, false_or, Option.some.injEq, List.not_mem_nil, or_false]
  rintro p (rfl | rfl | rfl | rfl | rfl | rfl) <;> decide

/-- An error code other than the least `int` selects a message that ends, or none. -/
theorem errorMessage_selected {err : Int} (lower : 0 ≤ err) :
    ∃ message, (if err > maxerror then some none else errorMessage err) = some message ∧
      ∀ p, message = some p → 0 ∈ p := by
  by_cases large : err > maxerror
  · exact ⟨none, if_pos large, fun p same => by cases same⟩
  · have inside : err.toNat < errorString.length := by
      unfold maxerror at large
      rw [show errorString.length = 7 by decide]
      omega
    refine ⟨errorString[err.toNat], ?_, fun p same => ?_⟩
    · rw [if_neg large, errorMessage, if_neg (by omega), List.getElem?_eq_getElem inside]
    · exact errorString_terminated p (same ▸ List.getElem_mem inside)

theorem errorCode_nonneg (valid : env.word ap ≠ 0x80000000) : 0 ≤ errorCode env ap := by
  have range := wrap32_range (env.word ap).toNat
  have word := (env.word ap).toNat_lt
  have least : (env.word ap).toNat ≠ 2147483648 := fun same => valid (UInt32.toNat_inj.mp same)
  unfold errorCode signedWord
  split
  · unfold wrap32 at *
    omega
  · omega

theorem conversion_code (printfmt : List UInt8 → Environment → σ → Option σ) (putch : Int → σ → σ) (d : Directive)
    (fmt : Cursor) (s : σ) {message : Option (List UInt8)}
    (selected : (if errorCode env ap > maxerror then some none else errorMessage (errorCode env ap)) = some message) :
    conversion printfmt putch env d ap (ascii 'e') fmt s =
      (match message with
      | none => printfmt (Cstring.literal "error %d") ⟨fun _ => UInt32.ofInt (errorCode env ap), env.bytes⟩ s
      | some p => printfmt (Cstring.literal "%s") ⟨fun _ => 1, fun _ => p⟩ s).map (ap + 1, fmt, ·) := by
  simp only [conversion, if_neg (show ascii 'e' ≠ ascii 'c' by decide), if_true]
  rw [selected]
  cases message <;> rfl

theorem conversion_error (putch : Int → σ → σ) (d : Directive) (s : σ) (valid : env.word ap ≠ 0x80000000) :
    ∃ s', ∀ env' ap' fmt, SameArguments env ap env' ap' →
      conversion (vprintfmt putch) putch env' d ap' (ascii 'e') fmt s = some (ap' + 1, fmt, s') := by
  obtain ⟨message, selected, terminated⟩ := errorMessage_selected (errorCode_nonneg valid)
  have code (env' : Environment) (ap' : Nat) (agree : SameArguments env ap env' ap') :
      errorCode env' ap' = errorCode env ap := by rw [errorCode, agree.word, errorCode]
  cases message with
  | none =>
      obtain ⟨s', run⟩ : ∃ s', vprintfmt putch (Cstring.literal "error %d")
          ⟨fun _ => UInt32.ofInt (errorCode env ap), env.bytes⟩ s = some s' := by
        rw [vprintfmt_eq, vprintfmtLoop_error]
        exact ⟨_, rfl⟩
      refine ⟨s', fun env' ap' fmt agree => ?_⟩
      rw [conversion_code _ _ _ _ _ ((code env' ap' agree).symm ▸ selected), code env' ap' agree]
      dsimp only
      rw [agree.1, run, Option.map_some]
  | some p =>
      obtain ⟨s', run⟩ := printString_terminated putch (terminated p rfl) .initial s
      refine ⟨s', fun env' ap' fmt agree => ?_⟩
      rw [conversion_code _ _ _ _ _ ((code env' ap' agree).symm ▸ selected)]
      dsimp only
      rw [vprintfmt_eq, vprintfmtLoop_message, if_neg (show (1 : UInt32) ≠ 0 by decide), run, Option.map_some]

theorem conversionWords_number {flags : List UInt8} {conv : UInt8} (long : d.lflag = longFlag flags)
    (number : conv = ascii 'd' ∨ conv = ascii 'u' ∨ conv = ascii 'o' ∨ conv = ascii 'x') :
    conversionWords flags conv = if d.lflag ≥ 2 then 2 else 1 := by
  rw [long]
  exact if_pos number

theorem conversionWords_single {flags : List UInt8} {conv : UInt8}
    (single : conv = ascii 'c' ∨ conv = ascii 'e' ∨ conv = ascii 's' ∨ conv = ascii 'p') :
    conversionWords flags conv = 1 := by
  obtain rfl | rfl | rfl | rfl := single <;> exact (if_neg (by decide)).trans (if_pos (by decide))

theorem conversionWords_other {flags : List UInt8} {conv : UInt8} (other : ¬ isConversion conv) :
    conversionWords flags conv = 0 := by
  rw [conversionWords, if_neg, if_neg fun listed => other listed.1]
  rintro (rfl | rfl | rfl | rfl) <;> exact other (by decide)

/-- A conversion with a valid argument is carried out, and consumes its words. -/
theorem conversion_read (putch : Int → σ → σ) (s : σ) {flags : List UInt8} {conv : UInt8} (listed : isConversion conv)
    (long : d.lflag = longFlag flags) (valid : ValidArgument env ap conv) :
    ∃ s', ∀ env' ap' fmt, SameArguments env ap env' ap' →
      conversion (vprintfmt putch) putch env' d ap' conv fmt s =
        some (ap' + conversionWords flags conv, fmt, s') := by
  simp only [isConversion, List.map_cons, List.map_nil, List.mem_cons, List.not_mem_nil, or_false] at listed
  obtain rfl | rfl | rfl | rfl | rfl | rfl | rfl | rfl | rfl := listed
  · refine ⟨putch (signedWord (env.word ap)) s, fun env' ap' fmt agree => ?_⟩
    rw [conversionWords_single (by decide), ← agree.word]
    rfl
  · obtain ⟨s', run⟩ := conversion_error putch d s (valid.2 rfl)
    refine ⟨s', fun env' ap' fmt agree => ?_⟩
    rw [conversionWords_single (by decide), run env' ap' fmt agree]
  · have terminated : 0 ∈ if env.word ap = 0 then Cstring.literal "(null)" else env.bytes (env.word ap) := by
      split
      · decide
      · rename_i pointer
        exact (valid.1 rfl).resolve_left pointer
    obtain ⟨s', run⟩ := printString_terminated putch terminated d s
    refine ⟨s', fun env' ap' fmt agree => ?_⟩
    have step : conversion (vprintfmt putch) putch env' d ap' (ascii 's') fmt s =
        (printString putch d (if env'.word ap' = 0 then Cstring.literal "(null)" else env'.bytes (env'.word ap')) s).map
          (ap' + 1, fmt, ·) := rfl
    rw [step, agree.word, agree.1, run, conversionWords_single (by decide), Option.map_some]
  · refine ⟨printnum putch (magnitude (getint env ap d.lflag).1) .decimal d.width d.padc
      ((signOf (getint env ap d.lflag).1).foldl (fun s ch => putch ch s) s), fun env' ap' fmt agree => ?_⟩
    rw [conversion_decimal, getint_same agree, conversionWords_number long (by decide)]
  · refine ⟨printnum putch (getuint env ap d.lflag).1 .decimal d.width d.padc s, fun env' ap' fmt agree => ?_⟩
    rw [conversion_unsigned .decimal (by decide), getuint_same agree, conversionWords_number long (by decide)]
  · refine ⟨printnum putch (getuint env ap d.lflag).1 .octal d.width d.padc s, fun env' ap' fmt agree => ?_⟩
    rw [conversion_unsigned .octal (by decide), getuint_same agree, conversionWords_number long (by decide)]
  · refine ⟨printnum putch (env.word ap).toNat .hexadecimal d.width d.padc (putch 'x'.toNat (putch '0'.toNat s)),
      fun env' ap' fmt agree => ?_⟩
    rw [conversion_pointer, agree.word, conversionWords_single (by decide)]
  · refine ⟨printnum putch (getuint env ap d.lflag).1 .hexadecimal d.width d.padc s, fun env' ap' fmt agree => ?_⟩
    rw [conversion_unsigned .hexadecimal (by decide), getuint_same agree, conversionWords_number long (by decide)]
  · refine ⟨putch (ascii '%').toNat s, fun env' ap' fmt _ => ?_⟩
    rw [conversionWords, if_neg (by decide), if_neg fun other => other.2 rfl, Nat.add_zero]
    rfl

end Conversion

end JosSmp.Printfmt
