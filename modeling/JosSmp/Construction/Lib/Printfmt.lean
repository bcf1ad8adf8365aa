import JosSmp.Construction.Lib.String

/-!
This file models `lib/printfmt.c` up to `vprintfmt`.
The state of type `σ` is what `putdat` points to; a character passes to `putch` as an `int`.
-/

namespace JosSmp.Printfmt
open Machine

/-- What a call reads besides its format: the words of the argument list from `ap` on, and the readable
bytes from each address on. The strings that are printed do not change while they are printed. -/
structure Environment where
  word : Nat → UInt32
  bytes : UInt32 → List UInt8

def maxerror : Int := 6

/-- The null pointer is `none`. -/
def errorString : List (Option (List UInt8)) :=
  [none,
    some (Cstring.literal "unspecified error"),
    some (Cstring.literal "bad environment"),
    some (Cstring.literal "invalid parameter"),
    some (Cstring.literal "out of memory"),
    some (Cstring.literal "out of environments"),
    some (Cstring.literal "segmentation fault")]

/-- `printnum` prints in a base from two to sixteen. -/
structure Base where
  value : Nat
  least : 2 ≤ value
  most : value ≤ 16

def Base.octal : Base := ⟨8, by decide, by decide⟩
def Base.decimal : Base := ⟨10, by decide, by decide⟩
def Base.hexadecimal : Base := ⟨16, by decide, by decide⟩

section Sink

variable {σ : Type}

/-- Each padding loop prints `width` characters and counts `width` down to zero. -/
def padLoop (putch : Int → σ → σ) (padc : UInt8) (width : Int) (s : σ) : Int × σ :=
  if width > 0 then padLoop putch padc (width - 1) (putch (signedChar padc) s) else (width, s)
termination_by width.toNat

/-- The character `"0123456789abcdef"[i]`. -/
def digitChar (i : Nat) : Int := if i < 10 then '0'.toNat + i else 'a'.toNat + (i - 10)

def printnum (putch : Int → σ → σ) (num : Nat) (base : Base) (width : Int) (padc : UInt8) (s : σ) : σ :=
  let s := if base.value ≤ num then
      printnum putch (num / base.value) base (wrap32 (width - 1)) padc s
    else (padLoop putch padc (wrap32 (width - 1)) s).2
  putch (digitChar (num % base.value)) s
termination_by num
decreasing_by
  have least := base.least
  exact Nat.div_lt_self (by omega) (by omega)

/-- A position in the format: the bytes before `fmt`, nearest first, and the readable bytes from `fmt` on. -/
structure Cursor where
  passed : List UInt8
  rest : List UInt8
  deriving DecidableEq, Repr

/-- The local variables that describe one directive. -/
structure Directive where
  padc : UInt8
  width : Int
  precision : Int
  lflag : Int
  altflag : Bool
  deriving DecidableEq, Repr

def Directive.initial : Directive := ⟨ascii ' ', -1, -1, 0, false⟩

/-- The digits of a number in the format; `ch` is the digit before `fmt`. -/
def digits (passed : List UInt8) (precision ch : Int) : List UInt8 → Option (Int × Cursor)
  | [] => none
  | b :: rest =>
      let precision := wrap32 (precision * 10 + ch - '0'.toNat)
      if signedChar b < '0'.toNat ∨ signedChar b > '9'.toNat then some (precision, ⟨passed, b :: rest⟩)
      else digits (b :: passed) precision (signedChar b) rest

/-- The characters that may stand between a `%` and its conversion. -/
def isFlag (b : UInt8) : Prop :=
  b = ascii '-' ∨ ascii '0' ≤ b ∧ b ≤ ascii '9' ∨ b = ascii '*' ∨ b = ascii '.' ∨ b = ascii '#' ∨ b = ascii 'l'

instance (b : UInt8) : Decidable (isFlag b) := inferInstanceAs (Decidable (_ ∨ _))

/-- The second position is the first one moved forward over some flags. -/
def Cursor.FlagsTo (fmt fmt' : Cursor) : Prop :=
  ∃ flags : List UInt8, (∀ b ∈ flags, isFlag b) ∧ fmt'.passed = flags.reverse ++ fmt.passed ∧
    fmt.rest = flags ++ fmt'.rest

theorem Cursor.FlagsTo.refl (fmt : Cursor) : fmt.FlagsTo fmt := ⟨[], by simp, rfl, rfl⟩

theorem Cursor.FlagsTo.cons {fmt fmt' : Cursor} {b : UInt8} {rest : List UInt8} (read : fmt.rest = b :: rest)
    (flag : isFlag b) (onward : Cursor.FlagsTo ⟨b :: fmt.passed, rest⟩ fmt') : fmt.FlagsTo fmt' := by
  obtain ⟨flags, all, passed, left⟩ := onward
  refine ⟨b :: flags, ?_, ?_, ?_⟩
  · intro c member
    obtain rfl | later := List.mem_cons.mp member
    · exact flag
    · exact all c later
  · rw [passed, List.reverse_cons, List.append_assoc]
    rfl
  · rw [read]
    exact congrArg (List.cons b) left

theorem Cursor.FlagsTo.trans {first second third : Cursor} (near : first.FlagsTo second)
    (far : second.FlagsTo third) : first.FlagsTo third := by
  obtain ⟨flags, all, passed, left⟩ := near
  obtain ⟨flags', all', passed', left'⟩ := far
  refine ⟨flags ++ flags', ?_, ?_, ?_⟩
  · intro c member
    obtain earlier | later := List.mem_append.mp member
    · exact all c earlier
    · exact all' c later
  · rw [passed', passed, List.reverse_append, List.append_assoc]
  · rw [left, left', List.append_assoc]

theorem Cursor.FlagsTo.length_le {fmt fmt' : Cursor} (onward : fmt.FlagsTo fmt') :
    fmt'.rest.length ≤ fmt.rest.length := by
  obtain ⟨flags, _, _, left⟩ := onward
  rw [left, List.length_append]
  omega

/-- A number in the format is read up to the first byte that is no digit. -/
theorem digits_flags {passed rest : List UInt8} {precision ch value : Int} {fmt : Cursor}
    (run : digits passed precision ch rest = some (value, fmt)) : Cursor.FlagsTo ⟨passed, rest⟩ fmt := by
  induction rest generalizing passed precision ch with
  | nil => simp [digits] at run
  | cons b rest ih =>
      simp only [digits] at run
      split at run
      · obtain ⟨_, rfl⟩ := Prod.mk.inj (Option.some.inj run)
        exact .refl _
      · rename_i digit
        refine .cons rfl (.inr (.inl ?_)) (ih run)
        simp only [signedChar, not_or, not_lt] at digit
        simp only [UInt8.le_iff_toNat_le]
        have zero : (ascii '0').toNat = 48 ∧ '0'.toNat = 48 := by decide
        have nine : (ascii '9').toNat = 57 ∧ '9'.toNat = 57 := by decide
        have byte := b.toNat_lt
        split at digit <;> omega

/-- The first number is the width and the second one the precision. -/
def Directive.processPrecision (d : Directive) (precision : Int) : Directive :=
  if d.width < 0 then { d with width := precision, precision := -1 } else { d with precision }

/-- The directive that the flags describe, the index of the next argument, and the character after the flags. -/
def reswitch (env : Environment) (d : Directive) (ap : Nat) (fmt : Cursor) :
    Option (Directive × Nat × UInt8 × Cursor) :=
  match step : fmt.rest with
  | [] => none
  | ch :: rest =>
      let fmt' : Cursor := ⟨ch :: fmt.passed, rest⟩
      if ch = ascii '-' then reswitch env { d with padc := ascii '-' } ap fmt'
      else if ch = ascii '0' then reswitch env { d with padc := ascii '0' } ap fmt'
      else if ascii '1' ≤ ch ∧ ch ≤ ascii '9' then
        match _number : digits fmt'.passed 0 ch.toNat rest with
        | none => none
        | some (precision, fmt'') => reswitch env (d.processPrecision precision) ap fmt''
      else if ch = ascii '*' then reswitch env (d.processPrecision (signedWord (env.word ap))) (ap + 1) fmt'
      else if ch = ascii '.' then reswitch env (if d.width < 0 then { d with width := 0 } else d) ap fmt'
      else if ch = ascii '#' then reswitch env { d with altflag := true } ap fmt'
      else if ch = ascii 'l' then reswitch env { d with lflag := wrap32 (d.lflag + 1) } ap fmt'
      else some (d, ap, ch, fmt')
termination_by fmt.rest.length
decreasing_by
  all_goals simp only [step, List.length_cons]
  all_goals try omega
  have shorter := (digits_flags _number).length_le
  dsimp only at shorter
  omega

/-- The flags are read from left to right, up to the first character that is none. -/
theorem reswitch_flags {env : Environment} {d d' : Directive} {ap ap' : Nat} {fmt fmt' : Cursor} {ch : UInt8}
    (run : reswitch env d ap fmt = some (d', ap', ch, fmt')) :
    ∃ last : Cursor, fmt.FlagsTo last ∧ last.rest = ch :: fmt'.rest ∧ fmt'.passed = ch :: last.passed ∧
      ¬ isFlag ch := by
  fun_induction reswitch env d ap fmt with
  | case1 => simp at run
  | case2 d ap fmt rest read _ ih =>
      obtain ⟨last, flags, after⟩ := ih run
      exact ⟨last, .cons read (.inl rfl) flags, after⟩
  | case3 d ap fmt rest read _ _ ih =>
      obtain ⟨last, flags, after⟩ := ih run
      exact ⟨last, .cons read (.inr (.inl (by decide))) flags, after⟩
  | case4 => simp at run
  | case5 d ap fmt ch rest read _ _ _ digit precision fmt'' number ih =>
      obtain ⟨last, flags, after⟩ := ih run
      have lower : ascii '0' ≤ ch := UInt8.le_trans (by decide) digit.1
      exact ⟨last, .cons read (.inr (.inl ⟨lower, digit.2⟩)) ((digits_flags number).trans flags), after⟩
  | case6 d ap fmt rest read _ _ _ _ ih =>
      obtain ⟨last, flags, after⟩ := ih run
      exact ⟨last, .cons read (.inr (.inr (.inl rfl))) flags, after⟩
  | case7 d ap fmt rest read _ _ _ _ _ ih =>
      obtain ⟨last, flags, after⟩ := ih run
      exact ⟨last, .cons read (.inr (.inr (.inr (.inl rfl)))) flags, after⟩
  | case8 d ap fmt rest read _ _ _ _ _ _ ih =>
      obtain ⟨last, flags, after⟩ := ih run
      exact ⟨last, .cons read (.inr (.inr (.inr (.inr (.inl rfl))))) flags, after⟩
  | case9 d ap fmt rest read _ _ _ _ _ _ _ ih =>
      obtain ⟨last, flags, after⟩ := ih run
      exact ⟨last, .cons read (.inr (.inr (.inr (.inr (.inr rfl))))) flags, after⟩
  | case10 d ap fmt ch rest read _ minus zero digit star dot sharp long =>
      simp only [Option.some.injEq, Prod.mk.injEq] at run
      obtain ⟨_, _, rfl, rfl⟩ := run
      refine ⟨fmt, .refl _, read, rfl, ?_⟩
      rintro (h | ⟨lower, upper⟩ | h | h | h | h)
      · exact minus h
      · apply digit ⟨?_, upper⟩
        rw [UInt8.le_iff_toNat_le] at lower ⊢
        have positive : ch.toNat ≠ (ascii '0').toNat := fun same => zero (UInt8.toNat_inj.mp same)
        have zero : (ascii '0').toNat = 48 := by decide
        have one : (ascii '1').toNat = 49 := by decide
        omega
      · exact star h
      · exact dot h
      · exact sharp h
      · exact long h

/-- A number argument, with the index of the argument after it. -/
def getuint (env : Environment) (ap : Nat) (lflag : Int) : Nat × Nat :=
  if lflag ≥ 2 then ((env.word ap).toNat + (env.word (ap + 1)).toNat * 4294967296, ap + 2)
  else ((env.word ap).toNat, ap + 1)

def getint (env : Environment) (ap : Nat) (lflag : Int) : Int × Nat :=
  if lflag ≥ 2 then (wrap64 ((env.word ap).toNat + (env.word (ap + 1)).toNat * 4294967296), ap + 2)
  else (signedWord (env.word ap), ap + 1)

/-- The characters of the string, with what is left of the width. -/
def putString (putch : Int → σ → σ) (altflag : Bool) : List UInt8 → Int → Int → σ → Option (Int × σ)
  | [], _, _, _ => none
  | b :: rest, width, precision, s =>
      let ch := signedChar b
      if ch = 0 then some (width, s)
      else if precision < 0 ∨ precision - 1 ≥ 0 then
        putString putch altflag rest (wrap32 (width - 1)) (if precision < 0 then precision else precision - 1)
          (putch (if altflag ∧ (ch < ' '.toNat ∨ ch > '~'.toNat) then '?'.toNat else ch) s)
      else some (width, s)

def printString (putch : Int → σ → σ) (d : Directive) (p : List UInt8) (s : σ) : Option σ :=
  let padded :=
    if d.width > 0 ∧ d.padc ≠ ascii '-' then
      (Cstring.strnlen p (d.precision % 4294967296).toNat).map fun n =>
        padLoop putch d.padc (wrap32 (d.width - n)) s
    else some (d.width, s)
  match padded with
  | none => none
  | some (width, s) =>
      (putString putch d.altflag p width d.precision s).map fun out => (padLoop putch (ascii ' ') out.1 out.2).2

/-- An unrecognized directive moves `fmt` back behind the nearest `%`. -/
def rewindLoop : List UInt8 → List UInt8 → Option Cursor
  | [], _ => none
  | b :: passed, rest => if b ≠ ascii '%' then rewindLoop passed (b :: rest) else some ⟨b :: passed, rest⟩

def rewind (fmt : Cursor) : Option Cursor :=
  match fmt.passed with
  | [] => none
  | b :: passed => rewindLoop passed (b :: fmt.rest)

/-- The code of `%e`, from either sign; the negation wraps. -/
def errorCode (env : Environment) (ap : Nat) : Int :=
  if signedWord (env.word ap) < 0 then wrap32 (-signedWord (env.word ap)) else signedWord (env.word ap)

/-- The message at an index of the table; an index outside the table has none. -/
def errorMessage (err : Int) : Option (Option (List UInt8)) :=
  if err < 0 then none else errorString[err.toNat]?

/-- One conversion; `printfmt` is the nested call, whose argument words and strings it receives. -/
def conversion (printfmt : List UInt8 → Environment → σ → Option σ) (putch : Int → σ → σ) (env : Environment)
    (d : Directive) (ap : Nat) (ch : UInt8) (fmt : Cursor) (s : σ) : Option (Nat × Cursor × σ) :=
  let number (num ap : Nat) (base : Base) (s : σ) : Option (Nat × Cursor × σ) :=
    some (ap, fmt, printnum putch num base d.width d.padc s)
  if ch = ascii 'c' then some (ap + 1, fmt, putch (signedWord (env.word ap)) s)
  else if ch = ascii 'e' then
    let err := errorCode env ap
    match if err > maxerror then some none else errorMessage err with
    | none => none
    | some none =>
        (printfmt (Cstring.literal "error %d") ⟨fun _ => UInt32.ofInt err, env.bytes⟩ s).map (ap + 1, fmt, ·)
    | some (some p) =>
        -- The message lies at some nonzero address.
        (printfmt (Cstring.literal "%s") ⟨fun _ => 1, fun _ => p⟩ s).map (ap + 1, fmt, ·)
  else if ch = ascii 's' then
    let p := if env.word ap = 0 then Cstring.literal "(null)" else env.bytes (env.word ap)
    (printString putch d p s).map (ap + 1, fmt, ·)
  else if ch = ascii 'd' then
    let num := getint env ap d.lflag
    if num.1 < 0 then
      number (toUnsigned64 (wrap64 (-num.1))) num.2 .decimal (putch '-'.toNat s)
    else number (toUnsigned64 num.1) num.2 .decimal s
  else if ch = ascii 'u' then number (getuint env ap d.lflag).1 (getuint env ap d.lflag).2 .decimal s
  else if ch = ascii 'o' then number (getuint env ap d.lflag).1 (getuint env ap d.lflag).2 .octal s
  else if ch = ascii 'p' then
    number (env.word ap).toNat (ap + 1) .hexadecimal (putch 'x'.toNat (putch '0'.toNat s))
  else if ch = ascii 'x' then number (getuint env ap d.lflag).1 (getuint env ap d.lflag).2 .hexadecimal s
  else if ch = ascii '%' then some (ap, fmt, putch ch.toNat s)
  else (rewind fmt).map (ap, ·, putch '%'.toNat s)

theorem rewindLoop_eq {flags before rest : List UInt8} (plain : ∀ b ∈ flags, b ≠ ascii '%') :
    rewindLoop (flags ++ ascii '%' :: before) rest = some ⟨ascii '%' :: before, flags.reverse ++ rest⟩ := by
  induction flags generalizing rest with
  | nil => simp [rewindLoop]
  | cons b flags ih =>
      rw [List.cons_append, rewindLoop, if_pos (plain b List.mem_cons_self),
        ih fun c member => plain c (List.mem_cons_of_mem _ member), List.reverse_cons, List.append_assoc]
      rfl

theorem isFlag_ne {b : UInt8} (flag : isFlag b) : b ≠ ascii '%' := by
  rintro rfl
  revert flag
  unfold isFlag
  decide

/-- Moving back from an unrecognized directive ends right behind its `%`. -/
theorem rewind_eq {before : List UInt8} {rest : List UInt8} {last fmt : Cursor} {ch : UInt8}
    (flags : Cursor.FlagsTo ⟨ascii '%' :: before, rest⟩ last) (read : last.rest = ch :: fmt.rest)
    (passed : fmt.passed = ch :: last.passed) : rewind fmt = some ⟨ascii '%' :: before, rest⟩ := by
  obtain ⟨chars, all, behind, ahead⟩ := flags
  rw [rewind, passed]
  dsimp only at behind ahead ⊢
  rw [behind, rewindLoop_eq, List.reverse_reverse, ahead, read]
  intro b member
  exact isFlag_ne (all b (List.mem_reverse.mp member))

/-- An outcome goes on behind the character of its conversion, or moves back. -/
def GoesOn (fmt : Cursor) (out : Option (Nat × Cursor × σ)) : Prop :=
  ∀ ap fmt' s, out = some (ap, fmt', s) → fmt' = fmt ∨ rewind fmt = some fmt'

section GoesOn

variable {fmt : Cursor}

theorem GoesOn.here (ap : Nat) (s : σ) : GoesOn fmt (some (ap, fmt, s)) := fun _ _ _ same =>
  .inl (Prod.mk.inj (Prod.mk.inj (Option.some.inj same)).2).1.symm

theorem GoesOn.stay (ap : Nat) (out : Option σ) : GoesOn fmt (out.map (ap, fmt, ·)) := by
  cases out with
  | none => exact fun _ _ _ same => nomatch same
  | some s => exact .here ap s

theorem GoesOn.ite {c : Prop} [Decidable c] {first second : Option (Nat × Cursor × σ)} (yes : GoesOn fmt first)
    (no : GoesOn fmt second) : GoesOn fmt (if c then first else second) := by
  split
  · exact yes
  · exact no

end GoesOn

/-- A conversion goes on behind its character, or moves back. -/
theorem conversion_fmt {printfmt : List UInt8 → Environment → σ → Option σ} {putch : Int → σ → σ}
    {env : Environment} {d : Directive} {ap ap' : Nat} {ch : UInt8} {fmt fmt' : Cursor} {s s' : σ}
    (run : conversion printfmt putch env d ap ch fmt s = some (ap', fmt', s')) :
    fmt' = fmt ∨ rewind fmt = some fmt' := by
  have goes : GoesOn fmt (conversion printfmt putch env d ap ch fmt s) := by
    unfold conversion
    dsimp only
    refine .ite (.here _ _) (.ite ?_ (.ite (.stay _ _) (.ite (.ite (.here _ _) (.here _ _)) (.ite (.here _ _)
      (.ite (.here _ _) (.ite (.here _ _) (.ite (.here _ _) (.ite (.here _ _) ?_))))))))
    · split
      · exact fun _ _ _ same => nomatch same
      · exact .stay _ _
      · exact .stay _ _
    · intro _ _ _ same
      obtain ⟨moved, back, rfl, rfl, rfl⟩ := Option.map_eq_some_iff.mp same
      exact .inr back
  exact goes _ _ _ run

/-- A pass of the outer loop prints one character or carries out one directive. -/
def vprintfmtLoop (printfmt : List UInt8 → Environment → σ → Option σ) (putch : Int → σ → σ)
    (env : Environment) (ap : Nat) (fmt : Cursor) (s : σ) : Option σ :=
  match _read : fmt.rest with
  | [] => none
  | ch :: rest =>
      if _percent : ch ≠ ascii '%' then
        if ch = 0 then some s
        else vprintfmtLoop printfmt putch env ap ⟨ch :: fmt.passed, rest⟩ (putch ch.toNat s)
      else
        match _flags : reswitch env .initial ap ⟨ch :: fmt.passed, rest⟩ with
        | none => none
        | some (d, ap, conv, fmt') =>
            match _done : conversion printfmt putch env d ap conv fmt' s with
            | none => none
            | some (ap, fmt'', s) => vprintfmtLoop printfmt putch env ap fmt'' s
termination_by fmt.rest.length
decreasing_by
  · simp only [_read, List.length_cons]
    omega
  · rw [not_not.mp _percent] at _flags _read
    obtain ⟨last, flags, read, passed, _⟩ := reswitch_flags _flags
    have shorter := flags.length_le
    have size := congrArg List.length read
    rw [_read]
    simp only [List.length_cons] at shorter size ⊢
    obtain rfl | back := conversion_fmt _done
    · omega
    · rw [rewind_eq flags read passed] at back
      rw [← Option.some.inj back]
      dsimp only
      omega

section Steps

variable {printfmt : List UInt8 → Environment → σ → Option σ} {putch : Int → σ → σ} {env : Environment} {ap : Nat}
  {fmt : Cursor} {ch : UInt8} {rest : List UInt8} {s : σ}

theorem vprintfmtLoop_nil (read : fmt.rest = []) : vprintfmtLoop printfmt putch env ap fmt s = none := by
  rw [vprintfmtLoop]
  split <;> simp_all

theorem vprintfmtLoop_end (read : fmt.rest = 0 :: rest) : vprintfmtLoop printfmt putch env ap fmt s = some s := by
  rw [vprintfmtLoop]
  split
  · simp_all
  · rename_i ch _ again
    obtain ⟨rfl, rfl⟩ := List.cons.inj (read.symm.trans again)
    simp [show (0 : UInt8) ≠ ascii '%' by decide]

theorem vprintfmtLoop_char (read : fmt.rest = ch :: rest) (plain : ch ≠ ascii '%') (more : ch ≠ 0) :
    vprintfmtLoop printfmt putch env ap fmt s =
      vprintfmtLoop printfmt putch env ap ⟨ch :: fmt.passed, rest⟩ (putch ch.toNat s) := by
  rw [vprintfmtLoop]
  split
  · simp_all
  · rename_i ch' _ again
    obtain ⟨rfl, rfl⟩ := List.cons.inj (read.symm.trans again)
    rw [dif_pos plain, if_neg more]

/-- A directive reads its flags and is carried out. -/
theorem vprintfmtLoop_directive (read : fmt.rest = ascii '%' :: rest) :
    vprintfmtLoop printfmt putch env ap fmt s =
      (reswitch env .initial ap ⟨ascii '%' :: fmt.passed, rest⟩).bind fun (d, ap, conv, fmt') =>
        (conversion printfmt putch env d ap conv fmt' s).bind fun (ap, fmt'', s) =>
          vprintfmtLoop printfmt putch env ap fmt'' s := by
  rw [vprintfmtLoop]
  split
  · simp_all
  · rename_i ch _ again
    obtain ⟨rfl, rfl⟩ := List.cons.inj (read.symm.trans again)
    rw [dif_neg (not_not.mpr rfl)]
    split
    · simp_all
    · rename_i flags
      rw [flags, Option.bind_some]
      split
      · simp_all
      · rename_i done
        simp only [done, Option.bind_some]

end Steps

/-- The nested formats contain no `%e`, so the calls nest at most this deep. -/
def printfmtDepth : Nat := 2

def printfmtNested (putch : Int → σ → σ) : Nat → List UInt8 → Environment → σ → Option σ
  | 0, _, _, _ => none
  | depth + 1, fmt, env, s => vprintfmtLoop (printfmtNested putch depth) putch env 0 ⟨[], fmt⟩ s

/-- The result is the state after the last character, or nothing when a read leaves the readable bytes. -/
def vprintfmt (putch : Int → σ → σ) (fmt : List UInt8) (env : Environment) (s : σ) : Option σ :=
  printfmtNested putch printfmtDepth fmt env s

end Sink

end JosSmp.Printfmt
