import JosSmp.Proof.Printfmt.Number

/-!
This file proves that two levels of nesting are enough for `vprintfmt`.
-/

namespace JosSmp.Printfmt
open Machine

variable {σ : Type} {printfmt printfmt' : List UInt8 → Environment → σ → Option σ} {putch : Int → σ → σ}
  {env : Environment} {d : Directive} {ap : Nat} {ch : UInt8} {fmt : Cursor} {s : σ}

/-- The formats that `%e` prints with. -/
def Agree (printfmt printfmt' : List UInt8 → Environment → σ → Option σ) : Prop :=
  ∀ env s, printfmt (Cstring.literal "error %d") env s = printfmt' (Cstring.literal "error %d") env s ∧
    printfmt (Cstring.literal "%s") env s = printfmt' (Cstring.literal "%s") env s

theorem conversion_agree (agree : Agree printfmt printfmt') :
    conversion printfmt putch env d ap ch fmt s = conversion printfmt' putch env d ap ch fmt s := by
  simp only [conversion, (agree _ _).1, (agree _ _).2]

/-- A call depends on its nested call only through the formats of `%e`. -/
theorem vprintfmtLoop_agree (agree : Agree printfmt printfmt') :
    vprintfmtLoop printfmt putch env ap fmt s = vprintfmtLoop printfmt' putch env ap fmt s := by
  fun_induction vprintfmtLoop printfmt putch env ap fmt s with
  | case1 ap fmt s read => rw [vprintfmtLoop_nil read]
  | case2 ap fmt s rest read percent => rw [vprintfmtLoop_end read]
  | case3 ap fmt s ch rest read percent character ih => rw [vprintfmtLoop_char read percent character, ih]
  | case4 ap fmt s ch rest read percent unread =>
      obtain rfl := not_not.mp percent
      rw [vprintfmtLoop_directive read, unread, Option.bind_none]
  | case5 ap fmt s ch rest read percent d ap' conv fmt' flags failed =>
      obtain rfl := not_not.mp percent
      rw [conversion_agree agree] at failed
      simp only [vprintfmtLoop_directive read, flags, failed, Option.bind_some, Option.bind_none]
  | case6 ap fmt s ch rest read percent d ap' conv fmt' flags ap'' fmt'' s' done ih =>
      obtain rfl := not_not.mp percent
      rw [conversion_agree agree] at done
      simp only [vprintfmtLoop_directive read, flags, done, Option.bind_some, ih]

/-- Plain characters are printed one by one. -/
theorem vprintfmtLoop_plain {text passed rest : List UInt8} (plain : ∀ b ∈ text, b ≠ ascii '%' ∧ b ≠ 0) :
    vprintfmtLoop printfmt putch env ap ⟨passed, text ++ rest⟩ s =
      vprintfmtLoop printfmt putch env ap ⟨text.reverse ++ passed, rest⟩
        (text.foldl (fun s b => putch b.toNat s) s) := by
  induction text generalizing passed s with
  | nil => rfl
  | cons b text ih =>
      obtain ⟨noPercent, noEnd⟩ := plain b List.mem_cons_self
      have others (c : UInt8) (member : c ∈ text) := plain c (List.mem_cons_of_mem _ member)
      rw [List.cons_append, vprintfmtLoop_char rfl noPercent noEnd, ih others,
        List.reverse_cons, List.append_assoc]
      rfl

/-- The format of an error code without a message prints a decimal number. -/
theorem vprintfmtLoop_error :
    vprintfmtLoop printfmt putch env 0 ⟨[], Cstring.literal "error %d"⟩ s =
      some (printnum putch (magnitude (getint env 0 0).1) .decimal (-1) (ascii ' ')
        ((signOf (getint env 0 0).1).foldl (fun s ch => putch ch s)
          (("error ".toList.map ascii).foldl (fun s b => putch b.toNat s) s))) := by
  have text : Cstring.literal "error %d" = "error ".toList.map ascii ++ [ascii '%', ascii 'd', 0] := by decide
  rw [text, vprintfmtLoop_plain (by decide +kernel), vprintfmtLoop_conversion (by decide), conversion_decimal,
    Option.bind_some]
  exact vprintfmtLoop_end rfl

/-- The format of a message prints a string. -/
theorem vprintfmtLoop_message :
    vprintfmtLoop printfmt putch env 0 ⟨[], Cstring.literal "%s"⟩ s =
      printString putch .initial
        (if env.word 0 = 0 then Cstring.literal "(null)" else env.bytes (env.word 0)) s := by
  have text : Cstring.literal "%s" = [ascii '%', ascii 's', 0] := by decide
  have string (fmt : Cursor) : conversion printfmt putch env .initial 0 (ascii 's') fmt s =
      (printString putch .initial
        (if env.word 0 = 0 then Cstring.literal "(null)" else env.bytes (env.word 0)) s).map (1, fmt, ·) := rfl
  rw [text, vprintfmtLoop_conversion (by decide), string]
  cases printString putch .initial (if env.word 0 = 0 then Cstring.literal "(null)" else env.bytes (env.word 0)) s with
  | none => rfl
  | some s =>
      rw [Option.map_some, Option.bind_some]
      exact vprintfmtLoop_end rfl

/-- The two formats of `%e` contain no `%e`, so no nested call is made for them. -/
theorem printfmtNested_agree (depth : Nat) :
    Agree (printfmtNested putch (depth + 1)) (printfmtNested putch (depth + 2)) := by
  intro env s
  simp only [printfmtNested, vprintfmtLoop_error, vprintfmtLoop_message, and_self]

/-- `vprintfmt` satisfies the recursion of the source, in which `%e` calls it again. -/
theorem vprintfmt_eq (putch : Int → σ → σ) (fmt : List UInt8) (env : Environment) (s : σ) :
    vprintfmt putch fmt env s = vprintfmtLoop (vprintfmt putch) putch env 0 ⟨[], fmt⟩ s :=
  vprintfmtLoop_agree (printfmtNested_agree 0)

end JosSmp.Printfmt
