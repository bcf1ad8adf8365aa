import JosSmp.Proof.Printfmt.Robust

/-!
This file proves that a format prints what its parts print, each with the arguments that are left for it.
-/

namespace JosSmp.Printfmt
open Library Machine

variable {env : Environment} {text text' : List UInt8} {words words' : Nat} {out out' : List Int}

/-- The text is worked off with its argument words, and the characters go into the sink. -/
def Prints (env : Environment) (text : List UInt8) (words : Nat) (out : List Int) : Prop :=
  ∀ s, Advances collect env 0 text words s (s ++ out)

theorem prints_nil (env : Environment) : Prints env [] 0 [] := by
  intro s
  rw [List.append_nil]
  exact advances_plain (by simp)

/-- What is worked off with the arguments that are left is worked off behind the ones that are taken. -/
theorem Advances.advance {σ : Type} {putch : Int → σ → σ} {s s' : σ}
    (run : Advances putch (env.advance words) 0 text words' s s') : Advances putch env words text words' s s' := by
  intro env' ap' passed rest agree
  refine run env' ap' passed rest ⟨agree.1, fun i => ?_⟩
  rw [agree.2, Nat.zero_add]
  rfl

/-- Two texts print one behind the other. -/
theorem Prints.append (first : Prints env text words out) (second : Prints (env.advance words) text' words' out') :
    Prints env (text ++ text') (words + words') (out ++ out') := by
  intro s
  have near := first s
  have far := (second (s ++ out)).advance
  rw [List.append_assoc] at far
  rw [← Nat.zero_add words] at far
  exact near.append far

theorem Prints.output (prints : Prints env text words out) : output (text ++ [0]) env = some out := by
  rw [Printfmt.output, vprintfmt_eq, prints [] env 0 [] [0] (.refl env 0), List.nil_append]
  exact vprintfmtLoop_end rfl

/-- A sink that already holds some characters receives the same ones behind them. -/
theorem vprintfmtLoop_behind {ap : Nat} {fmt : Cursor} (s : List Int)
    (run : vprintfmtLoop (vprintfmt collect) collect env ap fmt [] = some out) :
    vprintfmtLoop (vprintfmt collect) collect env ap fmt s = some (s ++ out) := by
  have keeps (ch : Int) (a b : List Int) (behind : b = s ++ a) : collect ch b = s ++ collect ch a := by
    rw [behind, collect, collect, List.append_assoc]
  have related := vprintfmtLoop_related (R := fun a b => b = s ++ a) keeps
    (fun fmt env _ _ behind => vprintfmt_related keeps fmt env behind) env ap fmt (s := []) (List.append_nil s).symm
  rw [run] at related
  exact rel_eq_map related

/-- A text of whole pieces that prints something as a format prints it everywhere. -/
theorem Prints.of_advances (advances : ∀ s, ∃ s', Advances collect env 0 text words s s')
    (run : Printfmt.output (text ++ [0]) env = some out) : Prints env text words out := by
  intro s
  obtain ⟨s', here⟩ := advances s
  have ends : vprintfmtLoop (vprintfmt collect) collect env 0 ⟨[], text ++ [0]⟩ s = some s' := by
    rw [here env 0 [] [0] (.refl env 0)]
    exact vprintfmtLoop_end rfl
  rw [Printfmt.output, vprintfmt_eq] at run
  rw [vprintfmtLoop_behind s run] at ends
  rwa [Option.some.inj ends]

/-- Behind whole pieces the rest of the format prints what it prints as a format of its own. -/
theorem Prints.before (prints : Prints env text words out) (noEnd : 0 ∉ text')
    (supplied : Supplied (env.advance words) text') :
    ∃ out', Printfmt.output (text' ++ [0]) (env.advance words) = some out' ∧
      Printfmt.output (text ++ text' ++ [0]) env = some (out ++ out') := by
  obtain ⟨out', ends⟩ := vprintfmtLoop_finishes collect noEnd supplied []
  have alone := ends (env.advance words) 0 [] (sameArguments_advance env words)
  refine ⟨out', (vprintfmt_eq ..).trans alone, ?_⟩
  have behind := vprintfmtLoop_behind out (ends env words (text.reverse ++ []) (.refl env words))
  rw [Printfmt.output, vprintfmt_eq, List.append_assoc, prints [] env 0 [] _ (.refl env 0), Nat.zero_add,
    List.nil_append, behind]

end JosSmp.Printfmt
