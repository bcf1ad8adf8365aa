import JosSmp.Library.Outcome
import JosSmp.Construction.Lib.Printfmt

/-!
This file proves that `vprintfmt` uses its sink only to put characters into it.
Two sinks that agree on each character therefore agree on the whole output.
-/

namespace JosSmp.Printfmt
open Library Machine

section Related

variable {σ τ : Type} {R : σ → τ → Prop} {putch : Int → σ → σ} {putch' : Int → τ → τ} {s : σ} {t : τ}

theorem padLoop_related (keeps : ∀ ch s t, R s t → R (putch ch s) (putch' ch t)) (padc : UInt8) (width : Int)
    (start : R s t) : (padLoop putch padc width s).1 = (padLoop putch' padc width t).1 ∧
      R (padLoop putch padc width s).2 (padLoop putch' padc width t).2 := by
  fun_induction padLoop putch padc width s generalizing t with
  | case1 width s positive ih =>
      rw [padLoop.eq_1 putch', if_pos positive]
      exact ih (keeps _ _ _ start)
  | case2 width s done =>
      rw [padLoop.eq_1 putch', if_neg done]
      exact ⟨rfl, start⟩

theorem printnum_related (keeps : ∀ ch s t, R s t → R (putch ch s) (putch' ch t)) (num : Nat) (base : Base)
    (width : Int) (padc : UInt8) (start : R s t) :
    R (printnum putch num base width padc s) (printnum putch' num base width padc t) := by
  induction num using Nat.strongRecOn generalizing width with
  | _ num ih =>
      rw [printnum, printnum.eq_1 putch']
      apply keeps
      split
      · rename_i large
        have least := base.least
        exact ih _ (Nat.div_lt_self (by omega) (by omega)) _
      · exact (padLoop_related keeps padc _ start).2

theorem putString_related (keeps : ∀ ch s t, R s t → R (putch ch s) (putch' ch t)) (altflag : Bool)
    (p : List UInt8) (width precision : Int) (start : R s t) :
    Option.Rel (fun out out' => out.1 = out'.1 ∧ R out.2 out'.2) (putString putch altflag p width precision s)
      (putString putch' altflag p width precision t) := by
  induction p generalizing width precision s t with
  | nil => exact .none
  | cons b rest ih =>
      simp only [putString]
      split
      · exact .some ⟨rfl, start⟩
      · split
        · exact ih _ _ (keeps _ _ _ start)
        · exact .some ⟨rfl, start⟩

theorem printString_related (keeps : ∀ ch s t, R s t → R (putch ch s) (putch' ch t)) (d : Directive)
    (p : List UInt8) (start : R s t) : Option.Rel R (printString putch d p s) (printString putch' d p t) := by
  have onward {width width' : Int} {s : σ} {t : τ} (same : width = width') (related : R s t) :
      Option.Rel R
        ((putString putch d.altflag p width d.precision s).map fun out => (padLoop putch (ascii ' ') out.1 out.2).2)
        ((putString putch' d.altflag p width' d.precision t).map fun out =>
          (padLoop putch' (ascii ' ') out.1 out.2).2) := by
    subst same
    apply rel_map (putString_related keeps _ _ _ _ related)
    intro a b ⟨same, related⟩
    rw [same]
    exact (padLoop_related keeps _ _ related).2
  simp only [printString]
  by_cases padded : d.width > 0 ∧ d.padc ≠ ascii '-'
  · simp only [if_pos padded]
    cases Cstring.strnlen p (d.precision % 4294967296).toNat with
    | none => exact .none
    | some n =>
        obtain ⟨same, related⟩ := padLoop_related keeps d.padc (wrap32 (d.width - n)) start
        exact onward same related
  · simp only [if_neg padded]
    exact onward rfl start

variable {printfmt : List UInt8 → Environment → σ → Option σ} {printfmt' : List UInt8 → Environment → τ → Option τ}

/-- Two conversions end at the same place, with related states. -/
def SamePlace (R : σ → τ → Prop) (out : Nat × Cursor × σ) (out' : Nat × Cursor × τ) : Prop :=
  out.1 = out'.1 ∧ out.2.1 = out'.2.1 ∧ R out.2.2 out'.2.2

theorem conversion_related (keeps : ∀ ch s t, R s t → R (putch ch s) (putch' ch t))
    (nested : ∀ fmt env s t, R s t → Option.Rel R (printfmt fmt env s) (printfmt' fmt env t)) (env : Environment)
    (d : Directive) (ap : Nat) (ch : UInt8) (fmt : Cursor) (start : R s t) :
    Option.Rel (SamePlace R) (conversion printfmt putch env d ap ch fmt s)
      (conversion printfmt' putch' env d ap ch fmt t) := by
  have number {s : σ} {t : τ} (related : R s t) (num ap : Nat) (base : Base) :
      Option.Rel (SamePlace R) (some (ap, fmt, printnum putch num base d.width d.padc s))
        (some (ap, fmt, printnum putch' num base d.width d.padc t)) :=
    .some ⟨rfl, rfl, printnum_related keeps num base d.width d.padc related⟩
  have stay {x : Option σ} {y : Option τ} (related : Option.Rel R x y) (ap : Nat) :
      Option.Rel (SamePlace R) (x.map (ap, fmt, ·)) (y.map (ap, fmt, ·)) :=
    rel_map related fun _ _ here => ⟨rfl, rfl, here⟩
  have plain (ch : Int) (ap : Nat) :
      Option.Rel (SamePlace R) (some (ap, fmt, putch ch s)) (some (ap, fmt, putch' ch t)) :=
    .some ⟨rfl, rfl, keeps ch s t start⟩
  unfold conversion
  dsimp only
  refine rel_ite (plain _ _) (rel_ite ?_ (rel_ite ?_ (rel_ite (rel_ite ?_ ?_) (rel_ite ?_ (rel_ite ?_ (rel_ite ?_
    (rel_ite ?_ (rel_ite (plain _ _) ?_))))))))
  · split
    · exact .none
    · exact stay (nested _ _ _ _ start) _
    · exact stay (nested _ _ _ _ start) _
  · exact stay (printString_related keeps d _ start) _
  · exact number (keeps _ _ _ start) _ _ _
  · exact number start _ _ _
  · exact number start _ _ _
  · exact number start _ _ _
  · exact number (keeps _ _ _ (keeps _ _ _ start)) _ _ _
  · exact number start _ _ _
  · cases rewind fmt with
    | none => exact .none
    | some moved => exact .some ⟨rfl, rfl, keeps _ _ _ start⟩

theorem vprintfmtLoop_related (keeps : ∀ ch s t, R s t → R (putch ch s) (putch' ch t))
    (nested : ∀ fmt env s t, R s t → Option.Rel R (printfmt fmt env s) (printfmt' fmt env t)) (env : Environment)
    (ap : Nat) (fmt : Cursor) (start : R s t) :
    Option.Rel R (vprintfmtLoop printfmt putch env ap fmt s) (vprintfmtLoop printfmt' putch' env ap fmt t) := by
  fun_induction vprintfmtLoop printfmt putch env ap fmt s generalizing t with
  | case1 ap fmt s read =>
      rw [vprintfmtLoop_nil read]
      exact .none
  | case2 ap fmt s rest read percent =>
      rw [vprintfmtLoop_end read]
      exact .some start
  | case3 ap fmt s ch rest read percent character ih =>
      rw [vprintfmtLoop_char read percent character]
      exact ih (keeps _ _ _ start)
  | case4 ap fmt s ch rest read percent unread =>
      obtain rfl := not_not.mp percent
      rw [vprintfmtLoop_directive read, unread]
      exact .none
  | case5 ap fmt s ch rest read percent d ap' conv fmt' flags failed =>
      obtain rfl := not_not.mp percent
      have related := conversion_related keeps nested env d ap' conv fmt' start
      rw [vprintfmtLoop_directive read, flags, Option.bind_some]
      dsimp only
      generalize conversion printfmt' putch' env d ap' conv fmt' t = out' at related ⊢
      rw [failed] at related
      cases related
      exact .none
  | case6 ap fmt s ch rest read percent d ap' conv fmt' flags ap'' fmt'' s' done ih =>
      obtain rfl := not_not.mp percent
      have related := conversion_related keeps nested env d ap' conv fmt' start
      rw [vprintfmtLoop_directive read, flags, Option.bind_some]
      dsimp only
      generalize conversion printfmt' putch' env d ap' conv fmt' t = out' at related ⊢
      rw [done] at related
      cases related with
      | @some _ out' here =>
          obtain ⟨rfl, rfl, onward⟩ := here
          exact ih onward

theorem printfmtNested_related (keeps : ∀ ch s t, R s t → R (putch ch s) (putch' ch t)) (depth : Nat)
    (fmt : List UInt8) (env : Environment) (start : R s t) :
    Option.Rel R (printfmtNested putch depth fmt env s) (printfmtNested putch' depth fmt env t) := by
  induction depth generalizing fmt env s t with
  | zero => exact .none
  | succ depth ih => exact vprintfmtLoop_related keeps (fun fmt env s t related => ih fmt env related) env 0 _ start

/-- Two sinks that agree on each character agree on every call. -/
theorem vprintfmt_related (keeps : ∀ ch s t, R s t → R (putch ch s) (putch' ch t)) (fmt : List UInt8)
    (env : Environment) (start : R s t) :
    Option.Rel R (vprintfmt putch fmt env s) (vprintfmt putch' fmt env t) :=
  printfmtNested_related keeps printfmtDepth fmt env start

end Related

/-- The sink that collects the characters in order. -/
def collect (ch : Int) (out : List Int) : List Int := out ++ [ch]

/-- The characters that a call passes to `putch`, in order. -/
def output (fmt : List UInt8) (env : Environment) : Option (List Int) := vprintfmt collect fmt env []

section Collected

variable {σ : Type} (putch : Int → σ → σ) (s : σ)

/-- A sink that has received the collected characters receives the next one. -/
theorem foldl_collect_eq (ch : Int) (out : List Int) (t : σ) (same : t = out.foldl (fun s ch => putch ch s) s) :
    putch ch t = (collect ch out).foldl (fun s ch => putch ch s) s := by
  rw [same, collect, List.foldl_append, List.foldl_cons, List.foldl_nil]

/-- A number folds its characters into the sink. -/
theorem printnum_output (num : Nat) (base : Base) (width : Int) (padc : UInt8) :
    printnum putch num base width padc s =
      (printnum collect num base width padc []).foldl (fun s ch => putch ch s) s :=
  printnum_related (R := fun (out : List Int) (t : σ) => t = out.foldl (fun s ch => putch ch s) s)
    (foldl_collect_eq putch s) num base width padc rfl

/-- A call folds its output into its sink. -/
theorem vprintfmt_output (fmt : List UInt8) (env : Environment) :
    vprintfmt putch fmt env s = (output fmt env).map fun out => out.foldl (fun s ch => putch ch s) s := by
  apply rel_eq_map
  exact vprintfmt_related (R := fun (out : List Int) (t : σ) => t = out.foldl (fun s ch => putch ch s) s)
    (foldl_collect_eq putch s) fmt env rfl

end Collected

end JosSmp.Printfmt
