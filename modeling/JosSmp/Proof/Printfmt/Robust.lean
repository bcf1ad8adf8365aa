import JosSmp.Proof.Printfmt.Directive

/-!
This file proves that `vprintfmt` processes every format up to its end, and prints what it does not recognize.
-/

namespace JosSmp.Printfmt
open Machine

section Pieces

variable {σ : Type} {putch : Int → σ → σ} {env env' : Environment} {ap ap' : Nat} {s s' s'' : σ}

/-- The text is put into the sink byte by byte. -/
def emit (putch : Int → σ → σ) (text : List UInt8) (s : σ) : σ := text.foldl (fun s b => putch b.toNat s) s

/-- The loop works off the text and its argument words, with the same effect on the sink wherever they stand. -/
def Advances (putch : Int → σ → σ) (env : Environment) (ap : Nat) (text : List UInt8) (words : Nat) (s s' : σ) : Prop :=
  ∀ env' ap' passed rest, SameArguments env ap env' ap' →
    vprintfmtLoop (vprintfmt putch) putch env' ap' ⟨passed, text ++ rest⟩ s =
      vprintfmtLoop (vprintfmt putch) putch env' (ap' + words) ⟨text.reverse ++ passed, rest⟩ s'

theorem Advances.append {first second : List UInt8} {words words' : Nat}
    (near : Advances putch env ap first words s s') (far : Advances putch env (ap + words) second words' s' s'') :
    Advances putch env ap (first ++ second) (words + words') s s'' := by
  intro env' ap' passed rest agree
  rw [List.append_assoc, near env' ap' passed _ agree, far env' _ _ rest (agree.add words), List.reverse_append,
    List.append_assoc, Nat.add_assoc]

theorem advances_plain {text : List UInt8} (plain : ∀ b ∈ text, b ≠ ascii '%' ∧ b ≠ 0) :
    Advances putch env ap text 0 s (emit putch text s) :=
  fun _ _ _ _ _ => vprintfmtLoop_plain plain

/-- A directive with a valid argument is carried out. -/
theorem advances_directive {flags : List UInt8} {conv : UInt8} (all : ∀ b ∈ flags, isFlag b)
    (listed : isConversion conv) (valid : ValidArgument env (ap + stars flags) conv) :
    ∃ s', Advances putch env ap (ascii '%' :: flags ++ [conv]) (stars flags + conversionWords flags conv) s s' := by
  obtain ⟨d, count, read⟩ := reswitch_read all (isConversion_not_isFlag listed) env .initial ap
  have long : d.lflag = longFlag flags := by
    rw [count 0 (by decide), longFlag, Int.zero_add]
  obtain ⟨s', run⟩ := conversion_read putch s listed long valid
  refine ⟨s', fun env' ap' passed rest agree => ?_⟩
  rw [List.append_assoc, List.cons_append, List.singleton_append, vprintfmtLoop_directive rfl, read _ _ _ _ agree,
    Option.bind_some]
  dsimp only
  rw [run _ _ _ (agree.add _), Option.bind_some, Nat.add_assoc]
  congr 2
  simp

/-- A directive that is not recognized moves back behind its `%`, and is printed from there. -/
theorem vprintfmtLoop_unrecognized {printfmt : List UInt8 → Environment → σ → Option σ} {flags passed rest : List UInt8}
    {ch : UInt8} (all : ∀ b ∈ flags, isFlag b) (last : ¬ isFlag ch) (other : ¬ isConversion ch) :
    vprintfmtLoop printfmt putch env ap ⟨passed, ascii '%' :: flags ++ ch :: rest⟩ s =
      vprintfmtLoop printfmt putch env (ap + stars flags) ⟨flags.reverse ++ ascii '%' :: passed, ch :: rest⟩
        (emit putch (ascii '%' :: flags) s) := by
  obtain ⟨d, _, read⟩ := reswitch_read all last env .initial ap
  simp only [isConversion, List.map_cons, List.map_nil, List.mem_cons, List.not_mem_nil, or_false, not_or] at other
  obtain ⟨c, e, str, dec, u, o, p, x, percent⟩ := other
  have back : rewind ⟨ch :: (flags.reverse ++ ascii '%' :: passed), rest⟩ =
      some ⟨ascii '%' :: passed, flags ++ ch :: rest⟩ := by
    have onward : Cursor.FlagsTo ⟨ascii '%' :: passed, flags ++ ch :: rest⟩
        ⟨flags.reverse ++ ascii '%' :: passed, ch :: rest⟩ := ⟨flags, all, rfl, rfl⟩
    exact rewind_eq onward rfl rfl
  have printed : ∀ b ∈ flags, b ≠ ascii '%' ∧ b ≠ 0 := by
    intro b member
    refine ⟨isFlag_ne (all b member), ?_⟩
    rintro rfl
    exact absurd (all 0 member) (by decide)
  rw [List.cons_append, vprintfmtLoop_directive rfl, read _ _ _ _ (.refl env ap), Option.bind_some]
  dsimp only
  rw [conversion]
  simp only [if_neg c, if_neg e, if_neg str, if_neg dec, if_neg u, if_neg o, if_neg p, if_neg x, if_neg percent, back,
    Option.map_some, Option.bind_some]
  exact vprintfmtLoop_plain printed

theorem advances_unrecognized {flags : List UInt8} {ch : UInt8} (all : ∀ b ∈ flags, isFlag b) (last : ¬ isFlag ch)
    (other : ¬ isConversion ch) (nonzero : ch ≠ 0) :
    Advances putch env ap (ascii '%' :: flags ++ [ch]) (stars flags + conversionWords flags ch) s
      (emit putch (ascii '%' :: flags ++ [ch]) s) := by
  have percent : ch ≠ ascii '%' := by
    rintro rfl
    exact other (by decide)
  intro env' ap' passed rest _
  rw [List.append_assoc, List.singleton_append, vprintfmtLoop_unrecognized all last other,
    vprintfmtLoop_char rfl percent nonzero, conversionWords_other other, Nat.add_zero, emit, emit, List.foldl_append]
  congr 2
  simp

/-- Whole pieces with valid arguments are worked off. -/
theorem advances_complete (putch : Int → σ → σ) {before : List UInt8} {words : Nat} (complete : Complete before words)
    (supplied : Supplied (env.advance ap) before) (s : σ) : ∃ s', Advances putch env ap before words s s' := by
  induction complete generalizing ap s with
  | nil => exact ⟨s, advances_plain (by simp)⟩
  | @plain b rest words percent nonzero _ ih =>
      have first : Complete [b] 0 := .plain percent nonzero .nil
      have whole : Supplied (env.advance ap) ([b] ++ rest) := supplied
      obtain ⟨s', run⟩ := ih (whole.tail first) (putch b.toNat s)
      have here : Advances putch env ap [b] 0 s (putch b.toNat s) :=
        advances_plain (List.forall_mem_singleton.mpr ⟨percent, nonzero⟩)
      have both := here.append run
      rw [Nat.zero_add] at both
      exact ⟨s', both⟩
  | @directive flags rest conv words all last nonzero _ ih =>
      have whole : Complete (ascii '%' :: flags ++ [conv]) (stars flags + conversionWords flags conv) :=
        .directive all last nonzero .nil
      have split : ascii '%' :: flags ++ conv :: rest = (ascii '%' :: flags ++ [conv]) ++ rest := by simp
      obtain ⟨s₁, here⟩ : ∃ s₁, Advances putch env ap (ascii '%' :: flags ++ [conv])
          (stars flags + conversionWords flags conv) s s₁ := by
        by_cases listed : isConversion conv
        · have valid := supplied [] flags rest conv 0 .nil all listed rfl
          rw [Nat.zero_add] at valid
          exact advances_directive all listed valid
        · exact ⟨_, advances_unrecognized all last listed nonzero⟩
      rw [split] at supplied ⊢
      obtain ⟨s', run⟩ := ih (supplied.tail whole) s₁
      exact ⟨s', here.append run⟩

/-- A text with valid arguments is worked off up to the zero behind it. -/
theorem vprintfmtLoop_finishes (putch : Int → σ → σ) {text : List UInt8} (noEnd : 0 ∉ text)
    (supplied : Supplied (env.advance ap) text) (s : σ) :
    ∃ s', ∀ env' ap' passed, SameArguments env ap env' ap' →
      vprintfmtLoop (vprintfmt putch) putch env' ap' ⟨passed, text ++ [0]⟩ s = some s' := by
  obtain ⟨before, words, complete, rfl | ⟨flags, all, rfl⟩⟩ := exists_complete text noEnd
  · obtain ⟨s', run⟩ := advances_complete putch complete supplied s
    refine ⟨s', fun env' ap' passed agree => ?_⟩
    rw [run _ _ _ _ agree]
    exact vprintfmtLoop_end rfl
  · obtain ⟨s', run⟩ := advances_complete putch complete supplied.front s
    refine ⟨emit putch (ascii '%' :: flags) s', fun env' ap' passed agree => ?_⟩
    rw [List.append_assoc, run _ _ _ _ agree, vprintfmtLoop_unrecognized all (by decide) (by decide)]
    exact vprintfmtLoop_end rfl

theorem stars_directive {flags : List UInt8} {ch : UInt8} (last : ¬ isFlag ch) :
    stars (ascii '%' :: flags ++ [ch]) = stars flags := by
  have star : ch ≠ ascii '*' := by
    rintro rfl
    exact last (by decide)
  rw [stars, List.count_append, List.count_singleton, List.count_cons_of_ne (by decide), if_neg (by simpa using star)]
  rfl

/-- What follows a malformed directive has valid arguments. -/
theorem Supplied.rest {directive rest : List UInt8} (supplied : Supplied (env.advance ap) (directive ++ rest))
    (malformed : Malformed directive rest) : Supplied (env.advance (ap + stars directive)) rest := by
  obtain ⟨flags, all, ⟨ch, last, other, nonzero, rfl⟩ | ⟨rfl, rfl⟩⟩ := malformed
  · have whole : Complete (ascii '%' :: flags ++ [ch]) (stars flags + conversionWords flags ch) :=
      .directive all last nonzero .nil
    rw [conversionWords_other other, Nat.add_zero, ← stars_directive last] at whole
    exact supplied.tail whole
  · intro before flags rest conv words _ _ _ text
    simp at text

/-- A malformed directive is emitted, with the end of the format behind it if it is cut off there. -/
theorem vprintfmtLoop_malformed (putch : Int → σ → σ) (env : Environment) (ap : Nat) (s : σ) (passed : List UInt8)
    {directive rest : List UInt8} (malformed : Malformed directive rest) :
    ∃ passed', vprintfmtLoop (vprintfmt putch) putch env ap ⟨passed, directive ++ (rest ++ [0])⟩ s =
      vprintfmtLoop (vprintfmt putch) putch env (ap + stars directive) ⟨passed', rest ++ [0]⟩
        (emit putch directive s) := by
  obtain ⟨flags, all, ⟨ch, last, other, nonzero, rfl⟩ | ⟨rfl, rfl⟩⟩ := malformed
  · have advances : Advances putch env ap (ascii '%' :: flags ++ [ch]) (stars flags + conversionWords flags ch) s
        (emit putch (ascii '%' :: flags ++ [ch]) s) := advances_unrecognized all last other nonzero
    rw [conversionWords_other other, Nat.add_zero, ← stars_directive last] at advances
    exact ⟨_, advances env ap passed (rest ++ [0]) (.refl env ap)⟩
  · have words : stars (ascii '%' :: flags) = stars flags := List.count_cons_of_ne (by decide)
    rw [words]
    exact ⟨_, vprintfmtLoop_unrecognized all (by decide) (by decide)⟩

/-- Every format is processed up to its final zero. A malformed directive is emitted as it is written, and the
rest of the format is processed as a format of its own, with the arguments that are left. -/
theorem vprintfmt_robust (putch : Int → σ → σ) (env : Environment) (text : List UInt8) (s : σ) (noEnd : 0 ∉ text)
    (supplied : Supplied env text) :
    (∃ s', vprintfmt putch (text ++ [0]) env s = some s') ∧
      ∀ before directive rest words, text = before ++ directive ++ rest → Complete before words →
        Malformed directive rest →
        ∃ s', vprintfmt putch (before ++ [0]) env s = some s' ∧
          vprintfmt putch (text ++ [0]) env s =
            vprintfmt putch (rest ++ [0]) (env.advance (words + stars directive)) (emit putch directive s') := by
  have start : env.advance 0 = env := by simp only [Environment.advance, Nat.zero_add]
  constructor
  · obtain ⟨s', run⟩ := vprintfmtLoop_finishes putch noEnd (start.symm ▸ supplied) s
    exact ⟨s', (vprintfmt_eq putch _ env s).trans (run env 0 [] (.refl env 0))⟩
  · rintro before directive rest words rfl complete malformed
    rw [← start] at supplied
    obtain ⟨s₁, run⟩ := advances_complete putch complete supplied.front.front s
    rw [List.append_assoc] at supplied
    have left := (supplied.tail complete).rest malformed
    rw [Nat.zero_add] at left
    have noEnd' : 0 ∉ rest := fun member => noEnd (List.mem_append_right _ member)
    obtain ⟨s₂, ends⟩ := vprintfmtLoop_finishes putch noEnd' left (emit putch directive s₁)
    refine ⟨s₁, ?_, ?_⟩
    · rw [vprintfmt_eq, run env 0 [] [0] (.refl env 0)]
      exact vprintfmtLoop_end rfl
    · obtain ⟨passed, emitted⟩ := vprintfmtLoop_malformed putch env words s₁ (before.reverse ++ []) malformed
      calc vprintfmt putch (before ++ directive ++ rest ++ [0]) env s
          = vprintfmtLoop (vprintfmt putch) putch env (0 + words) ⟨before.reverse ++ [], directive ++ (rest ++ [0])⟩
              s₁ := by
            rw [vprintfmt_eq, List.append_assoc, List.append_assoc, run env 0 [] _ (.refl env 0)]
        _ = some s₂ := by rw [Nat.zero_add, emitted, ends env _ passed (.refl env _)]
        _ = vprintfmt putch (rest ++ [0]) (env.advance (words + stars directive)) (emit putch directive s₁) := by
            rw [vprintfmt_eq, ends _ 0 [] (sameArguments_advance env _)]

/-- The unrecognized `%5*q` consumes one word, and the `%s` behind it prints the string of the next one. -/
theorem vprintfmt_robust_unrecognized :
    let env : Environment := ⟨fun _ => 4096, fun _ => [65, 0]⟩
    ∃ s', vprintfmt collect [97, 0] env [] = some s' ∧
      vprintfmt collect [97, 37, 53, 42, 113, 37, 115, 0] env [] =
        vprintfmt collect [37, 115, 0] (env.advance 1) (emit collect [37, 53, 42, 113] s') :=
  (vprintfmt_robust collect ⟨fun _ => 4096, fun _ => [65, 0]⟩ [97, 37, 53, 42, 113, 37, 115] [] (by decide)
      fun _ _ _ _ _ _ _ _ _ =>
        ⟨fun _ => .inr (show (0 : UInt8) ∈ [65, 0] by decide), fun _ => show (4096 : UInt32) ≠ 0x80000000 by decide⟩).2
    [97] [37, 53, 42, 113] [37, 115] 0 rfl (.plain (by decide) (by decide) .nil)
    ⟨[53, 42], by decide +kernel, .inl ⟨113, by decide, by decide, by decide, rfl⟩⟩

end Pieces

end JosSmp.Printfmt
