import JosSmp.Library.Longest
import JosSmp.Proof.Printfmt.Nested

/-!
This file says how a format divides into plain characters and directives, and how the flags of a
directive are read.
-/

namespace JosSmp.Printfmt
open Library Machine

/-- The characters that select a conversion. -/
def isConversion (b : UInt8) : Prop := b ∈ ['c', 'e', 's', 'd', 'u', 'o', 'p', 'x', '%'].map ascii

instance (b : UInt8) : Decidable (isConversion b) := inferInstanceAs (Decidable (_ ∈ _))

/-- The number of argument words that the `*` flags consume. -/
def stars (flags : List UInt8) : Nat := flags.count (ascii '*')

/-- The value of `lflag` after the flags. -/
def longFlag (flags : List UInt8) : Int := wrap32 (flags.count (ascii 'l'))

/-- The number of argument words that a conversion consumes; an unrecognized character consumes none. -/
def conversionWords (flags : List UInt8) (conv : UInt8) : Nat :=
  if conv = ascii 'd' ∨ conv = ascii 'u' ∨ conv = ascii 'o' ∨ conv = ascii 'x' then
    if longFlag flags ≥ 2 then 2 else 1
  else if isConversion conv ∧ conv ≠ ascii '%' then 1
  else 0

/-- A text of whole pieces, each a plain character or a directive, with the argument words that it consumes. -/
inductive Complete : List UInt8 → Nat → Prop
  | nil : Complete [] 0
  | plain {b : UInt8} {rest : List UInt8} {words : Nat} : b ≠ ascii '%' → b ≠ 0 → Complete rest words →
      Complete (b :: rest) words
  | directive {flags rest : List UInt8} {conv : UInt8} {words : Nat} : (∀ b ∈ flags, isFlag b) → ¬ isFlag conv →
      conv ≠ 0 → Complete rest words →
      Complete (ascii '%' :: flags ++ conv :: rest) (stars flags + conversionWords flags conv + words)

/-- A `%` with its flags, and then a character that is no conversion or the end of the format. -/
def Malformed (directive rest : List UInt8) : Prop :=
  ∃ flags : List UInt8, (∀ b ∈ flags, isFlag b) ∧
    ((∃ ch, ¬ isFlag ch ∧ ¬ isConversion ch ∧ ch ≠ 0 ∧ directive = ascii '%' :: flags ++ [ch]) ∨
      directive = ascii '%' :: flags ∧ rest = [])

/-- The word at `ap` is an argument that the conversion may receive: a string that is null or ends, an
error code that has an absolute value. -/
def ValidArgument (env : Environment) (ap : Nat) (conv : UInt8) : Prop :=
  (conv = ascii 's' → env.word ap = 0 ∨ 0 ∈ env.bytes (env.word ap)) ∧
    (conv = ascii 'e' → env.word ap ≠ 0x80000000)

/-- Each conversion that is met has a valid argument. -/
def Supplied (env : Environment) (text : List UInt8) : Prop :=
  ∀ (before flags rest : List UInt8) (conv : UInt8) (words : Nat), Complete before words →
    (∀ b ∈ flags, isFlag b) → isConversion conv → text = before ++ (ascii '%' :: flags ++ conv :: rest) →
    ValidArgument env (words + stars flags) conv

/-- The argument list after some words have been consumed. -/
def Environment.advance (env : Environment) (words : Nat) : Environment :=
  { env with word := fun i => env.word (words + i) }

theorem isConversion_not_isFlag {b : UInt8} (conversion : isConversion b) : ¬ isFlag b := by
  simp only [isConversion, List.map_cons, List.map_nil, List.mem_cons, List.not_mem_nil, or_false] at conversion
  obtain rfl | rfl | rfl | rfl | rfl | rfl | rfl | rfl | rfl := conversion <;> decide

/-- Every text consists of whole pieces and perhaps a directive that the end of the text cuts off. -/
theorem exists_complete (text : List UInt8) (noEnd : 0 ∉ text) :
    ∃ before words, Complete before words ∧
      (text = before ∨ ∃ flags : List UInt8, (∀ b ∈ flags, isFlag b) ∧ text = before ++ ascii '%' :: flags) := by
  induction length : text.length using Nat.strongRecOn generalizing text with
  | _ size ih =>
      subst length
      cases text with
      | nil => exact ⟨[], 0, .nil, .inl rfl⟩
      | cons b rest =>
          obtain ⟨nonzero, noEnd⟩ := not_or.mp (List.mem_cons.not.mp noEnd)
          by_cases percent : b = ascii '%'
          · subst percent
            -- The flags of the directive end at the first character that is none, or with the text.
            obtain ⟨flags, behind, rfl, all, last⟩ := exists_longest isFlag rest
            cases behind with
            | nil => exact ⟨[], 0, .nil, .inr ⟨flags, all, by rw [List.append_nil, List.nil_append]⟩⟩
            | cons conv rest =>
                simp only [List.mem_append, List.mem_cons, not_or] at noEnd
                obtain ⟨before, words, complete, ends⟩ := ih _ (by simp; omega) rest noEnd.2.2.2 rfl
                refine ⟨_, _, .directive all (last conv rfl) (Ne.symm noEnd.2.2.1) complete, ?_⟩
                obtain rfl | ⟨flags', all', rfl⟩ := ends
                · exact .inl rfl
                · exact .inr ⟨flags', all', by simp⟩
          · obtain ⟨before, words, complete, ends⟩ := ih _ (by simp) rest noEnd rfl
            refine ⟨_, _, .plain percent (Ne.symm nonzero) complete, ?_⟩
            obtain rfl | ⟨flags, all, rfl⟩ := ends
            · exact .inl rfl
            · exact .inr ⟨flags, all, rfl⟩

/-- Whole pieces behind whole pieces are whole pieces. -/
theorem Complete.append {before after : List UInt8} {words words' : Nat} (first : Complete before words)
    (second : Complete after words') : Complete (before ++ after) (words + words') := by
  induction first with
  | nil => simpa using second
  | plain percent nonzero _ ih => exact .plain percent nonzero ih
  | directive all last nonzero _ ih =>
      rw [List.append_assoc, List.cons_append, Nat.add_assoc]
      exact .directive all last nonzero ih

theorem Environment.advance_add (env : Environment) (words words' : Nat) :
    (env.advance words).advance words' = env.advance (words + words') := by
  simp only [Environment.advance, Nat.add_assoc]

section Supplied

variable {env : Environment} {before rest : List UInt8}

theorem Supplied.front (supplied : Supplied env (before ++ rest)) : Supplied env before := by
  rintro before' flags rest' conv words complete all listed rfl
  exact supplied before' flags (rest' ++ rest) conv words complete all listed (by simp)

theorem Supplied.tail {ap words : Nat} (supplied : Supplied (env.advance ap) (before ++ rest))
    (complete : Complete before words) : Supplied (env.advance (ap + words)) rest := by
  rintro before' flags rest' conv words' complete' all listed rfl
  have valid := supplied (before ++ before') flags rest' conv _ (complete.append complete') all listed (by simp)
  rw [← Environment.advance_add]
  rw [Nat.add_assoc] at valid
  exact valid

end Supplied

/-- Two argument lists with the same words from two positions on, and the same strings. -/
def SameArguments (env : Environment) (ap : Nat) (env' : Environment) (ap' : Nat) : Prop :=
  env'.bytes = env.bytes ∧ ∀ i, env'.word (ap' + i) = env.word (ap + i)

theorem SameArguments.refl (env : Environment) (ap : Nat) : SameArguments env ap env ap := ⟨rfl, fun _ => rfl⟩

theorem SameArguments.add {env env' : Environment} {ap ap' : Nat} (same : SameArguments env ap env' ap')
    (words : Nat) : SameArguments env (ap + words) env' (ap' + words) := by
  refine ⟨same.1, fun i => ?_⟩
  rw [Nat.add_assoc, Nat.add_assoc, same.2]

theorem SameArguments.word {env env' : Environment} {ap ap' : Nat} (same : SameArguments env ap env' ap') :
    env'.word ap' = env.word ap := same.2 0

theorem sameArguments_advance (env : Environment) (ap : Nat) : SameArguments env ap (env.advance ap) 0 := by
  refine ⟨rfl, fun i => ?_⟩
  rw [Environment.advance, Nat.zero_add]

end JosSmp.Printfmt
