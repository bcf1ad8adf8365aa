import JosSmp.Proof.Printfmt.Number
import JosSmp.Proof.String.Strtol

/-!
This file gives the settings that the flags, the width and the precision of a directive select.
-/

namespace JosSmp.Printfmt
open Library Machine Cstring

section Numbers

variable {env : Environment} {d : Directive} {ap : Nat} {passed rest : List UInt8} {ch : UInt8}

/-- A character that does not continue a number in the format. -/
def EndsNumber (ch : UInt8) : Prop := signedChar ch < '0'.toNat ∨ signedChar ch > '9'.toNat

instance (ch : UInt8) : Decidable (EndsNumber ch) := inferInstanceAs (Decidable (_ ∨ _))

/-- Each decimal digit has its character code, and continues a number. -/
theorem digitByte_decimal : ∀ k < 10, (digitByte k).toNat = 48 + k ∧ signedChar (digitByte k) = 48 + k ∧
    ¬ EndsNumber (digitByte k) := by decide

/-- One digit continues a wrapped number. -/
theorem wrap32_digit (val k : Nat) :
    wrap32 (wrap32 val * 10 + (48 + k) - '0'.toNat) = wrap32 ((val * 10 + k : Nat) : Int) := by
  have zero : ('0'.toNat : Int) = 48 := rfl
  have cancel : wrap32 val * 10 + (48 + k) - '0'.toNat = wrap32 val * 10 + k := by
    rw [zero]
    omega
  rw [cancel]
  apply wrap32_congr
  push_cast
  rw [Int.add_emod, Int.mul_emod, wrap32_mod, ← Int.mul_emod, ← Int.add_emod]

/-- The loop accumulates the digits modulo `2 ^ 32`, up to the first character that is no digit. -/
theorem digits_foldl {ks : List Nat} (below : ∀ k ∈ ks, k < 10) (ends : EndsNumber ch) (val k : Nat) :
    digits passed (wrap32 val) (48 + k) (ks.map digitByte ++ ch :: rest) =
      some (wrap32 (ks.foldl (fun value k => value * 10 + k) (val * 10 + k) : Nat),
        ⟨(ks.map digitByte).reverse ++ passed, ch :: rest⟩) := by
  induction ks generalizing passed val k with
  | nil =>
      rw [List.map_nil, List.nil_append, digits]
      simp only [wrap32_digit]
      exact if_pos ends
  | cons j ks ih =>
      obtain ⟨small, below⟩ := List.forall_mem_cons.mp below
      obtain ⟨_, value, inside⟩ := digitByte_decimal j small
      rw [EndsNumber, value] at inside
      rw [List.map_cons, List.cons_append, digits]
      simp only [wrap32_digit, value, if_neg inside]
      rw [ih below, List.foldl_cons, List.reverse_cons, List.append_assoc]
      rfl

/-- A nonzero digit starts a number. -/
theorem digitByte_first : ∀ k < 10, k ≠ 0 → digitByte k ≠ ascii '-' ∧ digitByte k ≠ ascii '0' ∧
    ascii '1' ≤ digitByte k ∧ digitByte k ≤ ascii '9' := by decide

/-- A decimal numeral other than zero is read as a number, which wraps. -/
theorem reswitch_number {num : Nat} (positive : 0 < num) (ends : EndsNumber ch) :
    reswitch env d ap ⟨passed, digitBytes 10 num ++ ch :: rest⟩ =
      reswitch env (d.processPrecision (wrap32 num)) ap ⟨(digitBytes 10 num).reverse ++ passed, ch :: rest⟩ := by
  obtain ⟨k, ks, same, nonzero⟩ : ∃ k ks, numeral 10 num = k :: ks ∧ k ≠ 0 :=
    numeral_head 10 (Nat.ne_of_gt positive)
  have below : ∀ k ∈ numeral 10 num, k < 10 := numeral_lt (by decide)
  have value : valueOf 10 (numeral 10 num) = num := valueOf_numeral 10 num
  rw [same] at below value
  obtain ⟨small, below⟩ := List.forall_mem_cons.mp below
  obtain ⟨minus, zero, first⟩ := digitByte_first k small nonzero
  have code : ((digitByte k).toNat : Int) = 48 + k := by
    rw [(digitByte_decimal k small).1]
    rfl
  have read : digits (digitByte k :: passed) 0 (48 + k) (ks.map digitByte ++ ch :: rest) =
      some (wrap32 num, ⟨(ks.map digitByte).reverse ++ digitByte k :: passed, ch :: rest⟩) :=
    value ▸ digits_foldl below ends 0 k
  rw [digitBytes, same, List.map_cons, List.cons_append, reswitch_cons, if_neg minus, if_neg zero, if_pos first,
    code, read, Option.bind_some, List.reverse_cons, List.append_assoc]
  rfl

end Numbers

section Settings

variable {env : Environment} {d : Directive} {ap : Nat} {passed rest : List UInt8} {flags : List UInt8}

/-- Each `l` counts, and the count wraps. -/
theorem reswitch_longs (n : Int) (k : Nat) :
    reswitch env { d with lflag := wrap32 n } ap ⟨passed, List.replicate k (ascii 'l') ++ rest⟩ =
      reswitch env { d with lflag := wrap32 (n + k) } ap ⟨List.replicate k (ascii 'l') ++ passed, rest⟩ := by
  induction k generalizing n passed with
  | zero => simp
  | succ k ih =>
      have next : wrap32 (wrap32 n + 1) = wrap32 (n + 1) := by
        apply wrap32_congr
        have same := wrap32_mod n
        omega
      have total : n + 1 + k = n + (k + 1 : Nat) := by omega
      have moved : List.replicate k (ascii 'l') ++ ascii 'l' :: passed =
          List.replicate (k + 1) (ascii 'l') ++ passed := by
        rw [List.replicate_succ', List.append_assoc]
        rfl
      rw [List.replicate_succ, List.cons_append, reswitch_long]
      dsimp only
      rw [next, ih, total, moved]
      rfl

theorem reswitch_star :
    reswitch env d ap ⟨passed, ascii '*' :: rest⟩ =
      reswitch env (d.processPrecision (signedWord (env.word ap))) (ap + 1) ⟨ascii '*' :: passed, rest⟩ := reswitch_cons

theorem reswitch_dot :
    reswitch env d ap ⟨passed, ascii '.' :: rest⟩ =
      reswitch env (if d.width < 0 then { d with width := 0 } else d) ap ⟨ascii '.' :: passed, rest⟩ := reswitch_cons

/-- A precision that an argument word gives, behind any width. -/
theorem reswitch_precision {conv : UInt8} (last : ¬ isFlag conv) :
    reswitch env d ap ⟨passed, ascii '.' :: ascii '*' :: conv :: rest⟩ =
      some ({ d with width := max d.width 0, precision := signedWord (env.word ap) }, ap + 1, conv,
        ⟨conv :: ascii '*' :: ascii '.' :: passed, rest⟩) := by
  have width : (if d.width < 0 then { d with width := 0 } else d) = { d with width := max d.width 0 } := by
    by_cases negative : d.width < 0
    · rw [if_pos negative, max_eq_right (by omega)]
    · rw [if_neg negative, max_eq_left (by omega)]
  have given : ¬ max d.width 0 < 0 := by omega
  rw [reswitch_dot, width, reswitch_star, Directive.processPrecision]
  dsimp only
  rw [if_neg given, reswitch_end last]

/-- The flags that set the pad character or the alternative form. -/
def isSetting (b : UInt8) : Prop := b ∈ ['-', '0', '#'].map ascii

instance (b : UInt8) : Decidable (isSetting b) := inferInstanceAs (Decidable (_ ∈ _))

/-- The last pad flag, or a space without one. -/
def padOf (flags : List UInt8) : UInt8 := (flags.filter (· ≠ ascii '#')).getLastD (ascii ' ')

/-- The settings behind some flags. -/
def Directive.settings (flags : List UInt8) : Directive :=
  { Directive.initial with padc := padOf flags, altflag := decide (ascii '#' ∈ flags) }

theorem reswitch_setting {b : UInt8} (setting : isSetting b) :
    reswitch env d ap ⟨passed, b :: rest⟩ =
      reswitch env (if b = ascii '#' then { d with altflag := true } else { d with padc := b }) ap
        ⟨b :: passed, rest⟩ := by
  simp only [isSetting, List.map_cons, List.map_nil, List.mem_cons, List.not_mem_nil, or_false] at setting
  obtain rfl | rfl | rfl := setting <;> exact reswitch_cons

/-- The last pad flag wins, and one `#` suffices. -/
theorem reswitch_settings (all : ∀ b ∈ flags, isSetting b) :
    reswitch env .initial ap ⟨passed, flags ++ rest⟩ =
      reswitch env (.settings flags) ap ⟨flags.reverse ++ passed, rest⟩ := by
  induction flags using List.reverseRecOn generalizing rest with
  | nil => rfl
  | append_singleton flags b ih =>
      obtain ⟨setting, all⟩ : isSetting b ∧ ∀ c ∈ flags, isSetting c := by
        simp only [List.mem_append, List.mem_singleton] at all
        exact ⟨all b (.inr rfl), fun c member => all c (.inl member)⟩
      rw [List.append_assoc, List.singleton_append, ih all, reswitch_setting setting, List.reverse_append]
      by_cases sharp : b = ascii '#'
      · subst sharp
        simp [Directive.settings, padOf]
      · simp [Directive.settings, padOf, sharp, Ne.symm sharp]

end Settings

end JosSmp.Printfmt
