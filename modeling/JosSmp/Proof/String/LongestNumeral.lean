import JosSmp.Library.Longest
import JosSmp.Proof.String.Strtol

/-!
This file proves that `strtol` reads the longest numeral at the start of a string.
-/

namespace JosSmp.Cstring
open Library Machine

def IsBlank (b : UInt8) : Prop := b = ascii ' ' ∨ b = ascii '\t'

/-- Letters of either case count from ten. -/
def digitValue (b : UInt8) : Option Nat :=
  if ascii '0' ≤ b ∧ b ≤ ascii '9' then some (b.toNat - '0'.toNat)
  else if ascii 'a' ≤ b ∧ b ≤ ascii 'z' then some (b.toNat - 'a'.toNat + 10)
  else if ascii 'A' ≤ b ∧ b ≤ ascii 'Z' then some (b.toNat - 'A'.toNat + 10)
  else none

def IsDigit (base : Nat) (b : UInt8) : Prop := ∃ k < base, digitValue b = some k

/-- The optional prefix of a numeral, and the base of the digits behind it. -/
inductive Prefixed : Nat → List UInt8 → Nat → List UInt8 → Prop
  | hexadecimal {base : Nat} {s : List UInt8} : base = 0 ∨ base = 16 → Prefixed base [ascii '0', ascii 'x'] 16 s
  | octal {s : List UInt8} : Stops (· = ascii 'x') s → Prefixed 0 [ascii '0'] 8 s
  | decimal {s : List UInt8} : Stops (· = ascii '0') s → Prefixed 0 [] 10 s
  | absent {base : Nat} {s : List UInt8} : base ≠ 0 →
      (base = 16 → ∀ rest, s ≠ ascii '0' :: ascii 'x' :: rest) → Prefixed base [] base s

/-- A string taken apart into its leading blanks, the optional sign, the optional prefix, the digits and the rest. -/
structure Parts (s : List UInt8) (base : Nat) where
  blanks : List UInt8
  sign : List UInt8
  lead : List UInt8
  digits : List UInt8
  rest : List UInt8
  digitBase : Nat
  split : s = blanks ++ (sign ++ (lead ++ (digits ++ rest)))
  blank : ∀ b ∈ blanks, IsBlank b
  solid : Stops IsBlank (sign ++ (lead ++ (digits ++ rest)))
  signed : sign = [ascii '+'] ∨ sign = [ascii '-'] ∨
    sign = [] ∧ Stops (fun b => b = ascii '+' ∨ b = ascii '-') (lead ++ (digits ++ rest))
  prefixed : Prefixed base lead digitBase (digits ++ rest)
  run : ∀ b ∈ digits, IsDigit digitBase b
  maximal : Stops (IsDigit digitBase) rest

/-- The signed value of the digits. -/
def Parts.value {s : List UInt8} {base : Nat} (parts : Parts s base) : Int :=
  let magnitude : Nat := valueOf parts.digitBase (parts.digits.filterMap digitValue)
  if parts.sign = [ascii '-'] then -magnitude else magnitude

section Existence

theorem exists_sign (s : List UInt8) :
    ∃ sign rest, s = sign ++ rest ∧ (sign = [ascii '+'] ∨ sign = [ascii '-'] ∨
      sign = [] ∧ Stops (fun b => b = ascii '+' ∨ b = ascii '-') rest) := by
  obtain plus | ⟨rest, rfl⟩ := stops_or_starts (ascii '+') s
  · obtain minus | ⟨rest, rfl⟩ := stops_or_starts (ascii '-') s
    · exact ⟨[], s, rfl, .inr (.inr ⟨rfl, fun b starts sign => sign.elim (plus b starts) (minus b starts)⟩)⟩
    · exact ⟨_, rest, rfl, .inr (.inl rfl)⟩
  · exact ⟨_, rest, rfl, .inl rfl⟩

theorem exists_prefix (base : Nat) (s : List UInt8) :
    ∃ lead digitBase rest, s = lead ++ rest ∧ Prefixed base lead digitBase rest := by
  by_cases chosen : base = 0 ∨ base = 16
  · by_cases hexadecimal : ∃ rest, s = ascii '0' :: ascii 'x' :: rest
    · obtain ⟨rest, rfl⟩ := hexadecimal
      exact ⟨_, 16, rest, rfl, .hexadecimal chosen⟩
    · obtain rfl | rfl := chosen
      · obtain other | ⟨rest, rfl⟩ := stops_or_starts (ascii '0') s
        · exact ⟨[], 10, s, rfl, .decimal other⟩
        · refine ⟨_, 8, rest, rfl, .octal fun b starts same => hexadecimal ?_⟩
          obtain ⟨tail, rfl⟩ := List.head?_eq_some_iff.mp starts
          exact ⟨tail, by rw [same]⟩
      · exact ⟨[], 16, s, rfl, .absent (by decide) fun _ rest same => hexadecimal ⟨rest, same⟩⟩
  · exact ⟨[], base, s, rfl, .absent (fun zero => chosen (.inl zero)) fun sixteen => absurd (.inr sixteen) chosen⟩

theorem exists_parts (s : List UInt8) (base : Nat) : Nonempty (Parts s base) := by
  obtain ⟨blanks, s, rfl, blank, solid⟩ := exists_longest IsBlank s
  obtain ⟨sign, s, rfl, signed⟩ := exists_sign s
  obtain ⟨lead, digitBase, s, rfl, prefixed⟩ := exists_prefix base s
  obtain ⟨digits, rest, rfl, run, maximal⟩ := exists_longest (IsDigit digitBase) s
  exact ⟨⟨blanks, sign, lead, digits, rest, digitBase, rfl, blank, solid, signed, prefixed, run, maximal⟩⟩

end Existence

section Reading

variable {base digitBase : Nat} {s lead digits rest : List UInt8}

theorem digit_eq (b : UInt8) : digit b = (digitValue b).map Int.ofNat := by
  revert b
  apply forall_byte
  decide +kernel

/-- The final zero stops each of the scans that a string is longer than. -/
theorem stops_terminated {p : UInt8 → Prop} (stops : Stops p s) (final : ¬ p 0) (tail : List UInt8) :
    ∃ b follow, s ++ 0 :: tail = b :: follow ∧ ¬ p b := by
  cases s with
  | nil => exact ⟨0, tail, rfl, final⟩
  | cons b s => exact ⟨b, s ++ 0 :: tail, rfl, stops b rfl⟩

theorem strtolSpaces_blanks {blanks : List UInt8} (blank : ∀ b ∈ blanks, IsBlank b) (s : List UInt8) :
    strtolSpaces (blanks ++ s) = strtolSpaces s := by
  induction blanks with
  | nil => rfl
  | cons b blanks ih =>
      obtain ⟨first, later⟩ := List.forall_mem_cons.mp blank
      rw [List.cons_append, strtolSpaces, if_pos (show b = ascii ' ' ∨ b = ascii '\t' from first), ih later]

theorem strtol_blanks {blanks : List UInt8} (blank : ∀ b ∈ blanks, IsBlank b) (s : List UInt8) (base : Int) :
    strtol (blanks ++ s) base = strtol s base := by
  rw [strtol, strtolSpaces_blanks blank]
  rfl

theorem strtolPrefix_prefixed (prefixed : Prefixed base lead digitBase s) (tail : List UInt8) :
    strtolPrefix base (lead ++ (s ++ 0 :: tail)) = some ((digitBase : Int), s ++ 0 :: tail) := by
  cases prefixed with
  | hexadecimal chosen =>
      have cast : (base : Int) = 0 ∨ (base : Int) = 16 := by omega
      unfold strtolPrefix
      rw [if_pos cast]
      rfl
  | octal stops =>
      obtain ⟨b, follow, same, other⟩ := stops_terminated stops (by decide) tail
      rw [same]
      simp only [strtolPrefix, List.cons_append, List.nil_append, if_neg other]
      rfl
  | decimal stops =>
      obtain ⟨b, follow, same, other⟩ := stops_terminated stops (by decide) tail
      rw [same]
      simp only [strtolPrefix, List.nil_append, if_neg other]
      rfl
  | absent nonzero plain =>
      have zero : (base : Int) ≠ 0 := by omega
      rw [List.nil_append]
      unfold strtolPrefix
      by_cases sixteen : base = 16
      · rw [if_pos (by omega)]
        obtain stops | ⟨rest, rfl⟩ := stops_or_starts (ascii '0') s
        · obtain ⟨b, follow, same, other⟩ := stops_terminated stops (by decide) tail
          rw [same]
          simp only [if_neg other, if_neg zero]
        · have stops : Stops (· = ascii 'x') rest := fun b starts same => by
            obtain ⟨follow, rfl⟩ := List.head?_eq_some_iff.mp starts
            exact plain sixteen follow (by rw [same])
          obtain ⟨b, follow, same, other⟩ := stops_terminated stops (by decide) tail
          rw [List.cons_append, same]
          simp only [if_true, if_neg other, if_neg zero]
      · rw [if_neg (by omega)]

/-- The longest run of digits is accumulated modulo `2 ^ 32`. -/
theorem strtolDigits_longest (run : ∀ b ∈ digits, IsDigit digitBase b) (maximal : Stops (IsDigit digitBase) rest)
    (tail : List UInt8) :
    strtolDigits digitBase 0 (digits ++ (rest ++ 0 :: tail)) =
      some (wrap32 (valueOf digitBase (digits.filterMap digitValue) : Nat), rest ++ 0 :: tail) := by
  have spelt : List.Forall₂ (fun b (k : Nat) => digit b = some (k : Int)) digits (digits.filterMap digitValue) ∧
      ∀ k ∈ digits.filterMap digitValue, k < digitBase := by
    clear maximal
    induction digits with
    | nil => exact ⟨.nil, nofun⟩
    | cons b digits ih =>
        obtain ⟨⟨k, small, value⟩, later⟩ := List.forall_mem_cons.mp run
        obtain ⟨follow, below⟩ := ih later
        rw [List.filterMap_cons_some value]
        exact ⟨.cons (by rw [digit_eq, value]; rfl) follow, List.forall_mem_cons.mpr ⟨small, below⟩⟩
  obtain ⟨spelt, below⟩ := spelt
  have read := strtolDigits_run spelt below (rest ++ 0 :: tail) 0
  rw [show wrap32 ((0 : Nat) : Int) = 0 from rfl] at read
  obtain ⟨b, follow, same, other⟩ := stops_terminated maximal (by rintro ⟨_, _, never⟩; cases never) tail
  rw [read, same, strtolDigits, digit_eq]
  cases value : digitValue b with
  | none => rfl
  | some k =>
      have large : digitBase ≤ k := not_lt.mp fun small => other ⟨k, small, value⟩
      rw [Option.map_some]
      dsimp only
      rw [if_pos (show Int.ofNat k ≥ (digitBase : Int) from Int.ofNat_le.mpr large)]
      rfl

/-- The sign decides whether the value of the digits is negated. -/
theorem strtol_sign {sign text after : List UInt8} {value b : Int} {tail : List UInt8}
    (solid : Stops IsBlank (sign ++ text))
    (signed : sign = [ascii '+'] ∨ sign = [ascii '-'] ∨
      sign = [] ∧ Stops (fun b => b = ascii '+' ∨ b = ascii '-') text)
    (prefixed : strtolPrefix base (text ++ 0 :: tail) = some (b, s)) (read : strtolDigits b 0 s = some (value, after)) :
    strtol (sign ++ (text ++ 0 :: tail)) base =
      some (if sign = [ascii '-'] then wrap32 (-value) else value, after) := by
  obtain rfl | rfl | ⟨rfl, unsigned⟩ := signed
  · have start : strtolSpaces ([ascii '+'] ++ (text ++ 0 :: tail)) = some (ascii '+' :: (text ++ 0 :: tail)) := rfl
    simp only [strtol, start, true_or, if_true, prefixed, read, Option.map_some]
    rfl
  · have start : strtolSpaces ([ascii '-'] ++ (text ++ 0 :: tail)) = some (ascii '-' :: (text ++ 0 :: tail)) := rfl
    simp only [strtol, start, or_true, if_true, prefixed, read, Option.map_some]
  · obtain ⟨first, follow, same, other⟩ :=
      stops_terminated (p := fun b => IsBlank b ∨ b = ascii '+' ∨ b = ascii '-') (s := text)
        (fun b starts stop => stop.elim (solid b starts) (unsigned b starts)) (by unfold IsBlank; decide) tail
    obtain ⟨space, plus, minus⟩ : ¬ IsBlank first ∧ first ≠ ascii '+' ∧ first ≠ ascii '-' := by
      simpa only [not_or] using other
    have start : strtolSpaces (first :: follow) = some (first :: follow) := by
      rw [strtolSpaces, if_neg (show ¬ (first = ascii ' ' ∨ first = ascii '\t') from space)]
    rw [same] at prefixed
    rw [List.nil_append, same]
    simp only [strtol, start, plus, minus, or_self, if_false, prefixed, read, Option.map_some]
    rfl

end Reading

/-- `strtol` reads the longest numeral of a string: its value modulo `2 ^ 32`, up to the byte behind the digits. No byte
behind the final zero is read, whatever follows. -/
theorem strtol_longest (s : List UInt8) (base : Nat) :
    Nonempty (Parts s base) ∧ ∀ (parts : Parts s base) (tail : List UInt8),
      ∃ value, strtol (s ++ 0 :: tail) base = some (value, parts.rest ++ 0 :: tail) ∧ value = wrap32 parts.value ∧
        (-2147483648 ≤ parts.value ∧ parts.value ≤ 2147483647 → value = parts.value) := by
  refine ⟨exists_parts s base, fun parts tail => ?_⟩
  let magnitude : Nat := valueOf parts.digitBase (parts.digits.filterMap digitValue)
  let text : List UInt8 := parts.lead ++ (parts.digits ++ parts.rest)
  have start : strtol (s ++ 0 :: tail) base = strtol (parts.sign ++ (text ++ 0 :: tail)) base := by
    have whole := congrArg (fun s => strtol (s ++ 0 :: tail) base) parts.split
    rw [List.append_assoc, strtol_blanks parts.blank, List.append_assoc] at whole
    exact whole
  have lead : strtolPrefix base (text ++ 0 :: tail) =
      some ((parts.digitBase : Int), parts.digits ++ parts.rest ++ 0 :: tail) := by
    rw [List.append_assoc]
    exact strtolPrefix_prefixed parts.prefixed tail
  have read := strtolDigits_longest parts.run parts.maximal tail
  rw [← List.append_assoc] at read
  have value : (if parts.sign = [ascii '-'] then wrap32 (-wrap32 magnitude) else wrap32 magnitude) =
      wrap32 parts.value := by
    rw [Parts.value]
    split
    · exact wrap32_neg _
    · rfl
  refine ⟨_, start.trans (strtol_sign parts.solid parts.signed lead read), value, fun range => ?_⟩
  exact value.trans (wrap32_eq range.1 (by omega))

end JosSmp.Cstring
