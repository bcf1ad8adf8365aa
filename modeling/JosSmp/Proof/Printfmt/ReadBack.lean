import JosSmp.Proof.Printfmt.Buffer
import JosSmp.Proof.Printfmt.Field

/-!
This file proves that `strtol` reads back the numbers that `snprintf` prints.
-/

namespace JosSmp.Printfmt
open Library Machine Cstring

/-- A number format with a base in which `strtol` reads it. -/
def numberFormats : List (String × Int) :=
  [("%d", 10), ("%d", 0), ("%ld", 10), ("%ld", 0), ("%u", 10), ("%x", 16), ("%o", 8), ("%p", 16), ("%p", 0)]

/-- The bytes of an output are read back as the word `v`, up to the zero behind them. -/
def ReadsBack (base : Int) (out : List Int) (v : UInt32) : Prop :=
  ∀ tail, strtol (out.map UInt8.ofInt ++ 0 :: tail) base = some (signedWord v, 0 :: tail)

theorem digitsOf_bytes (base : Base) (num : Nat) :
    (digitsOf base num).map UInt8.ofInt = digitBytes base.value num := by
  rw [digitsOf, digitBytes, List.map_map]
  rfl

theorem digitBytes_plain (base : Nat) (least : 2 ≤ base) (most : base ≤ 16) (num : Nat) :
    ∃ first rest, digitBytes base num = first :: rest ∧
      first ≠ ascii ' ' ∧ first ≠ ascii '\t' ∧ first ≠ ascii '+' ∧ first ≠ ascii '-' := by
  have below : ∀ k ∈ numeral base num, k < base := numeral_lt least
  cases same : numeral base num with
  | nil => exact absurd same (numeral_ne_nil base num)
  | cons k rest =>
      rw [same] at below
      exact ⟨digitByte k, rest.map digitByte, by rw [digitBytes, same, List.map_cons],
        digitByte_plain k (by have := below k List.mem_cons_self; omega)⟩

/-- An unsigned numeral is read back. -/
theorem readsBack_digits {base : Int} {print : Base} {v : UInt32}
    (reads : Reads base (digitBytes print.value v.toNat) v.toNat) :
    ReadsBack base (digitsOf print v.toNat) v := by
  intro tail
  obtain ⟨first, rest, starts, plain⟩ := digitBytes_plain _ print.least print.most v.toNat
  rw [digitsOf_bytes]
  exact strtol_unsigned reads starts plain tail

/-- A signed numeral is read back: negation undoes the sign modulo `2 ^ 32`. -/
theorem readsBack_decimal {base : Int} {v : UInt32}
    (reads : ∀ num, Reads base (digitBytes 10 num) num) : ReadsBack base (decimalText v) v := by
  intro tail
  have range := wrap32_range v.toNat
  have bytes : (digitsOf .decimal (magnitude (signedWord v))).map UInt8.ofInt =
      digitBytes 10 (magnitude (signedWord v)) := digitsOf_bytes .decimal _
  rw [decimalText, List.map_append, bytes]
  by_cases negative : signedWord v < 0
  · have value : wrap32 (-wrap32 (magnitude (signedWord v))) = signedWord v := by
      rw [magnitude, if_pos negative]
      simp only [signedWord, wrap32, wrap64, toUnsigned64] at negative range ⊢
      omega
    have sign : [('-'.toNat : Int)].map UInt8.ofInt = [ascii '-'] := rfl
    rw [signOf, if_pos negative, sign, List.singleton_append, strtol_negative (reads _) tail, value]
  · have value : wrap32 (magnitude (signedWord v)) = signedWord v := by
      rw [magnitude, if_neg negative]
      simp only [signedWord, wrap32, toUnsigned64] at negative range ⊢
      omega
    obtain ⟨first, rest, starts, plain⟩ := digitBytes_plain 10 (by decide) (by decide) (magnitude (signedWord v))
    rw [signOf, if_neg negative, List.map_nil, List.nil_append, strtol_unsigned (reads _) starts plain tail, value]

theorem decimalText_short (v : UInt32) : (decimalText v).length ≤ 11 := by
  have range := wrap32_range v.toNat
  have small : magnitude (signedWord v) < 10 ^ 10 := by
    unfold magnitude
    split
    · simp only [signedWord, toUnsigned64, wrap64] at *
      omega
    · simp only [signedWord, toUnsigned64] at *
      omega
  have digits := digitsOf_short .decimal 9 small
  have sign : (signOf (signedWord v)).length ≤ 1 := by
    unfold signOf
    split <;> simp
  rw [decimalText, List.length_append]
  omega

/-- Each listed format prints at most eleven characters, and `strtol` reads them back in the listed base. -/
theorem numberFormats_readBack {text : String} {base : Int} (listed : (text, base) ∈ numberFormats)
    (env : Environment) :
    ∃ out, output (literal text) env = some out ∧ ReadsBack base out (env.word 0) ∧ out.length ≤ 11 := by
  have word := (env.word 0).toNat_lt
  have decimal : (env.word 0).toNat < 10 ^ 10 := by omega
  have hexadecimal : (env.word 0).toNat < 16 ^ 8 := by omega
  have octal : (env.word 0).toNat < 8 ^ 11 := by omega
  have short := decimalText_short (env.word 0)
  have pointer : (([('0'.toNat : Int), 'x'.toNat] ++ digitsOf .hexadecimal (env.word 0).toNat)).length ≤ 11 := by
    have digits := digitsOf_short .hexadecimal 7 hexadecimal
    rw [List.length_append]
    simp only [List.length_cons, List.length_nil]
    omega
  have prefixed {base : Int} (either : base = 0 ∨ base = 16) :
      ReadsBack base ([('0'.toNat : Int), 'x'.toNat] ++ digitsOf .hexadecimal (env.word 0).toNat) (env.word 0) := by
    intro tail
    have bytes : (digitsOf .hexadecimal (env.word 0).toNat).map UInt8.ofInt = digitBytes 16 (env.word 0).toNat :=
      digitsOf_bytes .hexadecimal _
    rw [List.map_append, bytes]
    exact strtol_unsigned (reads_prefixed either _) rfl (by decide) tail
  simp only [numberFormats, List.mem_cons, Prod.mk.injEq, List.not_mem_nil, or_false] at listed
  obtain ⟨rfl, rfl⟩ | ⟨rfl, rfl⟩ | ⟨rfl, rfl⟩ | ⟨rfl, rfl⟩ | ⟨rfl, rfl⟩ | ⟨rfl, rfl⟩ | ⟨rfl, rfl⟩ | ⟨rfl, rfl⟩ |
    ⟨rfl, rfl⟩ := listed
  · exact ⟨_, output_decimal, readsBack_decimal (reads_base (by decide) (by decide)), short⟩
  · exact ⟨_, output_decimal, readsBack_decimal reads_zero, short⟩
  · exact ⟨_, output_long, readsBack_decimal (reads_base (by decide) (by decide)), short⟩
  · exact ⟨_, output_long, readsBack_decimal reads_zero, short⟩
  · refine ⟨_, output_unsigned .decimal (by decide) (by decide),
      readsBack_digits (reads_base (by decide) (by decide) _), ?_⟩
    have digits := digitsOf_short .decimal 9 decimal
    omega
  · refine ⟨_, output_unsigned .hexadecimal (by decide) (by decide), readsBack_digits (reads_hexadecimal _), ?_⟩
    have digits := digitsOf_short .hexadecimal 7 hexadecimal
    omega
  · refine ⟨_, output_unsigned .octal (by decide) (by decide),
      readsBack_digits (reads_base (by decide) (by decide) _), ?_⟩
    exact digitsOf_short .octal 10 octal
  · exact ⟨_, output_pointer, prefixed (.inr rfl), pointer⟩
  · exact ⟨_, output_pointer, prefixed (.inl rfl), pointer⟩

/-- The bytes of a string that fits into its buffer, with whatever lies behind its final zero. -/
theorem vsnprintf_bytes (memory : Memory) {buf : Nat} {n : Int} {fmt : List UInt8} {env : Environment}
    {out : List Int} (buffer : Buffer buf n) (run : output fmt env = some out) (large : out.length < n)
    (short : out.length < 2147483648) :
    ∃ memory' tail, vsnprintf memory buf n fmt env = some ((out.length : Int), memory') ∧
      readBlock memory' buf n.toNat = out.map UInt8.ofInt ++ 0 :: tail ∧
      readBlock memory' (buf + out.length) (n.toNat - out.length) = 0 :: tail := by
  have all : fitting n out = out.map UInt8.ofInt := by
    rw [fitting, List.take_of_length_le (by omega)]
  have count : wrap32 out.length = out.length := wrap32_eq (by omega) (by omega)
  have call : vsnprintf memory buf n fmt env =
      some ((out.length : Int), writeBlock memory buf (out.map UInt8.ofInt ++ [0])) := by
    rw [vsnprintf_eq buffer run, count, all]
  have whole := readBlock_written memory buf (out.map UInt8.ofInt ++ [0]) n.toNat (by
    rw [List.length_append, List.length_map, List.length_singleton]
    omega)
  rw [List.append_assoc, List.singleton_append] at whole
  refine ⟨_, _, call, whole, ?_⟩
  rw [← readBlock_drop _ _ (by omega), whole, List.drop_left' (List.length_map _)]

/-- A number that `snprintf` prints into a large enough buffer is read back by `strtol`: the value has the bits
of the argument, and `*endptr` is the address of the final zero. -/
theorem strtol_snprintf (memory : Memory) (buf : Nat) (n : Int) (env : Environment) (text : String) (base : Int)
    (listed : (text, base) ∈ numberFormats) (buffer : Buffer buf n) :
    ∃ (m : Nat) (memory' : Memory), snprintf memory buf n (literal text) env = some ((m : Int), memory') ∧ m ≤ 11 ∧
      (m < n → memory' (buf + m) = 0 ∧ strtol (readBlock memory' buf n.toNat) base =
        some (signedWord (env.word 0), readBlock memory' (buf + m) (n.toNat - m))) := by
  obtain ⟨out, run, reads, short⟩ := numberFormats_readBack listed env
  have count : wrap32 out.length = out.length := wrap32_eq (by omega) (by omega)
  by_cases large : (out.length : Int) < n
  · obtain ⟨memory', tail, call, whole, rest⟩ := vsnprintf_bytes memory buffer run large (by omega)
    refine ⟨_, _, call, short, fun _ => ⟨?_, by rw [whole, rest, reads]⟩⟩
    have first := readBlock_getElem? memory' (buf + out.length) (n.toNat - out.length) (i := 0) (by omega)
    rw [rest] at first
    exact (Option.some.inj first).symm
  · exact ⟨_, _, (vsnprintf_eq buffer run).trans (by rw [count]), short, fun large' => absurd large' large⟩

/-- The least `int` is read back in base zero. -/
theorem strtol_snprintf_least :
    let env : Environment := ⟨fun _ => 0x80000000, fun _ => []⟩
    ∃ (m : Nat) (memory' : Memory), snprintf (fun _ => 170) 4096 16 (literal "%d") env = some ((m : Int), memory') ∧
      m ≤ 11 ∧ (m < (16 : Int) → memory' (4096 + m) = 0 ∧ strtol (readBlock memory' 4096 16) 0 =
        some (signedWord 0x80000000, readBlock memory' (4096 + m) (16 - m))) :=
  strtol_snprintf (fun _ => 170) 4096 16 ⟨fun _ => 0x80000000, fun _ => []⟩ "%d" 0 (by decide)
    ⟨by decide, by decide, by decide, by decide⟩

end JosSmp.Printfmt
