import JosSmp.Construction.Machine.Memory

/-!
This file models the functions of `lib/string.c` that work on strings.
A pointer into a string is the list of readable bytes from it on; a function that reads past them
has no result.
-/

namespace JosSmp.Cstring
open Machine

/-- The bytes of a string literal. -/
def literal (text : String) : List UInt8 := text.toList.map (fun c => UInt8.ofNat c.toNat) ++ [0]

def strnlen : List UInt8 → Nat → Option Int
  | _, 0 => some 0
  | [], _ + 1 => none
  | b :: rest, size + 1 => if b ≠ 0 then (strnlen rest size).map fun n => wrap32 (n + 1) else some 0

/-- The offset at which `strfind` stops. -/
def strfind (c : UInt8) : List UInt8 → Option Nat
  | [] => none
  | b :: rest => if b = 0 then some 0 else if b = c then some 0 else (strfind c rest).map (· + 1)

/-- The null pointer is `none`; another pointer is its offset in the string. -/
def strchr (c : UInt8) : List UInt8 → Option (Option Nat)
  | [] => none
  | b :: rest => if b = 0 then some none else if b = c then some (some 0) else (strchr c rest).map (Option.map (· + 1))

/-- The first string lies in the memory. -/
def strcmp (ram : Ram) (p : Nat) : List UInt8 → Option (Int × Ram)
  | [] => none
  | q :: rest =>
      let b := ram.loadByte p
      if b.1 ≠ 0 ∧ b.1 = q then strcmp b.2 (address (p + 1)) rest
      else some ((b.1.toNat : Int) - q.toNat, b.2)

/-- The digit that a byte stands for in `strtol`. -/
def digit (byte : UInt8) : Option Int :=
  let c := signedChar byte
  if '0'.toNat ≤ c ∧ c ≤ '9'.toNat then some (c - '0'.toNat)
  else if 'a'.toNat ≤ c ∧ c ≤ 'z'.toNat then some (c - 'a'.toNat + 10)
  else if 'A'.toNat ≤ c ∧ c ≤ 'Z'.toNat then some (c - 'A'.toNat + 10)
  else none

def strtolSpaces : List UInt8 → Option (List UInt8)
  | [] => none
  | b :: rest => if b = ascii ' ' ∨ b = ascii '\t' then strtolSpaces rest else some (b :: rest)

/-- The base and the pointer after the optional prefix. -/
def strtolPrefix (base : Int) (s : List UInt8) : Option (Int × List UInt8) :=
  if base = 0 ∨ base = 16 then
    match s with
    | [] => none
    | b :: rest =>
        if b = ascii '0' then
          match rest with
          | [] => none
          | x :: rest' =>
              if x = ascii 'x' then some (16, rest')
              else if base = 0 then some (8, rest)
              else some (base, s)
        else if base = 0 then some (10, s)
        else some (base, s)
  else some (base, s)

def strtolDigits (base val : Int) : List UInt8 → Option (Int × List UInt8)
  | [] => none
  | b :: rest =>
      match digit b with
      | none => some (val, b :: rest)
      | some dig => if dig ≥ base then some (val, b :: rest) else strtolDigits base (wrap32 (val * base + dig)) rest

/-- The value that `strtol` returns, and the readable bytes from `*endptr` on. -/
def strtol (s : List UInt8) (base : Int) : Option (Int × List UInt8) :=
  match strtolSpaces s with
  | none => none
  | some [] => none
  | some (sign :: rest) =>
      let neg := sign = ascii '-'
      match strtolPrefix base (if sign = ascii '+' ∨ sign = ascii '-' then rest else sign :: rest) with
      | none => none
      | some (base, s) =>
          (strtolDigits base 0 s).map fun out => (if neg then wrap32 (-out.1) else out.1, out.2)

end JosSmp.Cstring
