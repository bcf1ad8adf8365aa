import JosSmp.Construction.Machine.Word

/-!
This file models the comparison functions of `lib/string.c` on two strings.
A pointer is the list of readable bytes from it on; a function that reads past them has no result.
-/

namespace JosSmp.Compare
open Machine

/-- The loop compares `char`s, which are signed, and the result is a difference of unsigned ones. -/
def strcmp : List UInt8 → List UInt8 → Option Int
  | p :: ps, q :: qs =>
      if signedChar p ≠ 0 ∧ signedChar p = signedChar q then strcmp ps qs else some ((p.toNat : Int) - q.toNat)
  | _, _ => none

/-- No byte is read once the count is used up. -/
def strncmp : List UInt8 → List UInt8 → Nat → Option Int
  | _, _, 0 => some 0
  | p :: ps, q :: qs, n + 1 =>
      if signedChar p ≠ 0 ∧ signedChar p = signedChar q then strncmp ps qs n else some ((p.toNat : Int) - q.toNat)
  | _, _, _ + 1 => none

def memcmp : List UInt8 → List UInt8 → Nat → Option Int
  | _, _, 0 => some 0
  | s1 :: v1, s2 :: v2, n + 1 => if s1 ≠ s2 then some ((s1.toNat : Int) - s2.toNat) else memcmp v1 v2 n
  | _, _, _ + 1 => none

end JosSmp.Compare
