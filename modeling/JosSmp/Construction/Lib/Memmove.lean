import JosSmp.Construction.Machine.Memory

/-!
This file models `memmove` of `lib/string.c`: as it is compiled, with the string instructions of the processor,
and as it is without them.
-/

namespace JosSmp.Cstring
open Library Machine

/-- A `rep movs` copies `count` units from `%esi` to `%edi`; the direction flag makes the addresses fall. -/
def repMovs (size : Nat) (down : Bool) : (count esi edi : Nat) → Ram → Ram
  | 0, _, _, ram => ram
  | count + 1, esi, edi, ram =>
      let unit := ram.load esi size
      let onward (a : Nat) := address (if down then (a : Int) - size else a + size)
      repMovs size down count (onward esi) (onward edi) (unit.2.store edi unit.1)

/-- The address that `memmove` returns, and the memory it leaves. -/
def memmove (dst src n : Nat) (ram : Ram) : Nat × Ram :=
  let s := src
  let d := dst
  if s < d ∧ address (s + n) > d then
    let s := address (s + n)
    let d := address (d + n)
    if s % 4 = 0 ∧ d % 4 = 0 ∧ n % 4 = 0 then
      (dst, repMovs 4 true (n / 4) (address (s - 4)) (address (d - 4)) ram)
    else (dst, repMovs 1 true n (address (s - 1)) (address (d - 1)) ram)
  else if s % 4 = 0 ∧ d % 4 = 0 ∧ n % 4 = 0 then (dst, repMovs 4 false (n / 4) s d ram)
  else (dst, repMovs 1 false n s d ram)

/-- The loop `while (n-- > 0) *--d = *--s`. -/
def moveDown : (n s d : Nat) → Ram → Ram
  | 0, _, _, ram => ram
  | n + 1, s, d, ram =>
      let s := address ((s : Int) - 1)
      let d := address ((d : Int) - 1)
      let unit := ram.load s 1
      moveDown n s d (unit.2.store d unit.1)

/-- The loop `while (n-- > 0) *d++ = *s++`. -/
def moveUp : (n s d : Nat) → Ram → Ram
  | 0, _, _, ram => ram
  | n + 1, s, d, ram =>
      let unit := ram.load s 1
      moveUp n (address (s + 1)) (address (d + 1)) (unit.2.store d unit.1)

/-- The version of `memmove` that is compiled without `ASM`. -/
def memmoveFallback (dst src n : Nat) (ram : Ram) : Nat × Ram :=
  let s := src
  let d := dst
  if s < d ∧ address (s + n) > d then
    let s := address (s + n)
    let d := address (d + n)
    (dst, moveDown n s d ram)
  else (dst, moveUp n s d ram)

/-- The alignment tests of the source are on the pointers as `int`s. -/
theorem aligned_int (a : Nat) : (wrap32 a).tmod 4 = 0 ↔ a % 4 = 0 := by
  rw [← Int.dvd_iff_tmod_eq_zero]
  unfold wrap32
  omega

end JosSmp.Cstring
