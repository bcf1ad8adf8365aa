import JosSmp.Construction.Machine.Memory

/-!
This file models `memset` of `lib/string.c`: as it is compiled, with the string instructions of the processor,
and as it is without them.
-/

namespace JosSmp.Cstring
open Machine

/-- The bytes of `%eax`, lowest first; `stosl` stores all of them and `stosb` the first. -/
def eaxBytes (eax : UInt32) : List UInt8 :=
  [eax.toUInt8, (eax >>> 8).toUInt8, (eax >>> 16).toUInt8, (eax >>> 24).toUInt8]

/-- A `rep stos` stores `count` units of `%eax` from `%edi` on, with a clear direction flag. -/
def repStos (size : Nat) (eax : UInt32) : (count edi : Nat) → Ram → Ram
  | 0, _, ram => ram
  | count + 1, edi, ram => repStos size eax count (address (edi + size)) (ram.store edi ((eaxBytes eax).take size))

/-- The address that `memset` returns, and the memory it leaves. -/
def memset (v : Nat) (c : UInt32) (n : Nat) (ram : Ram) : Nat × Ram :=
  if n = 0 then (v, ram)
  else if v % 4 = 0 ∧ n % 4 = 0 then
    let c := c &&& 0xFF
    let c := (c <<< 24) ||| (c <<< 16) ||| (c <<< 8) ||| c
    (v, repStos 4 c (n / 4) v ram)
  else (v, repStos 1 c n v ram)

/-- The loop `while (--m >= 0) *p++ = c`, whose counter is an `int`. The decrement of the least `int` overflows, and
C gives it no value: as it is compiled, without `-fwrapv`, the loop stores nothing then. -/
def memsetLoop (c : UInt8) (m : Int) (p : Nat) (ram : Ram) : Ram :=
  if m - 1 ≥ 0 then memsetLoop c (m - 1) (address (p + 1)) (ram.store p [c]) else ram
termination_by m.toNat
decreasing_by omega

/-- The version of `memset` that is compiled without `ASM`. -/
def memsetFallback (v : Nat) (c : UInt32) (n : Nat) (ram : Ram) : Nat × Ram :=
  let m := wrap32 n
  (v, memsetLoop c.toUInt8 m v ram)

end JosSmp.Cstring
