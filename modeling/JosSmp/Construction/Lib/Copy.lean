import JosSmp.Construction.Machine.Memory

/-!
This file models the bounded string copies of `lib/string.c`.
-/

namespace JosSmp.Cstring
open Library Machine

/-- The memory, with the addresses that the code has loaded and those that it has stored, last one first. -/
structure Traced where
  byte : Memory
  loads : List Nat
  stores : List Nat

def Traced.load (s : Traced) (a : Nat) : UInt8 × Traced := (s.byte a, { s with loads := a :: s.loads })

def Traced.store (s : Traced) (a : Nat) (b : UInt8) : Traced :=
  { s with byte := writeBlock s.byte a [b], stores := a :: s.stores }

/-- The loop of `strncpy` with `left` iterations to go. -/
def strncpyLoop : (left dst src : Nat) → Traced → Traced
  | 0, _, _, s => s
  | left + 1, dst, src, s =>
      let c := s.load src
      let s := c.2.store dst c.1
      let c := s.load src
      strncpyLoop left (address (dst + 1)) (if c.1 ≠ 0 then address (src + 1) else src) c.2

def strncpy (dst src size : Nat) (s : Traced) : Nat × Traced := (dst, strncpyLoop size dst src s)

/-- The loop of `strlcpy` behind the decrement of `size`, with the destination pointer that it leaves. -/
def strlcpyLoop : (size dst src : Nat) → Traced → Nat × Traced
  | 0, dst, _, s => (dst, s)
  | size + 1, dst, src, s =>
      let c := s.load src
      if c.1 ≠ 0 then
        let c := c.2.load src
        strlcpyLoop size (address (dst + 1)) (address (src + 1)) (c.2.store dst c.1)
      else (dst, c.2)

def strlcpy (dst src size : Nat) (s : Traced) : Nat × Traced :=
  let dstIn := dst
  if size > 0 then
    let out := strlcpyLoop (size - 1) dst src s
    (address ((out.1 : Int) - dstIn), out.2.store out.1 0)
  else (address ((dst : Int) - dstIn), s)

end JosSmp.Cstring
