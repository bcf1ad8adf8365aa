import Mathlib.Logic.Function.Basic

/-!
This file models the input half of `kern/console.c`.
-/

namespace JosSmp.Console

def consbufsize : Nat := 512

/-- The buffer holds the bytes from `cons.buf` on, so an index past its end is not lost. -/
structure Cons where
  buf : Nat → UInt8
  rpos : Nat
  wpos : Nat

def Cons.initial : Cons := ⟨fun _ => 0, 0, 0⟩

/-- One character enters the buffer, and `wpos` wraps at the end. -/
def Cons.store (cons : Cons) (c : Int) : Cons where
  buf := Function.update cons.buf cons.wpos (UInt8.ofInt c)
  rpos := cons.rpos
  wpos := if cons.wpos + 1 = consbufsize then 0 else cons.wpos + 1

/-- The list holds the results of the calls of `proc`; a device without data returns `-1`. -/
def consIntr (cons : Cons) : List Int → Cons
  | [] => cons
  | c :: results =>
      if c = -1 then cons
      else if c = 0 then consIntr cons results
      else consIntr (cons.store c) results

def serialIntr (serialExists : Bool) (cons : Cons) (results : List Int) : Cons :=
  if serialExists then consIntr cons results else cons

def kbdIntr (cons : Cons) (results : List Int) : Cons := consIntr cons results

/-- Both devices are polled before a character is taken. -/
def consGetc (serialExists : Bool) (cons : Cons) (serial kbd : List Int) : Int × Cons :=
  let cons := kbdIntr (serialIntr serialExists cons serial) kbd
  if cons.rpos ≠ cons.wpos then
    let rpos := if cons.rpos + 1 = consbufsize then 0 else cons.rpos + 1
    (((cons.buf cons.rpos).toNat : Int), { cons with rpos })
  else (0, cons)

end JosSmp.Console
