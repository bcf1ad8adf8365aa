import Mathlib.Logic.Function.Basic

/-!
This file gives the stack of C functions that keep a frame pointer, which `mon_backtrace` relies on.
-/

namespace JosSmp.Machine

/-- The two registers that point into the stack, and its words. -/
structure CallStack where
  esp : UInt32
  ebp : UInt32
  word : UInt32 → UInt32

namespace CallStack

def push (v : UInt32) (m : CallStack) : CallStack :=
  { m with esp := m.esp - 4, word := Function.update m.word (m.esp - 4) v }

/-- The caller pushes the arguments, the last one first, and the return address. The function pushes the frame pointer,
which points there from then on, and takes room for its own variables. -/
def call (args : List UInt32) (ret : UInt32) (locals : Nat) (m : CallStack) : CallStack :=
  let m := args.foldr push m
  let m := m.push ret
  let m := m.push m.ebp
  { m with ebp := m.esp, esp := m.esp - 4 * UInt32.ofNat locals }

/-- The function stores into its own variables. -/
def store (a v : UInt32) (m : CallStack) : CallStack := { m with word := Function.update m.word a v }

/-- The function returns, and the caller drops the arguments. -/
def leave (argc : Nat) (m : CallStack) : CallStack :=
  { m with esp := m.ebp + 8 + 4 * UInt32.ofNat argc, ebp := m.word m.ebp }

/-- What a running program does to its stack. -/
inductive Action
  | call (args : List UInt32) (ret : UInt32) (locals : Nat)
  | store (a v : UInt32)
  | leave (argc : Nat)

def step (m : CallStack) : Action → CallStack
  | .call args ret locals => m.call args ret locals
  | .store a v => m.store a v
  | .leave argc => m.leave argc

end CallStack

end JosSmp.Machine
