import JosSmp.Construction.Lib.String

/-!
This file models `runcmd` of `kern/monitor.c`.
A loop that has not ended after `fuel` passes has no result.
-/

namespace JosSmp.Monitor
open Machine

inductive Func where
  | monHelp
  | monKerninfo
  | monBacktrace
  deriving DecidableEq, Repr

/-- A command keeps the fields that `runcmd` reads. -/
structure Command where
  name : List UInt8
  func : Func
  deriving DecidableEq, Repr

def commands : List Command :=
  [⟨Cstring.literal "help", .monHelp⟩,
    ⟨Cstring.literal "kerninfo", .monKerninfo⟩,
    ⟨Cstring.literal "backtrace", .monBacktrace⟩]

def whitespace : List UInt8 := Cstring.literal "\t\r\n "

def maxargs : Nat := 16

/-- The array `argv` of pointers, together with the indices that the code has written. -/
structure Argv where
  slot : Nat → Nat
  written : List Nat

def Argv.set (argv : Argv) (i p : Nat) : Argv := ⟨Function.update argv.slot i p, i :: argv.written⟩

/-- The test `strchr(WHITESPACE, c)`. -/
def isWhitespace (c : UInt8) : Bool := (Cstring.strchr c whitespace).join.isSome

/-- The loop that overwrites whitespace with zeros. -/
def gobble : (fuel buf : Nat) → Ram → Option (Nat × Ram)
  | 0, _, _ => none
  | fuel + 1, buf, ram =>
      let b := ram.loadByte buf
      if b.1 ≠ 0 ∧ isWhitespace b.1 then gobble fuel (address (buf + 1)) (b.2.store buf [0]) else some (buf, b.2)

/-- The loop that scans past an argument. -/
def scan : (fuel buf : Nat) → Ram → Option (Nat × Ram)
  | 0, _, _ => none
  | fuel + 1, buf, ram =>
      let b := ram.loadByte buf
      if b.1 ≠ 0 ∧ ¬ isWhitespace b.1 then scan fuel (address (buf + 1)) b.2 else some (buf, b.2)

structure Parsed where
  tooMany : Bool
  argc : Nat
  argv : Argv
  ram : Ram

/-- The loop that parses the command buffer into arguments. -/
def parse : (fuel buf argc : Nat) → Argv → Ram → Option Parsed
  | 0, _, _, _, _ => none
  | fuel + 1, buf, argc, argv, ram =>
      match gobble fuel buf ram with
      | none => none
      | some (buf, ram) =>
          let b := ram.loadByte buf
          if b.1 = 0 then some ⟨false, argc, argv, b.2⟩
          else if argc = maxargs - 1 then some ⟨true, argc, argv, b.2⟩
          else
            match scan fuel buf b.2 with
            | none => none
            | some (buf', ram) => parse fuel buf' (argc + 1) (argv.set argc buf) ram

/-- The first command whose name is the string at `p`. -/
def lookup (p : Nat) : List Command → Ram → Option (Option Command × Ram)
  | [], ram => some (none, ram)
  | command :: rest, ram =>
      match Cstring.strcmp ram p command.name with
      | none => none
      | some (order, ram) => if order = 0 then some (some command, ram) else lookup p rest ram

/-- What `runcmd` does with the parsed line; a message is the format of `cprintf` with its argument. -/
inductive Action where
  | nothing
  | message (fmt : List UInt8) (argument : Nat)
  | invoke (func : Func)
  deriving DecidableEq, Repr

structure Outcome where
  action : Action
  argc : Nat
  argv : Argv
  ram : Ram
  result : Int

/-- The array starts with arbitrary contents, and `call` gives what a command returns. -/
def runcmd (call : Func → Nat → Argv → Ram → Int) (fuel buf : Nat) (argv : Argv) (ram : Ram) : Option Outcome :=
  match parse fuel buf 0 (argv.set 0 0) ram with
  | none => none
  | some p =>
      if p.tooMany then
        some ⟨.message (Cstring.literal "Too many arguments (max %d)\n") maxargs, p.argc, p.argv, p.ram, 0⟩
      else
        let argv := p.argv.set p.argc 0
        if p.argc = 0 then some ⟨.nothing, p.argc, argv, p.ram, 0⟩
        else
          match lookup (argv.slot 0) commands p.ram with
          | none => none
          | some (some command, ram) =>
              some ⟨.invoke command.func, p.argc, argv, ram, call command.func p.argc argv ram⟩
          | some (none, ram) =>
              some ⟨.message (Cstring.literal "Unknown command '%s'\n") (argv.slot 0), p.argc, argv, ram, 0⟩

end JosSmp.Monitor
