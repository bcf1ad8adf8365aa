import JosSmp.Construction.Kern.Printf

/-!
This file models the keyboard half of `kern/console.c`.
-/

namespace JosSmp.Console
open Machine

def keyHome : UInt8 := 0xE0
def keyEnd : UInt8 := 0xE1
def keyUp : UInt8 := 0xE2
def keyDn : UInt8 := 0xE3
def keyLf : UInt8 := 0xE4
def keyRt : UInt8 := 0xE5
def keyPgup : UInt8 := 0xE6
def keyPgdn : UInt8 := 0xE7
def keyIns : UInt8 := 0xE8
def keyDel : UInt8 := 0xE9

def kbsDib : UInt8 := 0x01

def no : UInt8 := 0

def shiftBit : BitVec 32 := 1 <<< 0
def ctl : BitVec 32 := 1 <<< 1
def alt : BitVec 32 := 1 <<< 2
def capslock : BitVec 32 := 1 <<< 3
def numlock : BitVec 32 := 1 <<< 4
def scrolllock : BitVec 32 := 1 <<< 5
def e0esc : BitVec 32 := 1 <<< 6

/-- An array of 256 entries with the first ones in order, some more at their indices, and zeros elsewhere. -/
def initializer (first : List UInt8) (designated : List (Nat × UInt8)) : List UInt8 :=
  (List.range 256).map fun i => (designated.lookup i).getD (first.getD i 0)

def shiftcode : List UInt8 :=
  initializer []
    [(0x1D, UInt8.ofBitVec (ctl.setWidth 8)), (0x2A, UInt8.ofBitVec (shiftBit.setWidth 8)),
      (0x36, UInt8.ofBitVec (shiftBit.setWidth 8)), (0x38, UInt8.ofBitVec (alt.setWidth 8)),
      (0x9D, UInt8.ofBitVec (ctl.setWidth 8)), (0xB8, UInt8.ofBitVec (alt.setWidth 8))]

def togglecode : List UInt8 :=
  initializer []
    [(0x3A, UInt8.ofBitVec (capslock.setWidth 8)), (0x45, UInt8.ofBitVec (numlock.setWidth 8)),
      (0x46, UInt8.ofBitVec (scrolllock.setWidth 8))]

/-- The entries that `normalmap` and `shiftmap` share. -/
def navigation : List (Nat × UInt8) :=
  [(0xC7, keyHome), (0x9C, ascii '\n'), (0xB5, ascii '/'), (0xC8, keyUp), (0xC9, keyPgup), (0xCB, keyLf),
    (0xCD, keyRt), (0xCF, keyEnd), (0xD0, keyDn), (0xD1, keyPgdn), (0xD2, keyIns), (0xD3, keyDel)]

def normalmap : List UInt8 :=
  initializer
    [no, 0x1B, ascii '1', ascii '2', ascii '3', ascii '4', ascii '5', ascii '6',
      ascii '7', ascii '8', ascii '9', ascii '0', ascii '-', ascii '=', 0x08, ascii '\t',
      ascii 'q', ascii 'w', ascii 'e', ascii 'r', ascii 't', ascii 'y', ascii 'u', ascii 'i',
      ascii 'o', ascii 'p', ascii '[', ascii ']', ascii '\n', no, ascii 'a', ascii 's',
      ascii 'd', ascii 'f', ascii 'g', ascii 'h', ascii 'j', ascii 'k', ascii 'l', ascii ';',
      ascii '\'', 0x60, no, ascii '\\', ascii 'z', ascii 'x', ascii 'c', ascii 'v',
      ascii 'b', ascii 'n', ascii 'm', ascii ',', ascii '.', ascii '/', no, ascii '*',
      no, ascii ' ', no, no, no, no, no, no,
      no, no, no, no, no, no, no, ascii '7',
      ascii '8', ascii '9', ascii '-', ascii '4', ascii '5', ascii '6', ascii '+', ascii '1',
      ascii '2', ascii '3', ascii '0', ascii '.', no, no, no, no]
    navigation

def shiftmap : List UInt8 :=
  initializer
    [no, 0x1B, ascii '!', ascii '@', ascii '#', ascii '$', ascii '%', ascii '^',
      ascii '&', ascii '*', ascii '(', ascii ')', ascii '_', ascii '+', 0x08, ascii '\t',
      ascii 'Q', ascii 'W', ascii 'E', ascii 'R', ascii 'T', ascii 'Y', ascii 'U', ascii 'I',
      ascii 'O', ascii 'P', 0x7B, 0x7D, ascii '\n', no, ascii 'A', ascii 'S',
      ascii 'D', ascii 'F', ascii 'G', ascii 'H', ascii 'J', ascii 'K', ascii 'L', ascii ':',
      ascii '"', ascii '~', no, ascii '|', ascii 'Z', ascii 'X', ascii 'C', ascii 'V',
      ascii 'B', ascii 'N', ascii 'M', ascii '<', ascii '>', ascii '?', no, ascii '*',
      no, ascii ' ', no, no, no, no, no, no,
      no, no, no, no, no, no, no, ascii '7',
      ascii '8', ascii '9', ascii '-', ascii '4', ascii '5', ascii '6', ascii '+', ascii '1',
      ascii '2', ascii '3', ascii '0', ascii '.', no, no, no, no]
    navigation

/-- The macro `C(x)`. -/
def control (x : Char) : UInt8 := ascii x - ascii '@'

def ctlmap : List UInt8 :=
  initializer
    [no, no, no, no, no, no, no, no,
      no, no, no, no, no, no, no, no,
      control 'Q', control 'W', control 'E', control 'R', control 'T', control 'Y', control 'U', control 'I',
      control 'O', control 'P', no, no, ascii '\r', no, control 'A', control 'S',
      control 'D', control 'F', control 'G', control 'H', control 'J', control 'K', control 'L', no,
      no, no, no, control '\\', control 'Z', control 'X', control 'C', control 'V',
      control 'B', control 'N', control 'M', no, no, control '/', no, no]
    [(0x97, keyHome), (0xB5, control '/'), (0xC8, keyUp), (0xC9, keyPgup), (0xCB, keyLf), (0xCD, keyRt),
      (0xCF, keyEnd), (0xD0, keyDn), (0xD1, keyPgdn), (0xD2, keyIns), (0xD3, keyDel)]

def charcode : List (List UInt8) := [normalmap, shiftmap, ctlmap, ctlmap]

/-- The static variable `shift`, and the console. -/
structure Keyboard where
  shift : BitVec 32
  console : Output

/-- Caps Lock exchanges the cases of a letter. -/
def capitalized (shift : BitVec 32) (c : Int) : Int :=
  if shift &&& capslock ≠ 0 then
    if 'a'.toNat ≤ c ∧ c ≤ 'z'.toNat then c + ('A'.toNat - 'a'.toNat)
    else if 'A'.toNat ≤ c ∧ c ≤ 'Z'.toNat then c + ('a'.toNat - 'A'.toNat)
    else c
  else c

/-- The controller answers the two port reads with `status` and `data`. An index outside of an array has no result. -/
def kbdProcData (status data : UInt8) (s : Keyboard) : Option (Int × Keyboard) :=
  if status &&& kbsDib = 0 then some (-1, s)
  else if data = 0xE0 then some (0, { s with shift := s.shift ||| e0esc })
  else if data &&& 0x80 ≠ 0 then do
    let data := if s.shift &&& e0esc ≠ 0 then data else data &&& 0x7F
    let code ← shiftcode[data.toNat]?
    some (0, { s with shift := s.shift &&& ~~~(code.toBitVec.setWidth 32 ||| e0esc) })
  else do
    let (data, shift) := if s.shift &&& e0esc ≠ 0 then (data ||| 0x80, s.shift &&& ~~~e0esc) else (data, s.shift)
    let code ← shiftcode[data.toNat]?
    let shift := shift ||| code.toBitVec.setWidth 32
    let code ← togglecode[data.toNat]?
    let shift := shift ^^^ code.toBitVec.setWidth 32
    let map ← charcode[(shift &&& (ctl ||| shiftBit)).toNat]?
    let c ← map[data.toNat]?
    let c := capitalized shift c.toNat
    if ~~~shift &&& (ctl ||| alt) = 0 ∧ c = keyDel.toNat then do
      let (_, console) ← cprintf (Cstring.literal "Rebooting!\n") ⟨fun _ => 0, fun _ => []⟩ s.console
      some (c, ⟨shift, console.outb 0x92 0x3⟩)
    else some (c, { s with shift })

/-- The controller has the next byte at each call. -/
def kbdFeed : List UInt8 → Keyboard → Option (List Int × Keyboard)
  | [], s => some ([], s)
  | data :: rest, s => do
      let (c, s) ← kbdProcData kbsDib data s
      let (results, s) ← kbdFeed rest s
      some (c :: results, s)

end JosSmp.Console
