import JosSmp.Construction.Lib.Memmove

/-!
This file models the output half of `kern/console.c`.
-/

namespace JosSmp.Console
open Machine

def com1 : Nat := 0x3F8
def comTx : Nat := 0
def comLsr : Nat := 5
def comLsrTxrdy : UInt8 := 0x20

def crtRows : Nat := 25
def crtCols : Nat := 80
def crtSize : Nat := crtRows * crtCols

/-- The variables of the display, the memory, and the ports. The device that answers the `n`-th `inb` is
arbitrary; the writes are listed last one first. -/
structure Output where
  addr6845 : Nat
  crtBuf : Nat
  crtPos : Nat
  ram : Ram
  answer : Nat → Nat → UInt8
  reads : Nat
  writes : List (Nat × UInt8)

namespace Output

def inb (port : Nat) (o : Output) : UInt8 × Output := (o.answer o.reads port, { o with reads := o.reads + 1 })

def outb (port : Nat) (data : UInt8) (o : Output) : Output := { o with writes := (port, data) :: o.writes }

def delay (o : Output) : Output :=
  let o := (o.inb 0x84).2
  let o := (o.inb 0x84).2
  let o := (o.inb 0x84).2
  (o.inb 0x84).2

/-- Both ports are polled until a status bit is set, and at most `left` more times after a delay. -/
def waitFor (port : Nat) (mask : UInt8) : (left : Nat) → Output → Output
  | 0, o => (o.inb port).2
  | left + 1, o =>
      let status := o.inb port
      if status.1 &&& mask ≠ 0 then status.2 else waitFor port mask left status.2.delay

def serialPutc (c : BitVec 32) (o : Output) : Output :=
  (o.waitFor (com1 + comLsr) comLsrTxrdy 12800).outb (com1 + comTx) (UInt8.ofBitVec (c.setWidth 8))

def lptPutc (c : BitVec 32) (o : Output) : Output :=
  let o := o.waitFor (0x378 + 1) 0x80 12800
  let o := o.outb (0x378 + 0) (UInt8.ofBitVec (c.setWidth 8))
  let o := o.outb (0x378 + 2) (0x08 ||| 0x04 ||| 0x01)
  o.outb (0x378 + 2) 0x08

/-- A store to `crt_buf[i]` keeps the low 16 bits. -/
def setCell (i : Nat) (c : BitVec 32) (o : Output) : Output :=
  { o with ram := o.ram.store16 (address (o.crtBuf + 2 * i)) (UInt16.ofBitVec (c.setWidth 16)) }

/-- The loop that clears the last row of the screen. -/
def clearFrom (i : Nat) (o : Output) : Output :=
  if i < crtSize then clearFrom (i + 1) (o.setCell i (0x0700 ||| 0x20)) else o
termination_by crtSize - i

/-- A full screen moves up by one row. -/
def scroll (o : Output) : Output :=
  if o.crtPos ≥ crtSize then
    let o := { o with ram := (Cstring.memmove o.crtBuf (address (o.crtBuf + 2 * crtCols))
      ((crtSize - crtCols) * 2) o.ram).2 }
    let o := o.clearFrom (crtSize - crtCols)
    { o with crtPos := (o.crtPos + 65536 - crtCols) % 65536 }
  else o

def moveCursor (o : Output) : Output :=
  let o := o.outb o.addr6845 14
  let o := o.outb (o.addr6845 + 1) (UInt8.ofNat (o.crtPos >>> 8))
  let o := o.outb o.addr6845 15
  o.outb (o.addr6845 + 1) (UInt8.ofNat o.crtPos)

/-- If no attribute is given, the character is black on white. -/
def attributed (c : BitVec 32) : BitVec 32 := if c &&& ~~~0xFF = 0 then c ||| 0x0700 else c

def lineStart (o : Output) : Output := { o with crtPos := o.crtPos - o.crtPos % crtCols }

theorem low_attributed (c : BitVec 32) : attributed c &&& 0xFF = c &&& 0xFF := by
  unfold attributed
  split
  · rw [BitVec.and_or_distrib_right]
    exact BitVec.or_zero
  · rfl

mutual

def cgaPutc (c : BitVec 32) (o : Output) : Output :=
  let c' := attributed c
  let o :=
    if c' &&& 0xff = 0x08 then
      if o.crtPos > 0 then
        let o := { o with crtPos := o.crtPos - 1 }
        o.setCell o.crtPos ((c' &&& ~~~0xff) ||| 0x20)
      else o
    else if c' &&& 0xff = 0x0a then lineStart { o with crtPos := (o.crtPos + crtCols) % 65536 }
    else if c' &&& 0xff = 0x0d then lineStart o
    else if _tab : c' &&& 0xff = 0x09 then
      consPutc 0x20 (consPutc 0x20 (consPutc 0x20 (consPutc 0x20 (consPutc 0x20 o))))
    else { o.setCell o.crtPos c' with crtPos := (o.crtPos + 1) % 65536 }
  o.scroll.moveCursor
termination_by if c &&& 0xff = 0x09 then 2 else 0
decreasing_by
  all_goals
    rw [if_pos ((low_attributed c).symm.trans _tab)]
    decide

def consPutc (c : BitVec 32) (o : Output) : Output := cgaPutc c (lptPutc c (serialPutc c o))
termination_by if c &&& 0xff = 0x09 then 3 else 1
decreasing_by
  split <;> decide

end

def cputchar (c : Int) (o : Output) : Output := consPutc (BitVec.ofInt 32 c) o

end Output

end JosSmp.Console
