import JosSmp.Construction.Kern.Entry
import JosSmp.Construction.Kern.Printf

/-!
This file models how `kern/console.c` finds its devices.
-/

namespace JosSmp.Console
open Machine

def monoBase : Nat := 0x3B4
def monoBuf : Nat := 0xB0000
def cgaBase : Nat := 0x3D4
def cgaBuf : Nat := 0xB8000

def comDll : Nat := 0
def comDlm : Nat := 1
def comRx : Nat := 0
def comIer : Nat := 1
def comIerRdi : UInt8 := 0x01
def comIir : Nat := 2
def comFcr : Nat := 2
def comLcr : Nat := 3
def comLcrDlab : UInt8 := 0x80
def comLcrWlen8 : UInt8 := 0x03
def comMcr : Nat := 4

/-- The display of the machine. A color display has its buffer at `CGA_BUF`. With a monochrome one that address has no
memory: a store is lost, and a load finds another word than the one that `cga_init` stores. -/
inductive Display
  | color
  | mono (floating : {word : UInt16 // word ≠ 0xA55A})

def Display.load (a : Nat) (ram : Ram) : Display → UInt16
  | .color => ram.load16 a
  | .mono floating => floating

def Display.store (a : Nat) (v : UInt16) (ram : Ram) : Display → Ram
  | .color => ram.store16 a v
  | .mono _ => ram

namespace Output

/-- The first part of `cga_init` looks for a color display. -/
def probe (display : Display) (o : Output) : Output :=
  let cp := Entry.kernbase.toNat + cgaBuf
  let was := display.load cp o.ram
  let ram := display.store cp 0xA55A o.ram
  if display.load cp ram ≠ 0xA55A then
    { o with ram, crtBuf := Entry.kernbase.toNat + monoBuf, addr6845 := monoBase }
  else { o with ram := display.store cp was ram, crtBuf := cp, addr6845 := cgaBase }

/-- The second part reads the cursor location. -/
def locate (o : Output) : Output :=
  let o := o.outb o.addr6845 14
  let (high, o) := o.inb (o.addr6845 + 1)
  let o := o.outb o.addr6845 15
  let (low, o) := o.inb (o.addr6845 + 1)
  { o with crtPos := high.toNat <<< 8 ||| low.toNat }

def cgaInit (display : Display) (o : Output) : Output := (o.probe display).locate

def kbdInit (o : Output) : Output := o

/-- The variable `serial_exists` and the console. -/
def serialInit (o : Output) : Bool × Output :=
  let o := o.outb (com1 + comFcr) 0
  let o := o.outb (com1 + comLcr) comLcrDlab
  let o := o.outb (com1 + comDll) (UInt8.ofNat (115200 / 9600))
  let o := o.outb (com1 + comDlm) 0
  let o := o.outb (com1 + comLcr) (comLcrWlen8 &&& ~~~comLcrDlab)
  let o := o.outb (com1 + comMcr) 0
  let o := o.outb (com1 + comIer) comIerRdi
  let (status, o) := o.inb (com1 + comLsr)
  let o := (o.inb (com1 + comIir)).2
  let o := (o.inb (com1 + comRx)).2
  (status ≠ 0xFF, o)

end Output

/-- The variable `serial_exists` and the console. -/
def consInit (display : Display) (o : Output) : Option (Bool × Output) := do
  let o := o.cgaInit display
  let o := o.kbdInit
  let (serialExists, o) := o.serialInit
  if ¬ serialExists then
    let o ← stdio.cprintf (Cstring.literal "Serial port does not exist!\n") ⟨fun _ => 0, fun _ => []⟩ o
    some (serialExists, o)
  else some (serialExists, o)

end JosSmp.Console
