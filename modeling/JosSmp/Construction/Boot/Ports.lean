import JosSmp.Library.Poll
import JosSmp.Construction.Boot.Main
import JosSmp.Construction.Machine.Drive

/-!
This file models `boot/main.c` at the ports of the drive: `waitdisk` polls the status, and `readsect` writes the
registers and reads the data.
-/

namespace JosSmp.Boot.Ports
open Library Machine

structure Computer where
  memory : Memory
  drive : Drive

/-- The loop of `waitdisk`, which ends only if `waits` reads of the status are enough. -/
def waitdisk (waits : Nat) (d : Drive) : Except Stop Drive :=
  match poll (Drive.inb 0x1F7) (fun status => status &&& 0xC0 = 0x40) waits d with
  | none => .error .endless
  | some out => .ok out.2

/-- Each pass of the instruction stores four bytes and moves on by four. -/
def insl : (dst cnt : Nat) → Computer → Except Stop Computer
  | _, 0, c => .ok c
  | dst, cnt + 1, c => do
      let (word, drive) ← c.drive.inl
      insl (address (dst + 4)) cnt ⟨writeBlock c.memory dst word, drive⟩

def readsect (waits dst offset : Nat) (c : Computer) : Except Stop Computer := do
  let drive ← waitdisk waits c.drive
  let drive ← drive.outb 0x1F2 1
  let drive ← drive.outb 0x1F3 (UInt8.ofNat offset)
  let drive ← drive.outb 0x1F4 (UInt8.ofNat (offset >>> 8))
  let drive ← drive.outb 0x1F5 (UInt8.ofNat (offset >>> 16))
  let drive ← drive.outb 0x1F6 (UInt8.ofNat ((offset >>> 24) ||| 0xE0))
  let drive ← drive.outb 0x1F7 0x20
  let drive ← waitdisk waits drive
  insl dst (sectsize / 4) ⟨c.memory, drive⟩

def readsegLoop (waits endVa : Nat) : (fuel va offset : Nat) → Computer → Except Stop Computer
  | 0, va, _, c => if va < endVa then .error .endless else .ok c
  | fuel + 1, va, offset, c =>
      if va < endVa then do
        let c ← readsect waits va offset c
        readsegLoop waits endVa fuel (address (va + sectsize)) (address (offset + 1)) c
      else .ok c

def readseg (waits fuel va count offset : Nat) (c : Computer) : Except Stop Computer :=
  let va := va % 0x1000000
  let endVa := address (va + count)
  let va := va - va % sectsize
  readsegLoop waits endVa fuel va (address (offset / sectsize + 1)) c

def loadLoop (waits fuel ph eph : Nat) (c : Computer) : Except Stop Computer :=
  if ph < eph then
    match readseg waits fuel (pVa c.memory ph) (pMemsz c.memory ph) (pOffset c.memory ph) c with
    | .error stop => .error stop
    | .ok c => loadLoop waits fuel (ph + phsize) eph c
  else .ok c
termination_by eph - ph
decreasing_by
  have size : phsize = 32 := rfl
  omega

def bootmain (waits fuel : Nat) (c : Computer) : Except Stop (Exit × Drive) := do
  let c ← readseg waits fuel elfhdr (sectsize * 8) 0 c
  if eMagic c.memory elfhdr ≠ elfMagic then .ok (.bad, c.drive)
  else
    let ph := address (elfhdr + ePhoff c.memory elfhdr)
    let eph := address (ph + ePhnum c.memory elfhdr * phsize)
    let c ← loadLoop waits fuel ph eph c
    .ok (.enter (eEntry c.memory elfhdr % 0x1000000) c.memory, c.drive)

end JosSmp.Boot.Ports
