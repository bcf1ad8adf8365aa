import JosSmp.Construction.Kern.ConsoleInit
import JosSmp.Construction.Machine.Uart
import JosSmp.Proof.Console.Ports

/-!
This file proves in which state `cons_init` and the console output leave the serial device and the display.
-/

namespace JosSmp.Console
open Library Machine

/-- The ports of the display controller. -/
def Display.base : Display → Nat
  | .color => 0x3D4
  | .mono _ => 0x3B4

/-- The address of the cells of the display. -/
def Display.buf : Display → Nat
  | .color => 0xF00B8000
  | .mono _ => 0xF00B0000

namespace Output

section Writes

variable {o o' : Output} {c : BitVec 32}

/-- The state changes neither the display controller nor what has been written to the ports. -/
def Unwritten (o o' : Output) : Prop := o'.addr6845 = o.addr6845 ∧ o'.writes = o.writes

theorem Unwritten.trans {o'' : Output} (first : Unwritten o o') (second : Unwritten o' o'') : Unwritten o o'' :=
  ⟨second.1.trans first.1, second.2.trans first.2⟩

theorem waitFor_unwritten (port : Nat) (mask : UInt8) (left : Nat) (o : Output) :
    Unwritten o (o.waitFor port mask left) := by
  obtain ⟨count, later⟩ := waitFor_reads port mask left o
  rw [later]
  exact ⟨rfl, rfl⟩

theorem clearFrom_unwritten (i : Nat) (o : Output) : Unwritten o (o.clearFrom i) := by
  induction left : crtSize - i generalizing i o with
  | zero =>
      rw [clearFrom, if_neg (by omega)]
      exact ⟨rfl, rfl⟩
  | succ left ih =>
      have first : Unwritten o (o.setCell i (0x0700 ||| 0x20)) := ⟨rfl, rfl⟩
      rw [clearFrom, if_pos (by omega)]
      exact first.trans (ih (i + 1) _ (by omega))

theorem scroll_unwritten (o : Output) : Unwritten o o.scroll := by
  unfold scroll
  split
  · have moved (ram : Ram) : Unwritten o { o with ram } := ⟨rfl, rfl⟩
    have placed (o' : Output) (position : Nat) : Unwritten o' { o' with crtPos := position } := ⟨rfl, rfl⟩
    exact ((moved _).trans (clearFrom_unwritten _ _)).trans (placed _ _)
  · exact ⟨rfl, rfl⟩

theorem typed_unwritten (c : BitVec 32) (o : Output) : Unwritten o (o.typed c) := by
  simp only [typed]
  split
  · split <;> exact ⟨rfl, rfl⟩
  split
  · exact ⟨rfl, rfl⟩
  split <;> exact ⟨rfl, rfl⟩

/-- The ports that the console output writes to. -/
def Written (o : Output) (port : Nat) : Prop :=
  port = com1 ∨ port = 0x378 ∨ port = 0x37A ∨ port = o.addr6845 ∨ port = o.addr6845 + 1

/-- What each part of the console output keeps. -/
structure Stable (P : Output → Prop) : Prop where
  waitFor : ∀ {o} port mask left, P o → P (o.waitFor port mask left)
  typed : ∀ {o} c, P o → P (o.typed c)
  scroll : ∀ {o}, P o → P o.scroll
  outb : ∀ {o port} data, Written o port → P o → P (o.outb port data)

variable {P : Output → Prop}

/-- What depends on the port writes only. -/
theorem stable_of_writes (silent : ∀ {o o'}, Unwritten o o' → P o → P o')
    (outb : ∀ {o port} data, Written o port → P o → P (o.outb port data)) : Stable P where
  waitFor port mask left := silent (waitFor_unwritten port mask left _)
  typed c := silent (typed_unwritten c _)
  scroll := silent (scroll_unwritten _)
  outb := outb

theorem Stable.serialPutc (stable : Stable P) (c : BitVec 32) (holds : P o) : P (o.serialPutc c) :=
  stable.outb _ (.inl rfl) (stable.waitFor _ _ _ holds)

theorem Stable.lptPutc (stable : Stable P) (c : BitVec 32) (holds : P o) : P (o.lptPutc c) := by
  have waited : P (o.waitFor (0x378 + 1) 0x80 12800) := stable.waitFor _ _ _ holds
  have data := stable.outb (UInt8.ofBitVec (c.setWidth 8)) (.inr (.inl rfl)) waited
  have strobe := stable.outb (0x08 ||| 0x04 ||| 0x01) (.inr (.inr (.inl rfl))) data
  exact stable.outb 0x08 (.inr (.inr (.inl rfl))) strobe

theorem Stable.moveCursor (stable : Stable P) (holds : P o) : P o.moveCursor := by
  have index (o : Output) : Written o o.addr6845 := .inr (.inr (.inr (.inl rfl)))
  have register (o : Output) : Written o (o.addr6845 + 1) := .inr (.inr (.inr (.inr rfl)))
  have first := stable.outb 14 (index o) holds
  have second := stable.outb (UInt8.ofNat (o.crtPos >>> 8)) (register _) first
  have third := stable.outb 15 (index _) second
  exact stable.outb (UInt8.ofNat o.crtPos) (register _) third

theorem Stable.scrolled (stable : Stable P) (holds : P o) : P o.scroll.moveCursor :=
  stable.moveCursor (stable.scroll holds)

theorem Stable.consPutc_plain (stable : Stable P) (noTab : c.toNat % 256 ≠ 9) (holds : P o) : P (consPutc c o) := by
  rw [consPutc, cgaPutc_typed noTab]
  exact stable.scrolled (stable.typed c (stable.lptPutc c (stable.serialPutc c holds)))

/-- The console output keeps what its port writes keep. -/
theorem Stable.consPutc (stable : Stable P) (c : BitVec 32) (holds : P o) : P (consPutc c o) := by
  by_cases tab : c.toNat % 256 = 9
  · have space {o : Output} (holds : P o) : P (Output.consPutc 0x20 o) := stable.consPutc_plain (by decide) holds
    rw [Output.consPutc, cgaPutc_tab tab]
    exact stable.scrolled (space (space (space (space (space (stable.lptPutc c (stable.serialPutc c holds)))))))
  · exact stable.consPutc_plain tab holds

theorem Stable.run (stable : Stable P) (chars : List Int) (holds : P o) :
    P (chars.foldl (fun o c => o.cputchar c) o) :=
  List.foldlRecOn chars _ holds fun _ kept _ _ => stable.consPutc _ kept

end Writes

section Line

variable {o : Output} (u : Uart)

/-- The serial device in a state of the console. -/
def uart (o : Output) : Uart := u.after com1 o.writes

/-- The device transmits the characters as long as its divisor latch is closed. -/
structure Transmits (start o : Output) : Prop where
  crtc : o.Crtc
  closed : ¬ (o.uart u).latch
  sends : ∃ bytes, o.sent com1 = start.sent com1 ++ bytes ∧
    o.uart u = { start.uart u with transmitted := (start.uart u).transmitted ++ bytes }

theorem stable_transmits (start : Output) : Stable (Transmits u start) := by
  apply stable_of_writes
  · rintro o o' ⟨base, writes⟩ ⟨crtc, closed, sends⟩
    refine ⟨by rwa [Crtc, base], ?_, ?_⟩
    · rwa [uart, writes]
    · rwa [sent, uart, writes]
  · rintro o port data written ⟨crtc, closed, bytes, sent, same⟩
    have next : (o.outb port data).uart u = (o.uart u).write com1 port data := rfl
    by_cases line : port = com1
    · refine ⟨crtc, ?_, bytes ++ [data], ?_, ?_⟩
      · rw [next, Uart.write, if_pos line, if_neg closed]
        exact closed
      · rw [sent_outb, if_pos line, sent, List.append_assoc]
      · rw [next, Uart.write, if_pos line, if_neg closed, same, List.append_assoc]
    · -- The other ports lie apart from the ports of the device.
      have apart : port ≠ com1 + 1 ∧ port ≠ com1 + 2 ∧ port ≠ com1 + 3 ∧ port ≠ com1 + 4 := by
        have place : com1 = 0x3F8 := rfl
        obtain here | here | here | here | here := written
        · exact absurd here line
        all_goals obtain base | base := crtc <;> omega
      have ignored : (o.uart u).write com1 port data = o.uart u := by
        rw [Uart.write, if_neg line, if_neg apart.1, if_neg apart.2.1, if_neg apart.2.2.1, if_neg apart.2.2.2]
      refine ⟨crtc, ?_, bytes, ?_, ?_⟩
      · rwa [next, ignored]
      · rw [sent_outb, if_neg line, List.append_nil, sent]
      · rw [next, ignored, same]

/-- The characters reach the line, and leave the registers of the device as they are. -/
theorem uart_run (chars : List Int) (crtc : o.Crtc) (closed : ¬ (o.uart u).latch) :
    (chars.foldl (fun o c => o.cputchar c) o).uart u =
      { o.uart u with transmitted := (o.uart u).transmitted ++ chars.flatMap expansion } := by
  have start : Transmits u o o := ⟨crtc, closed, [], (List.append_nil _).symm, by rw [List.append_nil]⟩
  obtain ⟨_, _, bytes, sent, same⟩ := (stable_transmits u o).run chars start
  rw [same, List.append_cancel_left (sent.symm.trans (cputchar_run chars crtc).serial)]

end Line

section Init

variable {display : Display} {o o' : Output}

/-- The cursor position that the display controller answers to `cga_init`. -/
def cursor (display : Display) (o : Output) : Nat :=
  (o.answer o.reads (display.base + 1)).toNat * 256 + (o.answer (o.reads + 1) (display.base + 1)).toNat

/-- The display controller answers `cga_init` by its registers. -/
def Answers (registers : UInt8 → UInt8) (display : Display) (o : Output) : Prop :=
  let held := (crtcAfter display.base registers o.writes).2
  o.answer o.reads (display.base + 1) = held 14 ∧ o.answer (o.reads + 1) (display.base + 1) = held 15

/-- What `cga_init` leaves. -/
structure Found (display : Display) (o o' : Output) : Prop where
  base : o'.addr6845 = display.base
  buf : o'.crtBuf = display.buf
  position : o'.crtPos = o.cursor display
  memory : o'.ram.byte = o.ram.byte
  reads : o'.reads = o.reads + 2
  answer : o'.answer = o.answer
  writes : o'.writes = (display.base, 15) :: (display.base, 14) :: o.writes

theorem probe_eq (display : Display) (o : Output) :
    ∃ ram : Ram, ram.byte = o.ram.byte ∧
      o.probe display = { o with ram, crtBuf := display.buf, addr6845 := display.base } := by
  have color : Entry.kernbase.toNat + cgaBuf = Display.buf .color := by decide +kernel
  have mono : Entry.kernbase.toNat + monoBuf = 0xF00B0000 := by decide +kernel
  cases display with
  | color =>
      generalize place : Display.buf .color = cp at color
      have kept : (o.ram.store16 cp 0xA55A).load16 cp = 0xA55A := Ram.load16_store16 _
      refine ⟨_, Ram.store16_load16 o.ram cp 0xA55A, ?_⟩
      rw [probe, color]
      exact if_neg (not_not.mpr kept)
  | mono floating =>
      refine ⟨o.ram, rfl, ?_⟩
      rw [probe, mono]
      exact if_pos floating.property

theorem cgaInit_found (display : Display) (o : Output) : Found display o (o.cgaInit display) := by
  obtain ⟨ram, memory, same⟩ := probe_eq display o
  have position (high low : UInt8) : high.toNat <<< 8 ||| low.toNat = high.toNat * 256 + low.toNat := by
    rw [← Nat.shiftLeft_add_eq_or_of_lt low.toNat_lt, Nat.shiftLeft_eq]
  rw [cgaInit, same]
  exact ⟨rfl, rfl, position _ _, memory, rfl, rfl, rfl⟩

theorem serialInit_eq (o : Output) :
    o.serialInit = (decide (o.answer o.reads (com1 + comLsr) ≠ 0xFF),
      { o with
        reads := o.reads + 3
        writes := [(com1 + comIer, 1), (com1 + comMcr, 0), (com1 + comLcr, 3), (com1 + comDlm, 0), (com1 + comDll, 12),
          (com1 + comLcr, 0x80), (com1 + comFcr, 0)] ++ o.writes }) := by
  have divisor : UInt8.ofNat (115200 / 9600) = 12 := by decide
  have length : comLcrWlen8 &&& ~~~comLcrDlab = 3 := by decide
  simp only [serialInit, outb, inb, divisor, length]
  rfl

/-- The console when its devices are found. -/
def started (display : Display) (o : Output) : Output := (o.cgaInit display).serialInit.2

theorem started_found (display : Display) (o : Output) :
    (o.started display).addr6845 = display.base ∧ (o.started display).crtBuf = display.buf ∧
      (o.started display).crtPos = o.cursor display ∧ (o.started display).ram.byte = o.ram.byte := by
  have found := cgaInit_found display o
  rw [started, serialInit_eq]
  exact ⟨found.base, found.buf, found.position, found.memory⟩

/-- The screen keeps its cells. -/
theorem started_cell (display : Display) (o : Output) :
    (o.started display).cell = fun i => o.ram.load16 (display.buf + 2 * i) := by
  obtain ⟨_, buf, _, memory⟩ := started_found display o
  funext i
  rw [cell, buf, Ram.load16, Ram.load16, memory]

theorem started_crtc (display : Display) (o : Output) : (o.started display).Crtc := by
  rw [Crtc, (started_found display o).1]
  cases display with
  | color => exact .inr rfl
  | mono floating => exact .inl rfl

theorem started_fits (display : Display) (o : Output) : (o.started display).Fits := by
  rw [Fits, (started_found display o).2.1]
  cases display with
  | color => exact show 0xF00B8000 + 2 * 2000 ≤ 4294967296 by decide
  | mono floating => exact show 0xF00B0000 + 2 * 2000 ≤ 4294967296 by decide

theorem started_writes (display : Display) (o : Output) :
    (o.started display).writes =
      [(com1 + comIer, 1), (com1 + comMcr, 0), (com1 + comLcr, 3), (com1 + comDlm, 0), (com1 + comDll, 12),
        (com1 + comLcr, 0x80), (com1 + comFcr, 0), (display.base, 15), (display.base, 14)] ++ o.writes := by
  have found := (cgaInit_found display o).writes
  rw [started, serialInit_eq]
  dsimp only
  rw [found]
  rfl

/-- The serial device is set up for 8 data bits, and nothing is transmitted. -/
theorem started_uart (u : Uart) (display : Display) (o : Output) :
    (o.started display).uart u = ⟨12, 0, 1, 0, 3, 0, (o.uart u).transmitted⟩ := by
  have ignored (data : UInt8) (u : Uart) : u.write com1 display.base data = u := by
    cases display <;> rfl
  have opened (u : Uart) : u.write com1 (com1 + comLcr) 0x80 = { u with lineControl := 0x80 } := rfl
  have closed (u : Uart) : u.write com1 (com1 + comLcr) 3 = { u with lineControl := 3 } := rfl
  have latch {u : Uart} (line : u.lineControl = 0x80) : u.latch := by
    rw [Uart.latch, line]
    decide
  have noLatch {u : Uart} (line : u.lineControl = 3) : ¬ u.latch := by
    rw [Uart.latch, line]
    decide
  have low (u : Uart) (line : u.lineControl = 0x80) :
      u.write com1 (com1 + comDll) 12 = { u with divisorLow := 12 } := if_pos (latch line)
  have high (u : Uart) (line : u.lineControl = 0x80) :
      u.write com1 (com1 + comDlm) 0 = { u with divisorHigh := 0 } := if_pos (latch line)
  have enable (u : Uart) (line : u.lineControl = 3) :
      u.write com1 (com1 + comIer) 1 = { u with interruptEnable := 1 } := if_neg (noLatch line)
  simp only [uart, started_writes, Uart.after, List.foldr_append, List.foldr_cons, List.foldr_nil, ignored]
  rw [opened, low _ rfl, high _ rfl, closed, enable _ rfl]
  rfl

/-- The display controller still holds the cursor where it has been found. -/
theorem started_cursor {registers : UInt8 → UInt8} (answers : Answers registers display o) :
    (o.started display).cursorRegister registers = o.cursor display := by
  have base := (started_found display o).1
  have kept : (crtcAfter display.base registers (o.started display).writes).2 =
      (crtcAfter display.base registers o.writes).2 := by
    rw [started_writes]
    cases display <;> rfl
  rw [cursorRegister, base, kept, cursor, answers.1, answers.2]

theorem clearFrom_placed (i : Nat) (o : Output) :
    (o.clearFrom i).crtBuf = o.crtBuf ∧ (o.clearFrom i).crtPos = o.crtPos := by
  induction left : crtSize - i generalizing i o with
  | zero =>
      rw [clearFrom, if_neg (by omega)]
      exact ⟨rfl, rfl⟩
  | succ left ih =>
      rw [clearFrom, if_pos (by omega)]
      exact ih (i + 1) (o.setCell i (0x0700 ||| 0x20)) (by omega)

/-- The output keeps the place of the screen, and the cursor position is a number of 16 bits, on the screen or not. -/
theorem stable_placed (buf : Nat) : Stable fun o => o.crtBuf = buf ∧ o.crtPos < 65536 where
  waitFor {o} port mask left placed := by
    obtain ⟨count, later⟩ := waitFor_reads port mask left o
    rwa [later]
  typed {o} c placed := by
    obtain ⟨same, small⟩ := placed
    have bound (p : Nat) : p % 65536 < 65536 := Nat.mod_lt _ (by decide)
    have back : o.crtPos - 1 < 65536 := Nat.lt_of_le_of_lt (Nat.sub_le _ _) small
    have start {o : Output} (small : o.crtPos < 65536) : o.lineStart.crtPos < 65536 :=
      Nat.lt_of_le_of_lt (Nat.sub_le _ _) small
    simp only [typed]
    split
    · split
      · exact ⟨same, back⟩
      · exact ⟨same, small⟩
    split
    · exact ⟨same, start (bound _)⟩
    split
    · exact ⟨same, start small⟩
    · exact ⟨same, bound _⟩
  scroll {o} placed := by
    unfold scroll
    split
    · have cleared (ram : Ram) := (clearFrom_placed (crtSize - crtCols) { o with ram }).1
      refine ⟨?_, Nat.mod_lt _ (by decide)⟩
      dsimp only
      rw [cleared, placed.1]
    · exact placed
  outb _ _ placed := placed

/-- The display controller holds the cursor position after any characters, if it holds it at first. -/
theorem cursor_run (registers : UInt8 → UInt8) (small : o.crtPos < 65536)
    (held : o.cursorRegister registers = o.crtPos) (chars : List Int) :
    (chars.foldl (fun o c => o.cputchar c) o).cursorRegister registers =
      (chars.foldl (fun o c => o.cputchar c) o).crtPos := by
  induction chars generalizing o with
  | nil => exact held
  | cons c chars ih =>
      obtain ⟨_, kept⟩ := (stable_placed o.crtBuf).consPutc (BitVec.ofInt 32 c) ⟨rfl, small⟩
      obtain ⟨last, moved⟩ := cgaPutc_moves (BitVec.ofInt 32 c)
        (lptPutc (BitVec.ofInt 32 c) (serialPutc (BitVec.ofInt 32 c) o))
      have here : consPutc (BitVec.ofInt 32 c) o = last.moveCursor := by rw [consPutc, moved]
      rw [here] at kept
      rw [List.foldl_cons, cputchar, here]
      exact ih kept (moveCursor_register registers kept)

/-- A second `cga_init` finds the screen and the cursor again. -/
theorem cgaInit_again {registers : UInt8 → UInt8} (base : o.addr6845 = display.base) (buf : o.crtBuf = display.buf)
    (held : o.cursorRegister registers = o.crtPos) (answers : Answers registers display o) :
    (o.cgaInit display).crtPos = o.crtPos ∧ (o.cgaInit display).crtBuf = o.crtBuf ∧
      (o.cgaInit display).cell = o.cell := by
  have found := cgaInit_found display o
  refine ⟨?_, found.buf.trans buf.symm, funext fun i => ?_⟩
  · rw [found.position, cursor, answers.1, answers.2, ← base]
    exact held
  · rw [cell, cell, found.buf, buf, Ram.load16, Ram.load16, found.memory]

end Init

end Output

end JosSmp.Console
