import JosSmp.Proof.Console.Screen

/-!
This file proves that the display refines the unbounded terminal.
-/

namespace JosSmp.Console
open Library Machine

/-! The classification of characters. -/

/-- The low byte decides what a character does. -/
theorem low_byte (c : BitVec 32) (k : Nat) (small : k < 256) : c &&& 0xff = BitVec.ofNat 32 k ↔ c.toNat % 256 = k := by
  have low : (c &&& 0xff).toNat = c.toNat % 256 := by
    rw [BitVec.toNat_and]
    exact Nat.and_two_pow_sub_one_eq_mod c.toNat 8
  rw [← BitVec.toNat_inj, low, BitVec.toNat_ofNat]
  omega

theorem attributed_eq (c : BitVec 32) : Output.attributed c = Terminal.withAttribute c := by
  have plain : c &&& ~~~0xFF = 0 ↔ c.toNat < 256 := by
    have split : (c &&& 0xff) ||| (c &&& ~~~0xff) = c := by
      rw [← BitVec.and_or_distrib_left]
      exact BitVec.and_allOnes
    have low : (c &&& 0xff).toNat = c.toNat % 256 := by
      rw [BitVec.toNat_and]
      exact Nat.and_two_pow_sub_one_eq_mod c.toNat 8
    constructor
    · intro none
      rw [none] at split
      have whole : c &&& 0xff = c := BitVec.or_zero.symm.trans split
      rw [whole] at low
      omega
    · intro small
      have whole : c &&& 0xff = c := BitVec.eq_of_toNat_eq (by omega)
      rw [← whole, BitVec.and_assoc]
      exact BitVec.and_zero
  unfold Output.attributed Terminal.withAttribute
  simp only [plain]

/-- The screen shows the terminal from its top row on, and only blank cells follow. -/
structure Mirrors (limit : Nat) (o : Output) (x : Terminal) : Prop where
  fits : o.Fits
  position : x.p = o.crtPos + 80 * x.t
  onScreen : o.crtPos ≤ limit
  shown : Shows crtSize x.cell (80 * x.t) o.cell
  blank : ∀ i, 80 * x.t + crtSize ≤ i → x.cell i = blankCell

/-- The code gets from one state to a state that mirrors a terminal, and accesses only `crt_buf` on the way. -/
structure Reaches (limit : Nat) (start o : Output) (x : Terminal) : Prop where
  mirrors : Mirrors limit o x
  buf : o.crtBuf = start.crtBuf
  confined : Output.Confined start o

theorem Reaches.trans {limit limit' : Nat} {start o o' : Output} {x x' : Terminal} (first : Reaches limit start o x)
    (second : Reaches limit' o o' x') : Reaches limit' start o' x' :=
  ⟨second.mirrors, second.buf.trans first.buf, first.confined.trans second.confined first.buf⟩

namespace Output

variable {o : Output} {x : Terminal} {c : BitVec 32}

/-- The part of `cga_putc` that a character other than a tab takes before the screen scrolls. -/
def typed (c : BitVec 32) (o : Output) : Output :=
  let c' := attributed c
  if c' &&& 0xff = 0x08 then
    if o.crtPos > 0 then
      let o := { o with crtPos := o.crtPos - 1 }
      o.setCell o.crtPos ((c' &&& ~~~0xff) ||| 0x20)
    else o
  else if c' &&& 0xff = 0x0a then lineStart { o with crtPos := (o.crtPos + crtCols) % 65536 }
  else if c' &&& 0xff = 0x0d then lineStart o
  else { o.setCell o.crtPos c' with crtPos := (o.crtPos + 1) % 65536 }

theorem cgaPutc_typed (noTab : c.toNat % 256 ≠ 9) : o.cgaPutc c = (o.typed c).scroll.moveCursor := by
  have low : ¬ attributed c &&& 0xff = 0x09 := by
    rw [low_attributed]
    exact fun tab => noTab ((low_byte c 9 (by decide)).mp tab)
  rw [cgaPutc]
  simp only [dif_neg low]
  rfl

theorem cgaPutc_tab (tab : c.toNat % 256 = 9) :
    o.cgaPutc c =
      (consPutc 0x20 (consPutc 0x20 (consPutc 0x20 (consPutc 0x20 (consPutc 0x20 o))))).scroll.moveCursor := by
  have low : attributed c &&& 0xff = 0x09 := by
    rw [low_attributed]
    exact (low_byte c 9 (by decide)).mpr tab
  rw [cgaPutc]
  simp only [low, show ¬ (0x09 : BitVec 32) = 0x08 by decide, show ¬ (0x09 : BitVec 32) = 0x0a by decide,
    show ¬ (0x09 : BitVec 32) = 0x0d by decide, if_false, dite_true]

/-- Moving the cursor within the screen moves it on the terminal. -/
theorem move_mirrors (mirrors : Mirrors 1999 o x) {position p : Nat} (same : p = position + 80 * x.t)
    (inside : position ≤ 2000) :
    Reaches 2000 o { o with crtPos := position } { x with p } :=
  ⟨⟨mirrors.fits, same, inside, mirrors.shown, mirrors.blank⟩, rfl, .refl o⟩

/-- Writing a cell on the screen writes it on the terminal. -/
theorem write_mirrors (mirrors : Mirrors 1999 o x) (i position : Nat) {p q : Nat} (c : BitVec 32)
    (inside : i < crtSize) (cell : q = 80 * x.t + i) (same : p = position + 80 * x.t) (onScreen : position ≤ 2000) :
    Reaches 2000 o { o.setCell i c with crtPos := position }
      { x with cell := Function.update x.cell q (Terminal.cellOf c), p } := by
  refine ⟨⟨mirrors.fits, same, onScreen, ?_, fun j behind => ?_⟩, rfl, setCell_confined mirrors.fits inside c⟩
  · rw [cell_setPos, setCell_cell mirrors.fits inside, cell]
    exact mirrors.shown.write i _
  · dsimp only at behind ⊢
    rw [Function.update_of_ne (by omega), mirrors.blank j behind]

/-- A typed character changes the screen as it changes the terminal. -/
theorem typed_mirrors (mirrors : Mirrors 1999 o x) (c : BitVec 32) :
    Reaches 2000 o (o.typed c) (x.type c) := by
  have size : crtSize = 2000 := rfl
  have cols : crtCols = 80 := rfl
  have position := mirrors.position
  have onScreen := mirrors.onScreen
  have back : Terminal.withAttribute c &&& 0xff = 0x08 ↔ _ := low_byte _ 8 (by decide)
  have line : Terminal.withAttribute c &&& 0xff = 0x0a ↔ _ := low_byte _ 10 (by decide)
  have ret : Terminal.withAttribute c &&& 0xff = 0x0d ↔ _ := low_byte _ 13 (by decide)
  simp only [typed, attributed_eq, Terminal.type, back, line, ret, lineStart]
  by_cases backspace : (Terminal.withAttribute c).toNat % 256 = 8
  · simp only [backspace, Nat.reduceEqDiff, if_true, if_false]
    by_cases top : o.crtPos > 0
    · rw [if_pos top, if_neg (by omega)]
      exact write_mirrors mirrors (o.crtPos - 1) (o.crtPos - 1) _ (by omega) (by omega) (by omega) (by omega)
    · rw [if_neg top, if_pos (by omega)]
      exact move_mirrors mirrors position (by omega)
  by_cases newline : (Terminal.withAttribute c).toNat % 256 = 10
  · simp only [newline, cols, Nat.reduceEqDiff, if_true, if_false]
    exact move_mirrors mirrors (by omega) (by omega)
  by_cases home : (Terminal.withAttribute c).toNat % 256 = 13
  · simp only [home, cols, Nat.reduceEqDiff, if_true, if_false]
    exact move_mirrors mirrors (by omega) (by omega)
  · simp only [backspace, newline, home, if_false]
    exact write_mirrors mirrors o.crtPos _ _ (by omega) (by omega) (by omega) (by omega)

/-- The screen scrolls exactly when the terminal's top row moves. -/
theorem scroll_mirrors (mirrors : Mirrors 2000 o x) :
    Reaches 1999 o o.scroll x.follow := by
  have size : crtSize = 2000 := rfl
  have cols : crtCols = 80 := rfl
  have position := mirrors.position
  have onScreen := mirrors.onScreen
  by_cases leaves : o.crtPos ≥ crtSize
  · obtain ⟨buf, pos, cells, confined⟩ := scroll_spec mirrors.fits leaves
    have followed : x.follow = { x with t := x.t + 1 } := by
      rw [Terminal.follow, if_pos (by omega)]
    have next : 80 * (x.t + 1) = 80 * x.t + crtCols := by omega
    rw [followed]
    refine ⟨⟨?_, ?_, by omega, ?_, ?_⟩, buf, confined⟩
    · unfold Fits
      rw [buf]
      exact mirrors.fits
    · dsimp only
      omega
    · dsimp only
      rw [next]
      exact mirrors.shown.scroll mirrors.blank cells
    · intro i behind
      dsimp only at behind ⊢
      exact mirrors.blank i (by omega)
  · have still : x.follow = x := by
      rw [Terminal.follow, if_neg (by omega)]
    rw [scroll, if_neg leaves, still]
    exact ⟨⟨mirrors.fits, position, by omega, mirrors.shown, mirrors.blank⟩, rfl, .refl o⟩

/-- Two states have the same screen. -/
def SameScreen (o o' : Output) : Prop := o'.ram = o.ram ∧ o'.crtBuf = o.crtBuf ∧ o'.crtPos = o.crtPos

theorem SameScreen.trans {o' o'' : Output} (first : SameScreen o o') (second : SameScreen o' o'') : SameScreen o o'' :=
  ⟨second.1.trans first.1, second.2.1.trans first.2.1, second.2.2.trans first.2.2⟩

theorem SameScreen.reaches {o' : Output} (same : SameScreen o o') (mirrors : Mirrors 1999 o x) :
    Reaches 1999 o o' x := by
  obtain ⟨ram, buf, pos⟩ := same
  have cells : o'.cell = o.cell := by
    funext i
    rw [cell, cell, ram, buf]
  refine ⟨⟨?_, by rw [pos]; exact mirrors.position, by rw [pos]; exact mirrors.onScreen, ?_, mirrors.blank⟩, buf, ?_⟩
  · unfold Fits
    rw [buf]
    exact mirrors.fits
  · rw [cells]
    exact mirrors.shown
  · intro a accessed
    rw [ram] at accessed
    exact .inl accessed

theorem delay_reads (o : Output) : o.delay = { o with reads := o.reads + 4 } := by simp only [delay, inb]

/-- Waiting for a port only reads. -/
theorem waitFor_reads (port : Nat) (mask : UInt8) (left : Nat) (o : Output) :
    ∃ count, o.waitFor port mask left = { o with reads := o.reads + count } := by
  induction left generalizing o with
  | zero => exact ⟨1, rfl⟩
  | succ left ih =>
      simp only [waitFor, delay_reads, inb]
      split
      · exact ⟨1, rfl⟩
      · obtain ⟨count, later⟩ := ih { o with reads := o.reads + 1 + 4 }
        exact ⟨1 + 4 + count, by rw [later, Nat.add_assoc, Nat.add_assoc, Nat.add_assoc]⟩

/-- Waiting for a port leaves the screen alone. -/
theorem waitFor_screen (port : Nat) (mask : UInt8) (left : Nat) (o : Output) :
    SameScreen o (o.waitFor port mask left) := by
  obtain ⟨count, later⟩ := waitFor_reads port mask left o
  rw [later]
  exact ⟨rfl, rfl, rfl⟩

theorem outb_screen (port : Nat) (data : UInt8) (o : Output) : SameScreen o (o.outb port data) := ⟨rfl, rfl, rfl⟩

theorem serialPutc_screen (c : BitVec 32) (o : Output) : SameScreen o (serialPutc c o) := by
  rw [serialPutc]
  exact (waitFor_screen _ _ _ o).trans (outb_screen _ _ _)

theorem lptPutc_screen (c : BitVec 32) (o : Output) : SameScreen o (lptPutc c o) := by
  rw [lptPutc]
  exact (waitFor_screen _ _ _ o).trans
    ((outb_screen _ _ _).trans ((outb_screen _ _ _).trans (outb_screen _ _ _)))

theorem moveCursor_screen (o : Output) : SameScreen o o.moveCursor := ⟨rfl, rfl, rfl⟩

/-- Every character but a tab is printed as the terminal prints it. -/
theorem cgaPutc_plain (mirrors : Mirrors 1999 o x) (noTab : c.toNat % 256 ≠ 9) :
    Reaches 1999 o (o.cgaPutc c) (x.put c) := by
  have typed := typed_mirrors mirrors c
  have scrolled := scroll_mirrors typed.mirrors
  rw [cgaPutc_typed noTab, Terminal.put, if_neg noTab]
  exact (typed.trans scrolled).trans ((moveCursor_screen _).reaches scrolled.mirrors)

/-- A space that goes to all three devices is printed on the display. -/
theorem consPutc_space (mirrors : Mirrors 1999 o x) : Reaches 1999 o (consPutc 0x20 o) ((x.type 0x20).follow) := by
  have other := ((serialPutc_screen 0x20 o).trans (lptPutc_screen 0x20 _)).reaches mirrors
  rw [consPutc]
  exact other.trans (cgaPutc_plain (c := 0x20) other.mirrors (by decide))

/-- One call of `cga_putc` is one character of the terminal. -/
theorem cgaPutc_reaches (mirrors : Mirrors 1999 o x) (c : BitVec 32) : Reaches 1999 o (o.cgaPutc c) (x.put c) := by
  by_cases tab : c.toNat % 256 = 9
  · have one := consPutc_space mirrors
    have two := one.trans (consPutc_space one.mirrors)
    have three := two.trans (consPutc_space two.mirrors)
    have four := three.trans (consPutc_space three.mirrors)
    have five := four.trans (consPutc_space four.mirrors)
    have room : Mirrors 2000 _ _ := ⟨five.mirrors.fits, five.mirrors.position,
      Nat.le_succ_of_le five.mirrors.onScreen, five.mirrors.shown, five.mirrors.blank⟩
    have scrolled := scroll_mirrors room
    rw [cgaPutc_tab tab, Terminal.put, if_pos tab]
    exact (five.trans scrolled).trans ((moveCursor_screen _).reaches scrolled.mirrors)
  · exact cgaPutc_plain mirrors tab

/-- A character that goes to all three devices is one character of the terminal. -/
theorem consPutc_reaches (mirrors : Mirrors 1999 o x) (c : BitVec 32) : Reaches 1999 o (consPutc c o) (x.put c) := by
  have other := ((serialPutc_screen c o).trans (lptPutc_screen c _)).reaches mirrors
  rw [consPutc]
  exact other.trans (cgaPutc_reaches other.mirrors c)

/-- The index register and the registers of the display controller after the writes, which are listed last
one first. -/
def crtcAfter (base : Nat) (registers : UInt8 → UInt8) : List (Nat × UInt8) → UInt8 × (UInt8 → UInt8)
  | [] => (0, registers)
  | (port, data) :: earlier =>
      let before := crtcAfter base registers earlier
      if port = base then (data, before.2)
      else if port = base + 1 then (before.1, Function.update before.2 before.1 data)
      else before

/-- The cursor position that the display controller holds. -/
def cursorRegister (registers : UInt8 → UInt8) (o : Output) : Nat :=
  let held := (crtcAfter o.addr6845 registers o.writes).2
  (held 14).toNat * 256 + (held 15).toNat

/-- The four port writes put the position into the register. -/
theorem moveCursor_register (registers : UInt8 → UInt8) (small : o.crtPos < 65536) :
    cursorRegister registers o.moveCursor = o.crtPos := by
  simp only [cursorRegister, moveCursor, outb, crtcAfter, if_true, if_false,
    show (o.addr6845 + 1 = o.addr6845) = False by simp]
  rw [Function.update_of_ne (by decide), Function.update_self, Function.update_self, UInt8.toNat_ofNat',
    UInt8.toNat_ofNat', Nat.shiftRight_eq_div_pow]
  omega

/-- Every call ends with moving the cursor. -/
theorem cgaPutc_moves (c : BitVec 32) (o : Output) : ∃ o' : Output, o.cgaPutc c = o'.moveCursor := by
  by_cases tab : c.toNat % 256 = 9
  · exact ⟨_, cgaPutc_tab tab⟩
  · exact ⟨_, cgaPutc_typed tab⟩

/-- The terminal that starts with the screen mirrors it. -/
theorem initial_mirrors (fits : o.Fits) (onScreen : o.crtPos < crtSize) :
    Mirrors 1999 o (Terminal.initial o.cell o.crtPos) where
  fits := fits
  position := rfl
  onScreen := Nat.le_of_lt_succ onScreen
  shown i inside := by
    have top : 80 * (Terminal.initial o.cell o.crtPos).t = 0 := rfl
    rw [top, Nat.zero_add]
    exact (if_pos inside).symm
  blank i behind := by
    have top : 80 * (Terminal.initial o.cell o.crtPos).t = 0 := rfl
    rw [top, Nat.zero_add] at behind
    exact if_neg (Nat.not_lt.mpr behind)

end Output

/-- The display refines the unbounded terminal: after every sequence of characters the cursor and all cells
agree, every access lies in `crt_buf`, and the display controller holds the cursor position. -/
theorem cgaPutc_refines (o : Output) (registers : UInt8 → UInt8) (chars : List (BitVec 32)) (fits : o.Fits)
    (onScreen : o.crtPos < crtSize) :
    let o' := chars.foldl (fun o c => o.cgaPutc c) o
    let x := chars.foldl (fun x c => x.put c) (Terminal.initial o.cell o.crtPos)
    80 * x.t ≤ x.p ∧ o'.crtPos = x.p - 80 * x.t ∧ o'.crtPos < crtSize ∧
      (∀ i < crtSize, o'.cell i = x.cell (80 * x.t + i)) ∧
      (∀ a ∈ o'.ram.touched, a ∈ o.ram.touched ∨ o.crtBuf ≤ a ∧ a < o.crtBuf + 2 * crtSize) ∧
      (o.cursorRegister registers = o.crtPos ∨ chars ≠ [] → o'.cursorRegister registers = o'.crtPos) := by
  have start : Reaches 1999 o o (Terminal.initial o.cell o.crtPos) :=
    ⟨Output.initial_mirrors fits onScreen, rfl, .refl o⟩
  have run (chars : List (BitVec 32)) : Reaches 1999 o (chars.foldl (fun o c => o.cgaPutc c) o)
      (chars.foldl (fun x c => x.put c) (Terminal.initial o.cell o.crtPos)) :=
    List.foldl_rel (r := Reaches 1999 o) start fun c _ o' x reached =>
      reached.trans (Output.cgaPutc_reaches reached.mirrors c)
  obtain ⟨mirrors, _, confined⟩ := run chars
  have position := mirrors.position
  have size : crtSize = 2000 := rfl
  have screen := mirrors.onScreen
  refine ⟨by omega, by omega, by omega, mirrors.shown, confined, fun known => ?_⟩
  obtain rfl | ⟨before, last, rfl⟩ := List.eq_nil_or_concat chars
  · exact known.resolve_right (fun some => some rfl)
  · rw [List.concat_eq_append, List.foldl_append, List.foldl_cons, List.foldl_nil] at screen ⊢
    obtain ⟨o₁, moved⟩ := Output.cgaPutc_moves last (before.foldl (fun o c => o.cgaPutc c) o)
    rw [moved] at screen ⊢
    have same : o₁.moveCursor.crtPos = o₁.crtPos := (Output.moveCursor_screen o₁).2.2
    rw [same] at screen ⊢
    exact Output.moveCursor_register registers (by omega)

/-- A tab at the last cell of the last row scrolls a screen at the address that `cga_init` finds. -/
theorem cgaPutc_refines_tab :
    let o : Output := ⟨0x3D4, 0xF00B8000, 1999, ⟨fun _ => 0, []⟩, fun _ _ => 0xFF, 0, []⟩
    let chars : List (BitVec 32) := [0x61, 0x09]
    let o' := chars.foldl (fun o c => o.cgaPutc c) o
    let x := chars.foldl (fun x c => x.put c) (Terminal.initial o.cell o.crtPos)
    80 * x.t ≤ x.p ∧ o'.crtPos = x.p - 80 * x.t ∧ o'.crtPos < crtSize ∧
      (∀ i < crtSize, o'.cell i = x.cell (80 * x.t + i)) ∧
      (∀ a ∈ o'.ram.touched, a ∈ o.ram.touched ∨ o.crtBuf ≤ a ∧ a < o.crtBuf + 2 * crtSize) ∧
      (o.cursorRegister (fun _ => 0) = o.crtPos ∨ chars ≠ [] → o'.cursorRegister (fun _ => 0) = o'.crtPos) := by
  intro o chars
  exact cgaPutc_refines o (fun _ => 0) chars (by unfold Output.Fits; decide) (by decide)

end JosSmp.Console
