import JosSmp.Proof.Console.Refinement

/-!
This file proves when the serial port and the parallel port receive exactly the characters.
-/

namespace JosSmp.Console
open Machine

namespace Output

/-- The bytes written to a port, in order. -/
def sent (port : Nat) (o : Output) : List UInt8 := ((o.writes.filter fun write => write.1 = port).map Prod.snd).reverse

/-- The data port of the parallel device. -/
def lptData : Nat := 0x378

/-- The display controller is at one of the two addresses that `cga_init` chooses. -/
def Crtc (o : Output) : Prop := o.addr6845 = 0x3B4 ∨ o.addr6845 = 0x3D4

/-- The bytes that the two ports receive between two states. -/
structure Sends (o o' : Output) (serial parallel : List UInt8) : Prop where
  crtc : o'.addr6845 = o.addr6845
  serial : o'.sent com1 = o.sent com1 ++ serial
  parallel : o'.sent lptData = o.sent lptData ++ parallel

section Sends

variable {o o' o'' : Output} {serial parallel serial' parallel' : List UInt8} {c : BitVec 32}

theorem Sends.trans (first : Sends o o' serial parallel) (second : Sends o' o'' serial' parallel') :
    Sends o o'' (serial ++ serial') (parallel ++ parallel') :=
  ⟨second.crtc.trans first.crtc, by rw [second.serial, first.serial, List.append_assoc],
    by rw [second.parallel, first.parallel, List.append_assoc]⟩

/-- A step without a port write sends nothing. -/
theorem sends_nothing (crtc : o'.addr6845 = o.addr6845) (writes : o'.writes = o.writes) : Sends o o' [] [] :=
  ⟨crtc, by rw [sent, sent, writes, List.append_nil], by rw [sent, sent, writes, List.append_nil]⟩

theorem sent_outb (port : Nat) (port' : Nat) (data : UInt8) :
    (o.outb port' data).sent port = o.sent port ++ if port' = port then [data] else [] := by
  unfold sent outb
  split
  · rename_i same
    rw [List.filter_cons_of_pos (by simpa using same), List.map_cons, List.reverse_cons]
  · rename_i other
    rw [List.filter_cons_of_neg (by simpa using other), List.append_nil]

theorem waitFor_sends (port : Nat) (mask : UInt8) (left : Nat) (o : Output) :
    Sends o (o.waitFor port mask left) [] [] := by
  obtain ⟨count, later⟩ := waitFor_reads port mask left o
  rw [later]
  exact sends_nothing rfl rfl

/-- The low byte of a character. -/
def lowByte (c : BitVec 32) : UInt8 := UInt8.ofBitVec (c.setWidth 8)

theorem serialPutc_sends (c : BitVec 32) (o : Output) : Sends o (serialPutc c o) [lowByte c] [] := by
  have written : Sends (o.waitFor (com1 + comLsr) comLsrTxrdy 12800) (serialPutc c o) [lowByte c] [] :=
    ⟨rfl, sent_outb _ _ _, sent_outb _ _ _⟩
  exact (waitFor_sends _ _ _ o).trans written

theorem lptPutc_sends (c : BitVec 32) (o : Output) : Sends o (lptPutc c o) [] [lowByte c] := by
  have written : Sends (o.waitFor (0x378 + 1) 0x80 12800) (lptPutc c o) [] [lowByte c] := by
    refine ⟨rfl, ?_, ?_⟩
    · rw [lptPutc, sent_outb, sent_outb, sent_outb]
      simp [com1]
    · rw [lptPutc, sent_outb, sent_outb, sent_outb]
      simp [lptData, lowByte]
  exact (waitFor_sends _ _ _ o).trans written

theorem clearFrom_sends (i : Nat) (o : Output) : Sends o (o.clearFrom i) [] [] := by
  induction left : crtSize - i generalizing i o with
  | zero =>
      rw [clearFrom, if_neg (by omega)]
      exact sends_nothing rfl rfl
  | succ left ih =>
      rw [clearFrom, if_pos (by omega)]
      have first : Sends o (o.setCell i (0x0700 ||| 0x20)) [] [] := sends_nothing rfl rfl
      exact first.trans (ih (i + 1) _ (by omega))

theorem scroll_sends (o : Output) : Sends o o.scroll [] [] := by
  unfold scroll
  split
  · have moved (ram : Ram) : Sends o { o with ram } [] [] := sends_nothing rfl rfl
    have placed (o' : Output) (position : Nat) : Sends o' { o' with crtPos := position } [] [] := sends_nothing rfl rfl
    exact ((moved _).trans (clearFrom_sends _ _)).trans (placed _ _)
  · exact sends_nothing rfl rfl

theorem typed_sends (c : BitVec 32) (o : Output) : Sends o (o.typed c) [] [] := by
  simp only [typed]
  split
  · split <;> exact sends_nothing rfl rfl
  split
  · exact sends_nothing rfl rfl
  split <;> exact sends_nothing rfl rfl

/-- The ports of the display controller are neither of the two. -/
theorem moveCursor_sends (crtc : o.Crtc) : Sends o o.moveCursor [] [] := by
  have other (port : Nat) (apart : port ≠ o.addr6845 ∧ port ≠ o.addr6845 + 1) :
      o.moveCursor.sent port = o.sent port := by
    rw [moveCursor, sent_outb, sent_outb, sent_outb, sent_outb]
    simp [outb, Ne.symm apart.1, Ne.symm apart.2]
  refine ⟨rfl, ?_, ?_⟩
  · rw [List.append_nil]
    apply other
    unfold com1
    obtain here | here := crtc <;> omega
  · rw [List.append_nil]
    apply other
    unfold lptData
    obtain here | here := crtc <;> omega

theorem Sends.crtc_next (sends : Sends o o' serial parallel) (crtc : o.Crtc) : o'.Crtc := by
  unfold Crtc
  rw [sends.crtc]
  exact crtc

theorem cgaPutc_sends_plain (crtc : o.Crtc) (noTab : c.toNat % 256 ≠ 9) : Sends o (o.cgaPutc c) [] [] := by
  have scrolled := (typed_sends c o).trans (scroll_sends _)
  rw [cgaPutc_typed noTab]
  exact scrolled.trans (moveCursor_sends (scrolled.crtc_next crtc))

/-- A character that is no tab goes to each port once. -/
theorem consPutc_sends_plain (crtc : o.Crtc) (noTab : c.toNat % 256 ≠ 9) :
    Sends o (consPutc c o) [lowByte c] [lowByte c] := by
  have sent := (serialPutc_sends c o).trans (lptPutc_sends c _)
  rw [consPutc]
  exact sent.trans (cgaPutc_sends_plain (sent.crtc_next crtc) noTab)

/-- A tab goes to each port, and then the five spaces that the display makes of it do. -/
theorem consPutc_sends_tab (crtc : o.Crtc) (tab : c.toNat % 256 = 9) :
    Sends o (consPutc c o) (lowByte c :: List.replicate 5 0x20) (lowByte c :: List.replicate 5 0x20) := by
  have sent := (serialPutc_sends c o).trans (lptPutc_sends c _)
  have space {o : Output} (crtc : o.Crtc) : Sends o (consPutc 0x20 o) [0x20] [0x20] :=
    consPutc_sends_plain crtc (by decide)
  have one := space (sent.crtc_next crtc)
  have two := one.trans (space (one.crtc_next (sent.crtc_next crtc)))
  have three := two.trans (space (two.crtc_next (sent.crtc_next crtc)))
  have four := three.trans (space (three.crtc_next (sent.crtc_next crtc)))
  have five := four.trans (space (four.crtc_next (sent.crtc_next crtc)))
  have scrolled := five.trans (scroll_sends _)
  rw [consPutc, cgaPutc_tab tab]
  exact sent.trans (scrolled.trans (moveCursor_sends (scrolled.crtc_next (sent.crtc_next crtc))))

/-- What a character sends to each port. -/
def expansion (c : Int) : List UInt8 := if UInt8.ofInt c = 0x09 then 0x09 :: List.replicate 5 0x20 else [UInt8.ofInt c]

theorem lowByte_ofInt (c : Int) : lowByte (BitVec.ofInt 32 c) = UInt8.ofInt c := by
  apply UInt8.toNat_inj.mp
  change ((BitVec.ofInt 32 c).setWidth 8).toNat = _
  rw [BitVec.toNat_setWidth, BitVec.toNat_ofInt, UInt8.ofInt, UInt8.toNat_ofNat']
  omega

theorem cputchar_sends (crtc : o.Crtc) (c : Int) : Sends o (o.cputchar c) (expansion c) (expansion c) := by
  have low := lowByte_ofInt c
  have tab : (BitVec.ofInt 32 c).toNat % 256 = 9 ↔ UInt8.ofInt c = 0x09 := by
    rw [← low, ← UInt8.toNat_inj]
    change _ ↔ ((BitVec.ofInt 32 c).setWidth 8).toNat = 9
    rw [BitVec.toNat_setWidth]
  unfold expansion cputchar
  split
  · rename_i same
    have sends := consPutc_sends_tab crtc (tab.mpr same)
    rwa [low, same] at sends
  · rename_i other
    have sends := consPutc_sends_plain crtc (mt tab.mp other)
    rwa [low] at sends

theorem cputchar_run (chars : List Int) (crtc : o.Crtc) :
    Sends o (chars.foldl (fun o c => o.cputchar c) o) (chars.flatMap expansion) (chars.flatMap expansion) := by
  induction chars generalizing o with
  | nil => exact sends_nothing rfl rfl
  | cons c chars ih =>
      have first := cputchar_sends crtc c
      rw [List.flatMap_cons]
      exact first.trans (ih (first.crtc_next crtc))

end Sends

/-- Each tab adds five bytes. -/
theorem expansion_length (chars : List Int) :
    (chars.flatMap expansion).length = chars.length + 5 * chars.countP fun c => UInt8.ofInt c = 0x09 := by
  induction chars with
  | nil => rfl
  | cons c chars ih =>
      rw [List.flatMap_cons, List.length_append, ih, List.length_cons, List.countP_cons, expansion]
      by_cases tab : UInt8.ofInt c = 0x09
      · simp [tab]
        omega
      · simp [tab]
        omega

theorem expansion_plain {chars : List Int} (noTab : ∀ c ∈ chars, UInt8.ofInt c ≠ 0x09) :
    chars.flatMap expansion = chars.map UInt8.ofInt := by
  induction chars with
  | nil => rfl
  | cons c chars ih =>
      obtain ⟨here, later⟩ := List.forall_mem_cons.mp noTab
      rw [List.flatMap_cons, List.map_cons, ih later, expansion, if_neg here]
      rfl

end Output

open Output

/-- Both ports receive exactly the low bytes of the characters if and only if no character is a tab. -/
theorem cputchar_sent_iff (o : Output) (chars : List Int) (crtc : o.Crtc) :
    let o' := chars.foldl (fun o c => o.cputchar c) o
    (o'.sent com1 = o.sent com1 ++ chars.map UInt8.ofInt ∧ o'.sent lptData = o.sent lptData ++ chars.map UInt8.ofInt) ↔
      ∀ c ∈ chars, UInt8.ofInt c ≠ 0x09 := by
  have run := cputchar_run chars crtc
  dsimp only
  rw [run.serial, run.parallel, List.append_cancel_left_eq, List.append_cancel_left_eq, and_self]
  constructor
  · intro same
    have size := congrArg List.length same
    rw [expansion_length, List.length_map] at size
    have none : (chars.countP fun c => UInt8.ofInt c = 0x09) = 0 := by omega
    intro c member
    simpa using List.countP_eq_zero.mp none c member
  · exact expansion_plain

/-- A tab reaches the serial port together with the spaces that it becomes on the display. -/
theorem cputchar_sent_fails :
    ¬ ∀ (o : Output) (chars : List Int), o.Crtc →
      let o' := chars.foldl (fun o c => o.cputchar c) o
      o'.sent com1 = o.sent com1 ++ chars.map UInt8.ofInt ∧
        o'.sent lptData = o.sent lptData ++ chars.map UInt8.ofInt := by
  intro claim
  let o : Output := ⟨0x3D4, 0xF00B8000, 0, ⟨fun _ => 0, []⟩, fun _ _ => 0xFF, 0, []⟩
  have received := (claim o [9] (.inr rfl)).1
  rw [(cputchar_run [9] (o := o) (.inr rfl)).serial] at received
  exact absurd received (by decide)

/-- `OK` and a newline reach both ports. -/
theorem cputchar_sent_line :
    let o : Output := ⟨0x3D4, 0xF00B8000, 0, ⟨fun _ => 0, []⟩, fun _ _ => 0xFF, 0, []⟩
    let o' := ([79, 75, 10] : List Int).foldl (fun o c => o.cputchar c) o
    (o'.sent com1 = o.sent com1 ++ ([79, 75, 10] : List Int).map UInt8.ofInt ∧
      o'.sent lptData = o.sent lptData ++ ([79, 75, 10] : List Int).map UInt8.ofInt) ↔
        ∀ c ∈ ([79, 75, 10] : List Int), UInt8.ofInt c ≠ 0x09 :=
  cputchar_sent_iff ⟨0x3D4, 0xF00B8000, 0, ⟨fun _ => 0, []⟩, fun _ _ => 0xFF, 0, []⟩ [79, 75, 10] (.inr rfl)

end JosSmp.Console
