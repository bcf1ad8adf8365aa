import JosSmp.Library.Run
import JosSmp.Proof.Keyboard.Decoder

/-!
This file relates the modifier bits of `shift` to the modifier keys that are down.
-/

namespace JosSmp.Keyboard
open Library Machine Console

/-- A key has a code below 0x80, and its scan codes may follow the escape byte. The code 0x60 belongs to no key,
because its release would be the escape byte. -/
structure Key where
  escaped : Bool
  code : UInt8
  small : code < 0x80
  plain : code ≠ 0x60
  deriving DecidableEq

/-- A key goes down, once more if it repeats, or up. -/
structure Event where
  key : Key
  down : Bool

/-- The index at which the code looks up a key when it goes down, and when it goes up. -/
def Key.index (k : Key) : UInt8 := if k.escaped then k.code ||| 0x80 else k.code

/-- The bytes that the keyboard sends for an event. -/
def Event.bytes (e : Event) : List UInt8 :=
  (if e.key.escaped then [0xE0] else []) ++ [if e.down then e.key.code else e.key.code ||| 0x80]

inductive Modifier where
  | shift
  | ctl
  | alt
  deriving DecidableEq

namespace Modifier

def bit : Modifier → BitVec 32
  | .shift => shiftBit
  | .ctl => Console.ctl
  | .alt => Console.alt

def left : Modifier → Key
  | .shift => ⟨false, 0x2A, by decide, by decide⟩
  | .ctl => ⟨false, 0x1D, by decide, by decide⟩
  | .alt => ⟨false, 0x38, by decide, by decide⟩

def right : Modifier → Key
  | .shift => ⟨false, 0x36, by decide, by decide⟩
  | .ctl => ⟨true, 0x1D, by decide, by decide⟩
  | .alt => ⟨true, 0x38, by decide, by decide⟩

/-- The position of the bit. -/
def place : Modifier → Nat
  | .shift => 0
  | .ctl => 1
  | .alt => 2

end Modifier

section Bits

variable {shift : BitVec 32} {k : Key}

/-- A mask of one bit tests this bit. -/
theorem test_bit {i : Nat} (nonzero : BitVec.twoPow 32 i ≠ 0) :
    shift &&& BitVec.twoPow 32 i ≠ 0 ↔ shift.getLsbD i = true := by
  rw [BitVec.and_twoPow]
  split
  · rename_i set
    exact iff_of_true nonzero set
  · rename_i clear
    exact iff_of_false (fun some => some rfl) clear

theorem test_modifier (m : Modifier) : shift &&& m.bit ≠ 0 ↔ shift.getLsbD m.place = true := by
  cases m with
  | shift => exact test_bit (i := 0) (by decide)
  | ctl => exact test_bit (i := 1) (by decide)
  | alt => exact test_bit (i := 2) (by decide)

theorem test_escape : shift &&& e0esc ≠ 0 ↔ shift.getLsbD 6 = true := test_bit (i := 6) (by decide)

/-- The entries of `shiftcode` are the modifier keys. -/
theorem shiftcode_modifier (m : Modifier) (b : UInt8) :
    (bits shiftcode b).getLsbD m.place = decide (b = m.left.index ∨ b = m.right.index) := by
  simp only [bits, shiftcode, entry_initializer]
  revert b
  apply forall_byte
  cases m with
  | shift => decide +kernel
  | ctl => decide +kernel
  | alt => decide +kernel

/-- The entries of `togglecode` are other bits. -/
theorem togglecode_modifier (m : Modifier) (b : UInt8) : (bits togglecode b).getLsbD m.place = false := by
  simp only [bits, togglecode, entry_initializer]
  revert b
  apply forall_byte
  cases m with
  | shift => decide +kernel
  | ctl => decide +kernel
  | alt => decide +kernel

/-- No entry is the escape bit. -/
theorem bits_escape (b : UInt8) : (bits shiftcode b).getLsbD 6 = false ∧ (bits togglecode b).getLsbD 6 = false := by
  simp only [bits, shiftcode, togglecode, entry_initializer]
  revert b
  apply forall_byte
  decide +kernel

/-- A code below 0x80 and the same code with the release bit take different branches. -/
theorem code_bytes (b : UInt8) (small : b < 0x80) :
    b ≠ 0xE0 ∧ b &&& 0x80 = 0 ∧ (b ||| 0x80) &&& 0x80 ≠ 0 ∧ (b ||| 0x80) &&& 0x7F = b ∧
      (b ≠ 0x60 → b ||| 0x80 ≠ 0xE0) := by
  revert b
  apply forall_byte
  decide +kernel

theorem escape_place (i : Nat) : e0esc.getLsbD i = decide (i = 6) := by
  have power : e0esc = BitVec.twoPow 32 6 := by decide
  rw [power, BitVec.getLsbD_twoPow]
  by_cases here : i = 6
  · rw [here]
    rfl
  · simp [here, Ne.symm here]

/-- The escape byte sets its bit. -/
theorem escape_set (shift : BitVec 32) : (shift ||| e0esc) &&& e0esc ≠ 0 := by
  rw [test_escape, BitVec.getLsbD_or, escape_place]
  exact Bool.or_true _

/-- Clearing the escape bit undoes setting it. -/
theorem escape_undone (shift : BitVec 32) : (shift ||| e0esc) &&& ~~~e0esc = shift &&& ~~~e0esc := by
  rw [BitVec.and_or_distrib_right, BitVec.and_not_self]
  exact BitVec.or_zero

theorem escape_masked (shift mask : BitVec 32) :
    (shift ||| e0esc) &&& ~~~(mask ||| e0esc) = shift &&& ~~~(mask ||| e0esc) := by
  rw [BitVec.not_or, BitVec.and_comm (~~~mask), ← BitVec.and_assoc, ← BitVec.and_assoc, escape_undone]

/-- Without the escape bit there is nothing to clear. -/
theorem escape_clear (clear : shift &&& e0esc = 0) : shift &&& ~~~e0esc = shift := by
  have whole : shift &&& (e0esc ||| ~~~e0esc) = shift := by
    rw [BitVec.or_not_self]
    exact BitVec.and_allOnes
  rw [BitVec.and_or_distrib_left, clear] at whole
  exact BitVec.zero_or.symm.trans whole

end Bits

section Events

variable {shift : BitVec 32}

/-- A key that goes down sets its modifier and changes its lock. -/
theorem press_next (k : Key) (clear : shift &&& e0esc = 0) :
    (Event.bytes ⟨k, true⟩).foldl next shift = pressed k.index shift := by
  obtain ⟨escaped, code, small, plain⟩ := k
  obtain ⟨noEscape, low, _⟩ := code_bytes code small
  have unescaped : ¬ shift &&& e0esc ≠ 0 := not_not.mpr clear
  have lowByte : ¬ code &&& 0x80 ≠ 0 := not_not.mpr low
  cases escaped with
  | false =>
      change next shift code = pressed code shift
      rw [next, if_neg noEscape, if_neg lowByte, pressIndex, if_neg unescaped, if_neg unescaped]
  | true =>
      change next (next shift 0xE0) code = pressed (code ||| 0x80) shift
      have first : next shift 0xE0 = shift ||| e0esc := if_pos rfl
      rw [first, next, if_neg noEscape, if_neg lowByte, pressIndex, if_pos (escape_set shift),
        if_pos (escape_set shift), escape_undone, escape_clear clear]

/-- A key that goes up clears its modifier. -/
theorem release_next (k : Key) (clear : shift &&& e0esc = 0) :
    (Event.bytes ⟨k, false⟩).foldl next shift = shift &&& ~~~(bits shiftcode k.index ||| e0esc) := by
  obtain ⟨escaped, code, small, plain⟩ := k
  obtain ⟨_, _, high, back, noEscape⟩ := code_bytes code small
  have unescaped : ¬ shift &&& e0esc ≠ 0 := not_not.mpr clear
  cases escaped with
  | false =>
      change next shift (code ||| 0x80) = shift &&& ~~~(bits shiftcode code ||| e0esc)
      rw [next, if_neg (noEscape plain), if_pos high, releaseIndex, if_neg unescaped, back]
  | true =>
      change next (next shift 0xE0) (code ||| 0x80) = shift &&& ~~~(bits shiftcode (code ||| 0x80) ||| e0esc)
      have first : next shift 0xE0 = shift ||| e0esc := if_pos rfl
      rw [first, next, if_neg (noEscape plain), if_pos high, releaseIndex, if_pos (escape_set shift)]
      exact escape_masked shift _

/-- Two keys have different indices. -/
theorem index_inj {k k' : Key} : k.index = k'.index ↔ k = k' := by
  constructor
  · obtain ⟨escaped, code, small, _⟩ := k
    obtain ⟨escaped', code', small', _⟩ := k'
    obtain ⟨_, low, high, back, _⟩ := code_bytes code small
    obtain ⟨_, low', high', back', _⟩ := code_bytes code' small'
    intro same
    have release := congrArg (fun b => b &&& 0x80) same
    cases escaped <;> cases escaped'
    · obtain rfl : code = code' := same
      rfl
    · exact absurd (release.symm.trans low) high'
    · exact absurd (release.trans low') high
    · have code_eq : code = code' := back.symm.trans ((congrArg (fun b => b &&& 0x7F) same).trans back')
      obtain rfl := code_eq
      rfl
  · rintro rfl
    rfl

/-- A modifier is latched by the latest event of its keys. -/
def latch (m : Modifier) (pressed : Bool) (e : Event) : Bool :=
  if e.key = m.left ∨ e.key = m.right then e.down else pressed

/-- The keys that are down after an event. -/
def hold (held : Key → Bool) (e : Event) : Key → Bool := Function.update held e.key e.down

/-- An event leaves the decoder at the end of a key, with each modifier latched. -/
theorem event_next (clear : shift &&& e0esc = 0) (e : Event) :
    e.bytes.foldl next shift &&& e0esc = 0 ∧
      ∀ m : Modifier, (e.bytes.foldl next shift).getLsbD m.place = latch m (shift.getLsbD m.place) e := by
  obtain ⟨k, down⟩ := e
  have none : shift.getLsbD 6 = false := Bool.eq_false_of_not_eq_true (mt test_escape.mpr (not_not.mpr clear))
  have modifier (m : Modifier) : (bits shiftcode k.index).getLsbD m.place = decide (k = m.left ∨ k = m.right) := by
    rw [shiftcode_modifier]
    simp only [index_inj]
  obtain ⟨noShift, noToggle⟩ := bits_escape k.index
  rw [← not_not (a := _ = (0 : BitVec 32)), ← ne_eq, test_escape]
  cases down with
  | true =>
      rw [press_next k clear, pressed]
      refine ⟨?_, fun m => ?_⟩
      · rw [BitVec.getLsbD_xor, BitVec.getLsbD_or, none, noShift, noToggle]
        decide
      · rw [BitVec.getLsbD_xor, BitVec.getLsbD_or, modifier, togglecode_modifier, latch]
        by_cases own : k = m.left ∨ k = m.right
        · simp [own]
        · simp [own]
  | false =>
      rw [release_next k clear]
      refine ⟨?_, fun m => ?_⟩
      · rw [BitVec.getLsbD_and, none]
        exact Bool.false_ne_true
      · have inside : m.place < 32 ∧ m.place ≠ 6 := by cases m <;> decide
        rw [BitVec.getLsbD_and, BitVec.getLsbD_not, BitVec.getLsbD_or, modifier, escape_place, latch]
        by_cases own : k = m.left ∨ k = m.right
        · simp [own]
        · simp [own, inside]

/-- After any events each modifier is latched by the latest event of its keys. -/
theorem events_next (m : Modifier) (clear : shift &&& e0esc = 0) (events : List Event) :
    (events.flatMap Event.bytes).foldl next shift &&& e0esc = 0 ∧
      ((events.flatMap Event.bytes).foldl next shift).getLsbD m.place =
        events.foldl (latch m) (shift.getLsbD m.place) := by
  rw [List.foldl_flatMap]
  exact List.foldl_rel (r := fun shift pressed => shift &&& e0esc = 0 ∧ shift.getLsbD m.place = pressed) ⟨clear, rfl⟩
    fun e _ shift pressed ⟨clear, same⟩ => by
      obtain ⟨clear', latched⟩ := event_next clear e
      exact ⟨clear', (latched m).trans (by rw [same])⟩

end Events

/-- No key is down. -/
def released : Key → Bool := fun _ => false

/-- A key of the modifier is down. -/
def Modifier.Down (m : Modifier) (held : Key → Bool) : Prop := held m.left = true ∨ held m.right = true

/-- A key is released only while it is down. -/
def Releases (held : Key → Bool) (e : Event) : Prop := e.down = false → held e.key = true

/-- No key of the modifier is released while the other one is down. -/
def Apart (m : Modifier) (held : Key → Bool) (e : Event) : Prop :=
  e.down = false → (e.key = m.left → held m.right = false) ∧ (e.key = m.right → held m.left = false)

section Held

variable {m : Modifier} {held : Key → Bool} {events : List Event}

theorem left_ne_right (m : Modifier) : m.left ≠ m.right := by
  cases m with
  | shift => decide
  | ctl => decide
  | alt => decide

/-- An event of the modifier decides about its own key only. -/
theorem hold_down (m : Modifier) (held : Key → Bool) (e : Event) :
    m.Down (hold held e) ↔
      if e.key = m.left then e.down = true ∨ held m.right = true
      else if e.key = m.right then held m.left = true ∨ e.down = true
      else m.Down held := by
  simp only [Modifier.Down, hold, Function.update_apply]
  by_cases left : e.key = m.left
  · simp [left, (left_ne_right m).symm]
  by_cases right : e.key = m.right
  · simp [right, left_ne_right m, (left_ne_right m).symm]
  · simp [left, right, Ne.symm left, Ne.symm right]

/-- A latched modifier has a key that is down. -/
theorem latch_down (m : Modifier) (events : List Event) (latched : events.foldl (latch m) false = true) :
    m.Down (events.foldl hold released) := by
  have run : events.foldl (latch m) false = true → m.Down (events.foldl hold released) := by
    refine List.foldl_rel (r := fun pressed held => pressed = true → m.Down held) (fun never => nomatch never) ?_
    intro e _ pressed held down latched
    rw [hold_down]
    unfold latch at latched
    by_cases left : e.key = m.left
    · rw [if_pos left]
      rw [if_pos (.inl left)] at latched
      exact .inl latched
    by_cases right : e.key = m.right
    · rw [if_neg left, if_pos right]
      rw [if_pos (.inr right)] at latched
      exact .inr latched
    · rw [if_neg left, if_neg right]
      rw [if_neg (not_or.mpr ⟨left, right⟩)] at latched
      exact down latched
  exact run latched

/-- If the keys of a modifier are released one after the other, the modifier is latched while one of them is down. -/
theorem latch_iff_down {pressed : Bool} (apart : Guarded hold (Apart m) held events)
    (start : pressed = true ↔ m.Down held) :
    events.foldl (latch m) pressed = true ↔ m.Down (events.foldl hold held) := by
  induction events generalizing held pressed with
  | nil => exact start
  | cons e rest ih =>
      obtain ⟨here, later⟩ := apart
      refine ih later ?_
      rw [hold_down, latch]
      by_cases left : e.key = m.left
      · rw [if_pos left, if_pos (.inl left)]
        refine ⟨.inl, fun down => down.elim id fun twin => Bool.eq_true_of_not_eq_false fun up => ?_⟩
        rw [(here up).1 left] at twin
        cases twin
      by_cases right : e.key = m.right
      · rw [if_neg left, if_pos right, if_pos (.inr right)]
        refine ⟨.inr, fun down => down.elim (fun twin => Bool.eq_true_of_not_eq_false fun up => ?_) id⟩
        rw [(here up).2 right] at twin
        cases twin
      · rw [if_neg left, if_neg right, if_neg (not_or.mpr ⟨left, right⟩)]
        exact start

end Held

/-- A modifier bit is set exactly when the latest event of its keys pressed one of them. A set bit means that a key is
down, and it means exactly that as long as no key is released while its twin is down. -/
theorem kbdFeed_modifiers (events : List Event) (o : Output) :
    ∃ out s, kbdFeed (events.flatMap Event.bytes) ⟨0, o⟩ = some (out, s) ∧ ∀ m : Modifier,
      (s.shift &&& m.bit ≠ 0 ↔ events.foldl (latch m) false = true) ∧
      (s.shift &&& m.bit ≠ 0 → m.Down (events.foldl hold released)) ∧
      (Guarded hold (Apart m) released events → (s.shift &&& m.bit ≠ 0 ↔ m.Down (events.foldl hold released))) := by
  obtain ⟨console, fed⟩ := kbdFeed_decodes (events.flatMap Event.bytes) ⟨0, o⟩
  refine ⟨_, _, fed, fun m => ?_⟩
  have start : (0 : BitVec 32) &&& e0esc = 0 := BitVec.zero_and
  have latched := (events_next m start events).2
  have zero : (0 : BitVec 32).getLsbD m.place = false := by
    cases m <;> rfl
  rw [test_modifier, latched, zero]
  refine ⟨Iff.rfl, latch_down m events, fun apart => latch_iff_down apart ?_⟩
  exact iff_of_false Bool.false_ne_true (not_or.mpr ⟨Bool.false_ne_true, Bool.false_ne_true⟩)

/-- Two overlapping presses of the Shift keys, of which the first one ends. -/
def overlapping : List Event :=
  [⟨Modifier.left .shift, true⟩, ⟨Modifier.right .shift, true⟩, ⟨Modifier.left .shift, false⟩]

/-- A key that is still down loses its modifier when its twin is released. -/
theorem kbdFeed_modifiers_fails :
    ¬ ∀ (events : List Event) (o : Output), Guarded hold Releases released events →
      ∃ out s, kbdFeed (events.flatMap Event.bytes) ⟨0, o⟩ = some (out, s) ∧
        ∀ m : Modifier, s.shift &&& m.bit ≠ 0 ↔ m.Down (events.foldl hold released) := by
  intro claim
  let o : Output := ⟨0x3D4, 0xF00B8000, 0, ⟨fun _ => 0, []⟩, fun _ _ => 0xFF, 0, []⟩
  have valid : Guarded hold Releases released overlapping := ⟨nofun, nofun, fun _ => rfl, trivial⟩
  obtain ⟨out, s, fed, exact⟩ := claim overlapping o valid
  obtain ⟨console, decoded⟩ := kbdFeed_decodes (overlapping.flatMap Event.bytes) ⟨0, o⟩
  rw [decoded] at fed
  cases fed
  have cleared : (overlapping.flatMap Event.bytes).foldl next 0 &&& shiftBit = 0 := by decide +kernel
  exact (exact .shift).mpr (.inr rfl) cleared

end JosSmp.Keyboard
