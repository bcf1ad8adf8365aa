import JosSmp.Proof.Keyboard.Ordinary

/-!
This file compares what the extended navigation keys yield behind different histories.
-/

namespace JosSmp.Keyboard
open Machine Console

/-- The extended navigation keys: the codes behind the escape byte, and the characters. -/
def navigationKeys : List (UInt8 × UInt8) :=
  [(0x47, keyHome), (0x48, keyUp), (0x49, keyPgup), (0x4B, keyLf), (0x4D, keyRt), (0x4F, keyEnd), (0x50, keyDn),
    (0x51, keyPgdn), (0x52, keyIns), (0x53, keyDel)]

section Tables

variable {code key : UInt8} {shift : BitVec 32}

/-- The navigation keys are no modifiers and no locks, and only `ctlmap` lacks one of them. -/
theorem navigation_entries : ∀ nav ∈ navigationKeys,
    nav.1 < 0x80 ∧ nav.1 ≠ 0x60 ∧ bits shiftcode (nav.1 ||| 0x80) = 0 ∧ bits togglecode (nav.1 ||| 0x80) = 0 ∧
      entry normalmap (nav.1 ||| 0x80) = nav.2 ∧ entry shiftmap (nav.1 ||| 0x80) = nav.2 ∧
      entry ctlmap (nav.1 ||| 0x80) = if nav.2 = keyHome then 0 else nav.2 :=
  List.forall_iff_forall_mem.mp (by decide +kernel)

/-- The Control bit chooses `ctlmap`. -/
theorem chosen_ctl (shift : BitVec 32) :
    if shift &&& ctl = 0 then chosen shift = normalmap ∨ chosen shift = shiftmap else chosen shift = ctlmap := by
  have both : shift &&& ctl = shift &&& (ctl ||| shiftBit) &&& ctl := by
    rw [BitVec.and_assoc]
    rfl
  have small : (shift &&& (ctl ||| shiftBit)).toNat < 4 := by
    rw [BitVec.toNat_and]
    exact Nat.and_lt_two_pow _ (by decide : (ctl ||| shiftBit).toNat < 2 ^ 2)
  rw [both, chosen]
  obtain ⟨i, place⟩ : ∃ i : Nat, (shift &&& (ctl ||| shiftBit)).toNat = i := ⟨_, rfl⟩
  have word : shift &&& (ctl ||| shiftBit) = BitVec.ofNat 32 i := by
    rw [← place, BitVec.ofNat_toNat, BitVec.setWidth_eq]
  rw [word]
  rw [place] at small
  interval_cases i
  · exact .inl rfl
  · exact .inr rfl
  · rfl
  · rfl

/-- A navigation key finds its character, except that Home finds none while Control is latched. -/
theorem chosen_navigation (listed : (code, key) ∈ navigationKeys) :
    entry (chosen shift) (code ||| 0x80) = if key = keyHome ∧ shift &&& ctl ≠ 0 then 0 else key := by
  obtain ⟨_, _, _, _, normal, shifted, control⟩ := navigation_entries _ listed
  have table := chosen_ctl shift
  by_cases clear : shift &&& ctl = 0
  · rw [if_pos clear] at table
    rw [if_neg fun home => home.2 clear]
    obtain same | same := table <;> rw [same]
    · exact normal
    · exact shifted
  · rw [if_neg clear] at table
    rw [table, control]
    exact if_congr (and_iff_left clear).symm rfl rfl

/-- Caps Lock changes no navigation character. -/
theorem capitalized_navigation (listed : (code, key) ∈ navigationKeys) (c : UInt8) (either : c = 0 ∨ c = key) :
    capitalized shift c.toNat = c.toNat := by
  have outside : ∀ nav ∈ navigationKeys, 224 ≤ nav.2.toNat := List.forall_iff_forall_mem.mp (by decide)
  have high := outside _ listed
  have range : c.toNat = 0 ∨ 224 ≤ c.toNat := by
    obtain rfl | rfl := either
    · exact .inl rfl
    · exact .inr high
  unfold capitalized
  simp only [show 'a'.toNat = 97 by decide, show 'z'.toNat = 122 by decide, show 'A'.toNat = 65 by decide,
    show 'Z'.toNat = 90 by decide]
  split
  · rw [if_neg (by omega), if_neg (by omega)]
  · rfl

/-- The make sequence of a navigation key completes its character, or none. -/
theorem navigation_results (listed : (code, key) ∈ navigationKeys) (clear : shift &&& e0esc = 0) :
    results [0xE0, code] shift = [0, ((if key = keyHome ∧ shift &&& ctl ≠ 0 then 0 else key : UInt8).toNat : Int)] := by
  obtain ⟨small, plain, noShift, noToggle, _⟩ := navigation_entries _ listed
  obtain ⟨noEscape, low, _⟩ := code_bytes code small
  have first : next shift 0xE0 = shift ||| e0esc := if_pos rfl
  have index : pressIndex code (shift ||| e0esc) = code ||| 0x80 := if_pos (escape_set shift)
  have still : next (shift ||| e0esc) code = shift := by
    rw [← first]
    exact ordinary_next (k := ⟨true, code, small, plain⟩) clear noShift noToggle true
  have character : decoded (shift ||| e0esc) code =
      ((if key = keyHome ∧ shift &&& ctl ≠ 0 then 0 else key : UInt8).toNat : Int) := by
    rw [decoded, if_neg noEscape, if_neg (not_not.mpr low), still, index, chosen_navigation listed]
    exact capitalized_navigation listed _ (by split; exacts [.inl rfl, .inr rfl])
  rw [results, results, results, first, character]
  rfl

end Tables

/-- The make sequence of a key delivers the character to the console. -/
def Delivers (s : Keyboard) (code key : UInt8) : Prop :=
  ∃ s', kbdFeed [0xE0, code] s = some ([0, (key.toNat : Int)], s') ∧ key ≠ 0 ∧
    ∀ cons, kbdIntr cons ([0, (key.toNat : Int)] ++ [-1]) = cons.store key.toNat

theorem delivers_iff {s : Keyboard} {code key : UInt8} (listed : (code, key) ∈ navigationKeys)
    (clear : s.shift &&& e0esc = 0) : Delivers s code key ↔ key ≠ keyHome ∨ s.shift &&& ctl = 0 := by
  have nonzero : ∀ nav ∈ navigationKeys, nav.2 ≠ 0 := List.forall_iff_forall_mem.mp (by decide)
  obtain ⟨console, fed⟩ := kbdFeed_decodes [0xE0, code] s
  rw [navigation_results listed clear] at fed
  have stored (cons : Cons) : kbdIntr cons ([0, (key.toNat : Int)] ++ [-1]) = cons.store key.toNat := by
    have data : (key.toNat : Int) ≠ -1 := by omega
    have typed : (key.toNat : Int) ≠ 0 := fun zero =>
      nonzero _ listed (UInt8.toNat_inj.mp (Int.natCast_eq_zero.mp zero))
    rw [kbdIntr, List.cons_append, consIntr, if_neg (by decide), if_pos rfl, List.singleton_append, consIntr,
      if_neg data, if_neg typed]
    rfl
  by_cases silent : key = keyHome ∧ s.shift &&& ctl ≠ 0
  · rw [if_pos silent] at fed
    refine iff_of_false ?_ (fun either => either.elim (· silent.1) silent.2)
    rintro ⟨s', delivered, _⟩
    rw [fed] at delivered
    have same := List.head_eq_of_cons_eq (List.tail_eq_of_cons_eq (Prod.mk.inj (Option.some.inj delivered)).1)
    rw [silent.1] at same
    exact absurd same (by decide)
  · rw [if_neg silent] at fed
    exact iff_of_true ⟨_, fed, nonzero _ listed, stored⟩ (not_and_or.mp silent |>.imp_right not_not.mp)

/-- Behind any two histories, a navigation key delivers its character both times exactly when it is not Home, or when
neither history leaves Control latched. -/
theorem kbdFeed_navigation_iff (history history' : List UInt8) (o o' : Output) (code key : UInt8)
    (listed : (code, key) ∈ navigationKeys) (ended : history.getLast? ≠ some 0xE0)
    (ended' : history'.getLast? ≠ some 0xE0) :
    ∃ out s out' s', kbdFeed history ⟨0, o⟩ = some (out, s) ∧ kbdFeed history' ⟨0, o'⟩ = some (out', s') ∧
      (Delivers s code key ∧ Delivers s' code key ↔
        key ≠ keyHome ∨ s.shift &&& ctl = 0 ∧ s'.shift &&& ctl = 0) := by
  obtain ⟨console, fed⟩ := kbdFeed_decodes history ⟨0, o⟩
  obtain ⟨console', fed'⟩ := kbdFeed_decodes history' ⟨0, o'⟩
  have clear : history.foldl next 0 &&& e0esc = 0 := not_not.mp (mt (history_escape history).mp ended)
  have clear' : history'.foldl next 0 &&& e0esc = 0 := not_not.mp (mt (history_escape history').mp ended')
  refine ⟨_, _, _, _, fed, fed', ?_⟩
  rw [delivers_iff listed clear, delivers_iff listed clear', or_and_left]

/-- Behind a press of Shift, and behind nothing, Home delivers the same character. -/
theorem kbdFeed_navigation_shift :
    let o : Output := ⟨0x3D4, 0xF00B8000, 0, ⟨fun _ => 0, []⟩, fun _ _ => 0xFF, 0, []⟩
    ∃ out s out' s', kbdFeed [0x2A] ⟨0, o⟩ = some (out, s) ∧ kbdFeed [] ⟨0, o⟩ = some (out', s') ∧
      (Delivers s 0x47 keyHome ∧ Delivers s' 0x47 keyHome ↔
        keyHome ≠ keyHome ∨ s.shift &&& ctl = 0 ∧ s'.shift &&& ctl = 0) :=
  kbdFeed_navigation_iff [0x2A] [] ⟨0x3D4, 0xF00B8000, 0, ⟨fun _ => 0, []⟩, fun _ _ => 0xFF, 0, []⟩
    ⟨0x3D4, 0xF00B8000, 0, ⟨fun _ => 0, []⟩, fun _ _ => 0xFF, 0, []⟩ 0x47 keyHome (by decide) (by decide) (by decide)

/-- Behind a press of Control, Home delivers nothing. -/
theorem kbdFeed_navigation_fails :
    ¬ ∀ (history history' : List UInt8) (o o' : Output) (code key : UInt8), (code, key) ∈ navigationKeys →
      history.getLast? ≠ some 0xE0 → history'.getLast? ≠ some 0xE0 →
      ∃ out s out' s', kbdFeed history ⟨0, o⟩ = some (out, s) ∧ kbdFeed history' ⟨0, o'⟩ = some (out', s') ∧
        Delivers s code key ∧ Delivers s' code key := by
  intro claim
  let o : Output := ⟨0x3D4, 0xF00B8000, 0, ⟨fun _ => 0, []⟩, fun _ _ => 0xFF, 0, []⟩
  obtain ⟨out, s, out', s', fed, _, delivers, _⟩ :=
    claim [0x1D] [] o o 0x47 keyHome (by decide) (by decide) (by decide)
  obtain ⟨console, decoded⟩ := kbdFeed_decodes [0x1D] ⟨0, o⟩
  rw [decoded] at fed
  cases fed
  have clear : [0x1D].foldl next 0 &&& e0esc = 0 := by decide +kernel
  have latched : [0x1D].foldl next 0 &&& ctl ≠ 0 := by decide +kernel
  obtain other | none := (delivers_iff (by decide) clear).mp delivers
  · exact other rfl
  · exact latched none

end JosSmp.Keyboard
