import JosSmp.Construction.Machine.Word
import JosSmp.Proof.Console.Terminal

/-!
This file follows the cells in which two terminals differ while both print the same bytes, one of them as signed
characters and the other as unsigned characters.
-/

namespace JosSmp.Console.Terminal
open Machine

/-- Two terminals have the same cursor and the same top row. -/
def Aligned (x y : Terminal) : Prop := x.p = y.p ∧ x.t = y.t

/-- A byte writes a cell. -/
def Covers (b : UInt8) (x : Terminal) (i : Nat) : Prop :=
  if b = 0x09 then x.p ≤ i ∧ i < x.p + 5
  else if b = 0x0a ∨ b = 0x0d then False
  else if b = 0x08 then x.p ≠ 80 * x.t ∧ i = x.p - 1
  else i = x.p

instance (b : UInt8) (x : Terminal) (i : Nat) : Decidable (Covers b x i) :=
  inferInstanceAs (Decidable (if b = 0x09 then _ ∧ _ else if b = 0x0a ∨ b = 0x0d then False
    else if b = 0x08 then _ ∧ _ else i = x.p))

/-- What a character leaves in the cells that it writes. -/
def glyph (c : BitVec 32) : UInt16 :=
  if c.toNat % 256 = 9 then blankCell
  else if c.toNat % 256 = 8 then cellOf (withAttribute c &&& 0xffffff00 ||| 0x20)
  else cellOf (withAttribute c)

section Put

variable {x y : Terminal} {c c' : BitVec 32} {b : UInt8}

/-- The attribute leaves the low byte alone. -/
theorem withAttribute_mod (c : BitVec 32) : (withAttribute c).toNat % 256 = c.toNat % 256 := by
  unfold withAttribute
  split
  · rw [BitVec.toNat_or, show (256 : Nat) = 2 ^ 8 by decide, Nat.or_mod_two_pow]
    exact Nat.or_zero _
  · rfl

theorem follow_aligned (aligned : Aligned x y) : Aligned x.follow y.follow := by
  obtain ⟨cursor, top⟩ := aligned
  refine ⟨?_, ?_⟩
  · rw [follow_p, follow_p, cursor]
  · rw [follow_t, follow_t, cursor, top]

theorem type_aligned (aligned : Aligned x y) (same : c.toNat % 256 = c'.toNat % 256) :
    Aligned (x.type c) (y.type c') := by
  obtain ⟨cursor, top⟩ := aligned
  simp only [type, withAttribute_mod, same, cursor, top]
  split
  · exact ⟨rfl, rfl⟩
  split
  · exact ⟨rfl, rfl⟩
  split
  · split
    · exact ⟨cursor, top⟩
    · exact ⟨rfl, rfl⟩
  · exact ⟨rfl, rfl⟩

/-- The low byte decides where the cursor and the screen go. -/
theorem put_aligned (aligned : Aligned x y) (same : c.toNat % 256 = c'.toNat % 256) :
    Aligned (x.put c) (y.put c') := by
  have space {x y : Terminal} (aligned : Aligned x y) : Aligned (x.type 0x20).follow (y.type 0x20).follow :=
    follow_aligned (type_aligned aligned rfl)
  unfold put
  rw [same]
  split
  · exact follow_aligned (space (space (space (space (space aligned)))))
  · exact follow_aligned (type_aligned aligned same)

/-- A space that is part of a tab. -/
theorem space_cell (x : Terminal) (i : Nat) :
    (x.type 0x20).follow.p = x.p + 1 ∧
      (x.type 0x20).follow.cell i = if i = x.p then blankCell else x.cell i := by
  rw [follow_p, follow_cell]
  exact ⟨rfl, Function.update_apply ..⟩

theorem tab_cell (tab : c.toNat % 256 = 9) (i : Nat) :
    (x.put c).cell i = if x.p ≤ i ∧ i < x.p + 5 then blankCell else x.cell i := by
  rw [put, if_pos tab, follow_cell]
  simp only [(space_cell _ _).2, (space_cell _ 0).1]
  grind

/-- A byte changes the cells that it writes, and no others. -/
theorem put_cell (low : c.toNat % 256 = b.toNat) (i : Nat) :
    (x.put c).cell i = if Covers b x i then glyph c else x.cell i := by
  have value (k : UInt8) : b = k ↔ c.toNat % 256 = k.toNat := by
    rw [low, UInt8.toNat_inj]
  have tab : b = 0x09 ↔ c.toNat % 256 = 9 := value 0x09
  have line : b = 0x0a ↔ c.toNat % 256 = 10 := value 0x0a
  have home : b = 0x0d ↔ c.toNat % 256 = 13 := value 0x0d
  have back : b = 0x08 ↔ c.toNat % 256 = 8 := value 0x08
  simp only [Covers, glyph, tab, line, home, back]
  by_cases isTab : c.toNat % 256 = 9
  · simp only [isTab, if_true]
    exact tab_cell isTab i
  rw [put, if_neg isTab, follow_cell]
  simp only [type, withAttribute_mod, if_neg isTab]
  by_cases isLine : c.toNat % 256 = 10
  · simp only [isLine, true_or, if_true, if_false]
  by_cases isHome : c.toNat % 256 = 13
  · simp only [isHome, or_true, if_true, Nat.reduceEqDiff, if_false]
  by_cases isBack : c.toNat % 256 = 8
  · simp only [isBack, Nat.reduceEqDiff, or_self, if_true, if_false]
    by_cases first : x.p = 80 * x.t
    · simp only [first, if_true, ne_eq, not_true, false_and, if_false]
    · simp only [first, if_false, ne_eq, not_false_eq_true, true_and]
      exact Function.update_apply ..
  · simp only [isLine, isHome, isBack, or_self, if_false]
    exact Function.update_apply ..

end Put

section Chars

variable {x y : Terminal} {b : UInt8}

/-- A byte that is passed on as a signed character. -/
def signed (b : UInt8) : BitVec 32 := BitVec.ofInt 32 (signedChar b)

/-- A byte that is passed on as an unsigned character. -/
def unsigned (b : UInt8) : BitVec 32 := BitVec.ofInt 32 b.toNat

theorem unsigned_low (b : UInt8) : (unsigned b).toNat % 256 = b.toNat := by
  rw [unsigned, ofInt_byte_toNat]
  exact Nat.mod_eq_of_lt b.toNat_lt

/-- The sign fills the upper bytes. -/
theorem signed_toNat (high : 0x80 ≤ b) : (signed b).toNat = 4294967040 + b.toNat := by
  have lower : 128 ≤ b.toNat := UInt8.le_iff_toNat_le.mp high
  have small := b.toNat_lt
  rw [signed, signedChar, if_neg (by omega), BitVec.toNat_ofInt]
  omega

theorem signed_eq (low : ¬ 0x80 ≤ b) : signed b = unsigned b := by
  have upper : b.toNat < 128 := Nat.not_le.mp fun lower => low (UInt8.le_iff_toNat_le.mpr lower)
  rw [signed, signedChar, if_pos (by omega), unsigned]

theorem signed_low (b : UInt8) : (signed b).toNat % 256 = b.toNat := by
  have small := b.toNat_lt
  by_cases high : 0x80 ≤ b
  · rw [signed_toNat high]
    omega
  · rw [signed_eq high]
    exact unsigned_low b

/-- A byte from 0x80 on keeps its sign as its attribute, and never gets the default attribute. -/
theorem glyph_ne (high : 0x80 ≤ b) : glyph (signed b) ≠ glyph (unsigned b) := by
  have lower : 128 ≤ b.toNat := UInt8.le_iff_toNat_le.mp high
  have small := b.toNat_lt
  have sign := signed_toNat high
  have left : (glyph (signed b)).toNat = 65280 + b.toNat := by
    rw [glyph, signed_low, if_neg (by omega), if_neg (by omega), withAttribute, if_neg (by omega)]
    change ((signed b).setWidth 16).toNat = _
    rw [BitVec.toNat_setWidth, sign]
    omega
  have right : (glyph (unsigned b)).toNat < 2 ^ 11 := by
    rw [glyph, unsigned_low, if_neg (by omega), if_neg (by omega), unsigned, cellOf_byte, UInt16.toNat_or,
      UInt8.toNat_toUInt16]
    exact Nat.or_lt_two_pow (by decide) (by omega)
  intro same
  rw [same] at left
  omega

/-- A byte from 0x80 on writes the cell at the cursor. -/
theorem covers_high (high : 0x80 ≤ b) {i : Nat} : Covers b x i ↔ i = x.p := by
  have lower : 128 ≤ b.toNat := UInt8.le_iff_toNat_le.mp high
  have other (k : UInt8) (small : k.toNat < 128) : b ≠ k := by
    rintro rfl
    omega
  rw [Covers, if_neg (other _ (by decide)), if_neg (not_or.mpr ⟨other _ (by decide), other _ (by decide)⟩),
    if_neg (other _ (by decide))]

/-- After a byte the terminals differ where they differed before and the byte does not write, and where it writes a
byte from 0x80 on. -/
theorem put_differs (aligned : Aligned x y) (b : UInt8) (i : Nat) :
    (x.put (signed b)).cell i ≠ (y.put (unsigned b)).cell i ↔
      0x80 ≤ b ∧ i = y.p ∨ ¬ Covers b y i ∧ x.cell i ≠ y.cell i := by
  have same : Covers b x i ↔ Covers b y i := by
    unfold Covers
    rw [aligned.1, aligned.2]
  rw [put_cell (signed_low b), put_cell (unsigned_low b)]
  simp only [same]
  by_cases high : 0x80 ≤ b
  · by_cases here : i = y.p
    · have covers := (covers_high high).mpr here
      rw [if_pos covers, if_pos covers]
      exact iff_of_true (glyph_ne high) (.inl ⟨high, here⟩)
    · have outside := mt (covers_high high).mp here
      simp only [outside, if_false, here, and_false, false_or, not_false_eq_true, true_and]
  · by_cases covers : Covers b y i
    · simp only [covers, if_true, signed_eq high, high, ne_eq, not_true, false_and, or_self]
    · simp only [covers, if_false, high, false_and, false_or, not_false_eq_true, true_and]

end Chars

/-- No byte of a string writes the cell, and the cell does not leave the screen. -/
def Stays (i : Nat) : Terminal → List UInt8 → Prop
  | x, [] => 80 * x.t ≤ i
  | x, b :: s => ¬ Covers b x i ∧ Stays i (x.put (unsigned b)) s

/-- Each byte from 0x80 on is written over, erased, or scrolled off the screen by the bytes after it. Only the cursor
and the top row of the terminal decide this. -/
def Hidden : Terminal → List UInt8 → Prop
  | _, [] => True
  | x, b :: s => (0x80 ≤ b → ¬ Stays x.p (x.put (unsigned b)) s) ∧ Hidden (x.put (unsigned b)) s

section Run

variable {x y : Terminal}

theorem run_aligned (aligned : Aligned x y) (s : List UInt8) :
    Aligned (s.foldl (fun x b => x.put (signed b)) x) (s.foldl (fun y b => y.put (unsigned b)) y) :=
  List.foldl_rel (r := Aligned) aligned fun b _ _ _ aligned =>
    put_aligned aligned ((signed_low b).trans (unsigned_low b).symm)

/-- The screens are the same at the end exactly when each difference is hidden. -/
theorem run_same_iff (aligned : Aligned x y) (s : List UInt8) :
    (∀ i, 80 * (s.foldl (fun y b => y.put (unsigned b)) y).t ≤ i →
      (s.foldl (fun x b => x.put (signed b)) x).cell i = (s.foldl (fun y b => y.put (unsigned b)) y).cell i) ↔
        Hidden y s ∧ ∀ i, x.cell i ≠ y.cell i → ¬ Stays i y s := by
  induction s generalizing x y with
  | nil =>
      simp only [List.foldl_nil, Hidden, Stays, true_and]
      constructor
      · intro same i differs visible
        exact differs (same i visible)
      · intro hidden i visible
        by_contra differs
        exact hidden i differs visible
  | cons b s ih =>
      have aligned' := put_aligned aligned ((signed_low b).trans (unsigned_low b).symm)
      rw [List.foldl_cons, List.foldl_cons, ih aligned', Hidden]
      simp only [put_differs aligned, Stays]
      constructor
      · intro ⟨later, hidden⟩
        refine ⟨⟨fun high stays => hidden y.p (.inl ⟨high, rfl⟩) stays, later⟩, ?_⟩
        intro i differs ⟨outside, stays⟩
        exact hidden i (.inr ⟨outside, differs⟩) stays
      · intro ⟨⟨here, later⟩, earlier⟩
        refine ⟨later, ?_⟩
        rintro i (⟨high, rfl⟩ | ⟨outside, differs⟩) stays
        · exact here high stays
        · exact earlier i differs ⟨outside, stays⟩

end Run

end JosSmp.Console.Terminal
