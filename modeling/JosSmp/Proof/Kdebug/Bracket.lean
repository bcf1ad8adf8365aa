import JosSmp.Proof.Kdebug.Search

/-!
This file states the documented contract of `stab_binsearch` and proves it where no entry lies exactly at
the address.
-/

namespace JosSmp.Kdebug
open Library

/-- The next entry of the type after `g` inside the region. -/
def IsNext (stabs : Int → Stab) (type g right n : Int) : Prop :=
  IsLeast {i | g < i ∧ i ≤ right ∧ Member stabs type i} n

/-- The documented hit: the left variable is the last entry at or below the address, and the right variable
is just before the next entry of the type. -/
structure Hit (stabs : Int → Stab) (type left right : Int) (addr : UInt32) (out : Bracket) : Prop where
  greatest : IsGreatest {i | left ≤ i ∧ i ≤ right ∧ Member stabs type i ∧ (stabs i).nValue ≤ addr} out.regionLeft
  next : RightEdge (Member stabs type) (out.regionLeft + 1) right out.regionRight

variable {stabs : Int → Stab} {type left right g n : Int} {addr : UInt32}

/-- The next entry marks the right edge of the region of `g`. -/
theorem IsNext.edge (isNext : IsNext stabs type g right n) :
    RightEdge (Member stabs type) (g + 1) right (n - 1) := by
  obtain ⟨⟨after, within, member⟩, least⟩ := isNext
  refine .inl ⟨?_, fun i ⟨lower, upper, here⟩ => ?_⟩
  · rw [sub_add_cancel]
    exact ⟨by omega, within, member⟩
  · have := least ⟨by omega, upper, here⟩
    omega

/-- The next entry stays the next one in a smaller region that holds it. -/
theorem IsNext.mono {right' : Int} (isNext : IsNext stabs type g right n) (within : n ≤ right')
    (smaller : right' ≤ right) : IsNext stabs type g right' n := by
  refine ⟨⟨isNext.1.1, within, isNext.1.2.2⟩, ?_⟩
  rintro i ⟨after, upper, member⟩
  exact isNext.2 ⟨after, le_trans upper smaller, member⟩

theorem Hit.starts {out : Bracket} (contract : Hit stabs type left right addr out)
    (greatest : IsGreatest {i | left ≤ i ∧ i ≤ right ∧ Member stabs type i ∧ (stabs i).nValue ≤ addr} g) :
    out.regionLeft = g := contract.greatest.unique greatest

theorem Hit.ends {out : Bracket} (contract : Hit stabs type left right addr out)
    (starts : out.regionLeft = g) (isNext : IsNext stabs type g right n) : out.regionRight = n - 1 :=
  (starts ▸ contract.next).unique isNext.edge

/-- The loop runs from the caller's region. -/
def searched (stabs : Int → Stab) (left right type : Int) (addr : UInt32) : Search :=
  (Search.initial left right addr).loop stabs type

theorem searched_anyMatches :
    (searched stabs left right type addr).anyMatches = true ↔
      ∃ i, left ≤ i ∧ i ≤ right ∧ Member stabs type i := by
  simp [searched, Search.loop_anyMatches, Search.initial]

theorem searched_unmatched (addr : UInt32) (absent : ∀ i, left ≤ i → i ≤ right → ¬ Member stabs type i) :
    (searched stabs left right type addr).anyMatches = false := by
  rw [← Bool.not_eq_true, searched_anyMatches]
  rintro ⟨i, lower, upper, here⟩
  exact absent i lower upper here

/-- A region without entries of the type is reported by crossed variables. -/
theorem stabBinsearch_unmatched (addr : UInt32) (absent : ∀ i, left ≤ i → i ≤ right → ¬ Member stabs type i) :
    let out := stabBinsearch stabs left right type addr
    out.regionRight = out.regionLeft - 1 := by
  have unmatched := searched_unmatched addr absent
  simp only [searched] at unmatched
  simp only [stabBinsearch, unmatched, Bool.false_eq_true, if_false]

/-- A region with an entry of the type is bracketed by the final walk. -/
theorem stabBinsearch_matched (addr : UInt32) (present : ∃ i, left ≤ i ∧ i ≤ right ∧ Member stabs type i) :
    let out := stabBinsearch stabs left right type addr
    let last := searched stabs left right type addr
    out.regionRight = last.r ∧
      out.regionLeft = lastBelow (Stab.hasType type ∘ stabs) (last.regionLeft + 1) last.r := by
  have matched : (searched stabs left right type addr).anyMatches = true :=
    searched_anyMatches.mpr present
  have follows : (searched stabs left right type addr).regionRight =
      (searched stabs left right type addr).r := Search.loop_regionRight rfl
  simp only [searched] at matched follows
  simp only [stabBinsearch, matched, if_true, scanBack_fst, searched, follows, and_self]

/-- The variables cross exactly when the region holds no entry of the type. -/
theorem stabBinsearch_crossed_iff :
    (stabBinsearch stabs left right type addr).regionRight <
        (stabBinsearch stabs left right type addr).regionLeft ↔
      ∀ i, left ≤ i → i ≤ right → ¬ Member stabs type i := by
  constructor
  · intro crossed i lower upper here
    have bracket := stabBinsearch_matched addr ⟨i, lower, upper, here⟩
    have below := lastBelow_le (Stab.hasType type ∘ stabs)
      ((searched stabs left right type addr).regionLeft + 1) (searched stabs left right type addr).r
    omega
  · intro absent
    have unmatched := stabBinsearch_unmatched addr absent
    omega

/-- The crossed variables report a miss only where the type does not occur.
A region whose entries all lie above the address yields a bracket instead. -/
theorem stabBinsearch_miss_iff (stabs : Int → Stab) (left right type : Int) (addr : UInt32) :
    ((¬ ∃ i, left ≤ i ∧ i ≤ right ∧ Member stabs type i ∧ (stabs i).nValue ≤ addr) →
      (stabBinsearch stabs left right type addr).regionRight <
        (stabBinsearch stabs left right type addr).regionLeft) ↔
    (∃ i, left ≤ i ∧ i ≤ right ∧ Member stabs type i ∧ (stabs i).nValue ≤ addr) ∨
      ∀ i, left ≤ i → i ≤ right → ¬ Member stabs type i := by
  rw [stabBinsearch_crossed_iff, Classical.or_iff_not_imp_left]

/-- A function stab above the address is reported as a match one entry before the region. -/
theorem stabBinsearch_miss_fails :
    let stabs : Int → Stab := fun _ => ⟨0, 0x24, 0xf0100040⟩
    Increasing stabs nFun 1 1 ∧
      (¬ ∃ i, 1 ≤ i ∧ i ≤ 1 ∧ Member stabs nFun i ∧ (stabs i).nValue ≤ 0xf0100000) ∧
      ¬ (stabBinsearch stabs 1 1 nFun 0xf0100000).regionRight <
        (stabBinsearch stabs 1 1 nFun 0xf0100000).regionLeft := by
  refine ⟨fun i j first step last => by omega, ?_, by decide +kernel⟩
  rintro ⟨_, _, _, _, order⟩
  exact absurd order (show ¬ ((0xf0100040 : UInt32) ≤ 0xf0100000) by decide)

/-- The final walk gives the last entry up to the right end. -/
theorem lastBelow_greatest {start edge : Int}
    (placed : start = left ∨ Member stabs type start ∧ left ≤ start ∧ start ≤ edge)
    (present : ∃ i, left ≤ i ∧ i ≤ edge ∧ Member stabs type i) :
    IsGreatest {i | left ≤ i ∧ i ≤ edge ∧ Member stabs type i}
      (lastBelow (Stab.hasType type ∘ stabs) (start + 1) edge) := by
  obtain ⟨i, lower, upper, here⟩ := present
  have skipped : ∀ j, lastBelow (Stab.hasType type ∘ stabs) (start + 1) edge < j → j ≤ edge →
      ¬ Member stabs type j := by
    intro j beyond within
    have absent := lastBelow_skipped beyond within
    exact Bool.eq_false_iff.mp absent
  have below := lastBelow_le (Stab.hasType type ∘ stabs) (start + 1) edge
  have floor := floor_le_lastBelow (Stab.hasType type ∘ stabs) (show start + 1 ≤ edge + 1 by omega)
  have found : Member stabs type (lastBelow (Stab.hasType type ∘ stabs) (start + 1) edge) := by
    rcases eq_or_lt_of_le floor with same | inside
    · have stays : lastBelow (Stab.hasType type ∘ stabs) (start + 1) edge = start := by omega
      rw [stays]
      rcases placed with first | ⟨member, _⟩
      · by_cases atStart : i = start
        · rwa [← atStart]
        · exact absurd here (skipped i (by omega) upper)
      · exact member
    · exact lastBelow_member (Stab.hasType type ∘ stabs) (start + 1) edge (by omega)
  refine ⟨⟨by omega, below, found⟩, ?_⟩
  rintro j ⟨_, within, member⟩
  by_contra beyond
  exact skipped j (by omega) within member

/-- An edge before the first entry above the address makes the last entry up to it a hit. -/
theorem hit_of_edge {out : Bracket} (sorted : Nondecreasing stabs type left right)
    (present : ∃ i, left ≤ i ∧ i ≤ right ∧ Member stabs type i ∧ (stabs i).nValue ≤ addr)
    (edged : RightEdge (Above stabs type addr) left right out.regionRight)
    (last : (∃ i, left ≤ i ∧ i ≤ out.regionRight ∧ Member stabs type i) →
      IsGreatest {i | left ≤ i ∧ i ≤ out.regionRight ∧ Member stabs type i} out.regionLeft) :
    Hit stabs type left right addr out := by
  have within := edged.le_right
  have below : ∀ i, left ≤ i → i ≤ out.regionRight → ¬ Above stabs type addr i := by
    intro i lower upper above
    rcases edged with ⟨_, least⟩ | ⟨none, _⟩
    · have := least ⟨lower, by omega, above⟩
      omega
    · exact none i lower (by omega) above
  have beyond : ∀ i, out.regionRight < i → left ≤ i → i ≤ right → Member stabs type i →
      addr < (stabs i).nValue := by
    intro i after lower upper here
    rcases edged with ⟨⟨first, _, mark⟩, _⟩ | ⟨_, same⟩
    · exact UInt32.lt_of_lt_of_le mark.2 (sorted _ i first (by omega) upper mark.1 here)
    · omega
  obtain ⟨i, lower, upper, here, order⟩ := present
  have left_i : i ≤ out.regionRight := by
    by_contra after
    exact absurd order (UInt32.not_le.mpr (beyond i (by omega) lower upper here))
  obtain ⟨⟨first, final, found⟩, greatest⟩ := last ⟨i, lower, left_i, here⟩
  refine ⟨⟨⟨first, by omega, found, ?_⟩, ?_⟩, ?_⟩
  · exact UInt32.not_lt.mp fun above => below _ first final ⟨found, above⟩
  · rintro j ⟨jLower, jUpper, jMember, jOrder⟩
    by_cases after : out.regionRight < j
    · exact absurd jOrder (UInt32.not_le.mpr (beyond j after jLower jUpper jMember))
    · exact greatest ⟨jLower, by omega, jMember⟩
  · rcases edged with ⟨⟨_, top, mark⟩, _⟩ | ⟨_, same⟩
    · refine .inl ⟨⟨by omega, top, mark.1⟩, fun j ⟨jLower, jUpper, jMember⟩ => ?_⟩
      by_contra before
      have := greatest ⟨by omega, by omega, jMember⟩
      omega
    · refine .inr ⟨fun j jLower jUpper jMember => ?_, same⟩
      have := greatest ⟨by omega, by omega, jMember⟩
      omega

/-- Without an exact match, a sorted region with an entry at or below the address gives a hit. -/
theorem stabBinsearch_hit (sorted : Nondecreasing stabs type left right)
    (missing : NoExact stabs type left right addr)
    (present : ∃ i, left ≤ i ∧ i ≤ right ∧ Member stabs type i ∧ (stabs i).nValue ≤ addr) :
    Hit stabs type left right addr (stabBinsearch stabs left right type addr) := by
  obtain ⟨i, lower, upper, here, _⟩ := id present
  obtain ⟨rightEnd, leftEnd⟩ := stabBinsearch_matched addr ⟨i, lower, upper, here⟩
  have start : (Search.initial left right addr).l ≤ (Search.initial left right addr).r + 1 := by
    simp only [Search.initial]
    omega
  have edged := Search.loop_edge start sorted missing
  apply hit_of_edge sorted present
  · rw [rightEnd]
    exact edged
  · rw [rightEnd, leftEnd]
    exact lastBelow_greatest (Search.loop_regionLeft start missing)

end JosSmp.Kdebug
