import JosSmp.Proof.Kdebug.Bracket

/-!
This file bounds what `stab_binsearch` reads and returns on tables with arbitrary contents.
-/

namespace JosSmp.Kdebug
open Library

variable {stabs : Int → Stab} {type left right : Int} {addr : UInt32} {s : Search}

/-- The caller's left variable never moves below the left end of the region. -/
theorem Search.loop_regionLeft_ge {floor : Int} (start : floor ≤ s.regionLeft) (inside : floor ≤ s.l) :
    floor ≤ (s.loop stabs type).regionLeft := by
  fun_induction Search.loop stabs type s with
  | case1 s nonempty ih =>
      have bounds := s.trueM_bounds nonempty
      obtain ⟨_, next⟩ | ⟨_, _, next⟩ | ⟨_, _, next⟩ | ⟨_, _, next⟩ := s.step_cases stabs type <;>
        rw [next] at ih ⊢ <;> exact ih (by dsimp only; omega) (by dsimp only; omega)
  | case2 s crossed => exact start

/-- Without a match the caller's left variable keeps its value. -/
theorem Search.loop_unmatched (unmatched : (s.loop stabs type).anyMatches = false) :
    (s.loop stabs type).regionLeft = s.regionLeft := by
  fun_induction Search.loop stabs type s with
  | case1 s nonempty ih =>
      have monotone : (s.step stabs type).anyMatches = true →
          ((s.step stabs type).loop stabs type).anyMatches = true :=
        fun matched => Search.loop_anyMatches.mpr (.inl matched)
      obtain ⟨_, next⟩ | ⟨_, _, next⟩ | ⟨_, _, next⟩ | ⟨_, _, next⟩ := s.step_cases stabs type
      · rw [next] at ih unmatched ⊢
        exact ih unmatched
      all_goals
        rw [monotone (by rw [next])] at unmatched
        exact absurd unmatched (by decide)
  | case2 s crossed => rfl

/-- A region without a match keeps the caller's left variable. -/
theorem stabBinsearch_unmatched_left (addr : UInt32)
    (absent : ∀ i, left ≤ i → i ≤ right → ¬ Member stabs type i) :
    (stabBinsearch stabs left right type addr).regionLeft = left := by
  have unmatched := searched_unmatched addr absent
  have kept := Search.loop_unmatched unmatched
  simp only [searched] at unmatched
  simp only [stabBinsearch, unmatched, Bool.false_eq_true, if_false]
  exact kept

/-- Both variables stay in the region or fall to the index just before it. -/
theorem stabBinsearch_range (stabs : Int → Stab) (type : Int) (addr : UInt32) (inside : left ≤ right) :
    let out := stabBinsearch stabs left right type addr
    left - 1 ≤ out.regionLeft ∧ out.regionLeft ≤ right ∧
      left - 1 ≤ out.regionRight ∧ out.regionRight ≤ right := by
  by_cases present : ∃ i, left ≤ i ∧ i ≤ right ∧ Member stabs type i
  · obtain ⟨rightEnd, leftEnd⟩ := stabBinsearch_matched addr present
    have floor := (Search.initial left right addr).loop_floor stabs type
      (show left ≤ right + 1 by omega)
    have top : (searched stabs left right type addr).r ≤ right := Search.loop_r_le
    have start : left ≤ (searched stabs left right type addr).regionLeft :=
      Search.loop_regionLeft_ge (le_refl _) (le_refl _)
    have below := lastBelow_le (Stab.hasType type ∘ stabs)
      ((searched stabs left right type addr).regionLeft + 1) (searched stabs left right type addr).r
    change left ≤ (searched stabs left right type addr).r + 1 at floor
    have above : left - 1 ≤ lastBelow (Stab.hasType type ∘ stabs)
        ((searched stabs left right type addr).regionLeft + 1) (searched stabs left right type addr).r := by
      by_cases crossed : (searched stabs left right type addr).r < (searched stabs left right type addr).regionLeft + 1
      · rw [lastBelow, if_neg (by omega)]
        omega
      · have := floor_le_lastBelow (Stab.hasType type ∘ stabs)
          (show (searched stabs left right type addr).regionLeft + 1 ≤
            (searched stabs left right type addr).r + 1 by omega)
        omega
    omega
  · have absent : ∀ i, left ≤ i → i ≤ right → ¬ Member stabs type i :=
      fun i lower upper here => present ⟨i, lower, upper, here⟩
    have leftEnd := stabBinsearch_unmatched_left addr absent
    have rightEnd := stabBinsearch_unmatched addr absent
    omega

/-- Every entry that `stab_binsearch` reads lies in the region. -/
theorem stabBinsearch_reads {i : Int} (read : i ∈ (stabBinsearch stabs left right type addr).reads) :
    left ≤ i ∧ i ≤ right := by
  have looped : ∀ {j}, j ∈ (searched stabs left right type addr).reads → left ≤ j ∧ j ≤ right := by
    intro j listed
    obtain impossible | range := Search.loop_reads listed
    · exact absurd impossible (by simp [Search.initial])
    · exact range
  unfold stabBinsearch at read
  dsimp only at read
  split at read
  · obtain listed | range := scanBack_reads read
    · exact looped listed
    · have start : left ≤ (searched stabs left right type addr).regionLeft :=
        Search.loop_regionLeft_ge (le_refl _) (le_refl _)
      have follows : (searched stabs left right type addr).regionRight =
        (searched stabs left right type addr).r := Search.loop_regionRight rfl
      have top : (searched stabs left right type addr).r ≤ right := Search.loop_r_le
      simp only [searched] at start follows top
      omega
  · exact looped read

theorem scanBack_keeps {stop : Stab → Bool} {floor m i : Int} {reads : List Int} (earlier : i ∈ reads) :
    i ∈ (scanBack stop stabs floor m reads).2 := by
  fun_induction scanBack stop stabs floor m reads with
  | case1 m reads _ _ => exact List.mem_cons_of_mem _ earlier
  | case2 m reads _ _ ih => exact ih (List.mem_cons_of_mem _ earlier)
  | case3 m reads _ => exact earlier

/-- A nonempty walk reads its start. -/
theorem scanBack_start {stop : Stab → Bool} {floor m : Int} {reads : List Int} (inside : floor ≤ m) :
    m ∈ (scanBack stop stabs floor m reads).2 := by
  rw [scanBack, if_pos inside]
  split
  · exact List.mem_cons_self
  · exact scanBack_keeps List.mem_cons_self

theorem Search.loop_keeps_reads {i : Int} (earlier : i ∈ s.reads) : i ∈ (s.loop stabs type).reads := by
  fun_induction Search.loop stabs type s with
  | case1 s nonempty ih =>
      apply ih
      rw [step_reads]
      exact scanBack_keeps earlier
  | case2 s crossed => exact earlier

/-- A search of a nonempty region reads the entry at its midpoint. -/
theorem stabBinsearch_reads_midpoint (stabs : Int → Stab) (type : Int) (addr : UInt32)
    (inside : left ≤ right) :
    (left + right).tdiv 2 ∈ (stabBinsearch stabs left right type addr).reads := by
  have bounds := (Search.initial left right addr).trueM_bounds inside
  have looped : (left + right).tdiv 2 ∈ (searched stabs left right type addr).reads := by
    rw [searched, Search.loop_step inside]
    apply Search.loop_keeps_reads
    rw [Search.step_reads]
    exact scanBack_start bounds.1
  simp only [searched] at looped
  unfold stabBinsearch
  dsimp only
  split
  · exact scanBack_keeps looped
  · exact looped

/-- The entries on which repeated halving toward the left end of `[0, r]` lands.
Only the positions of the entries of the type decide them. -/
def leftProbes (stabs : Int → Stab) (type r : Int) : List Int :=
  if 0 ≤ r then
    if 0 ≤ lastBelow (Stab.hasType type ∘ stabs) 0 (r.tdiv 2) then
      lastBelow (Stab.hasType type ∘ stabs) 0 (r.tdiv 2) ::
        leftProbes stabs type (lastBelow (Stab.hasType type ∘ stabs) 0 (r.tdiv 2) - 1)
    else []
  else []
termination_by (r + 1).toNat
decreasing_by
  have below := lastBelow_le (Stab.hasType type ∘ stabs) 0 (r.tdiv 2)
  have bounds := Search.trueM_bounds (s := Search.initial 0 r 0) ‹_›
  simp only [Search.trueM, Search.initial, zero_add] at bounds
  omega

/-- The halving toward index zero meets only entries above the address and finds entry zero above it too;
the largest address counts as above itself, because the raised address wraps to zero. -/
def Underruns (stabs : Int → Stab) (type r : Int) (addr : UInt32) : Prop :=
  0 ≤ r ∧ Member stabs type 0 ∧
    (addr < (stabs 0).nValue ∨ (stabs 0).nValue = addr ∧ addr = 0xFFFFFFFF) ∧
    ∀ m ∈ leftProbes stabs type r, 0 < m → addr < (stabs m).nValue

/-- One halving step lands on the last entry up to the midpoint and continues left of it. -/
theorem leftProbes_eq {m r : Int} (nonempty : 0 ≤ r) (inside : 0 ≤ m)
    (landed : lastBelow (Stab.hasType type ∘ stabs) 0 (r.tdiv 2) = m) :
    leftProbes stabs type r = m :: leftProbes stabs type (m - 1) := by
  rw [leftProbes, if_pos nonempty, landed, if_pos inside]

/-- A halving step that lands right of index zero leaves the underrun to the part left of it. -/
theorem Underruns.landed_later {m r : Int} (nonempty : 0 ≤ r) (later : 0 < m)
    (landed : lastBelow (Stab.hasType type ∘ stabs) 0 (r.tdiv 2) = m) :
    Underruns stabs type r addr ↔ addr < (stabs m).nValue ∧ Underruns stabs type (m - 1) addr := by
  unfold Underruns
  rw [leftProbes_eq nonempty (by omega) landed]
  constructor
  · rintro ⟨_, first, order, chain⟩
    exact ⟨chain m List.mem_cons_self later, by omega, first, order,
      fun i rest => chain i (List.mem_cons_of_mem _ rest)⟩
  · rintro ⟨above, _, first, order, chain⟩
    refine ⟨nonempty, first, order, fun i listed positive => ?_⟩
    obtain rfl | rest := List.mem_cons.mp listed
    · exact above
    · exact chain i rest positive

/-- A halving step that lands on index zero decides the underrun by the entry there. -/
theorem Underruns.landed_first {r : Int} (nonempty : 0 ≤ r)
    (landed : lastBelow (Stab.hasType type ∘ stabs) 0 (r.tdiv 2) = 0) :
    Underruns stabs type r addr ↔ addr < (stabs 0).nValue ∨ (stabs 0).nValue = addr ∧ addr = 0xFFFFFFFF := by
  have first : Member stabs type 0 := by
    have found := lastBelow_member (Stab.hasType type ∘ stabs) 0 (r.tdiv 2) (by omega)
    rwa [landed] at found
  have last : leftProbes stabs type (0 - 1) = [] := by
    rw [leftProbes, if_neg (by omega)]
  unfold Underruns
  rw [leftProbes_eq nonempty (le_refl _) landed, last]
  constructor
  · rintro ⟨_, _, order, _⟩
    exact order
  · intro order
    refine ⟨nonempty, first, order, fun i listed positive => ?_⟩
    rw [List.mem_singleton.mp listed] at positive
    omega

/-- From the left end of the table, the right end runs below index zero exactly when the search underruns. -/
theorem Search.loop_underrun (stabs : Int → Stab) (type : Int) (s : Search) (atZero : s.l = 0) (start : -1 ≤ s.r) :
    (s.loop stabs type).r = -1 ↔ s.r = -1 ∨ Underruns stabs type s.r s.addr := by
  fun_induction Search.loop stabs type s with
  | case1 s nonempty ih =>
      have bounds := s.trueM_bounds nonempty
      have below := s.probe_le stabs type
      have within := s.step_within stabs type nonempty
      have floor := (s.step stabs type).loop_floor stabs type within.2.2
      have landed : lastBelow (Stab.hasType type ∘ stabs) 0 (s.r.tdiv 2) = s.probe stabs type := by
        rw [probe, trueM, atZero, zero_add]
      rw [or_iff_right (by omega)]
      -- A probe at or below the address moves the left end off index zero for good.
      have stays (moved : 0 < (s.step stabs type).l) (safe : ¬ Underruns stabs type s.r s.addr) :
          ((s.step stabs type).loop stabs type).r = -1 ↔ Underruns stabs type s.r s.addr :=
        iff_of_false (by omega) safe
      obtain ⟨outside, next⟩ | ⟨inside, less, next⟩ | ⟨inside, greater, next⟩ | ⟨inside, equal, next⟩ :=
        s.step_cases stabs type
      · apply stays (by rw [next]; dsimp only; omega)
        intro underrun
        exact s.probe_skipped stabs type (by omega) (by omega) underrun.2.1
      · apply stays (by rw [next]; dsimp only; omega)
        intro underrun
        rcases eq_or_lt_of_le (show 0 ≤ s.probe stabs type by omega) with zero | positive
        · rw [Underruns.landed_first (by omega) (landed.trans zero.symm)] at underrun
          rw [← zero] at less
          rcases underrun with above | ⟨same, _⟩
          · exact UInt32.lt_irrefl _ (UInt32.lt_trans less above)
          · exact UInt32.ne_of_lt less same
        · rw [Underruns.landed_later (by omega) positive landed] at underrun
          exact UInt32.lt_irrefl _ (UInt32.lt_trans less underrun.1)
      · rw [next] at ih ⊢
        rw [ih atZero (by dsimp only; omega)]
        dsimp only
        rcases eq_or_lt_of_le (show 0 ≤ s.probe stabs type by omega) with zero | positive
        · rw [← zero] at greater ⊢
          exact iff_of_true (.inl rfl) ((Underruns.landed_first (by omega) (landed.trans zero.symm)).mpr (.inl greater))
        · rw [or_iff_right (by omega), Underruns.landed_later (by omega) positive landed]
          exact (and_iff_right greater).symm
      · rcases eq_or_lt_of_le (show 0 ≤ s.probe stabs type by omega) with zero | positive
        · rw [← zero] at equal
          rw [next] at ih ⊢
          rw [ih zero.symm (by dsimp only; omega)]
          dsimp only
          rw [or_iff_right (by omega), Underruns.landed_first (by omega) (landed.trans zero.symm),
            Underruns.landed_first (by omega) (landed.trans zero.symm), equal]
          by_cases top : s.addr = 0xFFFFFFFF
          · refine iff_of_true (.inl ?_) (.inr ⟨rfl, top⟩)
            rw [top]
            decide
          · refine iff_of_false ?_ ?_
            · rintro (above | ⟨same, _⟩)
              · exact UInt32.lt_irrefl _ (UInt32.lt_trans above (lt_succ_of_top top))
              · exact addr_succ_ne _ same
            · rintro (above | ⟨_, same⟩)
              · exact UInt32.lt_irrefl _ above
              · exact top same
        · apply stays (by rw [next]; dsimp only; omega)
          intro underrun
          rw [Underruns.landed_later (by omega) positive landed, equal] at underrun
          exact UInt32.lt_irrefl _ underrun.1
  | case2 s crossed =>
      refine ⟨.inl, ?_⟩
      rintro (same | ⟨nonempty, _⟩)
      · exact same
      · omega

/-- Both variables fall below index zero together. -/
theorem stabBinsearch_fallen (addr : UInt32) (present : ∃ i, 0 ≤ i ∧ i ≤ right ∧ Member stabs type i) :
    let out := stabBinsearch stabs 0 right type addr
    out.regionLeft = -1 ↔ out.regionRight = -1 := by
  obtain ⟨i, lower, upper, here⟩ := id present
  obtain ⟨rightEnd, leftEnd⟩ := stabBinsearch_matched addr present
  have start : 0 ≤ (searched stabs 0 right type addr).regionLeft :=
    Search.loop_regionLeft_ge (le_refl _) (le_refl _)
  have range := stabBinsearch_range stabs type addr (le_trans lower upper)
  dsimp only at range ⊢
  rw [rightEnd] at range ⊢
  rw [leftEnd] at range ⊢
  constructor
  · intro below
    by_contra above
    by_cases crossed : (searched stabs 0 right type addr).r < (searched stabs 0 right type addr).regionLeft + 1
    · rw [lastBelow, if_neg (by omega)] at below
      exact above below
    · have := floor_le_lastBelow (Stab.hasType type ∘ stabs)
        (show (searched stabs 0 right type addr).regionLeft + 1 ≤
          (searched stabs 0 right type addr).r + 1 by omega)
      omega
  · intro below
    rw [below, lastBelow, if_neg (by omega)]

/-- A search of a whole table returns index minus one exactly when it underruns. -/
theorem stabBinsearch_underrun (stabs : Int → Stab) (right type : Int) (addr : UInt32) :
    (stabBinsearch stabs 0 right type addr).regionLeft = -1 ↔ Underruns stabs type right addr := by
  by_cases present : ∃ i, 0 ≤ i ∧ i ≤ right ∧ Member stabs type i
  · obtain ⟨i, lower, upper, here⟩ := id present
    have reached := (Search.initial 0 right addr).loop_underrun stabs type rfl (show -1 ≤ right by omega)
    change (searched stabs 0 right type addr).r = -1 ↔ right = -1 ∨ Underruns stabs type right addr at reached
    have fallen := stabBinsearch_fallen addr present
    dsimp only at fallen
    rw [fallen, (stabBinsearch_matched addr present).1, reached,
      or_iff_right (by omega)]
  · have absent : ∀ i, 0 ≤ i → i ≤ right → ¬ Member stabs type i :=
      fun i lower upper here => present ⟨i, lower, upper, here⟩
    rw [stabBinsearch_unmatched_left addr absent]
    exact iff_of_false (by omega) fun underrun =>
      absent 0 (le_refl _) underrun.1 underrun.2.1

end JosSmp.Kdebug
