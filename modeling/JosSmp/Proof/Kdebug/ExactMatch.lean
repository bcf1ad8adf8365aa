import JosSmp.Proof.Kdebug.Bracket

/-!
This file follows `stab_binsearch` where an entry lies exactly at the address.
The search then raises the address by one and continues from that entry.
-/

namespace JosSmp.Kdebug
open Library

/-- The bisection of the region lands on `n`, the next entry after `g`, before it lands on `g`.
Only the positions of the entries of the type decide this. -/
def landsOnNext (stabs : Int → Stab) (type g n l r : Int) : Bool :=
  if l ≤ r then
    if (l + r).tdiv 2 < g then landsOnNext stabs type g n ((l + r).tdiv 2 + 1) r
    else if (l + r).tdiv 2 < n then false
    else if lastBelow (Stab.hasType type ∘ stabs) l ((l + r).tdiv 2) = n then true
    else landsOnNext stabs type g n l (lastBelow (Stab.hasType type ∘ stabs) l ((l + r).tdiv 2) - 1)
  else false
termination_by (r + 1 - l).toNat
decreasing_by
  · have bounds := Search.trueM_bounds (s := Search.initial l r 0) ‹_›
    simp only [Search.trueM, Search.initial] at bounds
    omega
  · have bounds := Search.trueM_bounds (s := Search.initial l r 0) ‹_›
    have below := lastBelow_le (Stab.hasType type ∘ stabs) l ((l + r).tdiv 2)
    simp only [Search.trueM, Search.initial] at bounds
    omega

/-- An entry exactly at the address does no harm when the raised address meets no further entry, or when
the bisection has left the next entry behind; the last clause is the wrap to address zero. -/
def Undisturbed (stabs : Int → Stab) (type left right : Int) (addr : UInt32) : Prop :=
  ∀ g, left ≤ g → g ≤ right → Member stabs type g → (stabs g).nValue = addr →
    addr ≠ 0xFFFFFFFF ∧
      ∀ n, IsNext stabs type g right n → (stabs n).nValue = addr + 1 →
        landsOnNext stabs type g n left right = true ∨ addr + 1 = 0xFFFFFFFF ∧ n = g + 1

variable {stabs : Int → Stab} {type left right g n : Int} {addr : UInt32} {s : Search}

/-- This is the state after an exact match at `g`. -/
def Search.afterExact (g edge : Int) (addr : UInt32) (reads : List Int) : Search where
  regionLeft := g
  regionRight := edge
  l := g
  r := edge
  anyMatches := true
  addr := addr + 1
  reads := reads

/-- One step of the bisection follows the midpoint and the probe of the search. -/
theorem landsOnNext_eq (nonempty : s.l ≤ s.r) :
    landsOnNext stabs type g n s.l s.r =
      if s.trueM < g then landsOnNext stabs type g n (s.trueM + 1) s.r
      else if s.trueM < n then false
      else if s.probe stabs type = n then true
      else landsOnNext stabs type g n s.l (s.probe stabs type - 1) := by
  rw [landsOnNext, if_pos nonempty]
  rfl

/-- A midpoint left of `g` sends both searches to the right half. -/
theorem landsOnNext_right (nonempty : s.l ≤ s.r) (before : s.trueM < g) :
    landsOnNext stabs type g n s.l s.r = landsOnNext stabs type g n (s.trueM + 1) s.r := by
  rw [landsOnNext_eq nonempty, if_pos before]

/-- A midpoint between `g` and `n` lands on `g`. -/
theorem landsOnNext_here (nonempty : s.l ≤ s.r) (lower : g ≤ s.trueM) (upper : s.trueM < n) :
    landsOnNext stabs type g n s.l s.r = false := by
  rw [landsOnNext_eq nonempty, if_neg (not_lt.mpr lower), if_pos upper]

/-- A probe of `n` lands on `n`. -/
theorem landsOnNext_next (nonempty : s.l ≤ s.r) (step : g < n) (landed : s.probe stabs type = n) :
    landsOnNext stabs type g n s.l s.r = true := by
  have below := s.probe_le stabs type
  rw [landsOnNext_eq nonempty, if_neg (by omega), if_neg (by omega), if_pos landed]

/-- A probe beyond `n` sends both searches to the left part. -/
theorem landsOnNext_left (nonempty : s.l ≤ s.r) (step : g < n) (beyond : n < s.probe stabs type) :
    landsOnNext stabs type g n s.l s.r =
      landsOnNext stabs type g n s.l (s.probe stabs type - 1) := by
  have below := s.probe_le stabs type
  rw [landsOnNext_eq nonempty, if_neg (by omega), if_neg (by omega), if_neg (by omega)]

/-- The search reaches an entry that lies exactly at the address. The next entry is still in the interval
then, unless the bisection has landed on it. -/
theorem Search.approach (sorted : Increasing stabs type s.l s.r) (follows : s.regionRight = s.r)
    (lower : s.l ≤ g) (upper : g ≤ s.r) (here : Member stabs type g) (hit : (stabs g).nValue = s.addr) :
    ∃ edge reads, s.loop stabs type = (afterExact g edge s.addr reads).loop stabs type ∧
      g ≤ edge ∧ edge ≤ s.r ∧
      ((∀ i, g < i → i ≤ s.r → ¬ Member stabs type i) → edge = s.r) ∧
      ∀ n, IsNext stabs type g s.r n →
        landsOnNext stabs type g n s.l s.r = true ∧ edge = n - 1 ∨
        landsOnNext stabs type g n s.l s.r = false ∧ n ≤ edge := by
  fun_induction Search.loop stabs type s with
  | case1 s nonempty ih =>
      have bounds := s.trueM_bounds nonempty
      have below := s.probe_le stabs type
      -- A midpoint below `g` is passed in the first two branches, which keep every later entry.
      have passed (after : s.trueM < g) (kept : (s.step stabs type).l = s.trueM + 1)
          (same : (s.step stabs type).r = s.r) (addr : (s.step stabs type).addr = s.addr)
          (right : (s.step stabs type).regionRight = s.regionRight) := by
        have rest := ih (by rw [kept, same]; exact sorted.mono (by omega) (le_refl _))
          (by rw [right, same, follows]) (by omega) (by omega) (by rw [addr]; exact hit)
        rw [kept, same, addr] at rest
        simp only [← landsOnNext_right nonempty after] at rest
        exact rest
      obtain ⟨outside, next⟩ | ⟨inside, less, next⟩ | ⟨inside, greater, next⟩ | ⟨inside, equal, next⟩ :=
        s.step_cases stabs type
      · have after : s.trueM < g := by
          by_contra before
          exact s.probe_skipped stabs type (by omega) (not_lt.mp before) here
        exact passed after (by rw [next]) (by rw [next]) (by rw [next]) (by rw [next])
      · rw [← hit] at less
        have skip := sorted.nondecreasing.before lower (by omega) (s.probe_member stabs type inside) here less
        have after : s.trueM < g := by
          by_contra before
          exact s.probe_skipped stabs type skip (not_lt.mp before) here
        exact passed after (by rw [next]) (by rw [next]) (by rw [next]) (by rw [next])
      · have found := s.probe_member stabs type inside
        rw [← hit] at greater
        have before := sorted.nondecreasing.before inside upper here found greater
        rw [next] at ih ⊢
        obtain ⟨edge, reads, same, atLeast, atMost, whole, landing⟩ :=
          ih (sorted.mono (le_refl _) (by dsimp only; omega)) rfl lower (by dsimp only; omega) hit
        dsimp only at atMost whole landing
        refine ⟨edge, reads, same, atLeast, by omega, fun none => ?_, fun n isNext => ?_⟩
        · exact absurd found (none _ before (by omega))
        · have first := isNext.2 ⟨before, by omega, found⟩
          rcases eq_or_lt_of_le first with landed | beyond
          · refine .inl ⟨landsOnNext_next nonempty isNext.1.1 landed.symm, ?_⟩
            rw [landed]
            refine whole fun i after within => fun member => ?_
            have := isNext.2 ⟨after, by omega, member⟩
            omega
          · rw [landsOnNext_left nonempty isNext.1.1 beyond]
            exact landing n (isNext.mono (by omega) (by omega))
      · have found := s.probe_member stabs type inside
        have same := sorted.unique inside lower (by omega) upper found here (equal.trans hit.symm)
        rw [same] at next
        refine ⟨s.r, (s.step stabs type).reads, ?_, upper, le_refl _, fun _ => rfl, fun n isNext => ?_⟩
        · rw [next, follows]
          rfl
        · refine .inr ⟨landsOnNext_here nonempty (by omega) ?_, isNext.1.2.1⟩
          by_contra before
          exact s.probe_skipped stabs type (by rw [same]; exact isNext.1.1) (not_lt.mp before) isNext.1.2.2
  | case2 s crossed => omega

/-- The right end never drops below an entry of the type under the address at the left end. -/
theorem Search.loop_keeps (nonempty : s.l ≤ s.r) (here : Member stabs type s.l)
    (under : (stabs s.l).nValue < s.addr) : s.l ≤ (s.loop stabs type).r := by
  fun_induction Search.loop stabs type s with
  | case1 s _ ih =>
      have bounds := s.trueM_bounds nonempty
      have below := s.probe_le stabs type
      have within := s.step_within stabs type nonempty
      have floor := (s.step stabs type).loop_floor stabs type within.2.2
      obtain ⟨outside, next⟩ | ⟨inside, less, next⟩ | ⟨inside, greater, next⟩ | ⟨inside, equal, next⟩ :=
        s.step_cases stabs type
      · exact absurd here (s.probe_skipped stabs type outside bounds.1)
      · rw [next] at floor ⊢
        dsimp only at floor
        omega
      · have moved : s.l ≠ s.probe stabs type := by
          intro same
          rw [← same] at greater
          exact UInt32.lt_irrefl _ (UInt32.lt_trans greater under)
        rw [next] at ih ⊢
        exact ih (by dsimp only; omega) here under
      · have moved : s.l ≠ s.probe stabs type := by
          intro same
          rw [← same] at equal
          rw [equal] at under
          exact UInt32.lt_irrefl _ under
        rw [next] at floor ⊢
        dsimp only at floor
        omega
  | case2 s crossed => exact absurd nonempty crossed

section Exact

variable {edge : Int}

/-- After a match at the largest address the search runs for address zero and leaves the region. -/
theorem Search.afterExact_wrap (reads : List Int) (sorted : Increasing stabs type g edge) (inside : g ≤ edge)
    (here : Member stabs type g) (hit : (stabs g).nValue = addr) (top : addr = 0xFFFFFFFF) :
    let last := (afterExact g edge addr reads).loop stabs type
    last.r = g - 1 ∧ last.regionLeft = g := by
  have zero : (afterExact g edge addr reads).addr = 0 := succ_eq_zero_of_top top
  have missing : NoExact stabs type g edge (afterExact g edge addr reads).addr := by
    intro i lower upper member equal
    rw [zero] at equal
    rcases eq_or_lt_of_le lower with same | later
    · rw [← same, hit, top] at equal
      exact absurd equal (by decide)
    · have order := sorted g i (le_refl _) later upper here member
      rw [equal] at order
      exact absurd order (UInt32.not_lt.mpr (UInt32.le_iff_toNat_le.mpr (Nat.zero_le _)))
  have start : (afterExact g edge addr reads).l ≤ (afterExact g edge addr reads).r + 1 := by
    simp only [afterExact]
    omega
  have edged := loop_edge start sorted.nondecreasing missing
  have floor := (afterExact g edge addr reads).loop_floor stabs type start
  have first : Above stabs type (afterExact g edge addr reads).addr g := by
    rw [zero]
    exact ⟨here, by rw [hit, top]; decide⟩
  have dropped : ((afterExact g edge addr reads).loop stabs type).r = g - 1 := by
    simp only [afterExact] at edged floor first ⊢
    rcases edged with ⟨_, least⟩ | ⟨none, _⟩
    · have := least ⟨le_refl _, inside, first⟩
      omega
    · exact absurd first (none g (le_refl _) inside)
  refine ⟨dropped, ?_⟩
  rcases loop_regionLeft start missing with kept | ⟨_, lower, upper⟩
  · exact kept
  · rw [dropped] at upper
    simp only [afterExact] at lower upper
    omega

/-- After a match below the largest address, a search that meets no second exact match ends at `g`, with
its right end before the first entry above the raised address. -/
theorem Search.afterExact_clear (reads : List Int) (sorted : Increasing stabs type g edge) (inside : g ≤ edge)
    (here : Member stabs type g) (hit : (stabs g).nValue = addr) (below : addr ≠ 0xFFFFFFFF)
    (missing : NoExact stabs type g edge (addr + 1)) :
    let last := (afterExact g edge addr reads).loop stabs type
    RightEdge (fun i => g < i ∧ Member stabs type i) g edge last.r ∧
      lastBelow (Stab.hasType type ∘ stabs) (last.regionLeft + 1) last.r = g := by
  have start : (afterExact g edge addr reads).l ≤ (afterExact g edge addr reads).r + 1 := by
    simp only [afterExact]
    omega
  have later : ∀ i, g ≤ i → i ≤ edge → (Above stabs type (addr + 1) i ↔ g < i ∧ Member stabs type i) := by
    intro i lower upper
    constructor
    · rintro ⟨member, above⟩
      refine ⟨?_, member⟩
      rcases eq_or_lt_of_le lower with same | after
      · rw [← same, hit] at above
        exact absurd (UInt32.lt_trans above (lt_succ_of_top below)) (UInt32.lt_irrefl _)
      · exact after
    · rintro ⟨after, member⟩
      have order := sorted g i (le_refl _) after upper here member
      rw [hit] at order
      exact ⟨member, succ_lt_of_ne below order (missing i lower upper member)⟩
  have edged := (loop_edge start sorted.nondecreasing missing).congr later
  refine ⟨edged, ?_⟩
  have keeps := loop_keeps (s := afterExact g edge addr reads) inside here
    (by rw [show (afterExact g edge addr reads).l = g from rfl, hit]; exact lt_succ_of_top below)
  have greatest := lastBelow_greatest (loop_regionLeft start missing) ⟨g, le_refl _, keeps, here⟩
  refine greatest.unique ⟨⟨le_refl _, keeps, here⟩, fun i ⟨lower, upper, member⟩ => ?_⟩
  by_contra after
  have within := edged.le_right
  simp only [afterExact] at lower
  rcases edged with ⟨_, least⟩ | ⟨none, same⟩
  · have := least ⟨lower, by omega, by omega, member⟩
    omega
  · exact none i lower (by omega) ⟨by omega, member⟩

end Exact

/-- An entry at the address is the last entry at or below it. -/
theorem exact_greatest (sorted : Increasing stabs type left right) (lower : left ≤ g) (upper : g ≤ right)
    (here : Member stabs type g) (hit : (stabs g).nValue = addr) :
    IsGreatest {i | left ≤ i ∧ i ≤ right ∧ Member stabs type i ∧ (stabs i).nValue ≤ addr} g := by
  refine ⟨⟨lower, upper, here, by rw [hit]; exact UInt32.le_refl _⟩, fun i ⟨_, within, member, order⟩ => ?_⟩
  by_contra after
  have above := sorted g i lower (by omega) within here member
  rw [hit] at above
  exact UInt32.not_lt.mpr order above

/-- An entry with an entry of the type after it in the region has a next one. -/
theorem exists_isNext (later : ∃ i, g < i ∧ i ≤ right ∧ Member stabs type i) :
    ∃ n, IsNext stabs type g right n := by
  classical
  obtain ⟨i, after, within, member⟩ := later
  have search : ∃ k : Nat, g + 1 + k ≤ right ∧ Member stabs type (g + 1 + k) :=
    ⟨(i - g - 1).toNat, by omega, by rwa [show g + 1 + ((i - g - 1).toNat : Int) = i by omega]⟩
  refine ⟨g + 1 + Nat.find search, ⟨by omega, (Nat.find_spec search).1, (Nat.find_spec search).2⟩,
    fun j ⟨jAfter, jWithin, jMember⟩ => ?_⟩
  have least := Nat.find_min' search (m := (j - g - 1).toNat)
    ⟨by omega, by rwa [show g + 1 + ((j - g - 1).toNat : Int) = j by omega]⟩
  omega

/-- The bracket of an exact match is a hit when it starts at `g` and ends before the next entry. -/
theorem hit_of_exact {out : Bracket} (sorted : Increasing stabs type left right) (lower : left ≤ g)
    (upper : g ≤ right) (here : Member stabs type g) (hit : (stabs g).nValue = addr)
    (starts : out.regionLeft = g) (ends : RightEdge (Member stabs type) (g + 1) right out.regionRight) :
    Hit stabs type left right addr out :=
  ⟨by rw [starts]; exact exact_greatest sorted lower upper here hit, by rw [starts]; exact ends⟩

/-- An entry whose address is one above that of `g` is the next entry. -/
theorem isNext_of_succ (sorted : Increasing stabs type left right) (lower : left ≤ g)
    (here : Member stabs type g) (hit : (stabs g).nValue = addr) (below : addr ≠ 0xFFFFFFFF)
    (after : g < n) (within : n ≤ right) (member : Member stabs type n)
    (succ : (stabs n).nValue = addr + 1) : IsNext stabs type g right n := by
  refine ⟨⟨after, within, member⟩, fun i ⟨iAfter, iWithin, iMember⟩ => ?_⟩
  by_contra before
  have first := UInt32.lt_iff_toNat_lt.mp (sorted g i lower iAfter iWithin here iMember)
  have second := UInt32.lt_iff_toNat_lt.mp (sorted i n (by omega) (not_le.mp before) within iMember member)
  rw [hit] at first
  rw [succ, toNat_succ below] at second
  omega

/-- The raised search ends with a hit as long as it meets no second exact match. -/
theorem hit_of_clear {edge : Int} {reads : List Int} (sorted : Increasing stabs type left right)
    (lower : left ≤ g) (upper : g ≤ right) (here : Member stabs type g) (hit : (stabs g).nValue = addr)
    (below : addr ≠ 0xFFFFFFFF)
    (same : searched stabs left right type addr = (Search.afterExact g edge addr reads).loop stabs type)
    (atLeast : g ≤ edge) (atMost : edge ≤ right)
    (whole : (∀ i, g < i → i ≤ right → ¬ Member stabs type i) → edge = right)
    (landing : ∀ n, IsNext stabs type g right n → edge = n - 1 ∨ n ≤ edge)
    (clear : NoExact stabs type g edge (addr + 1)) :
    Hit stabs type left right addr (stabBinsearch stabs left right type addr) := by
  obtain ⟨rightEnd, leftEnd⟩ := stabBinsearch_matched addr ⟨g, lower, upper, here⟩
  obtain ⟨edged, ends⟩ := Search.afterExact_clear reads (sorted.mono lower atMost) atLeast here
    hit below clear
  rw [same] at rightEnd leftEnd
  apply hit_of_exact sorted lower upper here hit (leftEnd.trans ends)
  rw [rightEnd]
  by_cases later : ∃ i, g < i ∧ i ≤ right ∧ Member stabs type i
  · obtain ⟨n, isNext⟩ := exists_isNext later
    have first : RightEdge (fun i => g < i ∧ Member stabs type i) g edge (n - 1) := by
      rcases landing n isNext with cut | kept
      · refine .inr ⟨fun i _ iUpper ⟨iAfter, iMember⟩ => ?_, cut.symm⟩
        have := isNext.2 ⟨iAfter, by omega, iMember⟩
        omega
      · refine .inl ⟨?_, fun i ⟨_, iUpper, iAfter, iMember⟩ => ?_⟩
        · rw [sub_add_cancel]
          exact ⟨by have := isNext.1.1; omega, kept, isNext.1.1, isNext.1.2.2⟩
        · have := isNext.2 ⟨iAfter, by omega, iMember⟩
          omega
    rw [edged.unique first]
    exact isNext.edge
  · have none : ∀ i, g < i → i ≤ right → ¬ Member stabs type i :=
      fun i after within member => later ⟨i, after, within, member⟩
    have all : RightEdge (fun i => g < i ∧ Member stabs type i) g edge right :=
      .inr ⟨fun i _ iUpper ⟨iAfter, iMember⟩ => none i iAfter (by omega) iMember, (whole none).symm⟩
    rw [edged.unique all]
    exact .inr ⟨fun i iLower iUpper => none i (by omega) iUpper, rfl⟩

/-- A second exact match, at the next entry, spoils the bracket unless it wraps right after `g`. -/
theorem hit_iff_of_second {edge : Int} {reads : List Int} (sorted : Increasing stabs type left right)
    (lower : left ≤ g) (upper : g ≤ right) (here : Member stabs type g) (hit : (stabs g).nValue = addr)
    (same : searched stabs left right type addr = (Search.afterExact g edge addr reads).loop stabs type)
    (atMost : edge ≤ right) (isNext : IsNext stabs type g right n) (kept : n ≤ edge)
    (succ : (stabs n).nValue = addr + 1) :
    Hit stabs type left right addr (stabBinsearch stabs left right type addr) ↔
      addr + 1 = 0xFFFFFFFF ∧ n = g + 1 := by
  obtain ⟨⟨after, within, member⟩, _⟩ := id isNext
  obtain ⟨rightEnd, leftEnd⟩ := stabBinsearch_matched addr ⟨g, lower, upper, here⟩
  obtain ⟨edge', reads', same', atLeast', atMost', _, _⟩ :=
    (Search.afterExact g edge addr reads).approach (sorted.mono lower atMost) rfl (by exact le_of_lt after)
      kept member succ
  have reached : searched stabs left right type addr =
      (Search.afterExact n edge' (addr + 1) reads').loop stabs type := same.trans same'
  have greatest := exact_greatest sorted lower upper here hit
  have narrowed : Increasing stabs type n edge' := sorted.mono (by omega) (le_trans atMost' atMost)
  rw [reached] at rightEnd leftEnd
  by_cases top : addr + 1 = 0xFFFFFFFF
  · obtain ⟨dropped, stays⟩ := Search.afterExact_wrap reads' narrowed atLeast' member succ top
    have crossed : lastBelow (Stab.hasType type ∘ stabs) (n + 1) (n - 1) = n - 1 := by
      rw [lastBelow, if_neg (by omega)]
    rw [dropped] at rightEnd
    rw [stays, dropped, crossed] at leftEnd
    constructor
    · intro contract
      have := contract.starts greatest
      exact ⟨top, by omega⟩
    · rintro ⟨_, adjacent⟩
      apply hit_of_exact sorted lower upper here hit (by omega)
      rw [rightEnd]
      exact isNext.edge
  · have keeps := Search.loop_keeps (s := Search.afterExact n edge' (addr + 1) reads') atLeast' member
      (by rw [show (Search.afterExact n edge' (addr + 1) reads').l = n from rfl, succ]
          exact lt_succ_of_top top)
    rw [show (Search.afterExact n edge' (addr + 1) reads').l = n from rfl] at keeps
    constructor
    · intro contract
      have := contract.ends (contract.starts greatest) isNext
      omega
    · rintro ⟨wraps, _⟩
      exact absurd wraps top

/-- An exact match at the largest address never gives a hit. -/
theorem not_hit_of_top {edge : Int} {reads : List Int} (sorted : Increasing stabs type left right)
    (lower : left ≤ g) (upper : g ≤ right) (here : Member stabs type g) (hit : (stabs g).nValue = addr)
    (same : searched stabs left right type addr = (Search.afterExact g edge addr reads).loop stabs type)
    (atLeast : g ≤ edge) (atMost : edge ≤ right) (top : addr = 0xFFFFFFFF) :
    ¬ Hit stabs type left right addr (stabBinsearch stabs left right type addr) := by
  intro contract
  obtain ⟨rightEnd, leftEnd⟩ := stabBinsearch_matched addr ⟨g, lower, upper, here⟩
  obtain ⟨dropped, _⟩ :=
    Search.afterExact_wrap reads (sorted.mono lower atMost) atLeast here hit top
  have starts := contract.starts (exact_greatest sorted lower upper here hit)
  have below := lastBelow_le (Stab.hasType type ∘ stabs)
    ((searched stabs left right type addr).regionLeft + 1) (searched stabs left right type addr).r
  rw [same, dropped] at below
  rw [same, dropped, starts] at leftEnd
  omega

/-- The documented contract holds exactly when an entry at the searched address stays undisturbed. -/
theorem stabBinsearch_hit_iff (stabs : Int → Stab) (left right type : Int) (addr : UInt32)
    (sorted : Increasing stabs type left right)
    (present : ∃ i, left ≤ i ∧ i ≤ right ∧ Member stabs type i ∧ (stabs i).nValue ≤ addr) :
    Hit stabs type left right addr (stabBinsearch stabs left right type addr) ↔
      Undisturbed stabs type left right addr := by
  by_cases missing : NoExact stabs type left right addr
  · constructor
    · intro _ g lower upper here hit
      exact absurd hit (missing g lower upper here)
    · intro _
      exact stabBinsearch_hit sorted.nondecreasing missing present
  · unfold NoExact at missing
    push Not at missing
    obtain ⟨g, lower, upper, here, hit⟩ := missing
    obtain ⟨edge, reads, same, atLeast, atMost, whole, landing⟩ :=
      (Search.initial left right addr).approach sorted rfl lower upper here hit
    change edge ≤ right at atMost
    have alone : ∀ g', left ≤ g' → g' ≤ right → Member stabs type g' → (stabs g').nValue = addr →
        g' = g := by
      intro g' lower' upper' here' hit'
      exact sorted.unique lower' lower upper' upper here' here (hit'.trans hit.symm)
    by_cases top : addr = 0xFFFFFFFF
    · constructor
      · intro contract
        exact absurd contract (not_hit_of_top sorted lower upper here hit same atLeast atMost top)
      · intro undisturbed
        exact absurd top (undisturbed g lower upper here hit).1
    · by_cases clear : NoExact stabs type g edge (addr + 1)
      · have contract := hit_of_clear sorted lower upper here hit top same atLeast atMost whole
          (fun n isNext => (landing n isNext).imp (fun l => l.2) (fun r => r.2)) clear
        refine iff_of_true contract fun g' lower' upper' here' hit' => ⟨top, fun n isNext succ => ?_⟩
        rw [alone g' lower' upper' here' hit'] at isNext ⊢
        rcases landing n isNext with ⟨landed, _⟩ | ⟨_, kept⟩
        · exact .inl landed
        · exact absurd succ (clear n (le_of_lt isNext.1.1) kept isNext.1.2.2)
      · unfold NoExact at clear
        push Not at clear
        obtain ⟨n, after, kept, member, succ⟩ := clear
        have moved : g ≠ n := by
          intro equal
          rw [← equal, hit] at succ
          exact Search.addr_succ_ne addr succ
        have isNext := isNext_of_succ sorted lower here hit top (by omega) (by omega) member succ
        have passed : landsOnNext stabs type g n left right = false := by
          rcases landing n isNext with ⟨_, cut⟩ | ⟨passed, _⟩
          · omega
          · exact passed
        rw [hit_iff_of_second sorted lower upper here hit same atMost isNext kept succ]
        constructor
        · rintro wraps g' lower' upper' here' hit'
          refine ⟨top, fun m isNext' _ => .inr ?_⟩
          rw [alone g' lower' upper' here' hit'] at isNext' ⊢
          rw [isNext'.unique isNext]
          exact wraps
        · intro undisturbed
          rcases (undisturbed g lower upper here hit).2 n isNext succ with landed | wraps
          · rw [passed] at landed
            exact absurd landed (by decide)
          · exact wraps

/-- The contract is settled for two source files with a line stab between them. -/
theorem stabBinsearch_hit_iff_files :
    let stabs : Int → Stab := fun i =>
      if i = 0 then ⟨0, 0x64, 0xf0100000⟩ else if i = 2 then ⟨0, 0x64, 0xf0100040⟩ else ⟨0, 0x44, 0⟩
    Hit stabs nSo 0 3 0xf0100020 (stabBinsearch stabs 0 3 nSo 0xf0100020) ↔
      Undisturbed stabs nSo 0 3 0xf0100020 := by
  refine stabBinsearch_hit_iff _ 0 3 nSo 0xf0100020 ?_ ⟨0, by decide, by decide, rfl, by decide⟩
  intro i j lower step upper
  have first : i = 0 ∨ i = 1 ∨ i = 2 := by omega
  have second : j = 1 ∨ j = 2 ∨ j = 3 := by omega
  rcases first with rfl | rfl | rfl <;> rcases second with rfl | rfl | rfl <;> first | decide | omega

/-- Two functions at adjacent addresses are enough: the search for the first one reports the second. -/
theorem stabBinsearch_hit_fails :
    let stabs : Int → Stab := fun i => ⟨0, 0x24, if i = 0 then 0xf0100040 else 0xf0100041⟩
    Increasing stabs nFun 0 1 ∧
      (∃ i, 0 ≤ i ∧ i ≤ 1 ∧ Member stabs nFun i ∧ (stabs i).nValue ≤ 0xf0100040) ∧
      ¬ Hit stabs nFun 0 1 0xf0100040 (stabBinsearch stabs 0 1 nFun 0xf0100040) := by
  refine ⟨?_, ⟨0, by decide, by decide, rfl, by decide⟩, fun contract => ?_⟩
  · intro i j lower step upper _ _
    obtain rfl : i = 0 := by omega
    obtain rfl : j = 1 := by omega
    decide
  · have reported : (stabBinsearch (fun i => ⟨0, 0x24, if i = 0 then 0xf0100040 else 0xf0100041⟩) 0 1 nFun
        0xf0100040).regionLeft = 1 := by decide +kernel
    have order := contract.greatest.1.2.2.2
    rw [reported] at order
    exact absurd order (by decide)

end JosSmp.Kdebug
