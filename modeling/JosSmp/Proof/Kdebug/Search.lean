import JosSmp.Construction.Kern.Kdebug

/-!
This file follows one run of the outer loop of `stab_binsearch`.
-/

namespace JosSmp.Kdebug
open Library

/-- The index holds an entry of the searched type. -/
def Member (stabs : Int → Stab) (type i : Int) : Prop := (stabs i).hasType type = true

instance (stabs : Int → Stab) (type i : Int) : Decidable (Member stabs type i) :=
  inferInstanceAs (Decidable (_ = true))

/-- The index holds an entry of the type above the address. -/
def Above (stabs : Int → Stab) (type : Int) (addr : UInt32) (i : Int) : Prop :=
  Member stabs type i ∧ addr < (stabs i).nValue

/-- Entries of the type have increasing addresses inside the region. -/
def Increasing (stabs : Int → Stab) (type left right : Int) : Prop :=
  ∀ i j, left ≤ i → i < j → j ≤ right → Member stabs type i → Member stabs type j →
    (stabs i).nValue < (stabs j).nValue

/-- Entries of the type have nondecreasing addresses inside the region. -/
def Nondecreasing (stabs : Int → Stab) (type left right : Int) : Prop :=
  ∀ i j, left ≤ i → i ≤ j → j ≤ right → Member stabs type i → Member stabs type j →
    (stabs i).nValue ≤ (stabs j).nValue

/-- No entry of the type lies exactly at the address. -/
def NoExact (stabs : Int → Stab) (type left right : Int) (addr : UInt32) : Prop :=
  ∀ i, left ≤ i → i ≤ right → Member stabs type i → (stabs i).nValue ≠ addr

variable {stabs : Int → Stab} {type left right : Int} {addr : UInt32} {s : Search}

theorem Increasing.nondecreasing (sorted : Increasing stabs type left right) :
    Nondecreasing stabs type left right := by
  intro i j lower step upper first second
  rcases eq_or_lt_of_le step with same | before
  · rw [same]
    exact UInt32.le_refl _
  · exact UInt32.le_of_lt (sorted i j lower before upper first second)

theorem Increasing.mono {left' right' : Int} (sorted : Increasing stabs type left right)
    (lower : left ≤ left') (upper : right' ≤ right) : Increasing stabs type left' right' :=
  fun i j first step last => sorted i j (by omega) step (by omega)

theorem Nondecreasing.mono {left' right' : Int} (sorted : Nondecreasing stabs type left right)
    (lower : left ≤ left') (upper : right' ≤ right) : Nondecreasing stabs type left' right' :=
  fun i j first step last => sorted i j (by omega) step (by omega)

/-- An entry with a smaller address comes first. -/
theorem Nondecreasing.before (sorted : Nondecreasing stabs type left right) {i j : Int} (lower : left ≤ j)
    (upper : i ≤ right) (first : Member stabs type i) (second : Member stabs type j)
    (less : (stabs i).nValue < (stabs j).nValue) : i < j := by
  by_contra after
  exact UInt32.not_lt.mpr (sorted j i lower (not_lt.mp after) upper second first) less

/-- Two entries with one address are one entry. -/
theorem Increasing.unique (sorted : Increasing stabs type left right) {i j : Int} (lower : left ≤ i)
    (lower' : left ≤ j) (upper : i ≤ right) (upper' : j ≤ right) (first : Member stabs type i)
    (second : Member stabs type j) (same : (stabs i).nValue = (stabs j).nValue) : i = j := by
  rcases lt_trichotomy i j with before | equal | after
  · exact absurd same (UInt32.ne_of_lt (sorted i j lower before upper' first second))
  · exact equal
  · exact absurd same.symm (UInt32.ne_of_lt (sorted j i lower' after upper second first))

theorem NoExact.mono {left' right' : Int} (missing : NoExact stabs type left right addr)
    (lower : left ≤ left') (upper : right' ≤ right) : NoExact stabs type left' right' addr :=
  fun i first last => missing i (by omega) (by omega)

theorem succ_eq_zero_of_top (top : addr = 0xFFFFFFFF) : addr + 1 = 0 := by
  rw [top]
  rfl

/-- Below the largest address, the raised address is the successor. -/
theorem toNat_succ (below : addr ≠ 0xFFFFFFFF) : (addr + 1).toNat = addr.toNat + 1 := by
  have bound := addr.toNat_lt
  have different : addr.toNat ≠ 0xFFFFFFFF := fun same => below (UInt32.toNat_inj.mp same)
  rw [UInt32.toNat_add, UInt32.toNat_one, Nat.mod_eq_of_lt (by omega)]

theorem lt_succ_of_top (below : addr ≠ 0xFFFFFFFF) : addr < addr + 1 := by
  rw [UInt32.lt_iff_toNat_lt, toNat_succ below]
  exact Nat.lt_succ_self _

/-- An address above `addr` other than its successor is above the successor. -/
theorem succ_lt_of_ne {value : UInt32} (below : addr ≠ 0xFFFFFFFF) (above : addr < value)
    (different : value ≠ addr + 1) : addr + 1 < value := by
  have apart : value.toNat ≠ (addr + 1).toNat := fun same => different (UInt32.toNat_inj.mp same)
  rw [UInt32.lt_iff_toNat_lt] at above ⊢
  rw [toNat_succ below] at apart ⊢
  omega

/-- The loop repeats while the interval is nonempty. -/
theorem Search.loop_step (nonempty : s.l ≤ s.r) :
    s.loop stabs type = (s.step stabs type).loop stabs type := by
  rw [loop, if_pos nonempty]

/-- A probe inside the interval is an entry of the type. -/
theorem Search.probe_member (stabs : Int → Stab) (type : Int) (s : Search) (inside : s.l ≤ s.probe stabs type) :
    Member stabs type (s.probe stabs type) :=
  lastBelow_member (Stab.hasType type ∘ stabs) s.l s.trueM inside

/-- No entry of the type lies between the probe and the midpoint. -/
theorem Search.probe_skipped (stabs : Int → Stab) (type : Int) (s : Search) {i : Int}
    (beyond : s.probe stabs type < i) (upper : i ≤ s.trueM) : ¬ Member stabs type i := by
  have absent : (Stab.hasType type ∘ stabs) i = false := lastBelow_skipped beyond upper
  exact Bool.eq_false_iff.mp absent

/-- One pass keeps the interval inside the old one, with ends that cross by at most one. -/
theorem Search.step_within (stabs : Int → Stab) (type : Int) (nonempty : s.l ≤ s.r) :
    let next := s.step stabs type
    s.l ≤ next.l ∧ next.r ≤ s.r ∧ next.l ≤ next.r + 1 := by
  have bounds := s.trueM_bounds nonempty
  have below := s.probe_le stabs type
  obtain ⟨_, next⟩ | ⟨_, _, next⟩ | ⟨_, _, next⟩ | ⟨_, _, next⟩ := s.step_cases stabs type <;>
    rw [next] <;> dsimp only <;> omega

/-- The right end never falls behind the left end by more than one. -/
theorem Search.loop_floor (stabs : Int → Stab) (type : Int) (s : Search) (start : s.l ≤ s.r + 1) :
    s.l ≤ (s.loop stabs type).r + 1 := by
  fun_induction Search.loop stabs type s with
  | case1 s nonempty ih =>
      obtain ⟨lower, _, crossing⟩ := s.step_within stabs type nonempty
      exact le_trans lower (ih crossing)
  | case2 s crossed => exact start

/-- The right end only moves down. -/
theorem Search.loop_r_le : (s.loop stabs type).r ≤ s.r := by
  fun_induction Search.loop stabs type s with
  | case1 s nonempty ih => exact le_trans ih (s.step_within stabs type nonempty).2.1
  | case2 s crossed => exact le_refl _

/-- The caller's right variable follows the right end. -/
theorem Search.loop_regionRight (start : s.regionRight = s.r) :
    (s.loop stabs type).regionRight = (s.loop stabs type).r := by
  fun_induction Search.loop stabs type s with
  | case1 s nonempty ih =>
      obtain ⟨_, next⟩ | ⟨_, _, next⟩ | ⟨_, _, next⟩ | ⟨_, _, next⟩ := s.step_cases stabs type <;>
        rw [next] at ih ⊢
      · exact ih start
      · exact ih start
      · exact ih rfl
      · exact ih start
  | case2 s crossed => exact start

/-- The loop reports a match exactly when the interval holds an entry of the type. -/
theorem Search.loop_anyMatches :
    (s.loop stabs type).anyMatches = true ↔
      s.anyMatches = true ∨ ∃ i, s.l ≤ i ∧ i ≤ s.r ∧ Member stabs type i := by
  fun_induction Search.loop stabs type s with
  | case1 s nonempty ih =>
      have bounds := s.trueM_bounds nonempty
      have below := s.probe_le stabs type
      rw [ih]
      obtain ⟨outside, next⟩ | ⟨inside, _, next⟩ | ⟨inside, _, next⟩ | ⟨inside, _, next⟩ :=
        s.step_cases stabs type
      · rw [next]
        apply or_congr_right
        constructor
        · rintro ⟨i, lower, upper, here⟩
          dsimp only at lower
          exact ⟨i, by omega, upper, here⟩
        · rintro ⟨i, lower, upper, here⟩
          refine ⟨i, ?_, upper, here⟩
          by_contra before
          dsimp only at before
          exact s.probe_skipped stabs type (by omega) (by omega) here
      all_goals
        rw [next]
        have found := s.probe_member stabs type inside
        simp only [true_or, true_iff]
        exact .inr ⟨_, inside, by omega, found⟩
  | case2 s crossed =>
      constructor
      · exact .inl
      · rintro (matched | ⟨i, lower, upper, _⟩)
        · exact matched
        · omega

/-- A backward walk reads only from its start down to its floor. -/
theorem scanBack_reads {stop : Stab → Bool} {floor m i : Int} {reads : List Int}
    (read : i ∈ (scanBack stop stabs floor m reads).2) : i ∈ reads ∨ floor ≤ i ∧ i ≤ m := by
  fun_induction scanBack stop stabs floor m reads with
  | case1 m reads inside _ =>
      obtain rfl | earlier := List.mem_cons.mp read
      · exact .inr ⟨inside, le_refl _⟩
      · exact .inl earlier
  | case2 m reads inside _ ih =>
      obtain listed | range := ih read
      · obtain rfl | earlier := List.mem_cons.mp listed
        · exact .inr ⟨inside, le_refl _⟩
        · exact .inl earlier
      · exact .inr ⟨range.1, by omega⟩
  | case3 m reads _ => exact .inl read

theorem Search.step_reads :
    (s.step stabs type).reads = (scanBack (Stab.hasType type) stabs s.l s.trueM s.reads).2 := by
  obtain ⟨_, next⟩ | ⟨_, _, next⟩ | ⟨_, _, next⟩ | ⟨_, _, next⟩ := s.step_cases stabs type <;>
    rw [next]

/-- Every entry that the loop reads lies in the interval. -/
theorem Search.loop_reads {i : Int} (read : i ∈ (s.loop stabs type).reads) :
    i ∈ s.reads ∨ s.l ≤ i ∧ i ≤ s.r := by
  fun_induction Search.loop stabs type s with
  | case1 s nonempty ih =>
      have bounds := s.trueM_bounds nonempty
      have within := s.step_within stabs type nonempty
      obtain earlier | range := ih read
      · rw [step_reads] at earlier
        obtain before | inside := scanBack_reads earlier
        · exact .inl before
        · exact .inr ⟨inside.1, by omega⟩
      · exact .inr ⟨by omega, by omega⟩
  | case2 s crossed => exact .inl read

/-- Without an exact match, the right end stops before the first entry above the address. -/
theorem Search.loop_edge (start : s.l ≤ s.r + 1) (sorted : Nondecreasing stabs type s.l s.r)
    (missing : NoExact stabs type s.l s.r s.addr) :
    RightEdge (Above stabs type s.addr) s.l s.r (s.loop stabs type).r := by
  fun_induction Search.loop stabs type s with
  | case1 s nonempty ih =>
      have bounds := s.trueM_bounds nonempty
      have below := s.probe_le stabs type
      obtain ⟨outside, next⟩ | ⟨inside, less, next⟩ | ⟨inside, greater, next⟩ | ⟨inside, hit, next⟩ :=
        s.step_cases stabs type
      · rw [next] at ih ⊢
        apply RightEdge.skip (s.trueM + 1) (by omega)
        · intro i lower upper above
          exact s.probe_skipped stabs type (by omega) (by omega) above.1
        · exact ih (by dsimp only; omega) (sorted.mono (by dsimp only; omega) (le_refl _))
            (missing.mono (by dsimp only; omega) (le_refl _))
      · rw [next] at ih ⊢
        apply RightEdge.skip (s.trueM + 1) (by omega)
        · intro i lower upper above
          by_cases beyond : s.probe stabs type < i
          · exact s.probe_skipped stabs type beyond (by omega) above.1
          · have order := sorted i (s.probe stabs type) lower (by omega) (by omega) above.1
              (s.probe_member stabs type inside)
            exact UInt32.lt_irrefl _ (UInt32.lt_of_lt_of_le above.2
              (UInt32.le_trans order (UInt32.le_of_lt less)))
        · exact ih (by dsimp only; omega) (sorted.mono (by dsimp only; omega) (le_refl _))
            (missing.mono (by dsimp only; omega) (le_refl _))
      · rw [next] at ih ⊢
        apply RightEdge.cut inside (by omega) ⟨s.probe_member stabs type inside, greater⟩
        exact ih (by dsimp only; omega) (sorted.mono (le_refl _) (by dsimp only; omega))
          (missing.mono (le_refl _) (by dsimp only; omega))
      · exact absurd hit (missing _ inside (by omega) (s.probe_member stabs type inside))
  | case2 s crossed =>
      have same : s.l = s.r + 1 := by omega
      exact RightEdge.empty (by omega)

/-- The caller's left variable keeps its value or moves to an entry of the type in the interval. -/
theorem Search.loop_regionLeft (start : s.l ≤ s.r + 1)
    (missing : NoExact stabs type s.l s.r s.addr) :
    let last := s.loop stabs type
    last.regionLeft = s.regionLeft ∨
      Member stabs type last.regionLeft ∧ s.l ≤ last.regionLeft ∧ last.regionLeft ≤ last.r := by
  fun_induction Search.loop stabs type s with
  | case1 s nonempty ih =>
      have bounds := s.trueM_bounds nonempty
      have below := s.probe_le stabs type
      obtain ⟨outside, next⟩ | ⟨inside, less, next⟩ | ⟨inside, greater, next⟩ | ⟨inside, hit, next⟩ :=
        s.step_cases stabs type
      · rw [next] at ih ⊢
        obtain kept | ⟨here, lower, upper⟩ := ih (by dsimp only; omega)
          (missing.mono (by dsimp only; omega) (le_refl _))
        · exact .inl kept
        · exact .inr ⟨here, by dsimp only at lower; omega, upper⟩
      · have floor := (s.step stabs type).loop_floor stabs type
        rw [next] at ih floor ⊢
        dsimp only at floor
        obtain kept | ⟨here, lower, upper⟩ := ih (by dsimp only; omega)
          (missing.mono (by dsimp only; omega) (le_refl _))
        · right
          rw [kept]
          exact ⟨s.probe_member stabs type inside, inside, by dsimp only; omega⟩
        · exact .inr ⟨here, by dsimp only at lower; omega, upper⟩
      · rw [next] at ih ⊢
        exact ih (by dsimp only; omega) (missing.mono (le_refl _) (by dsimp only; omega))
      · exact absurd hit (missing _ inside (by omega) (s.probe_member stabs type inside))
  | case2 s crossed => exact .inl rfl

end JosSmp.Kdebug
