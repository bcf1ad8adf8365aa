import Mathlib.Tactic
import Mathlib.Order.Bounds.Basic

/-!
This library describes searches over an integer interval in which only some indices are members.
-/

namespace JosSmp.Library

/-- The last index at or below `m` that is a member, or `m` itself when it is below `floor`. -/
def lastBelow (member : Int → Bool) (floor m : Int) : Int :=
  if floor ≤ m then if member m then m else lastBelow member floor (m - 1) else m
termination_by (m + 1 - floor).toNat

variable {member : Int → Bool} {floor m : Int}

theorem lastBelow_le (member : Int → Bool) (floor m : Int) : lastBelow member floor m ≤ m := by
  fun_induction lastBelow member floor m with
  | case1 => exact le_refl _
  | case2 m _ _ ih => omega
  | case3 => exact le_refl _

/-- A result inside the interval is a member. -/
theorem lastBelow_member (member : Int → Bool) (floor m : Int) (inside : floor ≤ lastBelow member floor m) :
    member (lastBelow member floor m) = true := by
  fun_induction lastBelow member floor m with
  | case1 m _ here => exact here
  | case2 m _ _ ih => exact ih inside
  | case3 m outside => exact absurd inside outside

/-- No member lies between the result and the starting index. -/
theorem lastBelow_skipped {i : Int} (above : lastBelow member floor m < i)
    (upper : i ≤ m) : member i = false := by
  fun_induction lastBelow member floor m with
  | case1 m _ _ => omega
  | case2 m _ absent ih =>
      rcases eq_or_lt_of_le upper with same | below
      · subst same
        simpa using absent
      · exact ih above (by omega)
  | case3 m _ => omega

/-- The result misses the interval by at most one index. -/
theorem floor_le_lastBelow (member : Int → Bool) {floor m : Int} (start : floor ≤ m + 1) :
    floor - 1 ≤ lastBelow member floor m := by
  fun_induction lastBelow member floor m with
  | case1 m inside _ => omega
  | case2 m inside _ ih => exact ih (by omega)
  | case3 m _ => omega

/-- A member of the interval bounds the result from below. -/
theorem le_lastBelow (floor : Int) {i : Int} (upper : i ≤ m) (here : member i = true) :
    i ≤ lastBelow member floor m := by
  by_contra above
  have absent := lastBelow_skipped (not_le.mp above) upper
  simp [absent] at here

/-- The greatest member of the interval is the result. -/
theorem lastBelow_eq {i : Int} (lower : floor ≤ i) (upper : i ≤ m) (here : member i = true)
    (last : ∀ j, i < j → j ≤ m → member j = false) : lastBelow member floor m = i := by
  have atLeast := le_lastBelow floor upper here
  have found := lastBelow_member member floor m (le_trans lower atLeast)
  rcases eq_or_lt_of_le atLeast with same | beyond
  · exact same.symm
  · simp [last _ beyond (lastBelow_le member floor m)] at found

/-- The edge is the index just before the first marked index, or the right end when no index is marked. -/
def RightEdge (marked : Int → Prop) (left right edge : Int) : Prop :=
  IsLeast {i | left ≤ i ∧ i ≤ right ∧ marked i} (edge + 1) ∨
    (∀ i, left ≤ i → i ≤ right → ¬ marked i) ∧ edge = right

variable {marked : Int → Prop} {left right edge : Int}

/-- The edge of an empty interval is its right end. -/
theorem RightEdge.empty (crossed : right < left) : RightEdge marked left right right :=
  .inr ⟨fun i lower upper _ => by omega, rfl⟩

/-- Indices without a mark may be dropped from the left. -/
theorem RightEdge.skip (start : Int) (step : left ≤ start)
    (unmarked : ∀ i, left ≤ i → i < start → ¬ marked i)
    (rest : RightEdge marked start right edge) : RightEdge marked left right edge := by
  rcases rest with ⟨⟨lower, upper, here⟩, least⟩ | ⟨none, same⟩
  · refine .inl ⟨⟨by omega, upper, here⟩, fun i ⟨iLower, iUpper, iMarked⟩ => ?_⟩
    by_cases before : i < start
    · exact absurd iMarked (unmarked i iLower before)
    · exact least ⟨not_lt.mp before, iUpper, iMarked⟩
  · refine .inr ⟨fun i lower upper => ?_, same⟩
    by_cases before : i < start
    · exact unmarked i lower before
    · exact none i (not_lt.mp before) upper

/-- The interval may be cut just before a marked index. -/
theorem RightEdge.cut {m : Int} (lower : left ≤ m) (upper : m ≤ right) (here : marked m)
    (rest : RightEdge marked left (m - 1) edge) : RightEdge marked left right edge := by
  rcases rest with ⟨⟨first, last, mark⟩, least⟩ | ⟨none, same⟩
  · refine .inl ⟨⟨first, by omega, mark⟩, fun i ⟨iLower, iUpper, iMarked⟩ => ?_⟩
    by_cases before : i < m
    · exact least ⟨iLower, by omega, iMarked⟩
    · omega
  · refine .inl ⟨⟨by omega, by omega, by rwa [same, sub_add_cancel]⟩,
      fun i ⟨iLower, iUpper, iMarked⟩ => ?_⟩
    by_contra before
    exact none i iLower (by omega) iMarked

/-- An interval has one edge. -/
theorem RightEdge.unique {other : Int} (first : RightEdge marked left right edge)
    (second : RightEdge marked left right other) : edge = other := by
  rcases first with first | ⟨none, same⟩ <;> rcases second with second | ⟨none', same'⟩
  · have := first.unique second
    omega
  · exact absurd first.1.2.2 (none' _ first.1.1 first.1.2.1)
  · exact absurd second.1.2.2 (none _ second.1.1 second.1.2.1)
  · rw [same, same']

theorem RightEdge.le_right (edged : RightEdge marked left right edge) : edge ≤ right := by
  rcases edged with ⟨⟨_, upper, _⟩, _⟩ | ⟨_, same⟩ <;> omega

/-- Marks may be replaced by marks that agree on the interval. -/
theorem RightEdge.congr {marked' : Int → Prop}
    (same : ∀ i, left ≤ i → i ≤ right → (marked i ↔ marked' i))
    (edged : RightEdge marked left right edge) : RightEdge marked' left right edge := by
  rcases edged with ⟨⟨lower, upper, here⟩, least⟩ | ⟨none, equal⟩
  · exact .inl ⟨⟨lower, upper, (same _ lower upper).mp here⟩,
      fun i ⟨iLower, iUpper, iMarked⟩ => least ⟨iLower, iUpper, (same i iLower iUpper).mpr iMarked⟩⟩
  · exact .inr ⟨fun i lower upper mark => none i lower upper ((same i lower upper).mpr mark), equal⟩

end JosSmp.Library
