import JosSmp.Library.Run
import JosSmp.Proof.Kdebug.Bounds

/-!
This file proves that `stab_binsearch` ends on tables with arbitrary contents.
-/

namespace JosSmp.Kdebug
open Library

section Passes

variable {stabs : Int → Stab} {type : Int}

/-- The state of the loop behind its last pass is the outcome of the loop. -/
theorem Search.loop_iterate {s : Search} {count : Nat}
    (passes : Passes (Search.step stabs type) (fun s => s.l ≤ s.r) s count) :
    s.loop stabs type = (Search.step stabs type)^[count] s := by
  induction count generalizing s with
  | zero =>
      have crossed : ¬ s.l ≤ s.r := passes.2
      rw [loop, if_neg crossed, Function.iterate_zero_apply]
  | succ count ih =>
      have first : s.l ≤ s.r := passes.1 0 (Nat.zero_lt_succ count)
      rw [loop_step first, Function.iterate_succ_apply]
      exact ih ⟨fun k below => passes.1 (k + 1) (by omega), passes.2⟩

end Passes

/-- The search ends after at most two passes for each entry of the region and one more, reads entries of the region
only, and returns variables that are in the region or just before it. -/
theorem stabBinsearch_confined (stabs : Int → Stab) (type left right : Int) (addr : UInt32) (nonempty : left ≤ right) :
    (∃ count : Nat, count ≤ 2 * (right + 1 - left) + 1 ∧
      Passes (Search.step stabs type) (fun s => s.l ≤ s.r) (Search.initial left right addr) count ∧
      (Search.initial left right addr).loop stabs type =
        (Search.step stabs type)^[count] (Search.initial left right addr)) ∧
    let out := stabBinsearch stabs left right type addr
    (∀ i ∈ out.reads, left ≤ i ∧ i ≤ right) ∧ left - 1 ≤ out.regionLeft ∧ out.regionLeft ≤ right ∧
      left - 1 ≤ out.regionRight ∧ out.regionRight ≤ right := by
  constructor
  · have falls (s : Search) (more : s.l ≤ s.r) : (s.step stabs type).measure stabs type < s.measure stabs type :=
      Search.step_measure more
    obtain ⟨count, few, passes⟩ := exists_passes falls (Search.initial left right addr)
    have pending := (Search.initial left right addr).pending_le_one stabs type
    rw [Search.measure] at few
    refine ⟨count, ?_, passes, Search.loop_iterate passes⟩
    simp only [Search.initial] at few pending ⊢
    omega
  · exact ⟨fun i read => stabBinsearch_reads read, stabBinsearch_range stabs type addr nonempty⟩

/-- An unsorted table whose entries match the largest address again and again. -/
theorem stabBinsearch_confined_wrapping :
    let stabs : Int → Stab := fun i => ⟨0, 0x24, if i % 2 = 0 then 0xFFFFFFFF else 0⟩
    (∃ count : Nat, count ≤ 2 * ((6 : Int) + 1 - 2) + 1 ∧
      Passes (Search.step stabs nFun) (fun s => s.l ≤ s.r) (Search.initial 2 6 0xFFFFFFFF) count ∧
      (Search.initial 2 6 0xFFFFFFFF).loop stabs nFun =
        (Search.step stabs nFun)^[count] (Search.initial 2 6 0xFFFFFFFF)) ∧
    let out := stabBinsearch stabs 2 6 nFun 0xFFFFFFFF
    (∀ i ∈ out.reads, 2 ≤ i ∧ i ≤ 6) ∧ 2 - 1 ≤ out.regionLeft ∧ out.regionLeft ≤ 6 ∧
      2 - 1 ≤ out.regionRight ∧ out.regionRight ≤ 6 :=
  stabBinsearch_confined (fun i => ⟨0, 0x24, if i % 2 = 0 then 0xFFFFFFFF else 0⟩) nFun 2 6 0xFFFFFFFF (by decide)

end JosSmp.Kdebug
