import JosSmp.Proof.Kdebug.Debuginfo

/-!
This file compares the argument count of a function with the argument entries in its region.
-/

namespace JosSmp.Kdebug

/-- The region from `first` to `last` starts with `n` argument entries. -/
def Arguments (stabs : Int → Stab) (first last : Int) (n : Nat) : Prop :=
  first + n ≤ last + 1 ∧ ∀ i, first ≤ i → i < first + n → Member stabs nPsym i

section Count

variable {stabs : Int → Stab} {first last rfun lline narg : Int} {reads : List Int}

/-- The counting loop finds the longest run that ends in front of `rfun`. -/
theorem countArgs_greatest (stabs : Int → Stab) (narg : Int) (reads : List Int) (inside : lline ≤ rfun) :
    ∃ n : Nat, (countArgs stabs rfun lline narg reads).1 = narg + n ∧
      IsGreatest {n | Arguments stabs lline (rfun - 1) n} n := by
  fun_induction countArgs stabs rfun lline narg reads with
  | case1 lline narg reads before here ih =>
      obtain ⟨n, count, ⟨room, all⟩, greatest⟩ := ih (by omega)
      refine ⟨n + 1, by omega, ⟨by omega, fun i lower upper => ?_⟩, fun k longer => ?_⟩
      · rcases eq_or_lt_of_le lower with rfl | later
        · exact here
        · exact all i (by omega) (by omega)
      · -- A run from here on is one entry and a run behind it.
        obtain ⟨fits, run⟩ := longer
        cases k with
        | zero => omega
        | succ k =>
            have shorter : Arguments stabs (lline + 1) (rfun - 1) k :=
              ⟨by omega, fun i lower upper => run i (by omega) (by omega)⟩
            have bound := greatest shorter
            omega
  | case2 lline narg reads before absent =>
      refine ⟨0, by omega, ⟨by omega, fun i lower upper => by omega⟩, fun k run => ?_⟩
      by_contra longer
      exact absent (run.2 lline (le_refl _) (by omega))
  | case3 lline narg reads ended =>
      refine ⟨0, by omega, ⟨by omega, fun i lower upper => by omega⟩, fun k run => ?_⟩
      have fits := run.1
      omega

/-- A region that is not filled with arguments may lose its last entry. -/
theorem arguments_shorten {i : Int} (lower : first ≤ i) (upper : i ≤ last) (other : ¬ Member stabs nPsym i) (n : Nat) :
    Arguments stabs first (last - 1) n ↔ Arguments stabs first last n := by
  constructor
  · intro ⟨room, run⟩
    exact ⟨by omega, run⟩
  · intro ⟨room, run⟩
    refine ⟨?_, run⟩
    by_contra full
    exact other (run i lower (by omega))

/-- The count is the longest run of the whole region exactly when the region is empty or holds another entry. -/
theorem countArgs_complete_iff {lfun : Int} (found : lfun ≤ rfun)
    (count : narg = if lfun < rfun then (countArgs stabs rfun (lfun + 1) 0 reads).1 else 0) :
    (∃ n : Nat, narg = n ∧ IsGreatest {n | Arguments stabs (lfun + 1) rfun n} n) ↔
      lfun = rfun ∨ ∃ i, lfun < i ∧ i ≤ rfun ∧ ¬ Member stabs nPsym i := by
  by_cases empty : lfun = rfun
  · rw [if_neg (by omega)] at count
    refine iff_of_true ⟨0, count, ⟨by omega, fun i lower upper => by omega⟩, fun k run => ?_⟩ (.inl empty)
    have fits := run.1
    omega
  · obtain ⟨n, counted, greatest⟩ := countArgs_greatest stabs 0 reads (show lfun + 1 ≤ rfun by omega)
    rw [if_pos (by omega), counted, zero_add] at count
    rw [or_iff_right empty]
    constructor
    · rintro ⟨k, same, ⟨_, longest⟩⟩
      by_contra filled
      have all : Arguments stabs (lfun + 1) rfun (rfun - lfun).toNat := by
        refine ⟨by omega, fun i lower upper => ?_⟩
        by_contra other
        exact filled ⟨i, lower, by omega, other⟩
      have bound := longest all
      have room := greatest.1.1
      omega
    · rintro ⟨i, lower, upper, other⟩
      refine ⟨n, count, ?_⟩
      simpa only [arguments_shorten lower upper other] using greatest

end Count

/-- The arguments of a function are counted up to the end of its region exactly when they do not fill the region. -/
theorem debuginfoEip_narg_iff (tables : DebugTables) (addr : UInt32) (kernel : ulim ≤ addr)
    (valid : tables.stabstr.getLast? = some 0)
    (inFile : (stabBinsearch tables.stabs 0 (tables.stabCount - 1) nSo addr).regionLeft ≠ 0) :
    let file := stabBinsearch tables.stabs 0 (tables.stabCount - 1) nSo addr
    let function := stabBinsearch tables.stabs file.regionLeft file.regionRight nFun addr
    function.regionLeft ≤ function.regionRight →
      ∃ out, debuginfoEip tables addr = .ok out ∧ out.ret = 0 ∧
        ((∃ n : Nat, out.info.eipFnNarg = n ∧
            IsGreatest {n | Arguments tables.stabs (function.regionLeft + 1) function.regionRight n} n) ↔
          function.regionLeft = function.regionRight ∨
            ∃ i, function.regionLeft < i ∧ i ≤ function.regionRight ∧ ¬ Member tables.stabs nPsym i) := by
  intro file function found
  obtain ⟨out, described, success, _, _, _, _, count, _⟩ :=
    describe_found addr file.regionLeft (function.reads ++ file.reads) valid found
  refine ⟨out, (debuginfoEip_found (UInt32.not_lt.mpr kernel) valid inFile).trans described, success, ?_⟩
  exact countArgs_complete_iff found count

/-- A source file with one function, whose entries behind the function are given. -/
def oneFunction (rest : List Stab) : DebugTables where
  stabs i := (Stab.mk 0 0 0 :: ⟨0, 0x64, 0xf0100000⟩ :: ⟨0, 0x24, 0xf0100000⟩ :: rest).getD i.toNat default
  stabCount := 3 + rest.length
  stabstr := [0]

def argumentEntry : Stab := ⟨0, 0xa0, 8⟩
def lineEntry : Stab := ⟨0, 0x44, 0⟩

/-- An argument in front of a line number is counted. -/
theorem debuginfoEip_narg_lines :
    let tables := oneFunction [argumentEntry, lineEntry]
    let file := stabBinsearch tables.stabs 0 (tables.stabCount - 1) nSo 0xf0100010
    let function := stabBinsearch tables.stabs file.regionLeft file.regionRight nFun 0xf0100010
    ∃ out, debuginfoEip tables 0xf0100010 = .ok out ∧ out.ret = 0 ∧
      ((∃ n : Nat, out.info.eipFnNarg = n ∧
          IsGreatest {n | Arguments tables.stabs (function.regionLeft + 1) function.regionRight n} n) ↔
        function.regionLeft = function.regionRight ∨
          ∃ i, function.regionLeft < i ∧ i ≤ function.regionRight ∧ ¬ Member tables.stabs nPsym i) :=
  debuginfoEip_narg_iff (oneFunction [argumentEntry, lineEntry]) 0xf0100010 (by decide) rfl (by decide +kernel)
    (by decide +kernel)

/-- The argument of a function whose region ends with it is not counted. -/
theorem debuginfoEip_narg_fails :
    ¬ ∀ (tables : DebugTables) (addr : UInt32), ulim ≤ addr → tables.stabstr.getLast? = some 0 →
      (stabBinsearch tables.stabs 0 (tables.stabCount - 1) nSo addr).regionLeft ≠ 0 →
      let file := stabBinsearch tables.stabs 0 (tables.stabCount - 1) nSo addr
      let function := stabBinsearch tables.stabs file.regionLeft file.regionRight nFun addr
      function.regionLeft ≤ function.regionRight → Member tables.stabs nFun function.regionLeft →
        ∃ out, debuginfoEip tables addr = .ok out ∧ ∃ n : Nat, out.info.eipFnNarg = n ∧
          IsGreatest {n | Arguments tables.stabs (function.regionLeft + 1) function.regionRight n} n := by
  intro claim
  have bracket : let tables := oneFunction [argumentEntry]
      let file := stabBinsearch tables.stabs 0 (tables.stabCount - 1) nSo 0xf0100010
      let function := stabBinsearch tables.stabs file.regionLeft file.regionRight nFun 0xf0100010
      file.regionLeft = 1 ∧ function.regionLeft = 2 ∧ function.regionRight = 3 := by
    decide +kernel
  have called : (debuginfoEip (oneFunction [argumentEntry]) 0xf0100010).toOption.map (·.info.eipFnNarg) = some 0 := by
    decide +kernel
  obtain ⟨inFile, left, right⟩ := bracket
  obtain ⟨out, call, n, count, _, longest⟩ := claim (oneFunction [argumentEntry]) 0xf0100010 (by decide) rfl
    (by rw [inFile]; decide) (by rw [left, right]; decide) (by rw [left]; decide)
  rw [call] at called
  have none : out.info.eipFnNarg = 0 := Option.some.inj called
  rw [left, right] at longest
  have one : Arguments (oneFunction [argumentEntry]).stabs (2 + 1) 3 1 := by
    refine ⟨by decide, fun i lower upper => ?_⟩
    obtain rfl : i = 3 := by omega
    decide
  have bound := longest one
  omega

end JosSmp.Kdebug
