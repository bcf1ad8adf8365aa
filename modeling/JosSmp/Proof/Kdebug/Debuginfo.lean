import JosSmp.Proof.Kdebug.Bounds

/-!
This file proves which stab entries `debuginfo_eip` reads and which function it names.
-/

namespace JosSmp.Cstring

/-- In a terminated string `strfind` stops at the first `c` or at the end of the string. -/
theorem strfind_terminated (c : UInt8) {bytes : List UInt8} (last : bytes.getLast? = some 0) :
    strfind c bytes = some (bytes.takeWhile fun b => b != 0 && b != c).length := by
  induction bytes with
  | nil => simp at last
  | cons b rest ih =>
      by_cases zero : b = 0
      · simp [strfind, zero]
      · by_cases colon : b = c
        · simp [strfind, colon]
        · have tail : rest.getLast? = some 0 := by
            cases rest with
            | nil =>
                simp only [List.getLast?_singleton, Option.some.injEq] at last
                exact absurd last zero
            | cons b' rest' => simpa [List.getLast?_cons_cons] using last
          simp [strfind, zero, colon, ih tail]

end JosSmp.Cstring

namespace JosSmp.Kdebug
open Library

variable {tables : DebugTables} {addr : UInt32} {lfile lfun rfun : Int} {reads : List Int}

/-- The bytes that a name check lets through end in a zero byte. -/
theorem nameAt_terminated (valid : tables.stabstr.getLast? = some 0) (index : Int) :
    (tables.bytes (tables.nameAt index .unknown)).getLast? = some 0 := by
  unfold DebugTables.nameAt
  split
  · simp only [DebugTables.bytes]
    rw [List.getLast?_drop, if_neg (by omega), valid]
  · rfl

/-- The argument loop reads only entries from its start up to, and without, `rfun`. -/
theorem countArgs_reads {stabs : Int → Stab} {lline narg i : Int}
    (read : i ∈ (countArgs stabs rfun lline narg reads).2) : i ∈ reads ∨ lline ≤ i ∧ i < rfun := by
  fun_induction countArgs stabs rfun lline narg reads with
  | case1 lline narg reads inside _ ih =>
      obtain listed | range := ih read
      · obtain rfl | earlier := List.mem_cons.mp listed
        · exact .inr ⟨le_refl _, inside⟩
        · exact .inl earlier
      · exact .inr ⟨by omega, range.2⟩
  | case2 lline narg reads inside _ =>
      obtain rfl | earlier := List.mem_cons.mp read
      · exact .inr ⟨le_refl _, inside⟩
      · exact .inl earlier
  | case3 lline narg reads _ => exact .inl read

theorem countArgs_keeps {stabs : Int → Stab} {lline narg i : Int} (earlier : i ∈ reads) :
    i ∈ (countArgs stabs rfun lline narg reads).2 := by
  fun_induction countArgs stabs rfun lline narg reads with
  | case1 lline narg reads _ _ ih => exact ih (List.mem_cons_of_mem _ earlier)
  | case2 lline narg reads _ _ => exact List.mem_cons_of_mem _ earlier
  | case3 lline narg reads _ => exact earlier

/-- The count does not depend on the entries that were read before. -/
theorem countArgs_count {stabs : Int → Stab} {lline narg : Int} (reads' : List Int) :
    (countArgs stabs rfun lline narg reads).1 = (countArgs stabs rfun lline narg reads').1 := by
  fun_induction countArgs stabs rfun lline narg reads generalizing reads' with
  | case1 lline narg reads inside here ih =>
      rw [countArgs.eq_1 stabs rfun lline narg reads', if_pos inside, if_pos here]
      exact ih _
  | case2 lline narg reads inside absent =>
      rw [countArgs.eq_1 stabs rfun lline narg reads', if_pos inside, if_neg absent]
  | case3 lline narg reads ended => rw [countArgs.eq_1 stabs rfun lline narg reads', if_neg ended]

/-- The file name that the backward walk from an entry finds. -/
def fileAt (tables : DebugTables) (lfile lline : Int) : NamePointer :=
  if lfile ≤ lastBelow (namesFile ∘ tables.stabs) lfile lline then
    tables.nameAt (lastBelow (namesFile ∘ tables.stabs) lfile lline) .unknown
  else .unknown

/-- A search that found a function names it, walks back from it and counts its arguments. -/
theorem describe_found (addr : UInt32) (lfile : Int) (reads : List Int)
    (valid : tables.stabstr.getLast? = some 0) (found : lfun ≤ rfun) :
    ∃ out, describe tables addr lfile lfun rfun reads = .ok out ∧ out.ret = 0 ∧
      out.info.eipFnName = tables.nameAt lfun .unknown ∧
      out.info.eipFnNamelen = ((tables.bytes (tables.nameAt lfun .unknown)).takeWhile
        fun b => b != 0 && b != 58).length ∧
      out.info.eipFnAddr = (tables.stabs lfun).nValue ∧
      out.info.eipFile = fileAt tables lfile lfun ∧
      out.info.eipFnNarg = (if lfun < rfun then (countArgs tables.stabs rfun (lfun + 1) 0 []).1 else 0) ∧
      (∀ i ∈ reads, i ∈ out.reads) ∧
      ∀ i ∈ out.reads, i ∈ reads ∨ i = lfun ∨ (lfile ≤ i ∧ i ≤ lfun) ∨ lfun < i ∧ i < rfun := by
  have name := Cstring.strfind_terminated 58 (nameAt_terminated valid lfun)
  simp only [describe, found, decide_true, if_true, initialInfo, name, scanBack_fst]
  refine ⟨_, rfl, rfl, rfl, rfl, rfl, rfl, ?_, fun i earlier => ?_, fun i read => ?_⟩
  · dsimp only
    split
    · exact countArgs_count []
    · rfl
  · dsimp only
    split
    · exact countArgs_keeps (scanBack_keeps (List.mem_cons_of_mem _ earlier))
    · exact scanBack_keeps (List.mem_cons_of_mem _ earlier)
  · dsimp only at read
    have walked : ∀ {j}, j ∈ (scanBack namesFile tables.stabs lfile lfun (lfun :: reads)).2 →
        j ∈ reads ∨ j = lfun ∨ lfile ≤ j ∧ j ≤ lfun := by
      intro j listed
      obtain earlier | range := scanBack_reads listed
      · obtain same | before := List.mem_cons.mp earlier
        · exact .inr (.inl same)
        · exact .inl before
      · exact .inr (.inr range)
    split at read
    · obtain listed | range := countArgs_reads read
      · obtain before | same | range := walked listed
        · exact .inl before
        · exact .inr (.inl same)
        · exact .inr (.inr (.inl range))
      · exact .inr (.inr (.inr ⟨by omega, range.2⟩))
    · obtain before | same | range := walked read
      · exact .inl before
      · exact .inr (.inl same)
      · exact .inr (.inr (.inl range))

/-- A search that found no function walks back from the entry of the file, and so reads no other entry. -/
theorem describe_unfound (addr : UInt32) (lfile : Int) (reads : List Int) (missing : rfun < lfun) :
    ∃ out, describe tables addr lfile lfun rfun reads = .ok out ∧ out.ret = 0 ∧ out.info.eipFnNarg = 0 ∧
      out.info.eipFnName = .unknown ∧ out.info.eipFnNamelen = 9 ∧ out.info.eipFile = fileAt tables lfile lfile ∧
      (∀ i ∈ reads, i ∈ out.reads) ∧ ∀ i ∈ out.reads, i ∈ reads ∨ lfile ≤ i ∧ i ≤ lfile := by
  have name : Cstring.strfind 58 (tables.bytes .unknown) = some 9 := by
    simp only [DebugTables.bytes]
    decide
  have unfound : ¬ lfun ≤ rfun := by omega
  have short : ¬ lfun < rfun := by omega
  simp only [describe, unfound, decide_false, Bool.false_eq_true, if_false, initialInfo, name, short, scanBack_fst]
  exact ⟨_, rfl, rfl, rfl, rfl, rfl, rfl, fun i earlier => scanBack_keeps earlier, fun i read => scanBack_reads read⟩

/-- The description never fails on a terminated string table, and keeps the earlier reads. -/
theorem describe_ok (addr : UInt32) (lfile lfun rfun : Int) (reads : List Int)
    (valid : tables.stabstr.getLast? = some 0) :
    ∃ out, describe tables addr lfile lfun rfun reads = .ok out ∧ (∀ i ∈ reads, i ∈ out.reads) ∧
      ∀ i ∈ out.reads, i ∈ reads ∨ (i = lfun ∧ lfun ≤ rfun) ∨ (lfile ≤ i ∧ i ≤ max lfile rfun) ∨
        lfun < i ∧ i < rfun := by
  by_cases found : lfun ≤ rfun
  · obtain ⟨out, same, _, _, _, _, _, _, keeps, range⟩ := describe_found addr lfile reads valid found
    refine ⟨out, same, keeps, fun i read => ?_⟩
    obtain before | equal | inside | after := range i read
    · exact .inl before
    · exact .inr (.inl ⟨equal, found⟩)
    · exact .inr (.inr (.inl ⟨inside.1, by omega⟩))
    · exact .inr (.inr (.inr after))
  · obtain ⟨out, same, _, _, _, _, _, keeps, range⟩ := describe_unfound addr lfile reads (not_le.mp found)
    refine ⟨out, same, keeps, fun i read => ?_⟩
    obtain before | inside := range i read
    · exact .inl before
    · exact .inr (.inr (.inl ⟨inside.1, by omega⟩))

/-- A file search that ends at index zero makes the call fail. -/
theorem debuginfoEip_unfound (kernel : ¬ addr < ulim) (valid : tables.stabstr.getLast? = some 0)
    (unfound : (stabBinsearch tables.stabs 0 (tables.stabCount - 1) nSo addr).regionLeft = 0) :
    debuginfoEip tables addr = .ok ⟨-1, initialInfo addr,
      (stabBinsearch tables.stabs 0 (tables.stabCount - 1) nSo addr).reads⟩ := by
  simp only [debuginfoEip, if_neg kernel, valid, ne_eq, not_true_eq_false, if_false, if_pos unfound]

/-- Any other file search makes the call describe the function search in that file. -/
theorem debuginfoEip_found (kernel : ¬ addr < ulim) (valid : tables.stabstr.getLast? = some 0)
    (found : (stabBinsearch tables.stabs 0 (tables.stabCount - 1) nSo addr).regionLeft ≠ 0) :
    let file := stabBinsearch tables.stabs 0 (tables.stabCount - 1) nSo addr
    let function := stabBinsearch tables.stabs file.regionLeft file.regionRight nFun addr
    debuginfoEip tables addr = describe tables addr file.regionLeft function.regionLeft function.regionRight
      (function.reads ++ file.reads) := by
  simp only [debuginfoEip, if_neg kernel, valid, ne_eq, not_true_eq_false, if_false, if_neg found]

/-- Every entry read lies in the stab table exactly when the file search does not underrun. -/
theorem debuginfoEip_reads_iff (tables : DebugTables) (addr : UInt32) (kernel : ulim ≤ addr)
    (valid : tables.stabstr.getLast? = some 0) :
    ∃ out, debuginfoEip tables addr = .ok out ∧
      ((∀ i ∈ out.reads, 0 ≤ i ∧ i < tables.stabCount) ↔
        ¬ Underruns tables.stabs nSo (tables.stabCount - 1) addr) := by
  have notUser : ¬ addr < ulim := UInt32.not_lt.mpr kernel
  have listed : ∀ i ∈ (stabBinsearch tables.stabs 0 (tables.stabCount - 1) nSo addr).reads,
      0 ≤ i ∧ i < tables.stabCount := by
    intro i read
    have := stabBinsearch_reads read
    omega
  have underrun := stabBinsearch_underrun tables.stabs (tables.stabCount - 1) nSo addr
  by_cases unfound : (stabBinsearch tables.stabs 0 (tables.stabCount - 1) nSo addr).regionLeft = 0
  · refine ⟨_, debuginfoEip_unfound notUser valid unfound, iff_of_true listed ?_⟩
    rw [← underrun]
    omega
  · have call := debuginfoEip_found notUser valid unfound
    have present : ∃ i, 0 ≤ i ∧ i ≤ (tables.stabCount : Int) - 1 ∧ Member tables.stabs nSo i := by
      by_contra absent
      exact unfound (stabBinsearch_unmatched_left addr fun i lower upper here =>
        absent ⟨i, lower, upper, here⟩)
    have fallen := stabBinsearch_fallen addr present
    obtain ⟨entry, lower, upper, here⟩ := present
    have range := stabBinsearch_range tables.stabs nSo addr (le_trans lower upper)
    have ordered : (stabBinsearch tables.stabs 0 (tables.stabCount - 1) nSo addr).regionLeft ≤
        (stabBinsearch tables.stabs 0 (tables.stabCount - 1) nSo addr).regionRight := by
      by_contra crossed
      exact stabBinsearch_crossed_iff.mp (not_le.mp crossed) entry lower upper here
    have inner := stabBinsearch_range tables.stabs nFun addr ordered
    have midpoint := stabBinsearch_reads_midpoint tables.stabs nFun addr ordered
    dsimp only at call range inner fallen
    generalize stabBinsearch tables.stabs 0 (tables.stabCount - 1) nSo addr = file at *
    have innerReads : ∀ i ∈ (stabBinsearch tables.stabs file.regionLeft file.regionRight nFun addr).reads,
        file.regionLeft ≤ i ∧ i ≤ file.regionRight := fun i read => stabBinsearch_reads read
    generalize stabBinsearch tables.stabs file.regionLeft file.regionRight nFun addr = function at *
    obtain ⟨out, same, keeps, reads⟩ := describe_ok addr file.regionLeft function.regionLeft
      function.regionRight (function.reads ++ file.reads) valid
    refine ⟨out, call.trans same, ?_⟩
    rw [← underrun]
    constructor
    · intro safe below
      have minusOne := keeps _ (List.mem_append_left _ midpoint)
      rw [below, fallen.mp below] at minusOne
      exact absurd (safe _ minusOne).1 (by decide)
    · intro above i read
      obtain earlier | ⟨equal, _⟩ | walked | counted := reads i read
      · obtain inFunction | inFile := List.mem_append.mp earlier
        · have := innerReads i inFunction
          omega
        · exact listed i inFile
      all_goals omega

/-- The read bound is settled for a table without source files. -/
theorem debuginfoEip_reads_iff_lines :
    let tables : DebugTables := ⟨fun _ => ⟨0, 0x44, 0xf0100000⟩, 3, [0]⟩
    ∃ out, debuginfoEip tables 0xf0100000 = .ok out ∧
      ((∀ i ∈ out.reads, 0 ≤ i ∧ i < tables.stabCount) ↔
        ¬ Underruns tables.stabs nSo (tables.stabCount - 1) 0xf0100000) :=
  debuginfoEip_reads_iff _ 0xf0100000 (by decide) rfl

/-- A table that starts with a source file above the address makes the function search read entry `-1`. -/
theorem debuginfoEip_reads_fails :
    let tables : DebugTables := ⟨fun i => if i = 0 then ⟨0, 0x64, 0xf0100040⟩ else ⟨0, 0, 0⟩, 1, [0]⟩
    ulim ≤ 0xf0100000 ∧ tables.stabstr.getLast? = some 0 ∧
      ∃ out, debuginfoEip tables 0xf0100000 = .ok out ∧
        ¬ ∀ i ∈ out.reads, 0 ≤ i ∧ i < tables.stabCount := by
  intro tables
  refine ⟨by decide, rfl, ?_⟩
  have reads : (debuginfoEip tables 0xf0100000).toOption.map EipResult.reads = some [-1, -1, 0] := by
    decide +kernel
  cases call : debuginfoEip tables 0xf0100000 with
  | error stuck =>
      rw [call] at reads
      simp [Except.toOption] at reads
  | ok out =>
      rw [call] at reads
      have listed : out.reads = [-1, -1, 0] := by simpa [Except.toOption] using reads
      refine ⟨out, rfl, fun safe => ?_⟩
      rw [listed] at safe
      exact absurd (safe (-1) (by decide)).1 (by decide)

end JosSmp.Kdebug
