import JosSmp.Proof.Kdebug.Debuginfo

/-!
This file proves that `debuginfo_eip` names the function around an address strictly inside it.
-/

namespace JosSmp.Kdebug
open Library

variable {stabs : Int → Stab} {type left right : Int} {addr : UInt32}

/-- An entry has one type. -/
theorem Member.type_unique {i other : Int} (first : Member stabs type i) (second : Member stabs other i) :
    type = other := by
  simp only [Member, Stab.hasType, decide_eq_true_eq] at first second
  exact first.symm.trans second

/-- A last entry strictly below the address leaves no exact match in a sorted region. -/
theorem noExact_of_greatest {g : Int} (sorted : Nondecreasing stabs type left right)
    (greatest : IsGreatest {i | left ≤ i ∧ i ≤ right ∧ Member stabs type i ∧ (stabs i).nValue ≤ addr} g)
    (strict : (stabs g).nValue < addr) : NoExact stabs type left right addr := by
  intro i lower upper here hit
  have before := greatest.2 ⟨lower, upper, here, by rw [hit]; exact UInt32.le_refl _⟩
  have order := sorted i g lower before greatest.1.2.1 here greatest.1.2.2.1
  rw [hit] at order
  exact UInt32.lt_irrefl _ (UInt32.lt_of_lt_of_le strict order)

/-- A hit brackets its own entry. -/
theorem Hit.ordered {out : Bracket} (contract : Hit stabs type left right addr out) :
    out.regionLeft ≤ out.regionRight := by
  rcases contract.next with ⟨⟨lower, _, _⟩, _⟩ | ⟨_, same⟩
  · omega
  · rw [same]
    exact contract.greatest.1.2.1

/-- The last `N_SOL` entry between the file and the function, or the file when there is none. -/
def NamesFile (tables : DebugTables) (file function named : Int) : Prop :=
  IsGreatest {i | file < i ∧ i < function ∧ Member tables.stabs nSol i} named ∨
    (∀ i, file < i → i < function → ¬ Member tables.stabs nSol i) ∧ named = file

/-- The backward walk from a function stops at the last `N_SOL` entry before it, or at its file. -/
theorem fileAt_eq {tables : DebugTables} {file fileEnd function named : Int}
    (fileMember : Member tables.stabs nSo file) (fileAddress : (tables.stabs file).nValue ≠ 0)
    (functionMember : Member tables.stabs nFun function) (inside : file < function) (within : function < fileEnd)
    (single : ∀ i, file < i → i < fileEnd → ¬ Member tables.stabs nSo i)
    (last : NamesFile tables file function named) : fileAt tables file function = tables.nameAt named .unknown := by
  have other : ∀ i, file < i → i ≤ function → ¬ Member tables.stabs nSol i →
      (namesFile ∘ tables.stabs) i = false := by
    intro i after upper plain
    have notFile := single i after (by omega)
    simp only [Member, Bool.not_eq_true] at plain notFile
    simp [namesFile, plain, notFile]
  have notNamed : ¬ Member tables.stabs nSol function := fun here =>
    absurd (functionMember.type_unique here) (by decide)
  have walked : lastBelow (namesFile ∘ tables.stabs) file function = named := by
    rcases last with ⟨⟨after, before, here⟩, greatest⟩ | ⟨none, same⟩
    · apply lastBelow_eq (by omega) (by omega)
      · simp only [Member] at here
        simp [namesFile, here]
      · intro j later upper
        apply other j (by omega) upper
        intro member
        rcases eq_or_lt_of_le upper with atFunction | earlier
        · exact notNamed (atFunction ▸ member)
        · have := greatest ⟨by omega, earlier, member⟩
          omega
    · rw [same]
      apply lastBelow_eq (le_refl _) (by omega)
      · simp only [Member] at fileMember
        simp [namesFile, fileMember, fileAddress]
      · intro j later upper
        apply other j later upper
        intro member
        rcases eq_or_lt_of_le upper with atFunction | earlier
        · exact notNamed (atFunction ▸ member)
        · exact none j later earlier member
  have bound : file ≤ named := by
    rcases last with ⟨⟨after, _, _⟩, _⟩ | ⟨_, same⟩ <;> omega
  rw [fileAt, walked, if_pos bound]

/-- The address lies strictly inside one function of one source file, and the stabs around it are sorted.
The entries of the file end before the next `N_SO` entry or with the table. -/
structure InsideFunction (tables : DebugTables) (addr : UInt32) (file fileEnd function : Int) : Prop where
  header : ¬ Member tables.stabs nSo 0
  files : Nondecreasing tables.stabs nSo 0 (tables.stabCount - 1)
  fileGreatest : IsGreatest {i | 0 ≤ i ∧ i ≤ (tables.stabCount : Int) - 1 ∧ Member tables.stabs nSo i ∧
    (tables.stabs i).nValue ≤ addr} file
  fileAddress : (tables.stabs file).nValue ≠ 0
  fileNext : IsNext tables.stabs nSo file (tables.stabCount - 1) fileEnd ∨
    (∀ i, file < i → i ≤ (tables.stabCount : Int) - 1 → ¬ Member tables.stabs nSo i) ∧
      fileEnd = tables.stabCount
  functions : Nondecreasing tables.stabs nFun (file + 1) (fileEnd - 1)
  above : ∀ i, file < i → i < fileEnd → Member tables.stabs nFun i →
    (tables.stabs file).nValue ≤ (tables.stabs i).nValue
  functionGreatest : IsGreatest {i | file < i ∧ i < fileEnd ∧ Member tables.stabs nFun i ∧
    (tables.stabs i).nValue ≤ addr} function
  inside : (tables.stabs function).nValue < addr

section Inside

variable {tables : DebugTables} {file fileEnd function named : Int}

theorem InsideFunction.fileEdge (placed : InsideFunction tables addr file fileEnd function) :
    RightEdge (Member tables.stabs nSo) (file + 1) (tables.stabCount - 1) (fileEnd - 1) := by
  rcases placed.fileNext with next | ⟨none, same⟩
  · exact next.edge
  · exact .inr ⟨fun i lower upper => none i (by omega) upper, by omega⟩

/-- No other source file starts before the end of the file. -/
theorem InsideFunction.single (placed : InsideFunction tables addr file fileEnd function) {i : Int}
    (after : file < i) (before : i < fileEnd) : ¬ Member tables.stabs nSo i := by
  intro here
  rcases placed.fileEdge with ⟨⟨_, top, _⟩, least⟩ | ⟨none, same⟩
  · have := least ⟨by omega, by omega, here⟩
    omega
  · exact none i (by omega) (by omega) here

/-- The file search brackets the file. -/
theorem InsideFunction.fileBracket (placed : InsideFunction tables addr file fileEnd function) :
    let out := stabBinsearch tables.stabs 0 (tables.stabCount - 1) nSo addr
    out.regionLeft = file ∧ out.regionRight = fileEnd - 1 := by
  obtain ⟨after, before, member, _⟩ := placed.functionGreatest.1
  have below : (tables.stabs file).nValue < addr :=
    UInt32.lt_of_le_of_lt (placed.above function after before member) placed.inside
  have contract := stabBinsearch_hit placed.files (noExact_of_greatest placed.files placed.fileGreatest below)
    ⟨file, placed.fileGreatest.1⟩
  have starts := contract.starts placed.fileGreatest
  refine ⟨starts, ?_⟩
  have next := contract.next
  rw [starts] at next
  exact next.unique placed.fileEdge

/-- The function search in the file starts its bracket at the function. -/
theorem InsideFunction.functionBracket (placed : InsideFunction tables addr file fileEnd function) :
    let out := stabBinsearch tables.stabs file (fileEnd - 1) nFun addr
    out.regionLeft = function ∧ out.regionLeft ≤ out.regionRight := by
  obtain ⟨⟨after, before, member, order⟩, last⟩ := placed.functionGreatest
  -- The file's own entry is no function, so the search region may start at it.
  have later : ∀ i, file ≤ i → Member tables.stabs nFun i → file + 1 ≤ i := by
    intro i lower here
    rcases eq_or_lt_of_le lower with same | beyond
    · exact absurd (placed.fileGreatest.1.2.2.1.type_unique (same ▸ here)) (by decide)
    · omega
  have sorted : Nondecreasing tables.stabs nFun file (fileEnd - 1) := fun i j lower step upper first second =>
    placed.functions i j (later i lower first) step upper first second
  have greatest : IsGreatest {i | file ≤ i ∧ i ≤ fileEnd - 1 ∧ Member tables.stabs nFun i ∧
      (tables.stabs i).nValue ≤ addr} function :=
    ⟨⟨by omega, by omega, member, order⟩, fun i ⟨lower, upper, here, value⟩ =>
      last ⟨by have := later i lower here; omega, by omega, here, value⟩⟩
  have contract := stabBinsearch_hit sorted (noExact_of_greatest sorted greatest placed.inside)
    ⟨function, greatest.1⟩
  exact ⟨contract.starts greatest, contract.ordered⟩

end Inside

/-- An address strictly inside a function gets that function's name, address and file. -/
theorem debuginfoEip_names (tables : DebugTables) (addr : UInt32) (file fileEnd function named : Int)
    (kernel : ulim ≤ addr) (valid : tables.stabstr.getLast? = some 0)
    (placed : InsideFunction tables addr file fileEnd function)
    (last : NamesFile tables file function named) :
    ∃ out, debuginfoEip tables addr = .ok out ∧ out.ret = 0 ∧
      out.info.eipFnAddr = (tables.stabs function).nValue ∧
      (if (tables.stabs function).nStrx.toNat < tables.stabstr.length then
        out.info.eipFnName = .stabstr (tables.stabs function).nStrx.toNat ∧
        out.info.eipFnNamelen = ((tables.stabstr.drop (tables.stabs function).nStrx.toNat).takeWhile
          fun b => b != 0 && b != 58).length
      else out.info.eipFnName = .unknown ∧ out.info.eipFnNamelen = 9) ∧
      (if (tables.stabs named).nStrx.toNat < tables.stabstr.length then
        out.info.eipFile = .stabstr (tables.stabs named).nStrx.toNat
      else out.info.eipFile = .unknown) := by
  obtain ⟨fileStart, fileStop⟩ := placed.fileBracket
  obtain ⟨functionStart, ordered⟩ := placed.functionBracket
  obtain ⟨after, before, member, _⟩ := placed.functionGreatest.1
  have fileMember := placed.fileGreatest.1.2.2.1
  have nonzero : file ≠ 0 := by
    intro same
    rw [same] at fileMember
    exact placed.header fileMember
  have call := debuginfoEip_found (UInt32.not_lt.mpr kernel) valid (by rw [fileStart]; exact nonzero)
  dsimp only at call
  rw [fileStart, fileStop] at call
  obtain ⟨out, same, ret, name, namelen, fnAddr, eipFile, _, _⟩ := describe_found addr file
    (_ ++ _) valid ordered
  refine ⟨out, call.trans same, ret, ?_, ?_, ?_⟩
  · rw [fnAddr, functionStart]
  · rw [name, namelen, functionStart, DebugTables.nameAt]
    split
    · exact ⟨rfl, rfl⟩
    · refine ⟨rfl, ?_⟩
      simp only [DebugTables.bytes]
      decide
  · rw [eipFile, functionStart,
      fileAt_eq fileMember placed.fileAddress member after before (fun _ => placed.single) last, DebugTables.nameAt]
    split <;> rfl

/-- A header, one source file with one included file, and two functions. -/
def twoFunctions : DebugTables where
  stabs i := if i = 1 then ⟨1, 0x64, 0xf0100000⟩ else if i = 2 then ⟨5, 0x84, 0xf0100004⟩
    else if i = 3 then ⟨9, 0x24, 0xf0100010⟩ else if i = 4 then ⟨0, 0x24, 0xf0100050⟩ else ⟨0, 0, 0⟩
  stabCount := 5
  stabstr := [0, 97, 46, 99, 0, 98, 46, 104, 0, 109, 97, 105, 110, 58, 70, 0]

theorem twoFunctions_inside : InsideFunction twoFunctions 0xf0100020 1 5 3 where
  header := by decide
  files i j lower step upper first second := by
    simp only [twoFunctions] at upper
    have start : 0 ≤ j := by omega
    interval_cases j <;> interval_cases i <;> decide
  fileGreatest := by
    refine ⟨by decide, fun i ⟨lower, upper, here, value⟩ => ?_⟩
    simp only [twoFunctions] at upper
    interval_cases i <;> first | decide | exact absurd here (by decide)
  fileAddress := by decide
  fileNext := .inr ⟨by
    intro i lower upper
    simp only [twoFunctions] at upper
    interval_cases i <;> decide, rfl⟩
  functions i j lower step upper first second := by
    have start : 2 ≤ j := by omega
    interval_cases j <;> interval_cases i <;> decide
  above i lower upper here := by
    interval_cases i <;> decide
  functionGreatest := by
    refine ⟨by decide, fun i ⟨lower, upper, here, value⟩ => ?_⟩
    interval_cases i <;> first | decide | exact absurd value (by decide)
  inside := by decide

/-- An address inside the first function is named after it and after the included file. -/
theorem debuginfoEip_names_twoFunctions :
    ∃ out, debuginfoEip twoFunctions 0xf0100020 = .ok out ∧ out.ret = 0 ∧
      out.info.eipFnAddr = (twoFunctions.stabs 3).nValue ∧
      (if (twoFunctions.stabs 3).nStrx.toNat < twoFunctions.stabstr.length then
        out.info.eipFnName = .stabstr (twoFunctions.stabs 3).nStrx.toNat ∧
        out.info.eipFnNamelen = ((twoFunctions.stabstr.drop (twoFunctions.stabs 3).nStrx.toNat).takeWhile
          fun b => b != 0 && b != 58).length
      else out.info.eipFnName = .unknown ∧ out.info.eipFnNamelen = 9) ∧
      (if (twoFunctions.stabs 2).nStrx.toNat < twoFunctions.stabstr.length then
        out.info.eipFile = .stabstr (twoFunctions.stabs 2).nStrx.toNat
      else out.info.eipFile = .unknown) := by
  apply debuginfoEip_names twoFunctions 0xf0100020 1 5 3 2 (by decide) rfl twoFunctions_inside
  refine .inl ⟨by decide, fun i ⟨lower, upper, here⟩ => ?_⟩
  interval_cases i
  decide

end JosSmp.Kdebug
