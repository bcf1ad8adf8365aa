import JosSmp.Library.Bisection
import JosSmp.Construction.Lib.String

/-!
This file models `kern/kdebug.c`.
A stab index is an `Int`, because both tables lie between `KERNBASE` and the end of the address space.
-/

namespace JosSmp.Kdebug

/-- A stab entry keeps the fields that `kern/kdebug.c` reads. -/
structure Stab where
  nStrx : UInt32
  nType : UInt8
  nValue : UInt32
  deriving DecidableEq, Repr, Inhabited

def nFun : Int := 0x24
def nSo : Int := 0x64
def nSol : Int := 0x84
def nPsym : Int := 0xa0

def kernbase : UInt32 := 0xF0000000
def ptsize : UInt32 := 4096 * 1024
def ulim : UInt32 := kernbase - ptsize - ptsize

def Stab.hasType (type : Int) (stab : Stab) : Bool := (stab.nType.toNat : Int) = type

/-- Each backward loop decrements `m` while it is at or above `floor` and `stop` fails.
The list collects the indices of the entries it reads. -/
def scanBack (stop : Stab → Bool) (stabs : Int → Stab) (floor m : Int) (reads : List Int) :
    Int × List Int :=
  if floor ≤ m then
    if stop (stabs m) then (m, m :: reads) else scanBack stop stabs floor (m - 1) (m :: reads)
  else (m, reads)
termination_by (m + 1 - floor).toNat

/-- The local variables of `stab_binsearch`, with the two variables its pointers address. -/
structure Search where
  regionLeft : Int
  regionRight : Int
  l : Int
  r : Int
  anyMatches : Bool
  addr : UInt32
  reads : List Int
  deriving DecidableEq, Repr

/-- This is the midpoint that one pass of the search probes from. -/
def Search.trueM (s : Search) : Int := (s.l + s.r).tdiv 2

/-- One pass of the outer loop moves one end of the interval or raises the address. -/
def Search.step (stabs : Int → Stab) (type : Int) (s : Search) : Search :=
  let probe := scanBack (Stab.hasType type) stabs s.l s.trueM s.reads
  let m := probe.1
  if m < s.l then
    { s with reads := probe.2, l := s.trueM + 1 }
  else if (stabs m).nValue < s.addr then
    { s with reads := probe.2, anyMatches := true, regionLeft := m, l := s.trueM + 1 }
  else if s.addr < (stabs m).nValue then
    { s with reads := probe.2, anyMatches := true, regionRight := m - 1, r := m - 1 }
  else
    { s with reads := probe.2, anyMatches := true, regionLeft := m, l := m, addr := s.addr + 1 }

/-- The left end may still hold an exact match for the current address. -/
def Search.pending (stabs : Int → Stab) (type : Int) (s : Search) : Nat :=
  if (stabs s.l).hasType type ∧ (stabs s.l).nValue = s.addr then 1 else 0

/-- An exact match at the left end keeps the interval but clears `pending`. -/
def Search.measure (stabs : Int → Stab) (type : Int) (s : Search) : Nat :=
  2 * (s.r + 1 - s.l).toNat + s.pending stabs type

theorem Search.pending_le_one (stabs : Int → Stab) (type : Int) (s : Search) :
    s.pending stabs type ≤ 1 := by
  unfold pending
  split <;> omega

/-- The truncated midpoint lies in the interval. -/
theorem Search.trueM_bounds {s : Search} (nonempty : s.l ≤ s.r) : s.l ≤ s.trueM ∧ s.trueM ≤ s.r := by
  unfold trueM
  have positive : Int.sign 2 = 1 := rfl
  rw [Int.tdiv_eq_ediv, positive]
  split <;> omega

/-- The loop finds the last entry at or below `m` for which `stop` holds. -/
theorem scanBack_fst (stop : Stab → Bool) (stabs : Int → Stab) (floor m : Int) (reads : List Int) :
    (scanBack stop stabs floor m reads).1 = Library.lastBelow (stop ∘ stabs) floor m := by
  fun_induction scanBack stop stabs floor m reads with
  | case1 m reads inside here => rw [Library.lastBelow, if_pos inside, if_pos (by simpa using here)]
  | case2 m reads inside absent ih =>
      rw [Library.lastBelow, if_pos inside, if_neg (by simpa using absent), ih]
  | case3 m reads outside => rw [Library.lastBelow, if_neg outside]

/-- The entry on which one pass of the search lands. -/
def Search.probe (stabs : Int → Stab) (type : Int) (s : Search) : Int :=
  Library.lastBelow (Stab.hasType type ∘ stabs) s.l s.trueM

/-- Every pass takes one of four branches. -/
theorem Search.step_cases (stabs : Int → Stab) (type : Int) (s : Search) :
    let next := s.step stabs type
    let m := s.probe stabs type
    let reads := (scanBack (Stab.hasType type) stabs s.l s.trueM s.reads).2
    (m < s.l ∧ next = { s with reads, l := s.trueM + 1 }) ∨
    (s.l ≤ m ∧ (stabs m).nValue < s.addr ∧
      next = { s with reads, anyMatches := true, regionLeft := m, l := s.trueM + 1 }) ∨
    (s.l ≤ m ∧ s.addr < (stabs m).nValue ∧
      next = { s with reads, anyMatches := true, regionRight := m - 1, r := m - 1 }) ∨
    (s.l ≤ m ∧ (stabs m).nValue = s.addr ∧
      next = { s with reads, anyMatches := true, regionLeft := m, l := m, addr := s.addr + 1 }) := by
  simp only [step, probe, scanBack_fst]
  split
  · exact .inl ⟨‹_›, rfl⟩
  · split
    · exact .inr (.inl ⟨not_lt.mp ‹_›, ‹_›, rfl⟩)
    · split
      · exact .inr (.inr (.inl ⟨not_lt.mp ‹_›, ‹_›, rfl⟩))
      · exact .inr (.inr (.inr ⟨not_lt.mp ‹_›,
          UInt32.le_antisymm (UInt32.not_lt.mp ‹_›) (UInt32.not_lt.mp ‹_›), rfl⟩))

/-- The probed entry lies at or below the midpoint. -/
theorem Search.probe_le (stabs : Int → Stab) (type : Int) (s : Search) :
    s.probe stabs type ≤ s.trueM := Library.lastBelow_le _ _ _

theorem Search.addr_succ_ne (addr : UInt32) : addr ≠ addr + 1 := by
  intro same
  have := congrArg UInt32.toNat same
  simp only [UInt32.toNat_add, UInt32.toNat_one] at this
  omega

/-- Every pass decreases the measure, whatever the table holds. -/
theorem Search.step_measure {stabs : Int → Stab} {type : Int} {s : Search} (nonempty : s.l ≤ s.r) :
    (s.step stabs type).measure stabs type < s.measure stabs type := by
  have bounds := s.trueM_bounds nonempty
  have below := s.probe_le stabs type
  have after := (s.step stabs type).pending_le_one stabs type
  unfold measure
  rcases s.step_cases stabs type with
    ⟨_, next⟩ | ⟨_, _, next⟩ | ⟨_, _, next⟩ | ⟨atLeast, hit, next⟩
  · rw [next] at after ⊢
    dsimp only at after ⊢
    omega
  · rw [next] at after ⊢
    dsimp only at after ⊢
    omega
  · rw [next] at after ⊢
    dsimp only at after ⊢
    omega
  · have raised : (s.step stabs type).pending stabs type = 0 := by
      rw [next, pending, if_neg]
      rintro ⟨_, again⟩
      exact addr_succ_ne s.addr (hit.symm.trans again)
    rw [raised, next]
    dsimp only
    rcases eq_or_lt_of_le atLeast with same | moved
    · have here : s.pending stabs type = 1 := by
        have found := Library.lastBelow_member (Stab.hasType type ∘ stabs) s.l s.trueM atLeast
        change (stabs (s.probe stabs type)).hasType type = true at found
        rw [pending, if_pos]
        rw [same]
        exact ⟨found, hit⟩
      omega
    · omega

/-- This is the outer loop of `stab_binsearch`. -/
def Search.loop (stabs : Int → Stab) (type : Int) (s : Search) : Search :=
  if s.l ≤ s.r then (s.step stabs type).loop stabs type else s
termination_by s.measure stabs type
decreasing_by exact Search.step_measure ‹_›

/-- The final values of the two variables that `stab_binsearch` updates, and the entries it read. -/
structure Bracket where
  regionLeft : Int
  regionRight : Int
  reads : List Int
  deriving DecidableEq, Repr

def Search.initial (regionLeft regionRight : Int) (addr : UInt32) : Search where
  regionLeft := regionLeft
  regionRight := regionRight
  l := regionLeft
  r := regionRight
  anyMatches := false
  addr := addr
  reads := []

def stabBinsearch (stabs : Int → Stab) (regionLeft regionRight type : Int) (addr : UInt32) : Bracket :=
  let s := (Search.initial regionLeft regionRight addr).loop stabs type
  if s.anyMatches then
    let last := scanBack (Stab.hasType type) stabs (s.regionLeft + 1) s.regionRight s.reads
    ⟨last.1, s.regionRight, last.2⟩
  else ⟨s.regionLeft, s.regionLeft - 1, s.reads⟩

/-- The pointers that `struct Eipdebuginfo` receives address a literal or the string table. -/
inductive NamePointer where
  | unknown
  | stabstr (offset : Nat)
  deriving DecidableEq, Repr

structure Eipdebuginfo where
  eipFile : NamePointer
  eipLine : Int
  eipFnName : NamePointer
  eipFnNamelen : Int
  eipFnAddr : UInt32
  eipFnNarg : Int
  deriving DecidableEq, Repr

/-- The linker bounds the stab table and the string table; an index outside the stab table reads
whatever lies there. -/
structure DebugTables where
  stabs : Int → Stab
  stabCount : Nat
  stabstr : List UInt8

/-- The bytes of the literal `"<unknown>"`. -/
def unknownName : List UInt8 := [60, 117, 110, 107, 110, 111, 119, 110, 62, 0]

/-- The readable bytes from a name pointer on. -/
def DebugTables.bytes (tables : DebugTables) : NamePointer → List UInt8
  | .unknown => unknownName
  | .stabstr offset => tables.stabstr.drop offset

/-- A call does not return when the address is a user address or a name has no end in the table. -/
inductive Stuck where
  | userAddress
  | unterminatedName
  deriving DecidableEq, Repr

structure EipResult where
  ret : Int
  info : Eipdebuginfo
  reads : List Int
  deriving DecidableEq, Repr

/-- A string index is checked against the size of the string table. -/
def DebugTables.nameAt (tables : DebugTables) (index : Int) (otherwise : NamePointer) : NamePointer :=
  if (tables.stabs index).nStrx.toNat < tables.stabstr.length then
    .stabstr (tables.stabs index).nStrx.toNat
  else otherwise

/-- The backward file-name walk stops at an `N_SOL` entry or at an `N_SO` entry with an address. -/
def namesFile (stab : Stab) : Bool :=
  stab.hasType nSol || (stab.hasType nSo && stab.nValue != 0)

/-- The last loop counts `N_PSYM` entries from `lline` up to, and without, `rfun`. -/
def countArgs (stabs : Int → Stab) (rfun lline narg : Int) (reads : List Int) : Int × List Int :=
  if lline < rfun then
    if (stabs lline).hasType nPsym then countArgs stabs rfun (lline + 1) (narg + 1) (lline :: reads)
    else (narg, lline :: reads)
  else (narg, reads)
termination_by (rfun - lline).toNat

def initialInfo (addr : UInt32) : Eipdebuginfo where
  eipFile := .unknown
  eipLine := 0
  eipFnName := .unknown
  eipFnNamelen := 9
  eipFnAddr := addr
  eipFnNarg := 0

/-- The part of `debuginfo_eip` after both searches, with the entries read so far. -/
def describe (tables : DebugTables) (addr : UInt32) (lfile lfun rfun : Int) (reads : List Int) :
    Except Stuck EipResult :=
  let info := initialInfo addr
  let found := decide (lfun ≤ rfun)
  let info := if found then
      { info with
        eipFnName := tables.nameAt lfun info.eipFnName
        eipFnAddr := (tables.stabs lfun).nValue }
    else { info with eipFnAddr := addr }
  let reads := if found then lfun :: reads else reads
  let lline := if found then lfun else lfile
  match Cstring.strfind 58 (tables.bytes info.eipFnName) with
  | none => .error .unterminatedName
  | some namelen =>
    let walked := scanBack namesFile tables.stabs lfile lline reads
    let info := { info with
      eipFnNamelen := namelen
      eipFile := if lfile ≤ walked.1 then tables.nameAt walked.1 info.eipFile else info.eipFile }
    let args := if lfun < rfun then countArgs tables.stabs rfun (lfun + 1) 0 walked.2 else (0, walked.2)
    .ok ⟨0, { info with eipFnNarg := args.1 }, args.2⟩

def debuginfoEip (tables : DebugTables) (addr : UInt32) : Except Stuck EipResult :=
  if addr < ulim then .error .userAddress
  else if tables.stabstr.getLast? ≠ some 0 then .ok ⟨-1, initialInfo addr, []⟩
  else
    let file := stabBinsearch tables.stabs 0 (tables.stabCount - 1) nSo addr
    if file.regionLeft = 0 then .ok ⟨-1, initialInfo addr, file.reads⟩
    else
      let function := stabBinsearch tables.stabs file.regionLeft file.regionRight nFun addr
      describe tables addr file.regionLeft function.regionLeft function.regionRight
        (function.reads ++ file.reads)

end JosSmp.Kdebug
