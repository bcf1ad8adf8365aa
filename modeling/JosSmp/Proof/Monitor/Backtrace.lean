import Mathlib.Data.List.Iterate
import Mathlib.Data.List.TakeWhile
import JosSmp.Library.Run
import JosSmp.Proof.Kdebug.Names
import JosSmp.Proof.Monitor.Messages

/-!
This file proves what `mon_backtrace` prints of a chain of stack frames, and when it ends.
-/

namespace JosSmp.Monitor
open Library Machine Console Kdebug Printfmt Cstring

section Place

variable {tables : DebugTables} {addr : UInt32} {info : Eipdebuginfo}

/-- What `debuginfo_eip` leaves in every case: no line number, two names that end, and the length of the function
name in front of its colon. -/
structure Described (tables : DebugTables) (info : Eipdebuginfo) : Prop where
  line : info.eipLine = 0
  file : InTable tables info.eipFile ∧ 0 ∈ tables.bytes info.eipFile
  name : InTable tables info.eipFnName ∧ 0 ∈ tables.bytes info.eipFnName
  namelen : info.eipFnNamelen = (functionText tables info.eipFnName).length

theorem described_initial (tables : DebugTables) (addr : UInt32) : Described tables (initialInfo addr) := by
  have unknown : 0 ∈ unknownName ∧ (9 : Int) = (unknownName.takeWhile fun b => b != 0 && b != 58).length := by
    decide +kernel
  exact ⟨rfl, ⟨.inl rfl, unknown.1⟩, ⟨.inl rfl, unknown.1⟩, unknown.2⟩

theorem describe_line {lfile lfun rfun : Int} {reads : List Int} {out : EipResult}
    (run : describe tables addr lfile lfun rfun reads = .ok out) : out.info.eipLine = 0 := by
  unfold describe at run
  dsimp only at run
  split at run
  · cases run
  · cases run
    dsimp only
    split <;> rfl

/-- Every kernel address is described, whatever the tables hold. -/
theorem debuginfoEip_described (tables : DebugTables) (kernel : ¬ addr < ulim) :
    ∃ out, debuginfoEip tables addr = .ok out ∧ Described tables out.info := by
  by_cases valid : tables.stabstr.getLast? = some 0
  · by_cases unfound : (stabBinsearch tables.stabs 0 (tables.stabCount - 1) nSo addr).regionLeft = 0
    · exact ⟨_, debuginfoEip_unfound kernel valid unfound, described_initial tables addr⟩
    have call := debuginfoEip_found kernel valid unfound
    dsimp only at call
    generalize stabBinsearch tables.stabs 0 (tables.stabCount - 1) nSo addr = file at call
    generalize stabBinsearch tables.stabs file.regionLeft file.regionRight nFun addr = function at call
    by_cases found : function.regionLeft ≤ function.regionRight
    · obtain ⟨out, same, _, name, namelen, _, fileName, _⟩ :=
        describe_found addr file.regionLeft (function.reads ++ file.reads) valid found
      have inFile := fileAt_inTable tables file.regionLeft function.regionLeft
      have inName := nameAt_inTable tables function.regionLeft
      refine ⟨out, call.trans same, describe_line same, ?_, ?_, ?_⟩
      · rw [fileName]
        exact ⟨inFile, inFile.terminated valid⟩
      · rw [name]
        exact ⟨inName, inName.terminated valid⟩
      · rw [name, namelen, functionText]
    · obtain ⟨out, same, _, _, name, namelen, fileName, _⟩ :=
        describe_unfound addr file.regionLeft (function.reads ++ file.reads) (not_le.mp found)
      have initial := described_initial tables addr
      have inFile := fileAt_inTable tables file.regionLeft file.regionLeft
      refine ⟨out, call.trans same, describe_line same, ?_, ?_, ?_⟩
      · rw [fileName]
        exact ⟨inFile, inFile.terminated valid⟩
      · rw [name]
        exact initial.name
      · rw [name, namelen]
        exact initial.namelen
  · refine ⟨⟨-1, initialInfo addr, []⟩, ?_, described_initial tables addr⟩
    rw [debuginfoEip, if_neg kernel, if_pos valid]

/-- A longer run of bytes starts with the shorter one. -/
theorem functionText_eq (tables : DebugTables) (name : NamePointer) :
    (nameText tables name).take (functionText tables name).length = functionText tables name := by
  have shorter : functionText tables name = (nameText tables name).takeWhile (· != 58) := by
    rw [functionText, nameText, List.takeWhile_takeWhile]
    congr 1
    funext b
    by_cases zero : b = 0 <;> by_cases colon : b = 58 <;> simp [zero, colon]
  rw [shorter]
  exact (List.prefix_iff_eq_take.mp (List.takeWhile_prefix _)).symm

/-- A place is printed with the names up to their ends. -/
theorem cprintf_place (object : tables.stabstr.length < 1073741824) (described : Described tables info) (eip : UInt32)
    (o : Output) :
    stdio.cprintf (literal "\t%s:%d: %.*s+%d\n")
      (arguments [1, UInt32.ofInt info.eipLine, UInt32.ofInt info.eipFnNamelen, 2, eip - info.eipFnAddr]
        [tables.bytes info.eipFile, tables.bytes info.eipFnName]) o = some (put (placeText tables eip info) o) := by
  let items : List Item := [plain "\t" (by decide +kernel), .directive stringSpec, plain ":" (by decide +kernel),
    .directive decimalSpec, plain ": " (by decide +kernel), .directive sliceSpec, plain "+" (by decide +kernel),
    .directive decimalSpec, plain "\n" (by decide +kernel)]
  let strings : List (List UInt8) := [tables.bytes info.eipFile, tables.bytes info.eipFnName]
  let offset : UInt32 := eip - info.eipFnAddr
  let namelen : UInt32 := UInt32.ofInt info.eipFnNamelen
  have short (name : NamePointer) (placed : InTable tables name) : (nameText tables name).length < 1073741824 := by
    have fewer : (nameText tables name).length ≤ (tables.bytes name).length :=
      (List.takeWhile_prefix _).length_le
    obtain rfl | ⟨start, _, rfl⟩ := placed
    · exact lt_of_le_of_lt fewer (show unknownName.length < 1073741824 by decide)
    · rw [DebugTables.bytes, List.length_drop] at fewer
      omega
  have first : stringArgument (arguments [1, UInt32.ofInt info.eipLine, namelen, 2, offset] strings) 0 =
      tables.bytes info.eipFile := rfl
  have second : stringArgument (arguments [namelen, 2, offset] strings) 1 = tables.bytes info.eipFnName := rfl
  have line : decimalText (UInt32.ofInt info.eipLine) = text "0" := by
    rw [described.line]
    decide +kernel
  have size : signedWord namelen = (functionText tables info.eipFnName).length := by
    have bits : (namelen.toNat : Int) = info.eipFnNamelen % 4294967296 := toNat_ofInt info.eipFnNamelen
    have fewer : (functionText tables info.eipFnName).length ≤ (nameText tables info.eipFnName).length := by
      rw [← functionText_eq, List.length_take]
      exact Nat.min_le_right _ _
    have bound := short _ described.name.1
    have length := described.namelen
    unfold signedWord wrap32
    omega
  have slice : cut (nameText tables info.eipFnName) (signedWord namelen) = functionText tables info.eipFnName := by
    have nonneg : ¬ ((functionText tables info.eipFnName).length : Int) < 0 := by omega
    rw [size, cut, if_neg nonneg, Int.toNat_natCast]
    exact functionText_eq tables info.eipFnName
  refine cprintf_items items o (by decide +kernel) ?_ ?_
  · simp only [items, FormatValid, Item.Valid, Item.words, plain, arguments_advance, stringSpec_words,
      decimalSpec_words,
      sliceSpec_words, List.drop_succ_cons, List.drop_zero, and_true, true_and]
    refine ⟨stringSpec_valid ?_ ?_, decimalSpec_valid, sliceSpec_valid ?_ ?_, decimalSpec_valid⟩
    · exact first.symm ▸ described.file.2
    · exact short _ described.file.1
    · exact second.symm ▸ described.name.2
    · exact short _ described.name.1
  · simp only [items, formatPrinted, Item.printed, Item.words, plain, arguments_advance, stringSpec_words,
      decimalSpec_words, sliceSpec_words, stringSpec_printed, decimalSpec_printed, sliceSpec_printed,
      List.drop_succ_cons, List.drop_zero, List.append_nil]
    change text "\t" ++ (shownString (nameText tables info.eipFile) ++ (text ":" ++
      (decimalText (UInt32.ofInt info.eipLine) ++ (text ": " ++
        (shownString (cut (nameText tables info.eipFnName) (signedWord namelen)) ++
          (text "+" ++ (decimalText offset ++ text "\n"))))))) = _
    have middle : text ":0: " = text ":" ++ (text "0" ++ text ": ") := by decide +kernel
    rw [line, slice, placeText, middle]
    simp only [List.append_assoc]
    rfl

end Place

section Loop

variable {tables : DebugTables} {word : UInt32 → UInt32} {ebp : UInt32} {count fuel : Nat}

/-- The loop goes on behind a frame: the end of the chain is not reached, and the return address is a kernel
address. -/
def Walks (word : UInt32 → UInt32) (ebp : UInt32) : Prop := ebp ≠ 0 ∧ ¬ word (ebp + 4) < ulim

/-- The place of a return address. -/
def placeOf (tables : DebugTables) (eip : UInt32) : List Int :=
  match debuginfoEip tables eip with
  | .ok out => placeText tables eip out.info
  | .error _ => []

/-- Both lines about each frame that the loop goes on behind, and the first line about a frame at which it
panics. -/
def traceText (tables : DebugTables) (word : UInt32 → UInt32) (ebp : UInt32) (count : Nat) : List Int :=
  (List.iterate word ebp count).flatMap (fun ebp => frameText word ebp ++ placeOf tables (word (ebp + 4))) ++
    if word^[count] ebp = 0 then [] else frameText word (word^[count] ebp)

theorem traceText_succ :
    traceText tables word ebp (count + 1) =
      frameText word ebp ++ placeOf tables (word (ebp + 4)) ++ traceText tables word (word ebp) count := by
  rw [traceText, List.iterate, List.flatMap_cons, List.append_assoc]
  rfl

/-- One pass prints both lines and goes on with the saved frame pointer. -/
theorem backtraceLoop_walks (object : tables.stabstr.length < 1073741824) (walks : Walks word ebp) (o : Output) :
    backtraceLoop tables word (fuel + 1) ebp o =
      backtraceLoop tables word fuel (word ebp)
        (put (frameText word ebp ++ placeOf tables (word (ebp + 4))) o) := by
  obtain ⟨out, call, described⟩ := debuginfoEip_described tables walks.2
  have place : placeOf tables (word (ebp + 4)) = placeText tables (word (ebp + 4)) out.info := by
    rw [placeOf, call]
  rw [backtraceLoop, if_pos walks.1, cprintf_frame]
  dsimp only
  rw [call]
  dsimp only
  rw [cprintf_place object described, place, put_append]

/-- The loop ends at the end of the chain, or it panics at a user address. -/
theorem backtraceLoop_stops (stops : ¬ Walks word ebp) (o : Output) :
    backtraceLoop tables word (fuel + 1) ebp o =
      some (decide (ebp ≠ 0), put (if ebp = 0 then [] else frameText word ebp) o) := by
  rw [backtraceLoop]
  by_cases zero : ebp = 0
  · simp only [zero, ne_eq, not_true_eq_false, if_false, decide_false, if_true, put_nil]
  · have user : word (ebp + 4) < ulim := not_not.mp fun kernel => stops ⟨zero, kernel⟩
    have stuck : debuginfoEip tables (word (ebp + 4)) = .error .userAddress := if_pos user
    rw [if_pos zero, cprintf_frame]
    dsimp only
    rw [stuck, if_neg zero, decide_eq_true zero]

/-- A chain that ends is printed frame by frame. -/
theorem backtraceLoop_passes (object : tables.stabstr.length < 1073741824) (passes : Passes word (Walks word) ebp count)
    (enough : count < fuel) (o : Output) :
    backtraceLoop tables word fuel ebp o =
      some (decide (word^[count] ebp ≠ 0), put (traceText tables word ebp count) o) := by
  induction count generalizing ebp fuel o with
  | zero =>
      obtain ⟨fuel, rfl⟩ := Nat.exists_eq_succ_of_ne_zero (Nat.ne_of_gt enough)
      exact backtraceLoop_stops (passes_zero.mp passes) o
  | succ count ih =>
      obtain ⟨fuel, rfl⟩ := Nat.exists_eq_succ_of_ne_zero (Nat.ne_of_gt (Nat.zero_lt_of_lt enough))
      obtain ⟨walks, later⟩ := passes_succ.mp passes
      rw [backtraceLoop_walks object walks, ih later (Nat.lt_of_succ_lt_succ enough)]
      rw [Function.iterate_succ_apply]
      simp only [traceText_succ, put_append]

/-- A chain that does not end keeps the loop going. -/
theorem backtraceLoop_always (object : tables.stabstr.length < 1073741824) (always : ∀ k, Walks word (word^[k] ebp))
    (o : Output) : backtraceLoop tables word fuel ebp o = none := by
  induction fuel generalizing ebp o with
  | zero => rfl
  | succ fuel ih =>
      have first : Walks word ebp := always 0
      rw [backtraceLoop_walks object first]
      exact ih (fun k => always (k + 1)) _

end Loop

/-- `mon_backtrace` prints the frames of the chain in order, with the place of each return address, up to the end of
the chain, where it returns, or up to a return address below `ULIM`, where it panics. Otherwise it never ends. -/
theorem monBacktrace_prints (tables : DebugTables) (stack : Stack) (o : Output)
    (object : tables.stabstr.length < 1073741824) :
    (∀ count, Passes stack.word (Walks stack.word) stack.ebp count → ∀ fuel, count < fuel →
      monBacktrace tables fuel stack o =
        some (decide (stack.word^[count] stack.ebp ≠ 0), put (traceText tables stack.word stack.ebp count) o)) ∧
      ((∃ fuel, monBacktrace tables fuel stack o ≠ none) ↔ ∃ k, ¬ Walks stack.word (stack.word^[k] stack.ebp)) := by
  have ended (count : Nat) (passes : Passes stack.word (Walks stack.word) stack.ebp count) (fuel : Nat)
      (enough : count < fuel) : monBacktrace tables fuel stack o =
        some (decide (stack.word^[count] stack.ebp ≠ 0), put (traceText tables stack.word stack.ebp count) o) :=
    backtraceLoop_passes object passes enough o
  refine ⟨ended, ?_, ?_⟩
  · rintro ⟨fuel, returns⟩
    by_contra never
    have always (k : Nat) : Walks stack.word (stack.word^[k] stack.ebp) := not_not.mp fun stops => never ⟨k, stops⟩
    exact returns (backtraceLoop_always object always o)
  · rintro ⟨k, stops⟩
    obtain ⟨count, passes⟩ | always := passes_or_always stack.word (Walks stack.word) stack.ebp
    · refine ⟨count + 1, ?_⟩
      rw [ended count passes _ (Nat.lt_succ_self count)]
      exact Option.some_ne_none _
    · exact absurd (always k) stops

/-- The chain has one frame, and the tables know no function. -/
theorem monBacktrace_prints_one :
    let tables : DebugTables := ⟨fun _ => ⟨0, 0, 0⟩, 0, [0]⟩
    let stack : Stack := ⟨0xF010FFD8, fun a => if a = 0xF010FFD8 then 0 else 0xF0100040⟩
    let o : Output := ⟨0x3D4, 0xF00B8000, 0, ⟨fun _ => 0, []⟩, fun _ _ => 0xFF, 0, []⟩
    Passes stack.word (Walks stack.word) stack.ebp 1 ∧
      monBacktrace tables 2 stack o =
        some (decide (stack.word^[1] stack.ebp ≠ 0), put (traceText tables stack.word stack.ebp 1) o) ∧
      stack.word^[1] stack.ebp = 0 := by
  let stack : Stack := ⟨0xF010FFD8, fun a => if a = 0xF010FFD8 then 0 else 0xF0100040⟩
  have one : Passes stack.word (Walks stack.word) stack.ebp 1 :=
    passes_succ.mpr ⟨by unfold Walks; decide, passes_zero.mpr (by unfold Walks; decide)⟩
  have prints := monBacktrace_prints ⟨fun _ => ⟨0, 0, 0⟩, 0, [0]⟩ stack
    ⟨0x3D4, 0xF00B8000, 0, ⟨fun _ => 0, []⟩, fun _ _ => 0xFF, 0, []⟩ (by decide +kernel)
  exact ⟨one, prints.1 1 one 2 (by decide), by decide⟩

end JosSmp.Monitor
