import JosSmp.Proof.Kdebug.Debuginfo
import JosSmp.Proof.Printfmt.Precision

/-!
This file proves that the names of `debuginfo_eip` are slices of the string table, and that they are printed within it.
-/

namespace JosSmp.Kdebug
open Machine Printfmt

/-- Behind `n` bytes stands the first one of the bytes that end a text. -/
def StopsAt (ends bytes : List UInt8) (n : Nat) : Prop :=
  (∃ b ∈ ends, bytes[n]? = some b) ∧ ∀ b ∈ bytes.take n, b ∉ ends

section Texts

variable {ends bytes : List UInt8} {n : Nat}

theorem StopsAt.inside (stops : StopsAt ends bytes n) : n < bytes.length := by
  obtain ⟨⟨b, _, here⟩, _⟩ := stops
  exact (List.getElem?_eq_some_iff.mp here).1

/-- A text with an end among its bytes stops. -/
theorem exists_stopsAt (ends : List UInt8) {last : UInt8} (member : last ∈ ends) (present : last ∈ bytes) :
    ∃ n, StopsAt ends bytes n := by
  induction bytes with
  | nil => exact absurd present (List.not_mem_nil)
  | cons b rest ih =>
      by_cases here : b ∈ ends
      · exact ⟨0, ⟨b, here, rfl⟩, nofun⟩
      · have later : last ∈ rest := (List.mem_cons.mp present).resolve_left fun same => here (same ▸ member)
        obtain ⟨n, stop, before⟩ := ih later
        exact ⟨n + 1, stop, List.forall_mem_cons.mpr ⟨here, before⟩⟩

/-- `strfind` reads up to the byte at which it stops. -/
theorem strfind_stopsAt {c : UInt8} (stops : StopsAt [c, 0] bytes n) (rest : List UInt8) :
    Cstring.strfind c (bytes.take (n + 1) ++ rest) = some n := by
  induction bytes generalizing n with
  | nil => exact absurd stops.inside (Nat.not_lt_zero n)
  | cons b bytes ih =>
      cases n with
      | zero =>
          obtain ⟨⟨last, member, here⟩, _⟩ := stops
          obtain rfl : b = last := Option.some.inj here
          simp only [List.mem_cons, List.not_mem_nil, or_false] at member
          obtain rfl | rfl := member <;> simp [Cstring.strfind]
      | succ n =>
          obtain ⟨stop, before⟩ := stops
          obtain ⟨other, before⟩ := List.forall_mem_cons.mp before
          simp only [List.mem_cons, List.not_mem_nil, or_false, not_or] at other
          rw [List.take_succ_cons, List.cons_append, Cstring.strfind, if_neg other.2, if_neg other.1,
            ih ⟨stop, before⟩]
          rfl

/-- The bytes of a text and the byte behind them. -/
theorem StopsAt.split (stops : StopsAt ends bytes n) : ∃ b ∈ ends, bytes.take (n + 1) = bytes.take n ++ b :: [] := by
  obtain ⟨b, member, here⟩ := stops.1
  exact ⟨b, member, by rw [List.take_add_one, here]; rfl⟩

end Texts

section Printed

variable {bytes : List UInt8} {n : Nat} {env : Environment}

/-- `%.*s` prints a slice and reads the byte behind it. -/
theorem output_slice {ends : List UInt8} (stops : StopsAt ends bytes n) (zero : 0 ∈ ends)
    (precision : signedWord (env.word 0) = n) (pointer : env.word 1 ≠ 0)
    (readable : env.bytes (env.word 1) = bytes.take (n + 1)) :
    output (Cstring.literal "%.*s") env = some ((bytes.take n).map signedChar) := by
  have format : Cstring.literal "%.*s" = precisionFormat [] .absent (ascii 's') := by decide
  have noFlags : ∀ b ∈ ([] : List UInt8), isSetting b := nofun
  have noWords : Width.words .absent = 0 := rfl
  have noWidth : (precisionDirective env [] .absent).width = 0 := rfl
  have bounds := wrap32_range (env.word 0).toNat
  rw [← signedWord, precision] at bounds
  have length : (bytes.take n).length = n := List.length_take_of_le (Nat.le_of_lt stops.inside)
  obtain ⟨b, _, split⟩ := stops.split
  have text : IsText (bytes.take n ++ [b]) (precisionDirective env [] .absent).precision (bytes.take n) := by
    refine ⟨fun member => stops.2 0 member zero, b, [], rfl, .inr ?_⟩
    rw [precisionDirective_precision, noWords, precision, length]
  rw [format, output_precision env .absent noFlags, noWords, stringArgument, if_neg pointer, readable, split]
  exact printString_bare text (precisionDirective_inRange env [] .absent) (le_of_eq noWidth) rfl
    (by rw [length, noWidth]; omega)

/-- `%s` prints a text up to its zero. -/
theorem output_text (stops : StopsAt [0] bytes n) (object : n < 2147483648) (pointer : env.word 0 ≠ 0)
    (readable : env.bytes (env.word 0) = bytes.take (n + 1)) :
    output (Cstring.literal "%s") env = some ((bytes.take n).map signedChar) := by
  have format : Cstring.literal "%s" = ascii '%' :: [ascii 's', 0] := by decide
  have length : (bytes.take n).length = n := List.length_take_of_le (Nat.le_of_lt stops.inside)
  obtain ⟨b, member, split⟩ := stops.split
  obtain rfl := List.mem_singleton.mp member
  have text : IsText (bytes.take n ++ [0]) Directive.initial.precision (bytes.take n) :=
    ⟨fun member => stops.2 0 member (List.mem_singleton.mpr rfl), 0, [], rfl, .inl ⟨rfl, .inl (by decide)⟩⟩
  have range : Directive.initial.InRange := ⟨by decide, by decide⟩
  have width : Directive.initial.width = -1 := rfl
  have read : reswitch env .initial 0 ⟨[ascii '%'], [ascii 's', 0]⟩ =
      some (.initial, 0, ascii 's', ⟨[ascii 's', ascii '%'], [0]⟩) :=
    reswitch_end (by decide)
  rw [format, output_string read, stringArgument, if_neg pointer, readable, split]
  exact printString_bare text range (by decide) rfl (by rw [length, width]; omega)

end Printed

section Info

variable {tables : DebugTables} {name : NamePointer}

/-- A name is the literal, or it starts inside the string table. -/
def InTable (tables : DebugTables) (name : NamePointer) : Prop :=
  name = .unknown ∨ ∃ offset < tables.stabstr.length, name = .stabstr offset

theorem nameAt_inTable (tables : DebugTables) (index : Int) : InTable tables (tables.nameAt index .unknown) := by
  unfold DebugTables.nameAt
  split
  · rename_i inside
    exact .inr ⟨_, inside, rfl⟩
  · exact .inl rfl

theorem fileAt_inTable (tables : DebugTables) (lfile lline : Int) : InTable tables (fileAt tables lfile lline) := by
  unfold fileAt
  split
  · exact nameAt_inTable tables _
  · exact .inl rfl

/-- A name ends in the table. -/
theorem InTable.terminated (valid : tables.stabstr.getLast? = some 0) (placed : InTable tables name) :
    0 ∈ tables.bytes name := by
  obtain rfl | ⟨offset, inside, rfl⟩ := placed
  · exact show 0 ∈ unknownName by decide
  · apply List.mem_of_getLast?
    rw [DebugTables.bytes, List.getLast?_drop, if_neg (by omega), valid]

theorem InTable.length_lt (object : tables.stabstr.length < 2147483648) (placed : InTable tables name) :
    (tables.bytes name).length < 2147483648 := by
  obtain rfl | ⟨offset, _, rfl⟩ := placed
  · exact show unknownName.length < 2147483648 by decide
  · rw [DebugTables.bytes, List.length_drop]
    omega

/-- A function name starts in the table and has the length up to its first colon or zero, which `strfind` finds without
reading on, and which is the last byte that is read to print it. -/
structure SafeName (tables : DebugTables) (name : NamePointer) (namelen : Int) : Prop where
  placed : InTable tables name
  literal : name = .unknown → namelen = 9
  slice : ∃ n : Nat, namelen = n ∧ StopsAt [58, 0] (tables.bytes name) n ∧
    Cstring.strfind 58 ((tables.bytes name).take (n + 1)) = some n ∧
    ∀ env : Environment, signedWord (env.word 0) = n → env.word 1 ≠ 0 →
      env.bytes (env.word 1) = (tables.bytes name).take (n + 1) →
      output (Cstring.literal "%.*s") env = some (((tables.bytes name).take n).map signedChar)

/-- A file name starts in the table, and its zero is the last byte that is read to print it. -/
structure SafeFile (tables : DebugTables) (name : NamePointer) : Prop where
  placed : InTable tables name
  slice : ∃ n : Nat, StopsAt [0] (tables.bytes name) n ∧
    ∀ env : Environment, env.word 0 ≠ 0 → env.bytes (env.word 0) = (tables.bytes name).take (n + 1) →
      output (Cstring.literal "%s") env = some (((tables.bytes name).take n).map signedChar)

theorem safeName {k : Nat} (valid : tables.stabstr.getLast? = some 0) (placed : InTable tables name)
    (found : Cstring.strfind 58 (tables.bytes name) = some k) : SafeName tables name k := by
  obtain ⟨n, stops⟩ := exists_stopsAt [58, 0] (show 0 ∈ [58, 0] by decide) (placed.terminated valid)
  have whole := strfind_stopsAt stops ((tables.bytes name).drop (n + 1))
  rw [List.take_append_drop, found] at whole
  obtain rfl := Option.some.inj whole
  have first := strfind_stopsAt stops []
  rw [List.append_nil] at first
  refine ⟨placed, ?_, k, rfl, stops, first, fun env precision pointer readable => ?_⟩
  · rintro rfl
    have nine : Cstring.strfind 58 unknownName = some 9 := by decide
    rw [DebugTables.bytes, nine] at found
    rw [← Option.some.inj found]
    rfl
  · exact output_slice stops (by decide) precision pointer readable

theorem safeFile (valid : tables.stabstr.getLast? = some 0) (object : tables.stabstr.length < 2147483648)
    (placed : InTable tables name) : SafeFile tables name := by
  obtain ⟨n, stops⟩ := exists_stopsAt [0] (List.mem_singleton.mpr rfl) (placed.terminated valid)
  have short := placed.length_lt object
  have inside := stops.inside
  exact ⟨placed, n, stops, fun env pointer readable => output_text stops (by omega) pointer readable⟩

end Info

/-- A call that finds an address gives names that lie in the string table and can be printed without leaving it. -/
theorem debuginfoEip_slices (tables : DebugTables) (addr : UInt32) (valid : tables.stabstr.getLast? = some 0)
    (object : tables.stabstr.length < 2147483648) :
    debuginfoEip tables addr ≠ .error .unterminatedName ∧
      ∀ out, debuginfoEip tables addr = .ok out → out.ret = 0 →
        SafeName tables out.info.eipFnName out.info.eipFnNamelen ∧ SafeFile tables out.info.eipFile := by
  by_cases user : addr < ulim
  · have stuck : debuginfoEip tables addr = .error .userAddress := if_pos user
    rw [stuck]
    exact ⟨nofun, nofun⟩
  by_cases unfound : (stabBinsearch tables.stabs 0 (tables.stabCount - 1) nSo addr).regionLeft = 0
  · rw [debuginfoEip_unfound user valid unfound]
    refine ⟨nofun, fun out same success => ?_⟩
    cases same
    exact absurd success (show ¬ (-1 : Int) = 0 by decide)
  have call := debuginfoEip_found user valid unfound
  dsimp only at call
  generalize stabBinsearch tables.stabs 0 (tables.stabCount - 1) nSo addr = file at call
  generalize stabBinsearch tables.stabs file.regionLeft file.regionRight nFun addr = function at call
  rw [call]
  by_cases found : function.regionLeft ≤ function.regionRight
  · obtain ⟨out, same, _, name, namelen, _, fileName, _⟩ :=
      describe_found addr file.regionLeft (function.reads ++ file.reads) valid found
    rw [same]
    refine ⟨nofun, fun _ again _ => ?_⟩
    cases again
    rw [name, namelen, fileName]
    exact ⟨safeName valid (nameAt_inTable tables _) (Cstring.strfind_terminated 58 (nameAt_terminated valid _)),
      safeFile valid object (fileAt_inTable tables _ _)⟩
  · obtain ⟨out, same, _, _, name, namelen, fileName, _⟩ :=
      describe_unfound addr file.regionLeft (function.reads ++ file.reads) (not_le.mp found)
    rw [same]
    refine ⟨nofun, fun _ again _ => ?_⟩
    cases again
    rw [name, namelen, fileName]
    exact ⟨safeName valid (.inl rfl) (show Cstring.strfind 58 unknownName = some 9 by decide),
      safeFile valid object (fileAt_inTable tables _ _)⟩

/-- A function `a:b` in a file `b`. -/
def colonTables : DebugTables where
  stabs i := if i = 1 then ⟨2, 0x64, 0xf0100000⟩ else if i = 2 then ⟨0, 0x24, 0xf0100000⟩ else ⟨0, 0, 0⟩
  stabCount := 3
  stabstr := [97, 58, 98, 0]

theorem debuginfoEip_slices_colon :
    debuginfoEip colonTables 0xf0100004 ≠ .error .unterminatedName ∧
      ∀ out, debuginfoEip colonTables 0xf0100004 = .ok out → out.ret = 0 →
        SafeName colonTables out.info.eipFnName out.info.eipFnNamelen ∧ SafeFile colonTables out.info.eipFile :=
  debuginfoEip_slices colonTables 0xf0100004 rfl (by decide)

end JosSmp.Kdebug
