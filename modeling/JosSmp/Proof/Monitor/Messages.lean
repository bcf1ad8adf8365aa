import JosSmp.Construction.Kern.Session
import JosSmp.Proof.Console.Count
import JosSmp.Proof.Printfmt.Items

/-!
This file gives the texts of the messages that the monitor prints.
-/

namespace JosSmp.Monitor
open Library Machine Console Kdebug Printfmt Cstring

/-- The characters go to the console one by one. -/
def put (out : List Int) (o : Output) : Output := out.foldl (fun o ch => o.cputchar ch) o

theorem put_append (out out' : List Int) (o : Output) : put (out ++ out') o = put out' (put out o) := List.foldl_append

theorem put_nil (o : Output) : put [] o = o := rfl

/-- The characters of a string constant. -/
def text (s : String) : List Int := (s.toList.map ascii).map fun b => (b.toNat : Int)

/-- A word in eight hexadecimal digits. -/
def hex8 (word : UInt32) : List Int :=
  List.replicate (8 - (digitsOf .hexadecimal word.toNat).length) ('0'.toNat : Int) ++ digitsOf .hexadecimal word.toNat

/-- A string as it is printed. -/
def shownString (s : List UInt8) : List Int := s.map signedChar

section Specs

variable {env : Environment}

def stringSpec : Spec := ⟨[], nofun, .absent, .absent, 0, .string⟩

def sliceSpec : Spec := ⟨[], nofun, .absent, .argument, 0, .string⟩

def decimalSpec : Spec := ⟨[], nofun, .absent, .absent, 0, .number (ascii 'd') .decimal (by decide +kernel)⟩

theorem zero_setting : ∀ b ∈ [ascii '0'], isSetting b := by
  intro b member
  rw [List.mem_singleton.mp member]
  decide +kernel

theorem hexadecimal_numeric : (ascii 'x', Base.hexadecimal.value) ∈ numeric := by decide +kernel

def hexSpec : Spec :=
  ⟨[ascii '0'], zero_setting, .numeral 8 (Nat.succ_pos 7), .absent, 0, .number (ascii 'x') .hexadecimal
    hexadecimal_numeric⟩

theorem stringSpec_printed : stringSpec.printed env = shownString (stringText env 0) := by
  have field : stringSpec.printed env = stringField (ascii ' ') (-1) ((stringText env 0).map (shown false)) := rfl
  have none : (-1 - (((stringText env 0).map (shown false)).length : Int)).toNat = 0 := by omega
  rw [field, stringField, if_neg (by decide +kernel), none, shown_false, List.replicate_zero, List.nil_append,
    shownString]

theorem sliceSpec_printed :
    sliceSpec.printed env = shownString (cut (stringText env 1) (signedWord (env.word 0))) := by
  have field : sliceSpec.printed env =
      stringField (ascii ' ') 0 ((cut (stringText env 1) (signedWord (env.word 0))).map (shown false)) := rfl
  have none :
      (0 - (((cut (stringText env 1) (signedWord (env.word 0))).map (shown false)).length : Int)).toNat = 0 := by
    omega
  rw [field, stringField, if_neg (by decide +kernel), none, shown_false, List.replicate_zero, List.nil_append,
    shownString]

theorem decimalSpec_printed : decimalSpec.printed env = decimalText (env.word 0) := by
  have field : decimalSpec.printed env =
      paddedNumber (decimalSpec.directive env) .decimal (argument env 0 (wrap32 0) (ascii 'd')) := rfl
  have value : argument env 0 (wrap32 0) (ascii 'd') = signedWord (env.word 0) := by
    rw [argument, if_pos rfl, getint_short (by decide +kernel)]
  have width : (decimalSpec.directive env).width = -1 := rfl
  have none : (-1 - (digitCount .decimal (signedWord (env.word 0)) : Int)).toNat = 0 := by omega
  rw [field, value, paddedNumber, width, none, List.replicate_zero, List.append_nil, decimalText]

theorem hexSpec_printed : hexSpec.printed env = hex8 (env.word 0) := by
  have small := (env.word 0).toNat_lt
  have field : hexSpec.printed env =
      paddedNumber (hexSpec.directive env) .hexadecimal (argument env 0 (wrap32 0) (ascii 'x')) := rfl
  have value : argument env 0 (wrap32 0) (ascii 'x') = (env.word 0).toNat := by
    rw [argument, if_neg (by decide +kernel), getuint_short (by decide +kernel)]
  have width : (hexSpec.directive env).width = 8 := rfl
  have pad : signedChar (hexSpec.directive env).padc = '0'.toNat := by
    have zero : (hexSpec.directive env).padc = ascii '0' := rfl
    rw [zero]
    decide
  have zeros : (8 - (digitCount .hexadecimal (env.word 0).toNat : Int)).toNat =
      8 - (digitsOf .hexadecimal (env.word 0).toNat).length := by
    rw [digitCount, magnitude_unsigned (by omega)]
    omega
  rw [field, value, paddedNumber, width, pad, zeros, signOf_unsigned, magnitude_unsigned (by omega), List.nil_append,
    hex8]

theorem stringSpec_valid (terminated : 0 ∈ stringArgument env 0) (short : (stringText env 0).length < 1073741824) :
    stringSpec.Valid env :=
  ⟨show (-1073741824 : Int) ≤ -1 by decide, fun _ => ⟨terminated, short⟩, nofun⟩

theorem sliceSpec_valid (terminated : 0 ∈ stringArgument env 1) (short : (stringText env 1).length < 1073741824) :
    sliceSpec.Valid env :=
  ⟨show (-1073741824 : Int) ≤ 0 by decide, fun _ => ⟨terminated, short⟩, nofun⟩

theorem decimalSpec_valid : decimalSpec.Valid env := ⟨show (-1073741824 : Int) ≤ -1 by decide, nofun, nofun⟩

theorem hexSpec_valid : hexSpec.Valid env := ⟨show (-1073741824 : Int) ≤ 8 by decide, nofun, nofun⟩

end Specs

/-- A call prints what its items mean. -/
theorem cprintf_items (items : List Item) {env : Environment} {fmt : List UInt8} {out : List Int} (o : Output)
    (format : fmt = formatText items ++ [0]) (valid : FormatValid items env) (means : formatPrinted items env = out) :
    stdio.cprintf fmt env o = some (put out o) := by
  have run := vcprintf_eq o (output_items valid)
  rw [means] at run
  have call : stdio.cprintf fmt env o = (vcprintf fmt env o).map Prod.snd := rfl
  rw [call, format, run]
  rfl

/-- A piece of plain text. -/
def plain (s : String) (noDirective : ∀ b ∈ s.toList.map ascii, b ≠ ascii '%' ∧ b ≠ 0) : Item :=
  .literal (s.toList.map ascii) noDirective

theorem cprintf_plain (s : String) (noDirective : ∀ b ∈ s.toList.map ascii, b ≠ ascii '%' ∧ b ≠ 0)
    (env : Environment) (o : Output) : stdio.cprintf (literal s) env o = some (put (text s) o) := by
  refine cprintf_items [plain s noDirective] o ?_ ⟨trivial, trivial⟩ ?_
  · simp only [formatText, List.flatMap_cons, List.flatMap_nil, List.append_nil]
    rfl
  · simp only [formatPrinted, List.append_nil]
    rfl

section Arguments

variable {env : Environment} {words : List UInt32} {strings : List (List UInt8)} {s tail : List UInt8}

@[simp] theorem stringSpec_words : stringSpec.words = 1 := by decide +kernel

@[simp] theorem sliceSpec_words : sliceSpec.words = 2 := by decide +kernel

@[simp] theorem decimalSpec_words : decimalSpec.words = 1 := by decide +kernel

@[simp] theorem hexSpec_words : hexSpec.words = 1 := by decide +kernel

/-- The arguments that are left behind some words. -/
@[simp] theorem arguments_advance (n : Nat) :
    (arguments words strings).advance n = arguments (words.drop n) strings := by
  simp only [arguments, Environment.advance, List.getD_eq_getElem?_getD, List.getElem?_drop]

@[simp] theorem arguments_word (i : Nat) : (arguments words strings).word i = words.getD i 0 := rfl

/-- The string of an argument word ends at its first zero. -/
theorem stringText_eq {ap : Nat} (string : stringArgument env ap = s ++ 0 :: tail) (noEnd : 0 ∉ s) :
    stringText env ap = s := by
  have all : ∀ b ∈ s, decide (b ≠ 0) = true := fun b member => decide_eq_true fun zero => noEnd (zero ▸ member)
  rw [stringText, string, List.takeWhile_append_of_pos all]
  simp

theorem stringSpec_prints (string : stringArgument env 0 = s ++ 0 :: tail) (noEnd : 0 ∉ s)
    (short : s.length < 1073741824) : stringSpec.Valid env ∧ stringSpec.printed env = shownString s := by
  have here := stringText_eq string noEnd
  have terminated : 0 ∈ stringArgument env 0 := by
    rw [string]
    exact List.mem_append_right _ List.mem_cons_self
  exact ⟨stringSpec_valid terminated (here.symm ▸ short), by rw [stringSpec_printed, here]⟩

end Arguments

section Commands

/-- The line of `help` about a command. -/
def helpLine (name desc : List UInt8) : List Int := shownString name ++ text " - " ++ shownString desc ++ text "\n"

theorem cprintf_helpLine {name desc : List UInt8} (noEnd : 0 ∉ name ∧ 0 ∉ desc)
    (short : name.length < 1073741824 ∧ desc.length < 1073741824) (o : Output) :
    stdio.cprintf (literal "%s - %s\n") (arguments [1, 2] [name ++ [0], desc ++ [0]]) o =
      some (put (helpLine name desc) o) := by
  let items : List Item := [.directive stringSpec, plain " - " (by decide +kernel), .directive stringSpec,
    plain "\n" (by decide +kernel)]
  let strings : List (List UInt8) := [name ++ [0], desc ++ [0]]
  have first : stringArgument (arguments [1, 2] strings) 0 = name ++ 0 :: [] := rfl
  have second : stringArgument (arguments [2] strings) 0 = desc ++ 0 :: [] := rfl
  obtain ⟨valid, printed⟩ := stringSpec_prints first noEnd.1 short.1
  obtain ⟨valid', printed'⟩ := stringSpec_prints second noEnd.2 short.2
  refine cprintf_items items o (by decide +kernel) ?_ ?_
  · simp only [items, FormatValid, Item.Valid, Item.words, plain, arguments_advance, stringSpec_words,
      List.drop_succ_cons,
      List.drop_zero, and_true, true_and]
    exact ⟨valid, valid'⟩
  · simp only [items, formatPrinted, Item.printed, Item.words, plain, arguments_advance, stringSpec_words,
      List.drop_succ_cons, List.drop_zero, List.append_nil]
    change stringSpec.printed (arguments [1, 2] strings) ++ (text " - " ++
      (stringSpec.printed (arguments [2] strings) ++ text "\n")) = _
    rw [printed, printed', helpLine]
    simp only [List.append_assoc]

/-- What `help` prints. -/
def helpText : List Int :=
  text "help - Display this list of commands\n" ++ text "kerninfo - Display information about the kernel\n" ++
    text "backtrace - Display a listing of function call frames\n"

theorem monHelp_eq (o : Output) : monHelp o = some (put helpText o) := by
  have step (command : Command) (listed : command ∈ commands) (o : Output) :
      stdio.cprintf (literal "%s - %s\n") (arguments [1, 2] [command.name, command.func.desc]) o =
        some (put (helpLine command.name.dropLast command.func.desc.dropLast) o) := by
    have ended : command.name = command.name.dropLast ++ [0] ∧
        command.func.desc = command.func.desc.dropLast ++ [0] := by
      revert command
      decide +kernel
    have bounds : (0 ∉ command.name.dropLast ∧ 0 ∉ command.func.desc.dropLast) ∧
        command.name.dropLast.length < 1073741824 ∧ command.func.desc.dropLast.length < 1073741824 := by
      revert command
      decide +kernel
    have printed := cprintf_helpLine bounds.1 bounds.2 o
    rwa [← ended.1, ← ended.2] at printed
  have texts :
      commands.flatMap (fun command => helpLine command.name.dropLast command.func.desc.dropLast) = helpText := by
    decide +kernel
  have run (list : List Command) (all : ∀ command ∈ list, command ∈ commands) (o : Output) :
      list.foldlM (fun o command =>
          stdio.cprintf (literal "%s - %s\n") (arguments [1, 2] [command.name, command.func.desc]) o) o =
        some (put (list.flatMap fun command => helpLine command.name.dropLast command.func.desc.dropLast) o) := by
    induction list generalizing o with
    | nil => rfl
    | cons command list ih =>
        obtain ⟨listed, all⟩ := List.forall_mem_cons.mp all
        rw [List.foldlM_cons, step command listed, Option.bind_eq_bind, Option.bind_some, ih all, List.flatMap_cons,
          put_append]
  rw [monHelp, run commands (fun _ => id), texts]

/-- The line of `kerninfo` about a symbol. -/
def symbolLine (name : String) (a : UInt32) : List Int :=
  text name ++ hex8 a ++ text " (virt)  " ++ hex8 (a - kernbase) ++ text " (phys)\n"

theorem cprintf_symbol (name : String) (noDirective : ∀ b ∈ name.toList.map ascii, b ≠ ascii '%' ∧ b ≠ 0)
    {fmt : List UInt8}
    (format : fmt = formatText [plain name noDirective, .directive hexSpec, plain " (virt)  " (by decide +kernel),
      .directive hexSpec, plain " (phys)\n" (by decide +kernel)] ++ [0]) (a : UInt32) (o : Output) :
    stdio.cprintf fmt (arguments [a, a - kernbase] []) o = some (put (symbolLine name a) o) := by
  refine cprintf_items _ o format ?_ ?_
  · exact ⟨trivial, hexSpec_valid, trivial, hexSpec_valid, trivial, trivial⟩
  · simp only [formatPrinted, Item.printed, Item.words, plain, arguments_advance, hexSpec_words, hexSpec_printed,
      List.drop_succ_cons, List.drop_zero, List.append_nil]
    simp only [symbolLine, List.append_assoc]
    rfl

/-- What `kerninfo` prints. -/
def kerninfoText (symbols : Symbols) : List Int :=
  text "Special kernel symbols:\n" ++ symbolLine "  _start " symbols.start ++ symbolLine "  etext  " symbols.etext ++
    symbolLine "  edata  " symbols.edata ++ symbolLine "  end    " symbols.stop ++
    (text "Kernel executable memory footprint: " ++ decimalText (UInt32.ofInt symbols.footprint) ++ text "KB\n")

/-- A message with one number in it. -/
theorem cprintf_decimal (before after : String) (plainBefore : ∀ b ∈ before.toList.map ascii, b ≠ ascii '%' ∧ b ≠ 0)
    (plainAfter : ∀ b ∈ after.toList.map ascii, b ≠ ascii '%' ∧ b ≠ 0) {fmt : List UInt8}
    (format : fmt = formatText [plain before plainBefore, .directive decimalSpec, plain after plainAfter] ++ [0])
    (env : Environment) (o : Output) :
    stdio.cprintf fmt env o = some (put (text before ++ decimalText (env.word 0) ++ text after) o) := by
  refine cprintf_items _ o format ⟨trivial, decimalSpec_valid, trivial, trivial⟩ ?_
  simp only [formatPrinted, Item.printed, Item.words, plain, decimalSpec_printed, List.append_nil, List.append_assoc]
  rfl

theorem monKerninfo_eq (symbols : Symbols) (o : Output) :
    monKerninfo symbols o = some (put (kerninfoText symbols) o) := by
  have first := cprintf_plain "Special kernel symbols:\n" (by decide +kernel) (arguments [] [])
  have start := cprintf_symbol "  _start " (by decide +kernel)
    (show literal "  _start %08x (virt)  %08x (phys)\n" = _ by decide +kernel)
    symbols.start
  have etext := cprintf_symbol "  etext  " (by decide +kernel)
    (show literal "  etext  %08x (virt)  %08x (phys)\n" = _ by decide +kernel)
    symbols.etext
  have edata := cprintf_symbol "  edata  " (by decide +kernel)
    (show literal "  edata  %08x (virt)  %08x (phys)\n" = _ by decide +kernel)
    symbols.edata
  have stop := cprintf_symbol "  end    " (by decide +kernel)
    (show literal "  end    %08x (virt)  %08x (phys)\n" = _ by decide +kernel)
    symbols.stop
  have last := cprintf_decimal "Kernel executable memory footprint: " "KB\n" (by decide +kernel) (by decide +kernel)
    (show literal "Kernel executable memory footprint: %dKB\n" = _ by decide +kernel)
    (arguments [UInt32.ofInt symbols.footprint] [])
  simp only [monKerninfo, first, start, etext, edata, stop, last, Option.bind_eq_bind, Option.bind_some, kerninfoText,
    put_append]
  rfl

end Commands

section Frames

/-- What `mon_backtrace` prints first of a frame. -/
def frameText (word : UInt32 → UInt32) (ebp : UInt32) : List Int :=
  text "ebp " ++ hex8 ebp ++ text " eip " ++ hex8 (word (ebp + 4)) ++ text " args " ++ hex8 (word (ebp + 8)) ++
    text " " ++ hex8 (word (ebp + 12)) ++ text " " ++ hex8 (word (ebp + 16)) ++ text " " ++ hex8 (word (ebp + 20)) ++
    text " " ++ hex8 (word (ebp + 24)) ++ text "\n"

theorem cprintf_frame (word : UInt32 → UInt32) (ebp : UInt32) (o : Output) :
    stdio.cprintf (literal "ebp %08x eip %08x args %08x %08x %08x %08x %08x\n")
      (arguments [ebp, word (ebp + 4), word (ebp + 8), word (ebp + 12), word (ebp + 16), word (ebp + 20),
        word (ebp + 24)] []) o = some (put (frameText word ebp) o) := by
  let space : Item := plain " " (by decide +kernel)
  let items : List Item := [plain "ebp " (by decide +kernel), .directive hexSpec, plain " eip " (by decide +kernel),
    .directive hexSpec, plain " args " (by decide +kernel), .directive hexSpec, space, .directive hexSpec, space,
    .directive hexSpec, space, .directive hexSpec, space, .directive hexSpec, plain "\n" (by decide +kernel)]
  refine cprintf_items items o (by decide +kernel) ?_ ?_
  · exact ⟨trivial, hexSpec_valid, trivial, hexSpec_valid, trivial, hexSpec_valid, trivial, hexSpec_valid, trivial,
      hexSpec_valid, trivial, hexSpec_valid, trivial, hexSpec_valid, trivial, trivial⟩
  · simp only [items, space, formatPrinted, Item.printed, Item.words, plain, arguments_advance, hexSpec_words,
      hexSpec_printed, List.drop_succ_cons, List.drop_zero, List.append_nil]
    simp only [frameText, List.append_assoc]
    rfl

/-- The bytes of a name up to its end. -/
def nameText (tables : DebugTables) (name : NamePointer) : List UInt8 := (tables.bytes name).takeWhile (· ≠ 0)

/-- The bytes of a function name in front of its colon. -/
def functionText (tables : DebugTables) (name : NamePointer) : List UInt8 :=
  (tables.bytes name).takeWhile fun b => b != 0 && b != 58

/-- What `mon_backtrace` prints of the place of an address. -/
def placeText (tables : DebugTables) (eip : UInt32) (info : Eipdebuginfo) : List Int :=
  text "\t" ++ shownString (nameText tables info.eipFile) ++ text ":0: " ++
    shownString (functionText tables info.eipFnName) ++ text "+" ++ decimalText (eip - info.eipFnAddr) ++ text "\n"

end Frames

end JosSmp.Monitor
