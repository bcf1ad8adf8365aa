import JosSmp.Construction.Kern.Init
import JosSmp.Proof.Console.Devices
import JosSmp.Proof.Monitor.Input
import JosSmp.Proof.String.Memset

/-!
This file proves how `i386_init` hands the kernel over to its monitor.
-/

namespace JosSmp.Monitor
open Library Machine Console Kdebug Printfmt Cstring

section Devices

variable {display : Display} {o : Output}

/-- The serial device answers. -/
def present (o : Output) : Bool := decide (o.answer (o.reads + 2) (com1 + comLsr) ≠ 0xFF)

def missingText (serialExists : Bool) : List Int := if serialExists then [] else text "Serial port does not exist!\n"

theorem consInit_eq (display : Display) (o : Output) :
    consInit display o = some (present o, put (missingText (present o)) (o.started display)) := by
  have message := cprintf_plain "Serial port does not exist!\n" (by decide +kernel) ⟨fun _ => 0, fun _ => []⟩
    (o.started display)
  have found := Output.cgaInit_found display o
  have exists' : (o.cgaInit display).serialInit = (present o, o.started display) := by
    rw [Output.started, present, Output.serialInit_eq, found.answer, found.reads]
  simp only [consInit, Output.kbdInit, exists']
  cases present o with
  | true => rfl
  | false =>
      simp only [Bool.false_eq_true, not_false_eq_true, if_true, message, Option.bind_eq_bind, Option.bind_some]
      rfl

/-- After `cons_init` and any characters, the serial device is set to 9600 baud and 8 data bits and has been given the
characters, and the display controller holds the cursor position; so a kernel that starts again goes on at the same
place of the same screen. -/
theorem consInit_devices (u : Uart) (registers : UInt8 → UInt8) (display : Display) (o : Output) (chars : List Int)
    (answers : o.Answers registers display) :
    ∃ o₁, consInit display o = some (present o, o₁) ∧
      let o' := put chars o₁
      (o'.uart u).baud = 9600 ∧
      o'.uart u = ⟨12, 0, 1, 0, 3, 0,
        (o.uart u).transmitted ++ (missingText (present o) ++ chars).flatMap Output.expansion⟩ ∧
      o'.cursorRegister registers = o'.crtPos ∧
      (o'.Answers registers display →
        (o'.cgaInit display).crtPos = o'.crtPos ∧ (o'.cgaInit display).crtBuf = o'.crtBuf ∧
          (o'.cgaInit display).cell = o'.cell) := by
  let out := missingText (present o) ++ chars
  obtain ⟨base, buf, position, _⟩ := Output.started_found display o
  have crtc := Output.started_crtc display o
  have setup := Output.started_uart u display o
  have closed : ¬ ((o.started display).uart u).latch := by
    rw [setup]
    exact show ¬ (3 : UInt8) &&& 0x80 ≠ 0 by decide
  have line := Output.uart_run u out crtc closed
  rw [setup] at line
  have speed : 115200 / ((12 : UInt8).toNat + 256 * (0 : UInt8).toNat) = 9600 := by decide
  have small : (o.started display).crtPos < 65536 := by
    have high := (o.answer o.reads (display.base + 1)).toNat_lt
    have low := (o.answer (o.reads + 1) (display.base + 1)).toNat_lt
    rw [position, Output.cursor]
    omega
  have held := Output.cursor_run registers small ((Output.started_cursor answers).trans position.symm) out
  have placed := (Output.stable_placed (o.started display).crtBuf).run out ⟨rfl, small⟩
  refine ⟨_, consInit_eq display o, ?_⟩
  intro o'
  have whole : o' = put out (o.started display) := (put_append _ _ _).symm
  rw [whole]
  refine ⟨?_, line, held, fun again => ?_⟩
  · rw [put, line]
    exact speed
  · exact Output.cgaInit_again ((Output.cputchar_run out crtc).crtc.trans base) (placed.1.trans buf) held again

/-- `OK` and a newline, on a machine whose ports all answer zero. -/
theorem consInit_devices_line :
    let o : Output := ⟨0, 0, 0, ⟨fun _ => 0, []⟩, fun _ _ => 0, 0, []⟩
    let u : Uart := ⟨0, 0, 0, 0, 0, 0, []⟩
    ∃ o₁, consInit .color o = some (present o, o₁) ∧
      let o' := put [79, 75, 10] o₁
      (o'.uart u).baud = 9600 ∧
      o'.uart u = ⟨12, 0, 1, 0, 3, 0,
        (o.uart u).transmitted ++ (missingText (present o) ++ [79, 75, 10]).flatMap Output.expansion⟩ ∧
      o'.cursorRegister (fun _ => 0) = o'.crtPos ∧
      (o'.Answers (fun _ => 0) .color →
        (o'.cgaInit .color).crtPos = o'.crtPos ∧ (o'.cgaInit .color).crtBuf = o'.crtBuf ∧
          (o'.cgaInit .color).cell = o'.cell) :=
  consInit_devices ⟨0, 0, 0, 0, 0, 0, []⟩ (fun _ => 0) .color ⟨0, 0, 0, ⟨fun _ => 0, []⟩, fun _ _ => 0, 0, []⟩
    [79, 75, 10] ⟨rfl, rfl⟩

end Devices

section Calls

variable {kernel : Kernel} {tables : DebugTables} {fuel : Nat} {trail : Trail}

/-- The backtrace panics, because its chain ends at a return address below `ULIM`. -/
def Trail.panics (trail : Trail) : Bool := decide (trail.word^[trail.count] trail.ebp ≠ 0)

def enteringText (x : Int) : List Int :=
  text "entering test_backtrace " ++ decimalText (UInt32.ofInt x) ++ text "\n"

def leavingText (x : Int) : List Int := text "leaving test_backtrace " ++ decimalText (UInt32.ofInt x) ++ text "\n"

/-- The arguments of the nested calls, outermost first. -/
def nestedCalls (x : Int) : List Int := List.iterate (· - 1) x (x.toNat + 1)

/-- The calls are announced, the frames are printed, and the calls are left, unless the backtrace has panicked. -/
def nestedText (tables : DebugTables) (trail : Trail) (x : Int) : List Int :=
  (nestedCalls x).flatMap enteringText ++ traceText tables trail.word trail.ebp trail.count ++
    if trail.panics then [] else (nestedCalls x).reverse.flatMap leavingText

theorem nestedCalls_more {x : Int} (more : x > 0) : nestedCalls x = x :: nestedCalls (x - 1) := by
  have size : x.toNat = (x - 1).toNat + 1 := by omega
  rw [nestedCalls, size]
  rfl

theorem nestedCalls_last {x : Int} (last : ¬ x > 0) : nestedCalls x = [x] := by
  have size : x.toNat = 0 := by omega
  rw [nestedCalls, size]
  rfl

theorem nestedText_last {x : Int} (last : ¬ x > 0) :
    nestedText tables trail x =
      enteringText x ++ traceText tables trail.word trail.ebp trail.count ++
        if trail.panics then [] else leavingText x := by
  rw [nestedText, nestedCalls_last last, List.flatMap_singleton, List.reverse_singleton, List.flatMap_singleton]

theorem nestedText_more {x : Int} (more : x > 0) :
    nestedText tables trail x =
      enteringText x ++ nestedText tables trail (x - 1) ++ if trail.panics then [] else leavingText x := by
  rw [nestedText, nestedText, nestedCalls_more more, List.flatMap_cons, List.reverse_cons, List.flatMap_append,
    List.flatMap_singleton]
  split
  · simp only [List.append_nil, List.append_assoc]
  · simp only [List.append_assoc]

/-- A call is announced around what it calls. -/
theorem announced_eq {call : Output → Option (Bool × Output)} {panicked : Bool} {inner : List Int}
    (calls : ∀ o, call o = some (panicked, put inner o)) (x : Int) (o : Output) :
    announced x call o =
      some (panicked, put (enteringText x ++ inner ++ if panicked then [] else leavingText x) o) := by
  have word : (arguments [UInt32.ofInt x] []).word 0 = UInt32.ofInt x := arguments_word 0
  have entering (o : Output) :
      stdio.cprintf (literal "entering test_backtrace %d\n") (arguments [UInt32.ofInt x] []) o =
        some (put (enteringText x) o) := by
    have run := cprintf_decimal "entering test_backtrace " "\n" (by decide +kernel) (by decide +kernel)
      (show literal "entering test_backtrace %d\n" = _ by decide +kernel) (arguments [UInt32.ofInt x] []) o
    rw [word] at run
    exact run
  have leaving (o : Output) :
      stdio.cprintf (literal "leaving test_backtrace %d\n") (arguments [UInt32.ofInt x] []) o =
        some (put (leavingText x) o) := by
    have run := cprintf_decimal "leaving test_backtrace " "\n" (by decide +kernel) (by decide +kernel)
      (show literal "leaving test_backtrace %d\n" = _ by decide +kernel) (arguments [UInt32.ofInt x] []) o
    rw [word] at run
    exact run
  rw [announced, entering]
  simp only [calls, Option.bind_eq_bind, Option.bind_some]
  cases panicked with
  | true => rw [if_pos rfl, if_pos rfl, List.append_nil, put_append]
  | false =>
      rw [if_neg Bool.false_ne_true, if_neg Bool.false_ne_true, leaving, Option.bind_some,
        put_append (enteringText x ++ inner), put_append (enteringText x)]

/-- Every call of `test_backtrace` prints the texts of its nested calls around the frames of the chain. -/
theorem testBacktrace_eq (object : tables.stabstr.length < 1073741824) (enough : trail.count < fuel) (x : Int)
    (o : Output) :
    testBacktrace tables fuel trail.toStack x o = some (trail.panics, put (nestedText tables trail x) o) := by
  induction size : x.toNat generalizing x o with
  | zero =>
      have last : ¬ x > 0 := by omega
      have frames (o : Output) : monBacktrace tables fuel trail.toStack o =
          some (trail.panics, put (traceText tables trail.word trail.ebp trail.count) o) :=
        backtraceLoop_passes object trail.passes enough o
      rw [testBacktrace, dif_neg last, announced_eq frames, nestedText_last last]
  | succ n ih =>
      have more : x > 0 := by omega
      rw [testBacktrace, dif_pos more, announced_eq fun o => ih (x - 1) o (by omega), nestedText_more more]

end Calls

section Start

variable {kernel : Kernel} {bss : Bss} {fuel : Nat} {trail : Trail} {symbols : Symbols}

/-- The linker has put the variables between `edata` and `end`. -/
structure Bss.Linked (bss : Bss) (symbols : Symbols) : Prop where
  ordered : symbols.edata ≤ symbols.stop
  panicstr : symbols.edata.toNat ≤ bss.panicstr ∧ bss.panicstr + 4 ≤ symbols.stop.toNat
  shift : symbols.edata.toNat ≤ bss.shift ∧ bss.shift + 4 ≤ symbols.stop.toNat
  cons : symbols.edata.toNat ≤ bss.cons ∧ bss.cons + consbufsize + 8 ≤ symbols.stop.toNat

/-- The memory with zeros between `edata` and `end`. -/
def cleared (symbols : Symbols) (memory : Memory) : Memory := fun a =>
  if symbols.edata.toNat ≤ a ∧ a < symbols.stop.toNat then 0 else memory a

theorem memset_cleared (ordered : symbols.edata ≤ symbols.stop) (ram : Ram) :
    (memset symbols.edata.toNat 0 (symbols.stop - symbols.edata).toNat ram).2.byte = cleared symbols ram.byte := by
  have top := symbols.stop.toNat_lt
  have below : symbols.edata.toNat ≤ symbols.stop.toNat := ordered
  have size : (symbols.stop - symbols.edata).toNat = symbols.stop.toNat - symbols.edata.toNat :=
    UInt32.toNat_sub_of_le _ _ ordered
  have zero : (0 : UInt32).toUInt8 = 0 := rfl
  rw [memset_bytes _ _ _ _ (by omega), size, zero]
  funext a
  by_cases inside : symbols.edata.toNat ≤ a ∧ a < symbols.stop.toNat
  · obtain ⟨i, rfl⟩ := Nat.exists_eq_add_of_le inside.1
    rw [cleared, if_pos inside, writeBlock_inside _ _ (by rw [List.length_replicate]; omega), List.getElem_replicate]
  · rw [cleared, if_neg inside, writeBlock_outside _ (by rw [List.length_replicate]; omega)]

/-- A variable between `edata` and `end` starts out zero. -/
theorem load32_cleared {ram : Ram} {memory : Memory} (zeroed : ram.byte = cleared symbols memory) {a : Nat}
    (lower : symbols.edata.toNat ≤ a) (upper : a + 4 ≤ symbols.stop.toNat) : ram.load32 a = 0 := by
  have zero (i : Nat) (small : i < 4) : ram.byte (a + i) = 0 := by
    rw [zeroed, cleared, if_pos ⟨by omega, by omega⟩]
  have first : ram.byte a = 0 := zero 0 (by decide)
  rw [Ram.load32, first, zero 1 (by decide), zero 2 (by decide), zero 3 (by decide)]
  rfl

/-- The text from the start of the kernel to the first prompt. -/
def bootText (serialExists : Bool) (tables : DebugTables) (trail : Trail) : List Int :=
  missingText serialExists ++ text "6828 decimal is 15254 octal!\n" ++ nestedText tables trail 5 ++
    (if trail.panics then panicText else []) ++ welcomeText ++ promptText

theorem octal_numeric : (ascii 'o', Base.octal.value) ∈ numeric := by decide +kernel

def octalSpec : Spec :=
  ⟨[], List.forall_mem_nil _, .absent, .absent, 0, .number (ascii 'o') .octal octal_numeric⟩

theorem octalSpec_valid (env : Environment) : octalSpec.Valid env := by
  refine ⟨show (-1073741824 : Int) ≤ -1 by decide, fun string => ?_, fun error => ?_⟩
  · cases string
  · cases error

theorem cprintf_octal (o : Output) :
    stdio.cprintf (literal "6828 decimal is %o octal!\n") (arguments [6828] []) o =
      some (put (text "6828 decimal is 15254 octal!\n") o) := by
  let items : List Item := [plain "6828 decimal is " (by decide +kernel), .directive octalSpec,
    plain " octal!\n" (by decide +kernel)]
  exact cprintf_items items o (by decide +kernel) ⟨trivial, octalSpec_valid _, trivial, trivial⟩ (by decide +kernel)

/-- The kernel comes to its monitor with an empty input buffer, whatever the memory has held. -/
theorem i386Init_serves (fits : kernel.Fits) (linked : bss.Linked kernel.symbols) (enough : trail.count < fuel)
    (display : Display) (ram : Ram) (o : Output) :
    ∃ m, i386Init kernel bss fuel display trail.toStack ram o = some m ∧
      Serves (present o) kernel (cleared kernel.symbols ram.byte) (o.started display)
        ⟨[], 0, ⟨[], trail.panics⟩, bootText (present o) kernel.tables trail⟩ m := by
  have zeroed := memset_cleared linked.ordered ram
  have calls := testBacktrace_eq fits.object enough 5
  simp only [i386Init, consInit_eq, Option.bind_eq_bind, Option.bind_some]
  generalize (memset kernel.symbols.edata.toNat 0 (kernel.symbols.stop - kernel.symbols.edata).toNat ram).2 = ram
    at zeroed ⊢
  rw [cprintf_octal, Option.bind_some, calls, Option.bind_some]
  have panicstr : ram.load32 bss.panicstr = 0 := load32_cleared zeroed linked.panicstr.1 linked.panicstr.2
  have shift : ram.load32 bss.shift = 0 := load32_cleared zeroed linked.shift.1 linked.shift.2
  have placed := linked.cons
  have rpos : ram.load32 (bss.cons + consbufsize) = 0 := load32_cleared zeroed (by omega) (by omega)
  have wpos : ram.load32 (bss.cons + consbufsize + 4) = 0 := load32_cleared zeroed (by omega) (by omega)
  have buffered : Buffered [] (consAt bss.cons ram) := by
    rw [consAt, rpos, wpos]
    exact Queued.initial (by decide) _
  have zero : decide ((0 : UInt32) ≠ 0) = false := rfl
  have joined (a b c d e : List Int) (o : Output) :
      put (a ++ b ++ c ++ d ++ e) o = put (d ++ e) (put c (put b (put a o))) := by
    simp only [put_append]
  have shown : put (bootText (present o) kernel.tables trail) (o.started display) =
      put ((if trail.panics then panicText else []) ++ welcomeText ++ promptText)
        (put (nestedText kernel.tables trail 5) (put (text "6828 decimal is 15254 octal!\n")
          (put (missingText (present o)) (o.started display)))) := by
    rw [bootText, List.append_assoc _ welcomeText promptText, joined, List.append_assoc]
  rw [panicstr, shift, zero]
  cases panics : trail.panics with
  | true =>
      rw [panics, if_pos rfl] at shown
      rw [if_pos rfl, Session.panic_eq, Option.bind_some]
      refine ⟨_, rfl, rfl, buffered, rfl, rfl, rfl, blockAt_nil, Nat.zero_le _, nofun, ?_, fun a _ => congrFun zeroed a⟩
      dsimp only
      rw [shown, if_neg Bool.false_ne_true]
  | false =>
      rw [panics, if_neg Bool.false_ne_true, List.nil_append] at shown
      rw [if_neg Bool.false_ne_true, Session.monitor_eq, Option.bind_some]
      refine ⟨_, rfl, rfl, buffered, rfl, rfl, rfl, blockAt_nil, Nat.zero_le _, nofun, ?_, fun a _ => congrFun zeroed a⟩
      dsimp only
      rw [shown]

end Start

/-- Whatever the memory has held, whichever display and serial device the machine has, and whenever its input arrives:
the kernel starts, and its monitor answers exactly the characters that have arrived, in their order. The screen goes
on from the cells and the cursor that the display had. -/
theorem i386Init_session (kernel : Kernel) (bss : Bss) (display : Display) (trail : Trail) (ram : Ram) (o : Output)
    (arrivals : List Arrival) (polls : List Trail) (fuel : Nat) (fits : kernel.Fits)
    (linked : bss.Linked kernel.symbols) (onScreen : o.cursor display < crtSize) (ends : trail.count < fuel)
    (admitted : Guarded (Desk.step (present o) kernel) (Desk.Admits (present o) fuel)
      ⟨[], 0, ⟨[], trail.panics⟩, bootText (present o) kernel.tables trail⟩
      (arrivals ++ polls.map (Arrival.getc [] [])))
    (enough : (deliveredBy (present o) 0 arrivals).length ≤ polls.length) :
    ∃ keys : List Key, keys.map Key.char = (deliveredBy (present o) 0 arrivals).map Subtype.val ∧
      (keys.map Key.trail).Sublist (arrivals.filterMap Arrival.trail ++ polls) ∧
      let seen := Shell.run kernel ⟨[], trail.panics⟩ keys
      let out := bootText (present o) kernel.tables trail ++ seen.2
      ∃ m', ((i386Init kernel bss fuel display trail.toStack ram o).bind fun m =>
          ((arrivals ++ polls.map (Arrival.getc [] [])).map Arrival.input).foldlM (Computer.step kernel fuel) m) =
            some m' ∧
        m'.cons.rpos = m'.cons.wpos ∧ m'.session.panicstr = seen.1.panicked ∧
        BlockAt m'.session.ram.byte kernel.buf seen.1.line ∧ m'.session.i = seen.1.line.length ∧
        (∀ a, a < kernel.buf ∨ kernel.buf + Readline.buflen ≤ a →
          m'.session.ram.byte a = cleared kernel.symbols ram.byte a) ∧
        m'.session.console = put out (o.started display) ∧
        Mirrors 1999 m'.session.console
          (shows out (Terminal.initial (fun i => o.ram.load16 (display.buf + 2 * i)) (o.cursor display))) := by
  obtain ⟨m, begins, start⟩ := i386Init_serves fits linked ends display ram o
  obtain ⟨keys, typed, trails, m', run, empty, refines⟩ := start.session arrivals polls fits admitted enough
  refine ⟨keys, typed, trails, m', ?_, empty, refines.panicked, refines.held, refines.count, refines.kept,
    refines.console, ?_⟩
  · rw [begins, Option.bind_some]
    exact run
  · obtain ⟨_, _, position, _⟩ := Output.started_found display o
    have mirrors := Output.initial_mirrors (Output.started_fits display o) (position.symm ▸ onScreen)
    rw [Output.started_cell, position] at mirrors
    rw [refines.console]
    exact (put_reaches _ mirrors).mirrors

/-- A machine with a color display and a serial device, whose memory is full of ones, and a key and a serial character
that are read later by two polls. -/
theorem i386Init_session_slow :
    let kernel : Kernel := ⟨⟨0, 0, 0x1000, 0x3000⟩, ⟨fun _ => ⟨0, 0, 0⟩, 0, [0]⟩, 0x1000, ⟨fun _ => 7, []⟩⟩
    let bss : Bss := ⟨0x1400, 0x1404, 0x1408⟩
    let trail : Trail := ⟨⟨0, fun _ => 0⟩, 0, passes_zero.mpr fun walks => walks.1 rfl⟩
    let o : Output := ⟨0, 0, 0, ⟨fun _ => 0xFF, []⟩, fun _ _ => 0, 0, []⟩
    let arrivals := [Arrival.kbdIntr [0x23, 0xA3], .serialIntr [13]]
    ∃ keys : List Key, keys.map Key.char = (deliveredBy (present o) 0 arrivals).map Subtype.val ∧
      (keys.map Key.trail).Sublist (arrivals.filterMap Arrival.trail ++ [trail, trail]) ∧
      let seen := Shell.run kernel ⟨[], trail.panics⟩ keys
      let out := bootText (present o) kernel.tables trail ++ seen.2
      ∃ m', ((i386Init kernel bss 1 .color trail.toStack ⟨fun _ => 0xFF, []⟩ o).bind fun m =>
          ((arrivals ++ [trail, trail].map (Arrival.getc [] [])).map Arrival.input).foldlM
            (Computer.step kernel 1) m) = some m' ∧
        m'.cons.rpos = m'.cons.wpos ∧ m'.session.panicstr = seen.1.panicked ∧
        BlockAt m'.session.ram.byte kernel.buf seen.1.line ∧ m'.session.i = seen.1.line.length ∧
        (∀ a, a < kernel.buf ∨ kernel.buf + Readline.buflen ≤ a →
          m'.session.ram.byte a = cleared kernel.symbols (fun _ => 0xFF) a) ∧
        m'.session.console = put out (o.started .color) ∧
        Mirrors 1999 m'.session.console
          (shows out (Terminal.initial (fun i => o.ram.load16 (Display.buf .color + 2 * i)) (o.cursor .color))) :=
  i386Init_session
    ⟨⟨0, 0, 0x1000, 0x3000⟩, ⟨fun _ => ⟨0, 0, 0⟩, 0, [0]⟩, 0x1000, ⟨fun _ => 7, []⟩⟩ ⟨0x1400, 0x1404, 0x1408⟩ .color
    ⟨⟨0, fun _ => 0⟩, 0, passes_zero.mpr fun walks => walks.1 rfl⟩ ⟨fun _ => 0xFF, []⟩
    ⟨0, 0, 0, ⟨fun _ => 0xFF, []⟩, fun _ _ => 0, 0, []⟩ [.kbdIntr [0x23, 0xA3], .serialIntr [13]]
    [⟨⟨0, fun _ => 0⟩, 0, passes_zero.mpr fun walks => walks.1 rfl⟩,
     ⟨⟨0, fun _ => 0⟩, 0, passes_zero.mpr fun walks => walks.1 rfl⟩] 1
    ⟨by decide, by decide, by decide⟩ ⟨by decide, by decide, by decide, by decide⟩ (by decide) (by decide)
    ⟨⟨by decide +kernel, ⟨by decide +kernel, by decide +kernel, trivial⟩, nofun⟩,
     ⟨by decide +kernel, trivial, nofun⟩,
     ⟨by decide +kernel, trivial, fun trail member => Option.some.inj member ▸ Nat.one_pos⟩,
     ⟨by decide +kernel, trivial, fun trail member => Option.some.inj member ▸ Nat.one_pos⟩, trivial⟩
    (by decide +kernel)

end JosSmp.Monitor
