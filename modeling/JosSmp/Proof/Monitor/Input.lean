import JosSmp.Construction.Kern.Getchar
import JosSmp.Proof.Keyboard.Ordinary
import JosSmp.Proof.Monitor.Session

/-!
This file proves that the monitor does not depend on when its input arrives, as long as the input buffer has room.
-/

namespace JosSmp.Monitor
open Library Machine Console Keyboard

section Decoder

variable {shift : BitVec 32}

/-- The byte completes Ctrl-Alt-Del. -/
def Reboots (shift : BitVec 32) (data : UInt8) : Prop :=
  data ≠ 0xE0 ∧ data &&& 0x80 = 0 ∧ ~~~next shift data &&& (ctl ||| alt) = 0 ∧ decoded shift data = keyDel.toNat

instance (shift : BitVec 32) (data : UInt8) : Decidable (Reboots shift data) := by
  unfold Reboots
  infer_instance

/-- No byte of a history completes Ctrl-Alt-Del. -/
def Quiet : List UInt8 → BitVec 32 → Prop
  | [], _ => True
  | data :: rest, shift => ¬ Reboots shift data ∧ Quiet rest (next shift data)

/-- The console is as it was, unless the byte is the code of a key and completes the delete character with Ctrl and
Alt held. -/
theorem kbdProcData_console {data : UInt8} {s s' : Keyboard} {c : Int}
    (run : kbdProcData kbsDib data s = some (c, s')) :
    s'.console = s.console ∨
      data ≠ 0xE0 ∧ data &&& 0x80 = 0 ∧ ~~~s'.shift &&& (ctl ||| alt) = 0 ∧ c = keyDel.toNat := by
  have ready : ¬ kbsDib &&& kbsDib = 0 := by decide
  rw [kbdProcData, if_neg ready] at run
  by_cases escape : data = 0xE0
  · rw [if_pos escape] at run
    cases run
    exact .inl rfl
  rw [if_neg escape] at run
  by_cases release : data &&& 0x80 ≠ 0
  · rw [if_pos release] at run
    obtain ⟨code, _, same⟩ := Option.bind_eq_some_iff.mp run
    cases same
    exact .inl rfl
  rw [if_neg release] at run
  generalize (if s.shift &&& e0esc ≠ 0 then (data ||| 0x80, s.shift &&& ~~~e0esc) else (data, s.shift)) = key at run
  simp only [Option.bind_eq_bind, Option.bind_eq_some_iff] at run
  obtain ⟨_, _, _, _, _, _, _, _, last⟩ := run
  split at last
  · rename_i held
    obtain ⟨_, _, same⟩ := Option.bind_eq_some_iff.mp last
    cases same
    exact .inr ⟨escape, not_not.mp release, held⟩
  · cases last
    exact .inl rfl

/-- The decoder prints only when it reboots. -/
theorem kbdProcData_quiet (data : UInt8) (s : Keyboard) (quiet : ¬ Reboots s.shift data) :
    kbdProcData kbsDib data s = some (decoded s.shift data, ⟨next s.shift data, s.console⟩) := by
  obtain ⟨console, run⟩ := kbdProcData_decodes data s
  obtain same | reboots := kbdProcData_console run
  · rw [run, show console = s.console from same]
  · exact absurd reboots quiet

theorem kbdFeed_quiet (codes : List UInt8) (s : Keyboard) (quiet : Quiet codes s.shift) :
    kbdFeed codes s = some (results codes s.shift, ⟨codes.foldl next s.shift, s.console⟩) := by
  induction codes generalizing s with
  | nil => rfl
  | cons data rest ih =>
      rw [kbdFeed, kbdProcData_quiet data s quiet.1, Option.bind_eq_bind, Option.bind_some]
      dsimp only
      rw [ih ⟨next s.shift data, s.console⟩ quiet.2]
      rfl

/-- The bytes that the decoder delivers for some codes. -/
def decodedBytes (codes : List UInt8) (shift : BitVec 32) : List UInt8 := (results codes shift).map UInt8.ofInt

theorem results_decodedBytes (codes : List UInt8) (shift : BitVec 32) :
    results codes shift = chars (decodedBytes codes shift) := by
  obtain ⟨bytes, same⟩ := results_bytes codes shift
  have back : (chars bytes).map UInt8.ofInt = bytes := by
    rw [chars, List.map_map]
    exact (List.map_congr_left fun b _ => ofInt_byte b).trans (List.map_id bytes)
  rw [decodedBytes, same, back]

end Decoder

section Buffer

variable {cons : Cons} {waiting : List UInt8}

/-- The input buffer holds these characters for `cons_getc`. -/
def Buffered (waiting : List UInt8) (cons : Cons) : Prop := Queued consbufsize waiting cons.buf cons.rpos cons.wpos

/-- A batch that leaves one slot free is queued, but for its zero bytes. -/
theorem Buffered.intr (buffered : Buffered waiting cons) (bytes : List UInt8)
    (room : (waiting ++ bytes.filter (· ≠ 0)).length ≤ consbufsize - 1) :
    Buffered (waiting ++ bytes.filter (· ≠ 0)) (consIntr cons (chars bytes)) := by
  induction bytes generalizing waiting cons with
  | nil =>
      rw [List.filter_nil, List.append_nil]
      exact buffered
  | cons b rest ih =>
      have data : ((b.toNat : Nat) : Int) ≠ -1 := by omega
      have zero : ((b.toNat : Nat) : Int) = 0 ↔ b = 0 := by
        rw [← UInt8.toNat_inj]
        exact Int.natCast_eq_zero
      rw [chars_cons, consIntr, if_neg data]
      simp only [zero]
      by_cases none : b = 0
      · rw [List.filter_cons_of_neg (by simpa using none)] at room ⊢
        rw [if_pos none]
        exact ih buffered room
      · rw [List.filter_cons_of_pos (by simpa using none)] at room ⊢
        rw [List.append_cons] at room ⊢
        have size : consbufsize = 512 := rfl
        simp only [List.length_append, List.length_singleton] at room
        have pushed : Buffered (waiting ++ [b]) (cons.store b.toNat) := by
          have queued := Queued.push buffered (show waiting.length + 1 < consbufsize by omega) b
          rw [Buffered, Cons.store, ofInt_byte]
          exact queued
        rw [if_neg none]
        exact ih pushed (by simp only [List.length_append, List.length_singleton]; omega)

end Buffer

/-- A byte that is no end of a string. -/
abbrev Character := {c : UInt8 // c ≠ 0}

/-- The characters among some bytes. -/
def characters (bytes : List UInt8) : List Character :=
  bytes.filterMap fun b => if zero : b = 0 then none else some ⟨b, zero⟩

theorem characters_val (bytes : List UInt8) : (characters bytes).map Subtype.val = bytes.filter (· ≠ 0) := by
  induction bytes with
  | nil => rfl
  | cons b rest ih =>
      by_cases zero : b = 0
      · rw [List.filter_cons_of_neg (by simpa using zero), ← ih, characters, List.filterMap_cons_none (dif_pos zero)]
        rfl
      · rw [List.filter_cons_of_pos (by simpa using zero), ← ih, characters, List.filterMap_cons_some (dif_neg zero)]
        rfl

/-- What happens at the devices; the backtrace that a pass may run ends. -/
inductive Arrival
  | serialIntr (bytes : List UInt8)
  | kbdIntr (codes : List UInt8)
  | getc (bytes codes : List UInt8) (trail : Trail)

namespace Arrival

def input : Arrival → Input
  | .serialIntr bytes => .serialIntr bytes
  | .kbdIntr codes => .kbdIntr codes
  | .getc bytes codes trail => .getc bytes codes trail.toStack

/-- The bytes of the serial port. -/
def bytes : Arrival → List UInt8
  | .serialIntr bytes => bytes
  | .kbdIntr _ => []
  | .getc bytes _ _ => bytes

/-- The codes of the keyboard. -/
def codes : Arrival → List UInt8
  | .serialIntr _ => []
  | .kbdIntr codes => codes
  | .getc _ codes _ => codes

def trail : Arrival → Option Trail
  | .serialIntr _ => none
  | .kbdIntr _ => none
  | .getc _ _ trail => some trail

/-- The characters that arrive. -/
def delivered (serialExists : Bool) (shift : BitVec 32) (a : Arrival) : List Character :=
  (if serialExists then characters a.bytes else []) ++ characters (decodedBytes a.codes shift)

end Arrival

/-- The kernel as its user sees it: the characters that are not answered, the modifiers, the shell, and the text. -/
structure Desk where
  waiting : List Character
  shift : BitVec 32
  shell : Shell
  shown : List Int

namespace Desk

variable (serialExists : Bool) (kernel : Kernel) (fuel : Nat)

def arrive (a : Arrival) (d : Desk) : Desk :=
  { d with waiting := d.waiting ++ a.delivered serialExists d.shift, shift := a.codes.foldl next d.shift }

/-- The oldest character is answered. -/
def answer (trail : Trail) (d : Desk) : Desk :=
  match d.waiting with
  | [] => d
  | c :: rest =>
      let out := d.shell.step kernel ⟨c, c.property, trail⟩
      { d with waiting := rest, shell := out.1, shown := d.shown ++ out.2 }

def step (d : Desk) (a : Arrival) : Desk :=
  match a.trail with
  | none => d.arrive serialExists a
  | some trail => (d.arrive serialExists a).answer kernel trail

/-- The characters find room in the buffer, nobody reboots, and a backtrace ends within its fuel. -/
structure Admits (d : Desk) (a : Arrival) : Prop where
  room : (d.arrive serialExists a).waiting.length ≤ consbufsize - 1
  quiet : Quiet a.codes d.shift
  enough : ∀ trail ∈ a.trail, trail.count < fuel

end Desk

/-- The kernel holds the characters that are not answered, and its monitor refines the shell. -/
structure Serves (serialExists : Bool) (kernel : Kernel) (memory : Memory) (o : Output) (d : Desk) (m : Computer) :
    Prop where
  serial : m.serialExists = serialExists
  buffered : Buffered (d.waiting.map Subtype.val) m.cons
  shift : m.shift = d.shift
  refines : Refines kernel memory o d.shown d.shell m.session

section Steps

variable {serialExists : Bool} {kernel : Kernel} {fuel : Nat} {memory : Memory} {o : Output} {d : Desk} {m : Computer}
  {a : Arrival} {cons : Cons} {waiting : List Character}

/-- A quiet history is decoded without a trace on the console. -/
theorem Computer.decode_quiet {codes : List UInt8} (quiet : Quiet codes m.shift) :
    m.decode codes = some (chars (decodedBytes codes m.shift), { m with shift := codes.foldl next m.shift }) := by
  rw [decode, kbdFeed_quiet codes _ quiet]
  dsimp only
  rw [results_decodedBytes]
  rfl

theorem serialProcData_chars (bytes : List UInt8) : bytes.map (serialProcData comLsrData) = chars bytes := by
  have ready : ¬ comLsrData &&& comLsrData = 0 := by decide
  exact List.map_congr_left fun b _ => if_neg ready

/-- A handler queues the characters of its device. -/
theorem Buffered.characters (buffered : Buffered (waiting.map Subtype.val) cons) (bytes : List UInt8)
    (room : (waiting ++ Monitor.characters bytes).length ≤ consbufsize - 1) :
    Buffered ((waiting ++ Monitor.characters bytes).map Subtype.val) (consIntr cons (chars bytes)) := by
  have size : (waiting.map Subtype.val ++ bytes.filter (· ≠ 0)).length ≤ consbufsize - 1 := by
    rwa [← characters_val, ← List.map_append, List.length_map]
  rw [List.map_append, characters_val]
  exact buffered.intr bytes size

/-- The buffer when both handlers have taken what arrives. -/
def Computer.polled (a : Arrival) (m : Computer) : Computer :=
  { m with
    cons := Console.kbdIntr (Console.serialIntr m.serialExists m.cons (chars a.bytes))
      (chars (decodedBytes a.codes m.shift))
    shift := a.codes.foldl next m.shift }

/-- The handlers queue what arrives: first the characters of the serial port, then those of the keyboard. -/
theorem Serves.arrive (serves : Serves serialExists kernel memory o d m)
    (room : (d.arrive serialExists a).waiting.length ≤ consbufsize - 1) :
    Serves serialExists kernel memory o (d.arrive serialExists a) (m.polled a) := by
  obtain ⟨rfl, buffered, shift, refines⟩ := serves
  refine ⟨rfl, ?_, congrArg (a.codes.foldl next) shift, refines⟩
  simp only [Desk.arrive, Arrival.delivered, ← shift, ← List.append_assoc] at room ⊢
  have fits (first second : List Character) (fit : (first ++ second).length ≤ consbufsize - 1) :
      first.length ≤ consbufsize - 1 := by
    rw [List.length_append] at fit
    omega
  cases present : m.serialExists with
  | false =>
      simp only [present, Bool.false_eq_true, if_false, List.append_nil] at room ⊢
      simp only [Computer.polled, present]
      exact buffered.characters _ room
  | true =>
      simp only [present, if_true] at room ⊢
      simp only [Computer.polled, present]
      exact (buffered.characters a.bytes (fits _ _ room)).characters _ room

/-- The oldest character that waits is taken out of the buffer. -/
theorem Buffered.getc {bytes codes : List Int}
    (buffered : Buffered (waiting.map Subtype.val)
      (Console.kbdIntr (Console.serialIntr serialExists cons bytes) codes)) :
    ∃ cons', Buffered (waiting.tail.map Subtype.val) cons' ∧
      consGetc serialExists cons bytes codes = ((waiting.head?.map fun c : Character => (c.val.toNat : Int)).getD 0,
        cons') := by
  rw [consGetc]
  generalize Console.kbdIntr (Console.serialIntr serialExists cons bytes) codes = polled at buffered
  cases waiting with
  | nil =>
      have idle := buffered.idle.mpr rfl
      exact ⟨polled, buffered, if_neg (not_not.mpr idle)⟩
  | cons c rest =>
      have busy : polled.rpos ≠ polled.wpos := fun same => List.cons_ne_nil _ _ (buffered.idle.mp same)
      obtain ⟨front, later⟩ := buffered.pop
      refine ⟨{ polled with rpos := advance consbufsize polled.rpos }, later, ?_⟩
      dsimp only
      rw [if_pos busy, front]
      rfl

/-- A pass of the loop answers the oldest character, if there is one. -/
theorem Serves.getc (fits : kernel.Fits) (serves : Serves serialExists kernel memory o d m) {bytes codes : List UInt8}
    {trail : Trail} (admits : d.Admits serialExists fuel (.getc bytes codes trail)) :
    ∃ m', m.getc kernel fuel bytes codes trail.toStack = some m' ∧
      Serves serialExists kernel memory o (d.step serialExists kernel (.getc bytes codes trail)) m' := by
  have quiet : Quiet codes m.shift := serves.shift ▸ admits.quiet
  have arrived := serves.arrive admits.room
  obtain ⟨cons', rest, found⟩ := arrived.buffered.getc
  simp only [Arrival.bytes, Arrival.codes] at found
  have step : d.step serialExists kernel (.getc bytes codes trail) =
      (d.arrive serialExists (.getc bytes codes trail)).answer kernel trail := rfl
  rw [step, Computer.getc, Computer.decode_quiet quiet, Option.bind_eq_bind, Option.bind_some]
  dsimp only
  rw [serialProcData_chars, found, Desk.answer]
  cases split : (d.arrive serialExists (.getc bytes codes trail)).waiting with
  | nil =>
      rw [split] at rest
      exact ⟨_, if_pos rfl, arrived.serial, by rw [split]; exact rest, arrived.shift, arrived.refines⟩
  | cons c later =>
      rw [split] at rest
      have character : ¬ (c.val.toNat : Int) = 0 := by
        intro zero
        exact c.property (UInt8.toNat_inj.mp (Int.ofNat_eq_zero.mp zero))
      let key : Key := ⟨c, c.property, trail⟩
      obtain ⟨session, run, refines⟩ := arrived.refines.step fits
        (show key.trail.count < fuel from admits.enough trail rfl)
      have event : (⟨UInt8.ofInt c.val.toNat, trail.toStack⟩ : Event) = key.event := by
        rw [ofInt_byte]
        rfl
      refine ⟨{ m with cons := cons', shift := codes.foldl next m.shift, session }, (if_neg character).trans ?_,
        arrived.serial, rest, arrived.shift, refines⟩
      have steps : Session.step kernel fuel m.session key.event = some session := run
      simp only [List.head?_cons, Option.map_some, Option.getD_some]
      rw [event, steps]
      rfl

/-- Whatever happens at the devices, the kernel serves the desk. -/
theorem Serves.step (fits : kernel.Fits) (serves : Serves serialExists kernel memory o d m)
    (admits : d.Admits serialExists fuel a) :
    ∃ m', m.step kernel fuel a.input = some m' ∧
      Serves serialExists kernel memory o (d.step serialExists kernel a) m' := by
  cases a with
  | serialIntr bytes =>
      have arrived := serves.arrive admits.room
      refine ⟨m.serialIntr bytes, rfl, ?_⟩
      rw [Computer.serialIntr, serialProcData_chars]
      exact arrived
  | kbdIntr codes =>
      have quiet : Quiet codes m.shift := serves.shift ▸ admits.quiet
      have arrived := serves.arrive admits.room
      have empty : Console.serialIntr m.serialExists m.cons [] = m.cons := by
        rw [Console.serialIntr]
        exact ite_self _
      refine ⟨{ m with cons := Console.kbdIntr m.cons (chars (decodedBytes codes m.shift))
                       shift := codes.foldl next m.shift }, ?_, ?_⟩
      · change m.kbdIntr codes = _
        rw [Computer.kbdIntr, Computer.decode_quiet quiet]
        rfl
      · rw [Computer.polled, show chars (Arrival.kbdIntr codes).bytes = [] from rfl, empty] at arrived
        exact arrived
  | getc bytes codes trail => exact serves.getc fits admits

theorem Serves.run (fits : kernel.Fits) (serves : Serves serialExists kernel memory o d m) {arrivals : List Arrival}
    (admitted : Guarded (Desk.step serialExists kernel) (Desk.Admits serialExists fuel) d arrivals) :
    ∃ m', (arrivals.map Arrival.input).foldlM (Computer.step kernel fuel) m = some m' ∧
      Serves serialExists kernel memory o (arrivals.foldl (Desk.step serialExists kernel) d) m' := by
  induction arrivals generalizing d m with
  | nil => exact ⟨m, rfl, serves⟩
  | cons a rest ih =>
      obtain ⟨next, here, served⟩ := serves.step fits admitted.1
      obtain ⟨last, later, ends⟩ := ih served admitted.2
      refine ⟨last, ?_, ends⟩
      rw [List.map_cons, List.foldlM_cons, here]
      exact later

end Steps

/-- The characters that arrive one behind the other, when the decoder starts with these modifiers. -/
def deliveredBy (serialExists : Bool) : BitVec 32 → List Arrival → List Character
  | _, [] => []
  | shift, a :: rest => a.delivered serialExists shift ++ deliveredBy serialExists (a.codes.foldl next shift) rest

section Order

variable (serialExists : Bool) (kernel : Kernel)

/-- The characters are answered in the order in which they arrive, each with the stack of a pass. -/
structure Answers (arrivals : List Arrival) (d d' : Desk) (keys : List Key) : Prop where
  order : d.waiting.map Subtype.val ++ (deliveredBy serialExists d.shift arrivals).map Subtype.val =
    keys.map Key.char ++ d'.waiting.map Subtype.val
  trails : (keys.map Key.trail).Sublist (arrivals.filterMap Arrival.trail)
  shell : d'.shell = (Shell.run kernel d.shell keys).1
  shown : d'.shown = d.shown ++ (Shell.run kernel d.shell keys).2

/-- A step answers the oldest character, or none. -/
theorem Desk.step_answers (a : Arrival) (d : Desk) :
    ∃ keys : List Key, (d.arrive serialExists a).waiting.map Subtype.val =
        keys.map Key.char ++ (d.step serialExists kernel a).waiting.map Subtype.val ∧
      (keys.map Key.trail).Sublist a.trail.toList ∧
      (d.step serialExists kernel a).shift = a.codes.foldl next d.shift ∧
      (d.step serialExists kernel a).shell = (Shell.run kernel d.shell keys).1 ∧
      (d.step serialExists kernel a).shown = d.shown ++ (Shell.run kernel d.shell keys).2 := by
  rw [step]
  cases a.trail with
  | none => exact ⟨[], rfl, .slnil, rfl, rfl, (List.append_nil _).symm⟩
  | some trail =>
      dsimp only
      rw [answer]
      cases split : (d.arrive serialExists a).waiting with
      | nil => exact ⟨[], by rw [split]; rfl, List.nil_sublist _, rfl, rfl, (List.append_nil _).symm⟩
      | cons c rest =>
          refine ⟨[⟨c, c.property, trail⟩], rfl, List.Sublist.refl _, rfl, rfl, ?_⟩
          exact congrArg (d.shown ++ ·) (List.append_nil _).symm

theorem shell_run_append (shell : Shell) (first second : List Key) :
    Shell.run kernel shell (first ++ second) =
      ((Shell.run kernel (Shell.run kernel shell first).1 second).1,
        (Shell.run kernel shell first).2 ++ (Shell.run kernel (Shell.run kernel shell first).1 second).2) := by
  induction first generalizing shell with
  | nil => rfl
  | cons key rest ih =>
      simp only [List.cons_append, Shell.run, ih, List.append_assoc]

theorem Desk.run_answers (arrivals : List Arrival) (d : Desk) :
    ∃ keys, Answers serialExists kernel arrivals d (arrivals.foldl (Desk.step serialExists kernel) d) keys := by
  induction arrivals generalizing d with
  | nil => exact ⟨[], ⟨by simp [deliveredBy], .slnil, rfl, (List.append_nil _).symm⟩⟩
  | cons a rest ih =>
      obtain ⟨now, taken, trail, shift, shell, shown⟩ := d.step_answers serialExists kernel a
      obtain ⟨later, ⟨order, trails, shell', shown'⟩⟩ := ih (d.step serialExists kernel a)
      have run := shell_run_append kernel d.shell now later
      refine ⟨now ++ later, ⟨?_, ?_, ?_, ?_⟩⟩
      · have arrived : (d.arrive serialExists a).waiting = d.waiting ++ a.delivered serialExists d.shift := rfl
        rw [arrived, List.map_append] at taken
        rw [shift] at order
        rw [deliveredBy, List.map_append, ← List.append_assoc, taken, List.append_assoc, order, List.map_append,
          List.append_assoc]
        rfl
      · have listed : (a :: rest).filterMap Arrival.trail = a.trail.toList ++ rest.filterMap Arrival.trail := by
          rw [List.filterMap_cons]
          cases a.trail <;> rfl
        rw [List.map_append, listed]
        exact trail.append trails
      · rw [List.foldl_cons, run, shell', shell]
      · rw [List.foldl_cons, run, shown', shown, shell, List.append_assoc]

/-- A pass of the loop for each character that waits answers them all. -/
theorem Desk.run_polls (polls : List Trail) (d : Desk) (enough : d.waiting.length ≤ polls.length) :
    ((polls.map (Arrival.getc [] [])).foldl (Desk.step serialExists kernel) d).waiting = [] := by
  induction polls generalizing d with
  | nil => exact List.eq_nil_of_length_eq_zero (Nat.le_zero.mp enough)
  | cons trail rest ih =>
      have none : (d.arrive serialExists (.getc [] [] trail)).waiting = d.waiting := by
        have empty : (Arrival.getc [] [] trail).delivered serialExists d.shift = [] := by
          cases serialExists <;> rfl
        rw [arrive, empty, List.append_nil]
      have fewer : (d.step serialExists kernel (.getc [] [] trail)).waiting.length = d.waiting.length - 1 := by
        change ((d.arrive serialExists (.getc [] [] trail)).answer kernel trail).waiting.length = _
        rw [answer, none]
        cases split : d.waiting with
        | nil => rw [none, split]; rfl
        | cons c rest => rfl
      rw [List.map_cons, List.foldl_cons]
      rw [List.length_cons] at enough
      exact ih _ (by omega)

/-- Passes without bytes deliver nothing. -/
theorem deliveredBy_polls (shift : BitVec 32) (arrivals : List Arrival) (polls : List Trail) :
    deliveredBy serialExists shift (arrivals ++ polls.map (Arrival.getc [] [])) =
      deliveredBy serialExists shift arrivals := by
  induction arrivals generalizing shift with
  | nil =>
      induction polls with
      | nil => rfl
      | cons trail rest ih =>
          have empty : (Arrival.getc [] [] trail).delivered serialExists shift = [] := by
            cases serialExists <;> rfl
          change (Arrival.getc [] [] trail).delivered serialExists shift ++ _ = _
          rw [empty]
          exact ih
  | cons a rest ih => exact congrArg (a.delivered serialExists shift ++ ·) (ih _)

end Order

/-- A monitor that has received nothing answers exactly the characters that arrive, in their order. -/
theorem Serves.session {serialExists : Bool} {kernel : Kernel} {memory : Memory} {o : Output} {panicked : Bool}
    {out : List Int} {m : Computer} (start : Serves serialExists kernel memory o ⟨[], 0, ⟨[], panicked⟩, out⟩ m)
    (arrivals : List Arrival) (polls : List Trail) {fuel : Nat} (fits : kernel.Fits)
    (admitted : Guarded (Desk.step serialExists kernel) (Desk.Admits serialExists fuel) ⟨[], 0, ⟨[], panicked⟩, out⟩
      (arrivals ++ polls.map (Arrival.getc [] [])))
    (enough : (deliveredBy serialExists 0 arrivals).length ≤ polls.length) :
    ∃ keys : List Key, keys.map Key.char = (deliveredBy serialExists 0 arrivals).map Subtype.val ∧
      (keys.map Key.trail).Sublist (arrivals.filterMap Arrival.trail ++ polls) ∧
      let seen := Shell.run kernel ⟨[], panicked⟩ keys
      ∃ m', ((arrivals ++ polls.map (Arrival.getc [] [])).map Arrival.input).foldlM (Computer.step kernel fuel) m =
          some m' ∧
        m'.cons.rpos = m'.cons.wpos ∧ Refines kernel memory o (out ++ seen.2) seen.1 m'.session := by
  let all := arrivals ++ polls.map (Arrival.getc [] [])
  let d : Desk := ⟨[], 0, ⟨[], panicked⟩, out⟩
  obtain ⟨m', run, serves⟩ := start.run fits admitted
  obtain ⟨keys, order, trails, shell, shown⟩ := Desk.run_answers serialExists kernel all d
  have settled : (all.foldl (Desk.step serialExists kernel) d).waiting = [] := by
    obtain ⟨_, before, _⟩ := Desk.run_answers serialExists kernel arrivals d
    have sizes := congrArg List.length before
    simp only [d, List.map_nil, List.nil_append, List.length_append, List.length_map] at sizes
    rw [List.foldl_append]
    exact Desk.run_polls serialExists kernel polls _ (by simp only [d]; omega)
  have typed : keys.map Key.char = (deliveredBy serialExists 0 arrivals).map Subtype.val := by
    rw [settled, deliveredBy_polls, List.map_nil, List.append_nil] at order
    exact order.symm
  have listed : all.filterMap Arrival.trail = arrivals.filterMap Arrival.trail ++ polls := by
    rw [List.filterMap_append, List.filterMap_map]
    exact congrArg (_ ++ ·) List.filterMap_some
  obtain ⟨serial, buffered, _, refines⟩ := serves
  rw [settled] at buffered
  rw [shell, shown] at refines
  exact ⟨keys, typed, listed ▸ trails, m', run, buffered.idle.mpr rfl, refines⟩

/-- Whatever happens at the devices, and whenever the monitor polls them: if the buffer always has room and the monitor
polls often enough behind the last arrival, it has answered exactly the characters that have arrived, in their order. -/
theorem getchar_session (kernel : Kernel) (s : Session) (serialExists : Bool) (arrivals : List Arrival)
    (polls : List Trail) (fuel : Nat) (fits : kernel.Fits) (screen : s.console.Fits)
    (onScreen : s.console.crtPos < crtSize)
    (admitted : Guarded (Desk.step serialExists kernel) (Desk.Admits serialExists fuel)
      ⟨[], 0, ⟨[], s.panicstr⟩, welcomeText ++ promptText⟩ (arrivals ++ polls.map (Arrival.getc [] [])))
    (enough : (deliveredBy serialExists 0 arrivals).length ≤ polls.length) :
    ∃ keys : List Key, keys.map Key.char = (deliveredBy serialExists 0 arrivals).map Subtype.val ∧
      (keys.map Key.trail).Sublist (arrivals.filterMap Arrival.trail ++ polls) ∧
      let seen := Shell.run kernel ⟨[], s.panicstr⟩ keys
      let out := welcomeText ++ promptText ++ seen.2
      ∃ m', (s.monitor.bind fun s => ((arrivals ++ polls.map (Arrival.getc [] [])).map Arrival.input).foldlM
          (Computer.step kernel fuel) ⟨serialExists, Cons.initial, 0, s⟩) = some m' ∧
        m'.cons.rpos = m'.cons.wpos ∧ m'.session.panicstr = seen.1.panicked ∧
        BlockAt m'.session.ram.byte kernel.buf seen.1.line ∧ m'.session.i = seen.1.line.length ∧
        (∀ a, a < kernel.buf ∨ kernel.buf + Readline.buflen ≤ a → m'.session.ram.byte a = s.ram.byte a) ∧
        m'.session.console = put out s.console ∧
        Mirrors 1999 m'.session.console (shows out (Terminal.initial s.console.cell s.console.crtPos)) := by
  have start : Serves serialExists kernel s.ram.byte s.console
      ⟨[], 0, ⟨[], s.panicstr⟩, welcomeText ++ promptText⟩
      ⟨serialExists, Cons.initial, 0, { s with i := 0, console := put (welcomeText ++ promptText) s.console }⟩ :=
    ⟨rfl, Queued.initial (by decide) _, rfl, ⟨rfl, rfl, blockAt_nil, Nat.zero_le _, nofun, rfl, fun _ _ => rfl⟩⟩
  obtain ⟨keys, typed, trails, m', run, empty, refines⟩ := start.session arrivals polls fits admitted enough
  refine ⟨keys, typed, trails, m', ?_, empty, refines.panicked, refines.held, refines.count, refines.kept,
    refines.console, ?_⟩
  · rw [Session.monitor_eq, Option.bind_some]
    exact run
  · rw [refines.console]
    exact (put_reaches _ (Output.initial_mirrors screen onScreen)).mirrors

/-- A key on the keyboard and one on the serial line, read later by two polls. -/
theorem getchar_session_slow :
    let kernel : Kernel := ⟨⟨0, 0, 0, 0⟩, ⟨fun _ => ⟨0, 0, 0⟩, 0, [0]⟩, 4096, ⟨fun _ => 7, []⟩⟩
    let s : Session := ⟨false, ⟨fun _ => 9, []⟩, 5, ⟨0x3D4, 0xF00B8000, 0, ⟨fun _ => 0, []⟩, fun _ _ => 0xFF, 0, []⟩⟩
    let trail : Trail := ⟨⟨0, fun _ => 0⟩, 0, passes_zero.mpr fun walks => walks.1 rfl⟩
    let arrivals := [Arrival.kbdIntr [0x23, 0xA3], .serialIntr [13]]
    (deliveredBy true 0 arrivals).map Subtype.val = [104, 13] ∧
    ∃ keys : List Key, keys.map Key.char = (deliveredBy true 0 arrivals).map Subtype.val ∧
      (keys.map Key.trail).Sublist (arrivals.filterMap Arrival.trail ++ [trail, trail]) ∧
      let seen := Shell.run kernel ⟨[], s.panicstr⟩ keys
      let out := welcomeText ++ promptText ++ seen.2
      ∃ m', (s.monitor.bind fun s =>
          ((arrivals ++ [trail, trail].map (Arrival.getc [] [])).map Arrival.input).foldlM
            (Computer.step kernel 1) ⟨true, Cons.initial, 0, s⟩) = some m' ∧
        m'.cons.rpos = m'.cons.wpos ∧ m'.session.panicstr = seen.1.panicked ∧
        BlockAt m'.session.ram.byte kernel.buf seen.1.line ∧ m'.session.i = seen.1.line.length ∧
        (∀ a, a < kernel.buf ∨ kernel.buf + Readline.buflen ≤ a → m'.session.ram.byte a = s.ram.byte a) ∧
        m'.session.console = put out s.console ∧
        Mirrors 1999 m'.session.console (shows out (Terminal.initial s.console.cell s.console.crtPos)) :=
  ⟨by decide +kernel,
   getchar_session ⟨⟨0, 0, 0, 0⟩, ⟨fun _ => ⟨0, 0, 0⟩, 0, [0]⟩, 4096, ⟨fun _ => 7, []⟩⟩
    ⟨false, ⟨fun _ => 9, []⟩, 5, ⟨0x3D4, 0xF00B8000, 0, ⟨fun _ => 0, []⟩, fun _ _ => 0xFF, 0, []⟩⟩ true
    [.kbdIntr [0x23, 0xA3], .serialIntr [13]]
    [⟨⟨0, fun _ => 0⟩, 0, passes_zero.mpr fun walks => walks.1 rfl⟩,
     ⟨⟨0, fun _ => 0⟩, 0, passes_zero.mpr fun walks => walks.1 rfl⟩] 1
    ⟨by decide, by decide, by decide⟩ (by unfold Output.Fits; decide) (by decide +kernel)
    ⟨⟨by decide +kernel, ⟨by decide +kernel, by decide +kernel, trivial⟩, nofun⟩,
     ⟨by decide +kernel, trivial, nofun⟩,
     ⟨by decide +kernel, trivial, fun trail member => Option.some.inj member ▸ Nat.one_pos⟩,
     ⟨by decide +kernel, trivial, fun trail member => Option.some.inj member ▸ Nat.one_pos⟩, trivial⟩
    (by decide +kernel)⟩

end JosSmp.Monitor
