import JosSmp.Proof.Console.Refinement
import JosSmp.Proof.Monitor.Runcmd
import JosSmp.Proof.Monitor.Shell

/-!
This file proves that the kernel monitor behaves as the machine on lines and texts, whatever is typed.
-/

namespace JosSmp.Monitor
open Library Machine Console Kdebug Printfmt Cstring

section Calls

variable {kernel : Kernel} {s : Session}

theorem Session.prompt_eq (s : Session) :
    s.prompt = some { s with i := 0, console := put promptText s.console } := by
  rw [prompt, Monitor.prompt_eq, Option.map_some]

theorem Session.monitor_eq (s : Session) :
    s.monitor = some { s with i := 0, console := put (welcomeText ++ promptText) s.console } := by
  have first := cprintf_plain "Welcome to the JOS kernel monitor!\n" (by decide +kernel) (arguments [] []) s.console
  have second := cprintf_plain "Type 'help' for a list of commands.\n" (by decide +kernel) (arguments [] [])
  simp only [monitor, first, second, Option.bind_eq_bind, Option.bind_some, Session.prompt_eq, welcomeText, put_append]

/-- Only the first panic has a message. -/
theorem Session.panic_eq (s : Session) :
    s.panic (literal "kern/kdebug.c") 127 (literal "User address") (arguments [] []) =
      some { s with
        panicstr := true
        i := 0
        console := put ((if s.panicstr then [] else panicText) ++ welcomeText ++ promptText) s.console } := by
  have message := cprintf_plain "User address" (by decide +kernel) (arguments [] [])
  have newline := cprintf_plain "\n" (by decide +kernel) (arguments [] [])
  have call (o : Output) : (vcprintf (literal "User address") (arguments [] []) o).map Prod.snd =
      some (put (text "User address") o) := message o
  have whole : panicText = text "kernel panic at kern/kdebug.c:127: " ++ (text "User address" ++ text "\n") := by
    decide +kernel
  obtain ⟨panicstr, ram, i, console⟩ := s
  cases panicstr with
  | true => exact Session.monitor_eq _
  | false =>
      simp only [panic, Bool.false_eq_true, if_false, cprintf_panic, call, newline, Option.bind_eq_bind,
        Option.bind_some,
        Session.monitor_eq, whole, put_append]

end Calls

section Run

variable {line : List UInt8} {buf : Nat} {ram : Ram}

/-- What `runcmd` is about to do with a line, and what it has left of the memory. -/
structure Replies (line : List UInt8) (buf : Nat) (ram : Ram) (out : Outcome) : Prop where
  result : out.result = 0
  kept : ∀ a, a < buf ∨ buf + line.length ≤ a → out.ram.byte a = ram.byte a
  exceeding : 15 < (words isSeparator line).length →
    out.action = .message (literal "Too many arguments (max %d)\n") 16
  empty : words isSeparator line = [] → out.action = .nothing
  named : ∀ word rest, words isSeparator line = word :: rest → ¬ 15 < (words isSeparator line).length →
    ∀ command, (commands.find? fun command => command.name = word ++ [0]) = some command →
      out.action = .invoke command.func
  unknown : ∀ word rest, words isSeparator line = word :: rest → ¬ 15 < (words isSeparator line).length →
    (commands.find? fun command => command.name = word ++ [0]) = none →
      ∃ offset, out.action = .message (literal "Unknown command '%s'\n") (buf + offset) ∧
        offset + word.length ≤ line.length ∧ BlockAt out.ram.byte (buf + offset) (word ++ [0])

theorem runcmd_replies (argv : Argv) (noEnd : 0 ∉ line) {fuel : Nat} (held : BlockAt ram.byte buf (line ++ [0]))
    (fits : buf + line.length < 4294967296) (enough : line.length + 1 < fuel) :
    ∃ out, runcmd returnValue fuel buf argv ram = some out ∧ Replies line buf ram out := by
  obtain ⟨p, parsed, parses⟩ := parse_line line noEnd fuel buf 0 (argv.set 0 0) ram held fits (Nat.zero_le _) enough
  have fifteen : maxargs - 1 = 15 := rfl
  by_cases many : 15 < (words isSeparator line).length
  · have exceeds : p.tooMany = true := parses.exceeding (by omega)
    refine ⟨⟨.message (literal "Too many arguments (max %d)\n") maxargs, p.argc, p.argv, p.ram, 0⟩, ?_, rfl,
      parses.kept, fun _ => rfl, fun none => ?_, fun _ _ _ few => absurd many few, fun _ _ _ few => absurd many few⟩
    · simp only [runcmd, parsed, if_pos exceeds]
    · rw [none] at many
      exact absurd many (by decide +kernel)
  obtain ⟨fine, count, strings⟩ := parses.fitting (by omega)
  have taken : ¬ p.tooMany = true := by
    rw [fine]
    exact Bool.false_ne_true
  cases listed : words isSeparator line with
  | nil =>
      have empty : p.argc = 0 := by rw [count, listed, List.length_nil]
      refine ⟨⟨.nothing, p.argc, p.argv.set p.argc 0, p.ram, 0⟩, ?_, rfl, parses.kept, ?_, fun _ => rfl, ?_, ?_⟩
      · simp only [runcmd, parsed, if_neg taken, if_pos empty]
      · exact fun more => absurd more many
      · rintro word rest again
        cases listed.symm.trans again
      · rintro word rest again
        cases listed.symm.trans again
  | cons word rest =>
      obtain ⟨offset, place, inside, string⟩ := strings 0 word (by rw [listed]; rfl)
      have positive : p.argc ≠ 0 := by
        rw [count, listed, List.length_cons]
        omega
      have first : (p.argv.set p.argc 0).slot 0 = buf + offset := by
        rw [← place]
        exact Function.update_of_ne (Ne.symm positive) ..
      have noEnd' : 0 ∉ word := fun member => noEnd (mem_of_mem_words (listed ▸ List.mem_cons_self) member)
      obtain ⟨ram', run, bytes, _⟩ := lookup_eq commands_named string noEnd' (by omega)
      have kept (a : Nat) (outside : a < buf ∨ buf + line.length ≤ a) : ram'.byte a = ram.byte a := by
        rw [bytes, parses.kept a outside]
      cases found : commands.find? fun command => command.name = word ++ [0] with
      | none =>
          refine ⟨⟨.message (literal "Unknown command '%s'\n") ((p.argv.set p.argc 0).slot 0), p.argc,
            p.argv.set p.argc 0, ram', 0⟩, ?_, rfl, kept, ?_, ?_, ?_, ?_⟩
          · simp only [runcmd, parsed, if_neg taken, if_neg positive, first, run, found]
          · exact fun more => absurd more many
          · rw [listed]
            exact fun none => absurd none (List.cons_ne_nil _ _)
          · rintro word' rest' again _ command here
            obtain ⟨rfl, _⟩ := List.cons.inj (listed.symm.trans again)
            cases found.symm.trans here
          · rintro word' rest' again _ _
            obtain ⟨rfl, _⟩ := List.cons.inj (listed.symm.trans again)
            exact ⟨offset, by rw [first], inside, by rwa [bytes]⟩
      | some command =>
          refine ⟨⟨.invoke command.func, p.argc, p.argv.set p.argc 0, ram', 0⟩, ?_, rfl, kept, ?_, ?_, ?_, ?_⟩
          · simp only [runcmd, parsed, if_neg taken, if_neg positive, first, run, found]
            rfl
          · exact fun more => absurd more many
          · rw [listed]
            exact fun none => absurd none (List.cons_ne_nil _ _)
          · rintro word' rest' again _ command' here
            obtain ⟨rfl, _⟩ := List.cons.inj (listed.symm.trans again)
            rw [Option.some.inj (found.symm.trans here)]
          · rintro word' rest' again _ none
            obtain ⟨rfl, _⟩ := List.cons.inj (listed.symm.trans again)
            cases found.symm.trans none

end Run

/-- The buffer of `readline` lies in the address space and not at its start, and so does the string table. -/
structure Kernel.Fits (kernel : Kernel) : Prop where
  start : 0 < kernel.buf
  fits : kernel.buf + Readline.buflen ≤ 4294967296
  object : kernel.tables.stabstr.length < 1073741824

section Perform

variable {kernel : Kernel} {trail : Trail} {line : List UInt8} {ram : Ram} {out : Outcome} {fuel : Nat}

/-- The command that has a name. -/
theorem find_command (word : List UInt8) :
    (commands.find? fun command => command.name = word ++ [0]) =
      if word = bytesOf "help" then some ⟨literal "help", .monHelp⟩
      else if word = bytesOf "kerninfo" then some ⟨literal "kerninfo", .monKerninfo⟩
      else if word = bytesOf "backtrace" then some ⟨literal "backtrace", .monBacktrace⟩
      else none := by
  have same (s : String) : literal s = word ++ [0] ↔ word = bytesOf s := by
    have split : literal s = bytesOf s ++ [0] := rfl
    rw [split, List.append_left_inj, eq_comm]
  simp only [commands, List.find?_cons, List.find?_nil, same]
  split_ifs <;> simp_all

/-- A string in the memory is an argument of a message. -/
theorem stringArgument_held {word : List UInt8} {p : Nat} (held : BlockAt ram.byte p (word ++ [0])) (start : 0 < p)
    (fits : p + word.length < 4294967296) :
    ∃ tail, stringArgument ⟨fun _ => UInt32.ofNat p, bytesFrom ram⟩ 0 = word ++ 0 :: tail := by
  have value : (UInt32.ofNat p).toNat = p := by
    rw [UInt32.toNat_ofNat']
    omega
  have pointer : UInt32.ofNat p ≠ 0 := by
    intro null
    rw [null] at value
    exact absurd value (Nat.ne_of_lt start)
  obtain ⟨rest, size⟩ : ∃ rest, 4294967296 - p = (word ++ [0]).length + rest := by
    apply Nat.exists_eq_add_of_le
    rw [List.length_append, List.length_singleton]
    omega
  refine ⟨readBlock ram.byte (p + (word ++ [0]).length) rest, ?_⟩
  have bytes : stringArgument ⟨fun _ => UInt32.ofNat p, bytesFrom ram⟩ 0 = bytesFrom ram (UInt32.ofNat p) :=
    if_neg pointer
  rw [bytes, bytesFrom, value, size, readBlock_append, held, List.append_assoc]
  rfl

/-- A line prints its reply. -/
theorem perform_eq (fits : kernel.Fits) (replies : Replies line kernel.buf ram out) (noEnd : 0 ∉ line)
    (room : line.length ≤ Readline.buflen - 1) (enough : trail.count < fuel) (o : Output) :
    perform kernel fuel trail.toStack out o =
      some ((reply kernel trail line).2, put (reply kernel trail line).1 o) := by
  obtain ⟨start, inside, object⟩ := fits
  have size : Readline.buflen = 1024 := rfl
  by_cases many : 15 < (words isSeparator line).length
  · have message := cprintf_decimal "Too many arguments (max " ")\n" (by decide +kernel) (by decide +kernel)
      (show literal "Too many arguments (max %d)\n" = _ by decide +kernel)
        ⟨fun _ => UInt32.ofNat 16, bytesFrom out.ram⟩ o
    have whole : text "Too many arguments (max " ++ decimalText (UInt32.ofNat 16) ++ text ")\n" =
        text "Too many arguments (max 16)\n" := by decide +kernel
    rw [perform, replies.exceeding many, reply, if_pos many]
    dsimp only
    rw [message, whole]
    rfl
  rw [reply, if_neg many]
  cases listed : words isSeparator line with
  | nil =>
      rw [perform, replies.empty listed]
      rfl
  | cons word rest =>
      have found := replies.named word rest listed many
      have unknown := replies.unknown word rest listed many
      rw [find_command] at found unknown
      rw [List.head?_cons]
      dsimp only
      by_cases help : word = bytesOf "help"
      · simp only [if_pos help] at found ⊢
        rw [perform, found _ rfl]
        dsimp only
        rw [monHelp_eq]
        rfl
      by_cases kerninfo : word = bytesOf "kerninfo"
      · simp only [if_neg help, if_pos kerninfo] at found ⊢
        rw [perform, found _ rfl]
        dsimp only
        rw [monKerninfo_eq]
        rfl
      by_cases backtrace : word = bytesOf "backtrace"
      · simp only [if_neg help, if_neg kerninfo, if_pos backtrace] at found ⊢
        rw [perform, found _ rfl]
        exact backtraceLoop_passes object trail.passes enough o
      simp only [if_neg help, if_neg kerninfo, if_neg backtrace] at unknown ⊢
      obtain ⟨offset, action, within, held⟩ := unknown trivial
      obtain ⟨tail, string⟩ := stringArgument_held held (by omega) (by omega)
      have noEnd' : 0 ∉ word := fun member => noEnd (mem_of_mem_words (listed ▸ List.mem_cons_self) member)
      have message := cprintf_string "Unknown command '" "'\n" (by decide +kernel) (by decide +kernel)
        (show literal "Unknown command '%s'\n" = _ by decide +kernel) string noEnd' (by omega) o
      rw [perform, action]
      dsimp only
      rw [message]
      rfl

end Perform

section Command

variable {kernel : Kernel} {trail : Trail} {line : List UInt8} {fuel : Nat} {s : Session}

/-- A finished line is answered, and the next line begins. -/
theorem Session.command_eq (fits : kernel.Fits) (noEnd : 0 ∉ line) (room : line.length ≤ Readline.buflen - 1)
    (enough : trail.count < fuel) (held : BlockAt s.ram.byte kernel.buf (line ++ [0])) :
    ∃ ram, (∀ a, a < kernel.buf ∨ kernel.buf + Readline.buflen ≤ a → ram.byte a = s.ram.byte a) ∧
      s.command kernel fuel trail.toStack = some
        { panicstr := s.panicstr || (reply kernel trail line).2
          ram
          i := 0
          console := put ((reply kernel trail line).1 ++
            (if (reply kernel trail line).2 then (if s.panicstr then [] else panicText) ++ welcomeText else []) ++
            promptText) s.console } := by
  have inside := fits.fits
  have size : Readline.buflen = 1024 := rfl
  obtain ⟨out, run, replies⟩ := runcmd_replies kernel.argv noEnd held (by omega)
    (show line.length + 1 < Readline.buflen + 1 by omega)
  have performed := perform_eq fits replies noEnd room enough s.console
  refine ⟨out.ram, fun a outside => replies.kept a (by omega), ?_⟩
  rw [command, run]
  dsimp only
  rw [performed]
  cases panics : (reply kernel trail line).2 with
  | true =>
      dsimp only
      rw [Session.panic_eq, Bool.or_true, if_pos rfl]
      simp only [put_append]
  | false =>
      have again : ¬ out.result < 0 := by
        rw [replies.result]
        decide
      dsimp only
      rw [if_neg again, Session.prompt_eq, Bool.or_false, if_neg Bool.false_ne_true]
      simp only [put_append, put_nil]

end Command

/-- The kernel waits for a character with the line of the shell in its buffer: it has printed the text, and has written
into no other memory. -/
structure Refines (kernel : Kernel) (memory : Memory) (o : Output) (out : List Int) (shell : Shell) (s : Session) :
    Prop where
  panicked : s.panicstr = shell.panicked
  count : s.i = shell.line.length
  held : BlockAt s.ram.byte kernel.buf shell.line
  room : shell.line.length ≤ Readline.buflen - 1
  printable : ∀ b ∈ shell.line, 0x20 ≤ b
  console : s.console = put out o
  kept : ∀ a, a < kernel.buf ∨ kernel.buf + Readline.buflen ≤ a → s.ram.byte a = memory a

section Steps

variable {kernel : Kernel} {memory : Memory} {o : Output} {out : List Int} {shell : Shell} {s : Session} {key : Key}
  {fuel : Nat}

/-- Storing a byte behind the line keeps the line, and everything outside of the buffer. -/
theorem Refines.store (refines : Refines kernel memory o out shell s) (b : UInt8) :
    BlockAt (s.ram.store (kernel.buf + s.i) [b]).byte kernel.buf (shell.line ++ [b]) ∧
      ∀ a, a < kernel.buf ∨ kernel.buf + Readline.buflen ≤ a →
        (s.ram.store (kernel.buf + s.i) [b]).byte a = memory a := by
  have size : Readline.buflen = 1024 := rfl
  have room := refines.room
  have count := refines.count
  constructor
  · refine blockAt_append.mpr ⟨refines.held.congr fun a _ upper => ?_, ?_⟩
    · exact writeBlock_outside _ (.inl (by omega))
    · refine blockAt_cons.mpr ⟨?_, blockAt_nil⟩
      rw [← count]
      exact writeBlock_inside s.ram.byte (kernel.buf + s.i) (i := 0) (by simp)
  · intro a outside
    rw [← refines.kept a outside]
    exact writeBlock_outside _ (by rw [List.length_singleton]; omega)

theorem Refines.echo (refines : Refines kernel memory o out shell s) (ch : Int) :
    s.console.cputchar ch = put (out ++ [ch]) o := by
  rw [refines.console, put_append]
  rfl

/-- A character that does not end the line edits it. -/
theorem Refines.next (refines : Refines kernel memory o out shell s) (c : UInt8) :
    Refines kernel memory o (out ++ echoed shell.line c) ⟨Readline.keep shell.line c, shell.panicked⟩
      (s.keep kernel (Readline.next stdio (stdio.iscons 0) c (s.reading kernel))) := by
  have echoing : stdio.iscons 0 ≠ 0 := show (1 : Int) ≠ 0 by decide
  have count : (s.reading kernel).i = shell.line.length := refines.count
  have nonempty : (s.reading kernel).i > 0 ↔ shell.line ≠ [] := by
    rw [count]
    exact List.length_pos_iff
  by_cases erase : Readline.isErase c ∧ shell.line ≠ []
  · rw [Readline.next, if_pos ⟨erase.1, nonempty.mpr erase.2⟩, Readline.State.echo, if_pos echoing, echoed,
      if_pos erase,
      Readline.keep_erase erase.1 erase.2]
    have split := List.dropLast_append_getLast erase.2
    constructor
    · exact refines.panicked
    · rw [List.length_dropLast, ← count]
      rfl
    · have held := refines.held
      rw [← split] at held
      exact (blockAt_append.mp held).1
    · rw [List.length_dropLast]
      exact Nat.le_trans (Nat.sub_le _ _) refines.room
    · exact fun b member => refines.printable b (List.dropLast_subset shell.line member)
    · exact refines.echo 0x08
    · exact refines.kept
  have stay : ¬ (Readline.isErase c ∧ (s.reading kernel).i > 0) := fun both => erase ⟨both.1, nonempty.mp both.2⟩
  by_cases more : 0x20 ≤ c ∧ shell.line.length < Readline.buflen - 1
  · obtain ⟨held, kept⟩ := refines.store c
    rw [Readline.next, if_neg stay, if_pos (by rwa [count]), Readline.State.echo, if_pos echoing, echoed, if_neg erase,
      if_pos more, Readline.keep, if_neg erase, if_pos more]
    have written : (s.keep kernel { ({ s.reading kernel with console := stdio.cputchar c.toNat s.console } :
        Readline.State Output).store c.toNat with i := s.i + 1 }).ram = s.ram.store (kernel.buf + s.i) [c] := by
      change s.ram.store (kernel.buf + s.i) [Function.update (s.reading kernel).buf s.i (UInt8.ofInt c.toNat) s.i] = _
      rw [Function.update_self, ofInt_byte]
    constructor
    · exact refines.panicked
    · rw [List.length_append, List.length_singleton, ← count]
      rfl
    · exact written ▸ held
    · rw [List.length_append, List.length_singleton]
      exact more.2
    · intro b member
      obtain earlier | here := List.mem_append.mp member
      · exact refines.printable b earlier
      · exact (List.mem_singleton.mp here) ▸ more.1
    · exact refines.echo c.toNat
    · exact written ▸ kept
  · rw [Readline.next, if_neg stay, if_neg (by rwa [count]), echoed, if_neg erase, if_neg more, Readline.keep,
      if_neg erase, if_neg more, List.append_nil]
    exact ⟨refines.panicked, refines.count, refines.held, refines.room, refines.printable, refines.console,
      refines.kept⟩

/-- A character that ends the line runs it. -/
theorem Refines.entered (fits : kernel.Fits) (refines : Refines kernel memory o out shell s)
    (enough : key.trail.count < fuel) :
    ∃ s', (s.keep kernel (((s.reading kernel).echo stdio (stdio.iscons 0) '\n'.toNat).store 0)).command kernel fuel
        key.trail.toStack = some s' ∧
      Refines kernel memory o
        (out ++ (text "\n" ++ (reply kernel key.trail shell.line).1 ++
          (if (reply kernel key.trail shell.line).2 then
            (if shell.panicked then [] else panicText) ++ welcomeText else []) ++ promptText))
        ⟨[], shell.panicked || (reply kernel key.trail shell.line).2⟩ s' := by
  have echoing : stdio.iscons 0 ≠ 0 := show (1 : Int) ≠ 0 by decide
  obtain ⟨held, kept⟩ := refines.store 0
  have noEnd : 0 ∉ shell.line := fun member => absurd (refines.printable 0 member) (by decide +kernel)
  rw [Readline.State.echo, if_pos echoing]
  let s₁ := s.keep kernel (({ s.reading kernel with console := stdio.cputchar '\n'.toNat s.console } :
    Readline.State Output).store 0)
  have written : s₁.ram = s.ram.store (kernel.buf + s.i) [0] := by
    change s.ram.store (kernel.buf + s.i) [Function.update (s.reading kernel).buf s.i (UInt8.ofInt 0) s.i] = _
    rw [Function.update_self]
    rfl
  have console : s₁.console = put (out ++ text "\n") o := refines.echo '\n'.toNat
  obtain ⟨ram, same, run⟩ := Session.command_eq (s := s₁) fits noEnd refines.room enough (written ▸ held)
  refine ⟨_, run, ?_⟩
  have panicked : s₁.panicstr = shell.panicked := refines.panicked
  constructor
  · rw [panicked]
  · rfl
  · exact blockAt_nil
  · exact Nat.zero_le _
  · exact nofun
  · dsimp only
    rw [console, panicked, ← put_append]
    simp only [List.append_assoc]
  · intro a outside
    exact (same a outside).trans (written ▸ kept a outside)

/-- Each character does to the kernel what it does to the shell. -/
theorem Refines.step (fits : kernel.Fits) (refines : Refines kernel memory o out shell s)
    (enough : key.trail.count < fuel) :
    ∃ s', s.step kernel fuel key.event = some s' ∧
      Refines kernel memory o (out ++ (shell.step kernel key).2) (shell.step kernel key).1 s' := by
  by_cases ends : key.char = 0x0a ∨ key.char = 0x0d
  · have passed : Readline.pass stdio (stdio.iscons 0) key.char.toNat (s.reading kernel) =
        some (.done true (((s.reading kernel).echo stdio (stdio.iscons 0) '\n'.toNat).store 0)) :=
      Readline.pass_newline ends
    obtain ⟨s', run, after⟩ := refines.entered fits enough
    refine ⟨s', ?_, ?_⟩
    · rw [Session.step]
      dsimp only [Key.event]
      rw [passed]
      exact run
    · rw [Shell.step, if_pos ends]
      dsimp only
      cases panics : (reply kernel key.trail shell.line).2 with
      | true => simpa only [panics, if_true, Bool.or_true, List.append_assoc] using after
      | false => simpa only [panics, Bool.false_eq_true, if_false, Bool.or_false, List.append_nil] using after
  · obtain ⟨newline, ret⟩ := not_or.mp ends
    have passed : Readline.pass stdio (stdio.iscons 0) key.char.toNat (s.reading kernel) =
        some (.more (Readline.next stdio (stdio.iscons 0) key.char (s.reading kernel))) :=
      Readline.pass_typed ⟨key.nonzero, newline, ret⟩
    have after := refines.next key.char
    rw [Shell.step, if_neg ends]
    refine ⟨_, ?_, after⟩
    rw [Session.step]
    dsimp only [Key.event]
    rw [passed]

/-- All characters do to the kernel what they do to the shell. -/
theorem Refines.run (fits : kernel.Fits) (refines : Refines kernel memory o out shell s) (keys : List Key)
    (enough : ∀ key ∈ keys, key.trail.count < fuel) :
    ∃ s', (keys.map Key.event).foldlM (Session.step kernel fuel) s = some s' ∧
      Refines kernel memory o (out ++ (shell.run kernel keys).2) (shell.run kernel keys).1 s' := by
  induction keys generalizing out shell s with
  | nil => exact ⟨s, rfl, by rwa [Shell.run, List.append_nil]⟩
  | cons key keys ih =>
      obtain ⟨here, later⟩ := List.forall_mem_cons.mp enough
      obtain ⟨s₁, first, refines₁⟩ := refines.step fits here
      obtain ⟨s', rest, refines'⟩ := ih refines₁ later
      refine ⟨s', ?_, ?_⟩
      · rw [List.map_cons, List.foldlM_cons, first]
        exact rest
      · rwa [List.append_assoc] at refines'

end Steps

/-- The terminal behind some characters. -/
def shows (out : List Int) (x : Terminal) : Terminal := out.foldl (fun x ch => x.put (BitVec.ofInt 32 ch)) x

theorem put_reaches {o : Output} {x : Terminal} (out : List Int) (mirrors : Mirrors 1999 o x) :
    Reaches 1999 o (put out o) (shows out x) :=
  List.foldl_rel (r := Reaches 1999 o) ⟨mirrors, rfl, .refl o⟩ fun _ _ _ _ reached =>
    reached.trans (Output.consPutc_reaches reached.mirrors _)

/-- The monitor keeps running whatever is typed. It holds the line of the shell in its buffer, has written into no other
memory, has printed the texts of the shell, and the screen shows the last rows of a terminal that received them. -/
theorem monitor_session (kernel : Kernel) (s : Session) (keys : List Key) (fuel : Nat) (fits : kernel.Fits)
    (screen : s.console.Fits) (onScreen : s.console.crtPos < crtSize)
    (enough : ∀ key ∈ keys, key.trail.count < fuel) :
    let seen := Shell.run kernel ⟨[], s.panicstr⟩ keys
    let out := welcomeText ++ promptText ++ seen.2
    ∃ s', (s.monitor.bind fun s => (keys.map Key.event).foldlM (Session.step kernel fuel) s) = some s' ∧
      s'.panicstr = seen.1.panicked ∧ s'.i = seen.1.line.length ∧
      BlockAt s'.ram.byte kernel.buf seen.1.line ∧
      (∀ a, a < kernel.buf ∨ kernel.buf + Readline.buflen ≤ a → s'.ram.byte a = s.ram.byte a) ∧
      s'.console = put out s.console ∧
      Mirrors 1999 s'.console (shows out (Terminal.initial s.console.cell s.console.crtPos)) := by
  intro seen out
  have start : Refines kernel s.ram.byte s.console (welcomeText ++ promptText) ⟨[], s.panicstr⟩
      { s with i := 0, console := put (welcomeText ++ promptText) s.console } :=
    ⟨rfl, rfl, blockAt_nil, Nat.zero_le _, nofun, rfl, fun _ _ => rfl⟩
  obtain ⟨s', run, refines⟩ := start.run fits keys enough
  refine ⟨s', ?_, refines.panicked, refines.count, refines.held, refines.kept, refines.console, ?_⟩
  · rw [Session.monitor_eq, Option.bind_some, run]
  · rw [refines.console]
    exact (put_reaches out (Output.initial_mirrors screen onScreen)).mirrors

/-- An unknown command is typed on a stack that has ended. -/
theorem monitor_session_unknown :
    let kernel : Kernel := ⟨⟨0, 0, 0, 0⟩, ⟨fun _ => ⟨0, 0, 0⟩, 0, [0]⟩, 4096, ⟨fun _ => 7, []⟩⟩
    let s : Session := ⟨false, ⟨fun _ => 9, []⟩, 5, ⟨0x3D4, 0xF00B8000, 0, ⟨fun _ => 0, []⟩, fun _ _ => 0xFF, 0, []⟩⟩
    let trail : Trail := ⟨⟨0, fun _ => 0⟩, 0, passes_zero.mpr fun walks => walks.1 rfl⟩
    let keys : List Key := [⟨108, by decide, trail⟩, ⟨10, by decide, trail⟩]
    let seen := Shell.run kernel ⟨[], s.panicstr⟩ keys
    let out := welcomeText ++ promptText ++ seen.2
    ∃ s', (s.monitor.bind fun s => (keys.map Key.event).foldlM (Session.step kernel 1) s) = some s' ∧
      s'.panicstr = seen.1.panicked ∧ s'.i = seen.1.line.length ∧
      BlockAt s'.ram.byte kernel.buf seen.1.line ∧
      (∀ a, a < kernel.buf ∨ kernel.buf + Readline.buflen ≤ a → s'.ram.byte a = s.ram.byte a) ∧
      s'.console = put out s.console ∧
      Mirrors 1999 s'.console (shows out (Terminal.initial s.console.cell s.console.crtPos)) := by
  intro kernel s trail keys
  have few : ∀ key ∈ keys, key.trail.count < 1 := by
    simp only [keys, List.mem_cons, List.not_mem_nil, or_false]
    rintro key (rfl | rfl) <;> exact Nat.one_pos
  exact monitor_session kernel s keys 1 ⟨by decide, by decide, by decide⟩ (by unfold Output.Fits; decide)
    (by decide +kernel) few

end JosSmp.Monitor
