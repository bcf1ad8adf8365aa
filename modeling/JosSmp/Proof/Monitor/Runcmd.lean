import JosSmp.Proof.Monitor.Parse
import JosSmp.Proof.String.Compare

/-!
This file proves that `runcmd` runs the command that a line names.
-/

namespace JosSmp.Monitor
open Library Machine

section Lookup

variable {p : Nat} {ram : Ram} {word name : List UInt8}

/-- Two strings compare as equal if they are the same, and the comparison stays in the first string. -/
theorem strcmp_eq (held : BlockAt ram.byte p (word ++ [0])) (noEnd : 0 ∉ word) (noEnd' : 0 ∉ name)
    (fits : p + word.length < 4294967296) :
    ∃ order ram', Cstring.strcmp ram p (name ++ [0]) = some (order, ram') ∧ (order = 0 ↔ word = name) ∧
      ram'.byte = ram.byte ∧ Within p (p + word.length) ram ram' := by
  obtain ⟨order, run, sign⟩ := Compare.strcmp_compare noEnd noEnd' [] []
  have length : (word ++ [0]).length = word.length + 1 := List.length_append
  have block : readBlock ram.byte p (word.length + 1) = word ++ [0] := by
    rw [← length]
    exact held
  rw [← block] at run
  obtain ⟨ram', compared, bytes, near⟩ := Compare.strcmp_ram (by omega) run
  refine ⟨order, ram', compared, Compare.zero_iff_eq sign, bytes, fun a accessed => ?_⟩
  exact (near a accessed).imp_right (by omega)

/-- The commands are compared in order, until one has the name. -/
theorem lookup_eq {list : List Command} (named : ∀ command ∈ list, ∃ name, 0 ∉ name ∧ command.name = name ++ [0])
    (held : BlockAt ram.byte p (word ++ [0])) (noEnd : 0 ∉ word) (fits : p + word.length < 4294967296) :
    ∃ ram', lookup p list ram = some (list.find? fun command => command.name = word ++ [0], ram') ∧
      ram'.byte = ram.byte ∧ Within p (p + word.length) ram ram' := by
  induction list generalizing ram with
  | nil => exact ⟨ram, rfl, rfl, fun a earlier => .inl earlier⟩
  | cons command list ih =>
      obtain ⟨⟨name, noEnd', same⟩, others⟩ := List.forall_mem_cons.mp named
      obtain ⟨order, ram₁, run, equal, bytes, near⟩ := strcmp_eq held noEnd noEnd' fits
      rw [← same] at run
      have matched : command.name = word ++ [0] ↔ order = 0 := by
        rw [same, equal, List.append_left_inj, eq_comm]
      by_cases found : order = 0
      · refine ⟨ram₁, ?_, bytes, near⟩
        rw [lookup, run, List.find?_cons_of_pos (by simpa using matched.mpr found)]
        simp only [if_pos found]
      · have kept : BlockAt ram₁.byte p (word ++ [0]) := by rwa [bytes]
        obtain ⟨ram', onward, bytes', far⟩ := ih others kept
        refine ⟨ram', ?_, bytes'.trans bytes, near.trans far⟩
        rw [lookup, run, List.find?_cons_of_neg (by simpa using fun equal => found (matched.mp equal))]
        simp only [if_neg found, onward]

theorem commands_named : ∀ command ∈ commands, ∃ name, 0 ∉ name ∧ command.name = name ++ [0] := by
  simp only [commands, List.mem_cons, List.not_mem_nil, or_false]
  rintro command (rfl | rfl | rfl)
  · exact ⟨"help".toList.map ascii, by decide, by decide⟩
  · exact ⟨"kerninfo".toList.map ascii, by decide, by decide⟩
  · exact ⟨"backtrace".toList.map ascii, by decide, by decide⟩

end Lookup

/-- What `runcmd` does with the words of a line that fit into the array. -/
def Dispatches (call : Func → Nat → Argv → Ram → Int) (line : List (List UInt8)) (out : Outcome) : Prop :=
  match line.head? with
  | none => out.action = .nothing ∧ out.result = 0
  | some word =>
      match commands.find? fun command => command.name = word ++ [0] with
      | some command =>
          out.action = .invoke command.func ∧ out.result = call command.func out.argc out.argv out.ram
      | none =>
          out.action = .message (Cstring.literal "Unknown command '%s'\n") (out.argv.slot 0) ∧ out.result = 0

/-- What `runcmd` leaves of the line at `buf`: it accesses nothing behind the final zero, and writes `argv` in range.
The arguments are the words of the line as strings, with a null pointer behind them; too many words run nothing. -/
structure Splits (call : Func → Nat → Argv → Ram → Int) (line : List UInt8) (buf : Nat) (argv : Argv) (ram : Ram)
    (out : Outcome) : Prop where
  accessed : Within buf (buf + line.length) ram out.ram
  kept : ∀ a, a < buf ∨ buf + line.length ≤ a → out.ram.byte a = ram.byte a
  indices : ∀ i ∈ out.argv.written, i ∈ argv.written ∨ i < maxargs
  fitting : (words isSeparator line).length ≤ maxargs - 1 →
    out.argc = (words isSeparator line).length ∧ out.argv.slot out.argc = 0 ∧
      (∀ k word, (words isSeparator line)[k]? = some word →
        ∃ offset, out.argv.slot k = buf + offset ∧ offset + word.length ≤ line.length ∧
          BlockAt out.ram.byte (buf + offset) (word ++ [0])) ∧
      Dispatches call (words isSeparator line) out
  exceeding : maxargs - 1 < (words isSeparator line).length →
    out.action = .message (Cstring.literal "Too many arguments (max %d)\n") maxargs ∧ out.result = 0

section Run

variable {call : Func → Nat → Argv → Ram → Int} {line : List UInt8} {fuel buf : Nat} {argv : Argv} {ram : Ram}
  {p : Parsed}

/-- A parsed line that fits is split, whatever reads it afterwards. -/
theorem Parses.splits {out : Outcome} (parses : Parses line buf 0 (argv.set 0 0) ram p)
    (few : (words isSeparator line).length ≤ maxargs - 1) (argc : out.argc = p.argc)
    (array : out.argv = p.argv.set p.argc 0) (bytes : out.ram.byte = p.ram.byte)
    (near : Within buf (buf + line.length) p.ram out.ram)
    (dispatched : Dispatches call (words isSeparator line) out) : Splits call line buf argv ram out := by
  obtain ⟨_, count, strings⟩ := parses.fitting (by omega)
  rw [Nat.zero_add] at count
  constructor
  · exact parses.accessed.trans near
  · intro a outside
    rw [bytes, parses.kept a outside]
  · intro i member
    rw [array] at member
    obtain rfl | earlier := List.mem_cons.mp member
    · exact .inr (by rw [count, maxargs] at *; omega)
    · obtain here | small := parses.indices i earlier
      · obtain rfl | before := List.mem_cons.mp here
        · exact .inr (by decide)
        · exact .inl before
      · exact .inr small
  · intro _
    refine ⟨argc.trans count, ?_, fun k word listed => ?_, dispatched⟩
    · rw [argc, array]
      exact Function.update_self ..
    · obtain ⟨offset, place, inside, string⟩ := strings k word listed
      have below : k < p.argc := by
        rw [count]
        exact (List.getElem?_eq_some_iff.mp listed).1
      refine ⟨offset, ?_, inside, by rwa [bytes]⟩
      rw [array, ← place, Nat.zero_add]
      exact Function.update_of_ne (Nat.ne_of_lt below) ..
  · intro many
    omega

/-- A line with too many words runs nothing. -/
theorem Parses.overflows (parses : Parses line buf 0 (argv.set 0 0) ram p)
    (many : maxargs - 1 < (words isSeparator line).length) :
    Splits call line buf argv ram
      ⟨.message (Cstring.literal "Too many arguments (max %d)\n") maxargs, p.argc, p.argv, p.ram, 0⟩ := by
  constructor
  · exact parses.accessed
  · exact parses.kept
  · intro i member
    obtain here | small := parses.indices i member
    · obtain rfl | before := List.mem_cons.mp here
      · exact .inr (by decide)
      · exact .inl before
    · exact .inr small
  · intro few
    omega
  · exact fun _ => ⟨rfl, rfl⟩

/-- A command line is split into its words, in place, and runs the command that its first word names. -/
theorem runcmd_splits (call : Func → Nat → Argv → Ram → Int) (line : List UInt8) (noEnd : 0 ∉ line)
    (fuel buf : Nat) (argv : Argv) (ram : Ram) (held : BlockAt ram.byte buf (line ++ [0]))
    (fits : buf + line.length < 4294967296) (enough : line.length + 1 < fuel) :
    ∃ out, runcmd call fuel buf argv ram = some out ∧ Splits call line buf argv ram out := by
  obtain ⟨p, parsed, parses⟩ := parse_line line noEnd fuel buf 0 (argv.set 0 0) ram held fits (Nat.zero_le _) enough
  by_cases many : maxargs - 1 < (words isSeparator line).length
  · have exceeds : p.tooMany = true := parses.exceeding (by omega)
    refine ⟨_, ?_, parses.overflows many⟩
    simp only [runcmd, parsed, if_pos exceeds]
  · have few : (words isSeparator line).length ≤ maxargs - 1 := Nat.le_of_not_lt many
    obtain ⟨fine, count, strings⟩ := parses.fitting (by omega)
    rw [Nat.zero_add] at count
    have taken : ¬ p.tooMany = true := by rw [fine]; exact Bool.false_ne_true
    cases listed : words isSeparator line with
    | nil =>
        rw [listed] at count
        have empty : p.argc = 0 := count
        refine ⟨⟨.nothing, p.argc, p.argv.set p.argc 0, p.ram, 0⟩, ?_,
          parses.splits few rfl rfl rfl (fun a earlier => .inl earlier) ?_⟩
        · simp only [runcmd, parsed, if_neg taken, if_pos empty]
        · rw [listed]
          exact ⟨rfl, rfl⟩
    | cons word rest =>
        have positive : 0 < p.argc := by
          rw [count, listed]
          exact Nat.succ_pos _
        obtain ⟨offset, place, inside, string⟩ := strings 0 word (by rw [listed]; rfl)
        have first : (p.argv.set p.argc 0).slot 0 = buf + offset := by
          rw [← place]
          exact Function.update_of_ne (Nat.ne_of_lt positive) ..
        have noEnd' : 0 ∉ word := fun member =>
          noEnd (mem_of_mem_words (listed ▸ List.mem_cons_self) member)
        obtain ⟨ram', run, bytes, near⟩ := lookup_eq commands_named string noEnd' (by omega)
        have near' : Within buf (buf + line.length) p.ram ram' := near.mono (by omega) (by omega)
        cases found : commands.find? fun command => command.name = word ++ [0] with
        | none =>
            refine ⟨⟨.message (Cstring.literal "Unknown command '%s'\n") ((p.argv.set p.argc 0).slot 0), p.argc,
              p.argv.set p.argc 0, ram', 0⟩, ?_, parses.splits few rfl rfl bytes near' ?_⟩
            · simp only [runcmd, parsed, if_neg taken, if_neg (Nat.ne_of_gt positive), first, run, found]
            · simp only [Dispatches, listed, List.head?_cons, found, and_self]
        | some command =>
            refine ⟨⟨.invoke command.func, p.argc, p.argv.set p.argc 0, ram',
              call command.func p.argc (p.argv.set p.argc 0) ram'⟩, ?_, parses.splits few rfl rfl bytes near' ?_⟩
            · simp only [runcmd, parsed, if_neg taken, if_neg (Nat.ne_of_gt positive), first, run, found]
            · simp only [Dispatches, listed, List.head?_cons, found, and_self]

end Run

/-- The line `" help\tme\n"` runs `help` with two arguments. -/
theorem runcmd_splits_help :
    let line : List UInt8 := [32, 104, 101, 108, 112, 9, 109, 101, 10]
    let ram : Ram := ⟨fun a => ((line ++ [0])[a - 4096]?).getD 7, []⟩
    ∃ out, runcmd (fun _ _ _ _ => 0) 11 4096 ⟨fun _ => 5, []⟩ ram = some out ∧
      Splits (fun _ _ _ _ => 0) line 4096 ⟨fun _ => 5, []⟩ ram out :=
  runcmd_splits (fun _ _ _ _ => 0) [32, 104, 101, 108, 112, 9, 109, 101, 10] (by decide) 11 4096 ⟨fun _ => 5, []⟩
    ⟨fun a => (([32, 104, 101, 108, 112, 9, 109, 101, 10] ++ [0] : List UInt8)[a - 4096]?).getD 7, []⟩ rfl (by decide)
    (by decide)

end JosSmp.Monitor
