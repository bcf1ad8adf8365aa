import JosSmp.Construction.Kern.Printf
import JosSmp.Proof.Readline.Editor

/-!
This file proves when `readline` returns the line of an editor.
-/

namespace JosSmp.Readline
open Library Machine

section Run

variable {σ : Type} {stdio : Stdio σ} {echoing : Int} {s : State σ} {c : UInt8} {chars line : List UInt8}

@[simp] theorem echo_buf (c : Int) : (s.echo stdio echoing c).buf = s.buf := by
  unfold State.echo
  split <;> rfl

@[simp] theorem echo_written (c : Int) : (s.echo stdio echoing c).written = s.written := by
  unfold State.echo
  split <;> rfl

@[simp] theorem echo_i (c : Int) : (s.echo stdio echoing c).i = s.i := by
  unfold State.echo
  split <;> rfl

/-- The state behind a character that does not end the line. -/
def next (stdio : Stdio σ) (echoing : Int) (c : UInt8) (s : State σ) : State σ :=
  if isErase c ∧ s.i > 0 then { s.echo stdio echoing 0x08 with i := s.i - 1 }
  else if 0x20 ≤ c ∧ s.i < buflen - 1 then { (s.echo stdio echoing c.toNat).store c.toNat with i := s.i + 1 }
  else s

theorem pass_typed (typed : c ≠ 0 ∧ c ≠ 0x0a ∧ c ≠ 0x0d) :
    pass stdio echoing c.toNat s = some (.more (next stdio echoing c s)) := by
  have byte (k : UInt8) : (c.toNat : Int) = k.toNat ↔ c = k := by
    rw [Int.natCast_inj, UInt8.toNat_inj]
  have erase : ((c.toNat : Int) = 0x08 ∨ (c.toNat : Int) = 0x7f) ↔ isErase c := or_congr (byte 0x08) (byte 0x7f)
  have printable : (c.toNat : Int) ≥ ' '.toNat ↔ 0x20 ≤ c := by
    rw [UInt8.le_iff_toNat_le]
    exact Int.ofNat_le
  have ends : ¬ ((c.toNat : Int) = '\n'.toNat ∨ (c.toNat : Int) = '\r'.toNat) := by
    rintro (newline | ret)
    · exact typed.2.1 ((byte 0x0a).mp newline)
    · exact typed.2.2 ((byte 0x0d).mp ret)
  simp only [pass, if_neg (Int.not_lt.mpr (Int.natCast_nonneg c.toNat)), erase, printable, if_neg ends, next, echo_i,
    State.store]
  split
  · rfl
  · split <;> rfl

/-- The state when the loop waits behind some characters that do not end the line. -/
def waiting (stdio : Stdio σ) (echoing : Int) (chars : List UInt8) (s : State σ) : State σ :=
  chars.foldl (fun s c => next stdio echoing c s) s

theorem readLoop_waiting (typed : Typed chars) (rest : List Int) (s : State σ) :
    readLoop stdio echoing (chars.map (fun c => (c.toNat : Int)) ++ rest) s =
      readLoop stdio echoing rest (waiting stdio echoing chars s) := by
  induction chars generalizing s with
  | nil => rfl
  | cons c chars ih =>
      obtain ⟨here, later⟩ := List.forall_mem_cons.mp typed
      rw [List.map_cons, List.cons_append, readLoop, pass_typed here]
      exact ih later _

/-- The state with which a pass goes on. -/
def Pass.goesOn : Pass σ → Option (State σ)
  | .more s => some s
  | .done _ _ => none

/-- Every pass goes on, and the last one with the state in which the loop waits. -/
theorem pass_waiting (typed : Typed chars) (s : State σ) :
    chars.foldlM (fun s c => (pass stdio echoing c.toNat s).bind Pass.goesOn) s =
      some (waiting stdio echoing chars s) := by
  induction chars generalizing s with
  | nil => rfl
  | cons c chars ih =>
      obtain ⟨here, later⟩ := List.forall_mem_cons.mp typed
      rw [List.foldlM_cons, pass_typed here]
      exact ih later _

/-- The buffer holds a line, and all writes went into it. -/
structure Holding (s : State σ) (line : List UInt8) : Prop where
  count : s.i = line.length
  held : BlockAt s.buf 0 line
  room : line.length ≤ buflen - 1
  indices : ∀ k ∈ s.written, k < buflen

theorem Holding.next (holding : Holding s line) (c : UInt8) : Holding (next stdio echoing c s) (keep line c) := by
  obtain ⟨count, held, room, indices⟩ := holding
  have nonempty : s.i > 0 ↔ line ≠ [] := by
    rw [count]
    exact List.length_pos_iff
  by_cases erase : isErase c ∧ line ≠ []
  · have some := List.length_pos_iff.mpr erase.2
    rw [Readline.next, if_pos ⟨erase.1, nonempty.mpr erase.2⟩, keep_erase erase.1 erase.2]
    refine ⟨?_, ?_, ?_, ?_⟩
    · rw [List.length_dropLast, ← count]
    · rw [echo_buf]
      have split := List.dropLast_append_getLast erase.2
      rw [← split] at held
      exact (blockAt_append.mp held).1
    · rw [List.length_dropLast]
      omega
    · rwa [echo_written]
  have stay : ¬ (isErase c ∧ s.i > 0) := fun both => erase ⟨both.1, nonempty.mp both.2⟩
  by_cases more : 0x20 ≤ c ∧ line.length < buflen - 1
  · rw [Readline.next, if_neg stay, if_pos (by rwa [count]), keep, if_neg erase, if_pos more]
    have size : (line ++ [c]).length = line.length + 1 := by simp
    simp only [State.store, echo_buf, echo_written, echo_i, ofInt_byte]
    refine ⟨by rw [size, count], ?_, by omega, ?_⟩
    · refine blockAt_append.mpr ⟨held.congr fun a _ upper => Function.update_of_ne (by omega) .., ?_⟩
      rw [Nat.zero_add, ← count]
      exact blockAt_cons.mpr ⟨Function.update_self .., blockAt_nil⟩
    · exact List.forall_mem_cons.mpr ⟨by omega, indices⟩
  · rw [Readline.next, if_neg stay, if_neg (by rwa [count]), keep, if_neg erase, if_neg more]
    exact ⟨count, held, room, indices⟩

theorem Holding.waiting (typed : List UInt8) (holding : Holding s line) :
    Holding (waiting stdio echoing typed s) (typed.foldl keep line) := by
  induction typed generalizing s line with
  | nil => exact holding
  | cons c typed ih => exact ih (holding.next c)

theorem pass_newline {last : UInt8} (ends : last = 0x0a ∨ last = 0x0d) :
    pass stdio echoing last.toNat s = some (.done true ((s.echo stdio echoing '\n'.toNat).store 0)) := by
  obtain rfl | rfl := ends <;> rfl

/-- The zero behind the line ends the string. -/
theorem Holding.returned (holding : Holding s line) (noEnd : 0 ∉ line) :
    returned (Function.update s.buf s.i 0) = line := by
  obtain ⟨count, held, room, _⟩ := holding
  have string : BlockAt (Function.update s.buf s.i 0) 0 (line ++ [0]) := by
    refine blockAt_append.mpr ⟨held.congr fun a _ upper => Function.update_of_ne (by omega) .., ?_⟩
    rw [Nat.zero_add, ← count]
    exact blockAt_cons.mpr ⟨Function.update_self .., blockAt_nil⟩
  have size : (line ++ [0]).length = line.length + 1 := by simp
  have buffer : buflen = (line ++ [0]).length + (buflen - 1 - line.length) := by
    rw [size]
    unfold buflen at *
    omega
  have plain : ∀ b ∈ line, decide (b ≠ 0) = true := by
    intro b member
    exact decide_eq_true fun zero => noEnd (zero ▸ member)
  rw [Readline.returned, buffer, readBlock_append, string, List.append_assoc, List.takeWhile_append_of_pos plain]
  simp

/-- Only printable characters enter the line. -/
theorem keep_printable (chars : List UInt8) (printable : ∀ b ∈ line, 0x20 ≤ b) :
    ∀ b ∈ chars.foldl keep line, 0x20 ≤ b := by
  induction chars generalizing line with
  | nil => exact printable
  | cons c chars ih =>
      apply ih
      unfold keep
      split
      · exact fun b member => printable b (List.dropLast_subset line member)
      split
      · rename_i room
        intro b member
        obtain earlier | here := List.mem_append.mp member
        · exact printable b earlier
        · rw [List.mem_singleton.mp here]
          exact room.1
      · exact printable

end Run

/-- The returned string is the line of an editor that got the same characters, and every write lies in the buffer. -/
def Edits {σ : Type} (stdio : Stdio σ) (prompt : Option (List UInt8)) (buf : Nat → UInt8) (console : σ)
    (chars : List UInt8) (last : UInt8) : Prop :=
  ∃ s', readline stdio prompt ((chars ++ [last]).map fun c => (c.toNat : Int)) buf console = some (true, s') ∧
    returned s'.buf = chars.foldl edit [] ∧ ∀ k ∈ s'.written, k < buflen

/-- `readline` is the editor exactly when every DEL that arrives at an empty line is erased again. -/
theorem readline_edits_iff {σ : Type} (stdio : Stdio σ) (prompt : Option (List UInt8)) (buf : Nat → UInt8)
    (console console' : σ) (chars : List UInt8) (last : UInt8) (printed : prompted stdio prompt console = some console')
    (typed : Typed chars) (ends : last = 0x0a ∨ last = 0x0d) :
    Edits stdio prompt buf console chars last ↔ clean 0 false chars = true := by
  let s : State σ := waiting stdio (stdio.iscons 0) chars ⟨buf, [], 0, console'⟩
  have start : Holding (⟨buf, [], 0, console'⟩ : State σ) [] := ⟨rfl, blockAt_nil, Nat.zero_le _, by simp⟩
  have holding : Holding s (chars.foldl keep []) := start.waiting chars
  have noEnd : 0 ∉ chars.foldl keep [] := fun member =>
    absurd (keep_printable chars (by simp) 0 member) (by decide)
  have run : readline stdio prompt ((chars ++ [last]).map fun c => (c.toNat : Int)) buf console =
      some (true, (s.echo stdio (stdio.iscons 0) '\n'.toNat).store 0) := by
    rw [readline, printed, List.map_append]
    exact (readLoop_waiting typed _ _).trans (by
      rw [List.map_singleton, readLoop, pass_newline ends])
  have text : returned ((s.echo stdio (stdio.iscons 0) '\n'.toNat).store 0).buf = chars.foldl keep [] := by
    rw [State.store]
    simp only [echo_buf, echo_i]
    exact holding.returned noEnd
  have inside : ∀ k ∈ ((s.echo stdio (stdio.iscons 0) '\n'.toNat).store 0).written, k < buflen := by
    rw [State.store]
    simp only [echo_written, echo_i]
    refine List.forall_mem_cons.mpr ⟨?_, holding.indices⟩
    rw [holding.count]
    exact Nat.lt_of_le_pred (by decide) holding.room
  rw [← List.length_nil (α := UInt8), ← (keep_eq_edit chars).1 [] (by simp)]
  constructor
  · rintro ⟨s', ran, same, _⟩
    obtain rfl := (Prod.mk.inj (Option.some.inj (run.symm.trans ran))).2
    exact text.symm.trans same
  · intro same
    exact ⟨_, run, text.trans same, inside⟩

/-- The console when the monitor starts. -/
def blankConsole : Console.Output := ⟨0x3D4, 0xF00B8000, 0, ⟨fun _ => 0, []⟩, fun _ _ => 0xFF, 0, []⟩

/-- A DEL on an empty line is returned. -/
theorem readline_edits_fails :
    ¬ ∀ chars last, Typed chars → last = 0x0a ∨ last = 0x0d →
      Edits Console.stdio none (fun _ => 0) blankConsole chars last := by
  intro claim
  obtain ⟨s', run, same, _⟩ := claim [0x7f] 0x0a (by unfold Typed; decide +kernel) (.inl rfl)
  have buffer : (readline Console.stdio none (([0x7f] ++ [0x0a] : List UInt8).map fun c => (c.toNat : Int)) (fun _ => 0)
      blankConsole).map (fun out => returned out.2.buf) = some [0x7f] := by decide +kernel
  have line : [0x7f].foldl edit [] = [] := by decide
  rw [run, Option.map_some, same, line] at buffer
  cases buffer

/-- A DEL that is erased again leaves no trace. -/
theorem readline_edits_erased :
    Edits Console.stdio none (fun _ => 0) blankConsole [0x7f, 0x08, 0x61] 0x0d ↔
      clean 0 false [0x7f, 0x08, 0x61] = true :=
  readline_edits_iff Console.stdio none (fun _ => 0) blankConsole blankConsole [0x7f, 0x08, 0x61] 0x0d rfl
    (by unfold Typed; decide +kernel) (.inr rfl)

end JosSmp.Readline
