import JosSmp.Library.Words
import JosSmp.Construction.Kern.Monitor

/-!
This file proves that the monitor parses a line into its words, in place.
-/

namespace JosSmp.Monitor
open Library Machine

/-- Tab, carriage return, newline and space separate arguments. -/
def isSeparator (c : UInt8) : Bool := c ∈ ['\t', '\r', '\n', ' '].map ascii

theorem isWhitespace_eq (c : UInt8) : isWhitespace c = isSeparator c := by
  have listed : whitespace = [ascii '\t', ascii '\r', ascii '\n', ascii ' ', 0] := by decide
  rw [isWhitespace, listed, isSeparator]
  simp only [Cstring.strchr, show ascii '\t' ≠ 0 by decide, show ascii '\r' ≠ 0 by decide,
    show ascii '\n' ≠ 0 by decide, show ascii ' ' ≠ 0 by decide, if_false, if_true, List.map_cons, List.map_nil,
    List.mem_cons, List.not_mem_nil, or_false, eq_comm (a := c)]
  by_cases tab : ascii '\t' = c
  · simp [tab]
  by_cases ret : ascii '\r' = c
  · simp [tab, ret]
  by_cases newline : ascii '\n' = c
  · simp [tab, ret, newline]
  by_cases space : ascii ' ' = c
  · simp [tab, ret, newline, space]
  · simp [tab, ret, newline, space]

/-- The accesses from one memory to another one stay between two addresses. -/
def Within (lower upper : Nat) (ram ram' : Ram) : Prop := ∀ a ∈ ram'.touched, a ∈ ram.touched ∨ lower ≤ a ∧ a ≤ upper

section Loops

variable {fuel buf : Nat} {ram : Ram} {text rest : List UInt8} {b : UInt8}

theorem Within.trans {lower upper : Nat} {first second third : Ram} (near : Within lower upper first second)
    (far : Within lower upper second third) : Within lower upper first third := by
  intro a accessed
  obtain earlier | inside := far a accessed
  · exact near a earlier
  · exact .inr inside

theorem Within.mono {lower upper lower' upper' : Nat} {first second : Ram} (near : Within lower upper first second)
    (below : lower' ≤ lower) (above : upper ≤ upper') : Within lower' upper' first second := by
  intro a accessed
  obtain earlier | inside := near a accessed
  · exact .inl earlier
  · exact .inr (by omega)

theorem within_loadByte {a : Nat} (ram : Ram) : Within a a ram (ram.loadByte a).2 := by
  intro b accessed
  have read : b ∈ (ram.load a 1).2.touched := accessed
  obtain earlier | inside := Ram.mem_load_touched read
  · exact .inl earlier
  · exact .inr (by omega)

theorem within_storeByte {a : Nat} (ram : Ram) (v : UInt8) : Within a a ram (ram.store a [v]) := by
  intro b accessed
  obtain earlier | inside := Ram.mem_store_touched accessed
  · exact .inl earlier
  · rw [List.length_singleton] at inside
    exact .inr (by omega)

/-- Separators are overwritten with zeros, up to the first character that is none. -/
theorem gobble_eq (all : ∀ c ∈ text, isSeparator c = true) (noEnd : 0 ∉ text) (ends : b = 0 ∨ isSeparator b = false)
    (held : BlockAt ram.byte buf (text ++ [b])) (fits : buf + text.length < 4294967296) (enough : text.length < fuel) :
    ∃ ram', gobble fuel buf ram = some (buf + text.length, ram') ∧
      ram'.byte = writeBlock ram.byte buf (List.replicate text.length 0) ∧ Within buf (buf + text.length) ram ram' := by
  induction text generalizing fuel buf ram with
  | nil =>
      cases fuel with
      | zero => exact absurd enough (Nat.not_lt_zero _)
      | succ fuel =>
          obtain ⟨here, _⟩ := blockAt_cons.mp held
          have stop : ¬ ((ram.loadByte buf).1 ≠ 0 ∧ isWhitespace (ram.loadByte buf).1) := by
            rw [isWhitespace_eq, Ram.loadByte, here]
            rintro ⟨nonzero, gap⟩
            obtain same | plain := ends
            · exact nonzero same
            · exact absurd gap (by simp [plain])
          refine ⟨(ram.loadByte buf).2, ?_, by simp [Ram.loadByte, Ram.touch], within_loadByte ram⟩
          simp only [gobble, if_neg stop, List.length_nil, Nat.add_zero]
  | cons c text ih =>
      cases fuel with
      | zero => exact absurd enough (Nat.not_lt_zero _)
      | succ fuel =>
          obtain ⟨here, later⟩ := blockAt_cons.mp held
          obtain ⟨gap, all⟩ := List.forall_mem_cons.mp all
          obtain ⟨nonzero, noEnd⟩ := not_or.mp (List.mem_cons.not.mp noEnd)
          rw [List.length_cons] at fits enough
          let next := (ram.loadByte buf).2.store buf [0]
          have onward : address (buf + 1) = buf + 1 := address_eq rfl (by omega)
          have go : (ram.loadByte buf).1 ≠ 0 ∧ isWhitespace (ram.loadByte buf).1 := by
            rw [isWhitespace_eq, Ram.loadByte, here]
            exact ⟨Ne.symm nonzero, gap⟩
          have kept : BlockAt next.byte (buf + 1) (text ++ [b]) :=
            later.congr fun a lower _ => writeBlock_outside ram.byte (.inr lower)
          obtain ⟨ram', run, bytes, accessed⟩ := ih all noEnd kept (by omega) (Nat.lt_of_succ_lt_succ enough)
          refine ⟨ram', ?_, ?_, ?_⟩
          · rw [gobble]
            simp only [if_pos go, onward]
            rw [run, List.length_cons, Nat.add_right_comm, Nat.add_assoc]
          · have whole := writeBlock_append ram.byte buf [0] (List.replicate text.length 0)
            rw [bytes, List.length_cons, List.replicate_succ]
            exact whole
          · have first : Within buf buf ram next := (within_loadByte ram).trans (within_storeByte _ 0)
            rw [List.length_cons]
            exact (first.mono (by omega) (by omega)).trans (accessed.mono (by omega) (by omega))

/-- An argument is read up to the first separator or zero. -/
theorem scan_eq (all : ∀ c ∈ text, isSeparator c = false) (noEnd : 0 ∉ text) (ends : b = 0 ∨ isSeparator b = true)
    (held : BlockAt ram.byte buf (text ++ [b])) (fits : buf + text.length < 4294967296) (enough : text.length < fuel) :
    ∃ ram', scan fuel buf ram = some (buf + text.length, ram') ∧ ram'.byte = ram.byte ∧
      Within buf (buf + text.length) ram ram' := by
  induction text generalizing fuel buf ram with
  | nil =>
      cases fuel with
      | zero => exact absurd enough (Nat.not_lt_zero _)
      | succ fuel =>
          obtain ⟨here, _⟩ := blockAt_cons.mp held
          have stop : ¬ ((ram.loadByte buf).1 ≠ 0 ∧ ¬ isWhitespace (ram.loadByte buf).1) := by
            rw [isWhitespace_eq, Ram.loadByte, here]
            rintro ⟨nonzero, plain⟩
            exact ends.elim nonzero plain
          refine ⟨(ram.loadByte buf).2, ?_, rfl, within_loadByte ram⟩
          simp only [scan, if_neg stop, List.length_nil, Nat.add_zero]
  | cons c text ih =>
      cases fuel with
      | zero => exact absurd enough (Nat.not_lt_zero _)
      | succ fuel =>
          obtain ⟨here, later⟩ := blockAt_cons.mp held
          obtain ⟨plain, all⟩ := List.forall_mem_cons.mp all
          obtain ⟨nonzero, noEnd⟩ := not_or.mp (List.mem_cons.not.mp noEnd)
          rw [List.length_cons] at fits enough
          have onward : address (buf + 1) = buf + 1 := address_eq rfl (by omega)
          have go : (ram.loadByte buf).1 ≠ 0 ∧ ¬ isWhitespace (ram.loadByte buf).1 := by
            rw [isWhitespace_eq, Ram.loadByte, here, plain]
            exact ⟨Ne.symm nonzero, Bool.false_ne_true⟩
          have kept : BlockAt (ram.loadByte buf).2.byte (buf + 1) (text ++ [b]) := later
          obtain ⟨ram', run, bytes, accessed⟩ := ih all noEnd kept (by omega) (Nat.lt_of_succ_lt_succ enough)
          refine ⟨ram', ?_, bytes, ?_⟩
          · rw [scan]
            simp only [if_pos go, onward]
            rw [run, List.length_cons, Nat.add_right_comm, Nat.add_assoc]
          · have first : Within buf buf ram (ram.loadByte buf).2 := within_loadByte ram
            rw [List.length_cons]
            exact (first.mono (by omega) (by omega)).trans (accessed.mono (by omega) (by omega))

end Loops

/-- The text is empty or starts with a separator. -/
def Breaks (text : List UInt8) : Prop := text = [] ∨ ∃ c rest, text = c :: rest ∧ isSeparator c = true

/-- What the loop does with the text that lies at `buf`, when `argc` arguments have been saved. -/
structure Parses (text : List UInt8) (buf argc : Nat) (argv : Argv) (ram : Ram) (out : Parsed) : Prop where
  accessed : Within buf (buf + text.length) ram out.ram
  kept : ∀ a, a < buf ∨ buf + text.length ≤ a → out.ram.byte a = ram.byte a
  closed : out.tooMany = false → Breaks text → out.ram.byte buf = 0
  indices : ∀ i ∈ out.argv.written, i ∈ argv.written ∨ i < maxargs
  earlier : ∀ k < argc, out.argv.slot k = argv.slot k
  fitting : argc + (words isSeparator text).length ≤ maxargs - 1 →
    out.tooMany = false ∧ out.argc = argc + (words isSeparator text).length ∧
      ∀ k word, (words isSeparator text)[k]? = some word →
        ∃ offset, out.argv.slot (argc + k) = buf + offset ∧ offset + word.length ≤ text.length ∧
          BlockAt out.ram.byte (buf + offset) (word ++ [0])
  exceeding : maxargs - 1 < argc + (words isSeparator text).length → out.tooMany = true

section Parse

variable {fuel buf argc : Nat} {argv : Argv} {ram : Ram} {gaps word rest : List UInt8}

/-- Behind overwritten separators lies what lay there before, and they begin with a zero. -/
theorem gobbled_kept {a : Nat} (outside : a < buf ∨ buf + gaps.length ≤ a) :
    writeBlock ram.byte buf (List.replicate gaps.length 0) a = ram.byte a :=
  writeBlock_outside _ (by rwa [List.length_replicate])

theorem gobbled_first (nonempty : gaps ≠ []) : writeBlock ram.byte buf (List.replicate gaps.length 0) buf = 0 := by
  have inside : 0 < (List.replicate gaps.length (0 : UInt8)).length := by
    rw [List.length_replicate]
    exact List.length_pos_iff.mpr nonempty
  exact (writeBlock_inside ram.byte buf inside).trans (List.getElem_replicate _)

theorem length_line (gaps word rest : List UInt8) :
    (gaps ++ (word ++ rest)).length = gaps.length + word.length + rest.length := by
  rw [List.length_append, List.length_append, Nat.add_assoc]

theorem words_line (all : ∀ c ∈ gaps, isSeparator c = true) (nonempty : word ≠ [])
    (plain : ∀ c ∈ word, isSeparator c = false) (breaks : Breaks rest) :
    words isSeparator (gaps ++ (word ++ rest)) = word :: words isSeparator rest := by
  rw [words_gaps all, words_word nonempty plain breaks]

/-- A line that starts with a separator has one in front of its first word. -/
theorem Breaks.separated (starts : Breaks (gaps ++ (word ++ rest))) (nonempty : word ≠ [])
    (plain : ∀ c ∈ word, isSeparator c = false) : gaps ≠ [] := by
  rintro rfl
  obtain ⟨b, word, rfl⟩ := List.exists_cons_of_ne_nil nonempty
  obtain empty | ⟨c, rest', text, gap⟩ := starts
  · cases empty
  · obtain rfl := (List.cons.inj text).1
    rw [plain b List.mem_cons_self] at gap
    cases gap

/-- A text without an argument ends the loop. -/
theorem parse_gaps (all : ∀ c ∈ gaps, isSeparator c = true) (noEnd : 0 ∉ gaps)
    (held : BlockAt ram.byte buf (gaps ++ [0])) (fits : buf + gaps.length < 4294967296) (few : argc ≤ maxargs - 1)
    (enough : gaps.length < fuel) : ∃ out, parse (fuel + 1) buf argc argv ram = some out ∧
      Parses gaps buf argc argv ram out := by
  obtain ⟨ram₁, run, bytes, accessed⟩ := gobble_eq all noEnd (.inl rfl) held fits enough
  have last : ram₁.byte (buf + gaps.length) = 0 := by
    rw [bytes, gobbled_kept (.inr (Nat.le_refl _))]
    exact (blockAt_cons.mp (blockAt_append.mp held).2).1
  have none : words isSeparator gaps = [] := by
    have split : words isSeparator (gaps ++ []) = words isSeparator [] := words_gaps all
    rwa [List.append_nil, words_nil] at split
  refine ⟨⟨false, argc, argv, (ram₁.loadByte (buf + gaps.length)).2⟩, ?_, ?_⟩
  · have zero : (ram₁.loadByte (buf + gaps.length)).1 = 0 := last
    simp only [parse, run, if_pos zero]
  · constructor
    · exact accessed.trans ((within_loadByte ram₁).mono (by omega) (by omega))
    · intro a outside
      exact (congrFun bytes a).trans (gobbled_kept outside)
    · intro _ _
      cases gaps with
      | nil => exact last
      | cons c gaps => exact (congrFun bytes buf).trans (gobbled_first (List.cons_ne_nil c gaps))
    · exact fun i member => .inl member
    · exact fun k _ => rfl
    · intro _
      rw [none]
      exact ⟨rfl, rfl, fun k word listed => by simp at listed⟩
    · intro many
      rw [none, List.length_nil] at many
      omega

/-- The separators in front of an argument are overwritten, and the argument stays. -/
theorem gobble_word (all : ∀ c ∈ gaps, isSeparator c = true) (noEnd : 0 ∉ gaps ++ (word ++ rest)) (nonempty : word ≠ [])
    (plain : ∀ c ∈ word, isSeparator c = false) (held : BlockAt ram.byte buf (gaps ++ (word ++ rest) ++ [0]))
    (fits : buf + gaps.length < 4294967296) (enough : gaps.length < fuel) :
    ∃ ram₁, gobble fuel buf ram = some (buf + gaps.length, ram₁) ∧
      ram₁.byte = writeBlock ram.byte buf (List.replicate gaps.length 0) ∧
      Within buf (buf + gaps.length) ram ram₁ ∧ ram₁.byte (buf + gaps.length) ≠ 0 ∧
      BlockAt ram₁.byte (buf + gaps.length) (word ++ rest ++ [0]) := by
  obtain ⟨b, word, rfl⟩ := List.exists_cons_of_ne_nil nonempty
  have first : isSeparator b = false := plain b List.mem_cons_self
  have nonzero : b ≠ 0 := by
    rintro rfl
    exact noEnd (by simp)
  have front : BlockAt ram.byte buf (gaps ++ [b]) := by
    have split : gaps ++ (b :: word ++ rest) ++ [0] = (gaps ++ [b]) ++ (word ++ rest ++ [0]) := by simp
    rw [split] at held
    exact (blockAt_append.mp held).1
  obtain ⟨ram₁, run, bytes, accessed⟩ :=
    gobble_eq all (fun member => noEnd (List.mem_append_left _ member)) (.inr first) front fits enough
  rw [List.append_assoc] at held
  have behind : BlockAt ram₁.byte (buf + gaps.length) (b :: word ++ rest ++ [0]) :=
    (blockAt_append.mp held).2.congr fun a lower _ => (congrFun bytes a).trans (gobbled_kept (.inr lower))
  refine ⟨ram₁, run, bytes, accessed, ?_, behind⟩
  rw [(blockAt_cons.mp behind).1]
  exact nonzero

/-- An argument is saved, and the rest of the text is parsed behind it. -/
theorem Parses.cons {ram₁ ram₂ : Ram} {out : Parsed} (all : ∀ c ∈ gaps, isSeparator c = true) (nonempty : word ≠ [])
    (plain : ∀ c ∈ word, isSeparator c = false) (breaks : Breaks rest)
    (bytes : ram₁.byte = writeBlock ram.byte buf (List.replicate gaps.length 0))
    (gobbled : Within buf (buf + gaps.length) ram ram₁)
    (behind : BlockAt ram₁.byte (buf + gaps.length) (word ++ rest ++ [0]))
    (same : ram₂.byte = ram₁.byte)
    (scanned : Within (buf + gaps.length) (buf + gaps.length + word.length) ram₁ ram₂) (room : argc < maxargs)
    (onward : Parses rest (buf + gaps.length + word.length) (argc + 1) (argv.set argc (buf + gaps.length)) ram₂ out) :
    Parses (gaps ++ (word ++ rest)) buf argc argv ram out := by
  have split := words_line all nonempty plain breaks
  have size := length_line gaps word rest
  have slot : out.argv.slot argc = buf + gaps.length := by
    rw [onward.earlier argc (Nat.lt_succ_self argc)]
    exact Function.update_self ..
  have untouched {a : Nat}
      (outside : a < buf + gaps.length + word.length ∨ buf + gaps.length + word.length + rest.length ≤ a) :
      out.ram.byte a = ram₁.byte a := (onward.kept a outside).trans (congrFun same a)
  constructor
  · rw [size]
    exact ((gobbled.mono (by omega) (by omega)).trans (scanned.mono (by omega) (by omega))).trans
      (onward.accessed.mono (by omega) (by omega))
  · intro a outside
    rw [size] at outside
    rw [untouched (by omega), bytes, gobbled_kept (by omega)]
  · intro _ starts
    have separated := starts.separated nonempty plain
    have before := List.length_pos_iff.mpr separated
    rw [untouched (by omega), bytes, gobbled_first separated]
  · intro i member
    obtain here | earlier := onward.indices i member
    · obtain rfl | before := List.mem_cons.mp here
      · exact .inr room
      · exact .inl before
    · exact .inr earlier
  · intro k below
    rw [onward.earlier k (Nat.lt_succ_of_lt below)]
    exact Function.update_of_ne (Nat.ne_of_lt below) ..
  · intro few
    rw [split, List.length_cons] at few ⊢
    obtain ⟨fine, count, strings⟩ := onward.fitting (by omega)
    refine ⟨fine, by omega, fun k found listed => ?_⟩
    cases k with
    | zero =>
        obtain rfl := Option.some.inj listed
        refine ⟨gaps.length, slot, by omega, blockAt_append.mpr ⟨?_, ?_⟩⟩
        · rw [List.append_assoc] at behind
          exact (blockAt_append.mp behind).1.congr fun a _ upper => untouched (.inl upper)
        · exact blockAt_cons.mpr ⟨onward.closed fine breaks, blockAt_nil⟩
    | succ k =>
        obtain ⟨offset, place, inside, string⟩ := strings k found listed
        have index : argc + (k + 1) = argc + 1 + k := by omega
        have start : buf + (gaps.length + word.length + offset) = buf + gaps.length + word.length + offset := by omega
        refine ⟨gaps.length + word.length + offset, ?_, by omega, ?_⟩
        · rw [index, place, start]
        · rw [start]
          exact string
  · intro many
    rw [split, List.length_cons] at many
    exact onward.exceeding (by omega)

/-- The loop stops at an argument that does not fit into the array. -/
theorem Parses.full {ram₁ : Ram} (all : ∀ c ∈ gaps, isSeparator c = true) (nonempty : word ≠ [])
    (plain : ∀ c ∈ word, isSeparator c = false) (breaks : Breaks rest)
    (bytes : ram₁.byte = writeBlock ram.byte buf (List.replicate gaps.length 0))
    (gobbled : Within buf (buf + gaps.length) ram ram₁) :
    Parses (gaps ++ (word ++ rest)) buf (maxargs - 1) argv ram
      ⟨true, maxargs - 1, argv, (ram₁.loadByte (buf + gaps.length)).2⟩ := by
  have split := words_line all nonempty plain breaks
  have size := length_line gaps word rest
  constructor
  · rw [size]
    exact (gobbled.mono (by omega) (by omega)).trans ((within_loadByte ram₁).mono (by omega) (by omega))
  · intro a outside
    rw [size] at outside
    exact (congrFun bytes a).trans (gobbled_kept (by omega))
  · intro fine
    cases fine
  · exact fun i member => .inl member
  · exact fun k _ => rfl
  · intro few
    rw [split, List.length_cons] at few
    omega
  · exact fun _ => rfl

end Parse

/-- A line is parsed into its words. -/
theorem parse_line (text : List UInt8) (noEnd : 0 ∉ text) (fuel buf argc : Nat) (argv : Argv) (ram : Ram)
    (held : BlockAt ram.byte buf (text ++ [0])) (fits : buf + text.length < 4294967296) (few : argc ≤ maxargs - 1)
    (enough : text.length + 1 < fuel) :
    ∃ out, parse fuel buf argc argv ram = some out ∧ Parses text buf argc argv ram out := by
  induction size : text.length using Nat.strongRecOn generalizing text fuel buf argc argv ram with
  | _ size' ih =>
      subst size
      cases fuel with
      | zero => exact absurd enough (Nat.not_lt_zero _)
      | succ fuel =>
          obtain ⟨gaps, all, rfl | ⟨word, rest, rfl, nonempty, plain, breaks⟩⟩ := exists_words isSeparator text
          · exact parse_gaps all noEnd held fits few (by omega)
          · have total := length_line gaps word rest
            have positive := List.length_pos_iff.mpr nonempty
            rw [total] at fits enough
            obtain ⟨ram₁, run, bytes, gobbled, first, behind⟩ :=
              gobble_word all noEnd nonempty plain held (by omega) (show gaps.length < fuel by omega)
            have more : (ram₁.loadByte (buf + gaps.length)).1 ≠ 0 := first
            by_cases full : argc = maxargs - 1
            · subst full
              refine ⟨_, ?_, .full all nonempty plain breaks bytes gobbled⟩
              simp only [parse, run, if_neg more, if_true]
            · obtain ⟨b, ends, rest', tail⟩ :
                  ∃ b, (b = 0 ∨ isSeparator b = true) ∧ ∃ rest', rest ++ [0] = b :: rest' := by
                obtain rfl | ⟨c, rest', rfl, gap⟩ := breaks
                · exact ⟨0, .inl rfl, [], rfl⟩
                · exact ⟨c, .inr gap, rest' ++ [0], rfl⟩
              have front : BlockAt (ram₁.loadByte (buf + gaps.length)).2.byte (buf + gaps.length) (word ++ [b]) := by
                rw [List.append_assoc, tail, List.append_cons] at behind
                exact (blockAt_append.mp behind).1
              have noEnd' : 0 ∉ word ∧ 0 ∉ rest := by
                simp only [List.mem_append, not_or] at noEnd
                exact noEnd.2
              obtain ⟨ram₂, scanRun, same, scanned⟩ :=
                scan_eq plain noEnd'.1 ends front (by omega) (show word.length < fuel by omega)
              have behind' : BlockAt ram₂.byte (buf + gaps.length + word.length) (rest ++ [0]) := by
                rw [same]
                rw [List.append_assoc] at behind
                exact (blockAt_append.mp behind).2
              obtain ⟨out, onward, parses⟩ := ih rest.length (by omega) rest noEnd'.2 fuel _ (argc + 1)
                (argv.set argc (buf + gaps.length)) ram₂ behind' (by omega) (by omega) (by omega) rfl
              refine ⟨out, ?_, parses.cons all nonempty plain breaks bytes gobbled behind same ?_ (by omega)⟩
              · simp only [parse, run, if_neg more, if_neg full, scanRun]
                exact onward
              · exact ((within_loadByte ram₁).mono (by omega) (by omega)).trans scanned

end JosSmp.Monitor
