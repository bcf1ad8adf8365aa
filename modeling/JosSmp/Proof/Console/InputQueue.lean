import JosSmp.Proof.Console.InputRun

/-!
This file proves that console input is an ordered queue, and when it loses no character.
-/

namespace JosSmp.Console
open Library

variable {s : System} {next : Nat}

/-- A lossless call with room returns the oldest character that waits, or zero when none waits. -/
theorem Lossless.getc (lossless : Lossless s next) {serial kbd : List UInt8}
    (roomy : s.Roomy (.getc serial kbd)) :
    let polled := s.polled (.getc serial kbd)
    (∀ i, IsLeast (polled.unreturned : Set Nat) i →
        polled.delivered[i]?.map (fun b => (b.toNat : Int)) = some (s.getc serial kbd).1) ∧
      ((s.getc serial kbd).1 = 0 ↔ polled.unreturned = ∅) := by
  have after := lossless.polled roomy
  dsimp only
  rw [after.unreturned]
  obtain behind | read := Nat.lt_or_eq_of_le after.1.follows.reached
  · obtain ⟨value, character, _, _⟩ := after.1.getc_some behind
    constructor
    · intro i least
      have first : i = next := by
        refine least.unique ⟨?_, fun j member => ?_⟩
        · simpa using behind
        · simpa using (Finset.mem_Ico.mp (Finset.mem_coe.mp member)).1
      rw [first, value, List.getElem?_eq_getElem behind]
      rfl
    · simp only [character, false_iff, Finset.Ico_eq_empty_iff, not_not]
      exact behind
  · have zero := (after.1.getc_none read).1
    constructor
    · intro i least
      have member := Finset.mem_Ico.mp (Finset.mem_coe.mp least.1)
      omega
    · rw [zero, read]
      simp

/-- Input is an ordered queue: whatever arrives, the characters returned are a subsequence of those delivered;
and when one slot always stays free, each call returns the oldest character that waits. -/
theorem consGetc_queue (serialExists : Bool) (events : List Event) :
    let start := System.initial serialExists
    let s := start.run events
    s.cons.rpos < consbufsize ∧ s.cons.wpos < consbufsize ∧ s.returned.Sublist (chars s.delivered) ∧
      (Guarded System.step System.Roomy start events → ∀ before serial kbd after,
        events = before ++ .getc serial kbd :: after →
          let polled := (start.run before).polled (.getc serial kbd)
          let c := ((start.run before).getc serial kbd).1
          (∀ i, IsLeast (polled.unreturned : Set Nat) i →
              polled.delivered[i]?.map (fun b => (b.toNat : Int)) = some c) ∧
            (c = 0 ↔ polled.unreturned = ∅)) := by
  obtain ⟨next, tracked⟩ := System.run_tracked serialExists events
  refine ⟨tracked.follows.reader_lt, tracked.follows.writer_lt, ?_, ?_⟩
  · exact tracked.ordered.trans (List.Sublist.map _ (List.take_sublist _ _))
  · intro guarded before serial kbd after split
    rw [split, guarded_append] at guarded
    obtain ⟨next, lossless⟩ := System.run_lossless guarded.1
    exact lossless.getc guarded.2.1

/-- Two characters arrive by interrupt and a third one by polling, and the first one is returned. -/
theorem consGetc_queue_three :
    let start := System.initial true
    Guarded System.step System.Roomy start [.serialIntr [97, 0, 98], .getc [] [99]] ∧
      ((start.run [.serialIntr [97, 0, 98]]).getc [] [99]).1 = 97 := by
  have guarded : Guarded System.step System.Roomy (System.initial true) [.serialIntr [97, 0, 98], .getc [] [99]] :=
    ⟨by decide, by decide, trivial⟩
  have queue := consGetc_queue true [.serialIntr [97, 0, 98], .getc [] [99]]
  have oldest := (queue.2.2.2 guarded [.serialIntr [97, 0, 98]] [] [99] [] rfl).1 0
    ⟨by decide, fun i _ => Nat.zero_le i⟩
  exact ⟨guarded, (Option.some.inj oldest).symm⟩

/-- A call that finds a waiting character returns one unless a positive number of whole buffers is unread. -/
theorem Tracked.waiting {serial kbd : List UInt8} {moved : Nat} (tracked : Tracked (s.polled (.getc serial kbd)) moved)
    (waiting : s.Waiting) : (s.getc serial kbd).1 ≠ 0 ↔ s.Apart (.getc serial kbd) := by
  obtain ⟨i, member, _⟩ := waiting
  have still : i ∈ (s.polled (.getc serial kbd)).unreturned := by
    simp only [System.unreturned, System.polled_delivered, (System.polled_frame _ _).1, List.length_append,
      Finset.mem_filter, Finset.mem_range] at member ⊢
    exact ⟨by omega, member.2⟩
  have unread := tracked.unread_pos still
  rw [ne_eq, tracked.getc_zero, System.Apart]
  exact ⟨fun apart whole => absurd whole apart, fun apart whole => absurd (apart whole) (Nat.ne_of_gt unread)⟩

/-- Room keeps the unread characters below one buffer. -/
theorem Lossless.apart (lossless : Lossless s next) {event : Event} (roomy : s.Roomy event) : s.Apart event := by
  cases event with
  | serialIntr batch => trivial
  | kbdIntr batch => trivial
  | getc serial kbd =>
      intro whole
      have after := lossless.polled roomy
      have near := after.1.follows.near
      have size : consbufsize = 512 := rfl
      have returned := after.1.paired
      rw [after.2, List.length_range] at returned
      apply Nat.eq_zero_of_dvd_of_lt whole
      rw [System.unread, ← returned]
      omega

/-- No call of a run returns zero while a character waits exactly if no such call meets a positive number of whole
buffers unread, and in particular if each event finds room. -/
theorem consGetc_waiting (serialExists : Bool) (events : List Event) :
    let start := System.initial serialExists
    ((∀ before serial kbd after, events = before ++ .getc serial kbd :: after →
        (start.run before).Waiting → ((start.run before).getc serial kbd).1 ≠ 0) ↔
      ∀ before serial kbd after, events = before ++ .getc serial kbd :: after →
        (start.run before).Waiting → (start.run before).Apart (.getc serial kbd)) ∧
    (Guarded System.step System.Roomy start events →
      ∀ before serial kbd after, events = before ++ .getc serial kbd :: after →
        (start.run before).Waiting → ((start.run before).getc serial kbd).1 ≠ 0) := by
  have meets (before : List Event) (serial kbd : List UInt8)
      (waiting : ((System.initial serialExists).run before).Waiting) :
      (((System.initial serialExists).run before).getc serial kbd).1 ≠ 0 ↔
        ((System.initial serialExists).run before).Apart (.getc serial kbd) := by
    obtain ⟨next, tracked⟩ := System.run_tracked serialExists before
    obtain ⟨moved, polled, _⟩ := tracked.polled (.getc serial kbd)
    exact polled.waiting waiting
  constructor
  · constructor
    · intro returns before serial kbd after split waiting
      exact (meets before serial kbd waiting).mp (returns before serial kbd after split waiting)
    · intro apart before serial kbd after split waiting
      exact (meets before serial kbd waiting).mpr (apart before serial kbd after split waiting)
  · intro guarded before serial kbd after split waiting
    rw [split, guarded_append] at guarded
    obtain ⟨next, lossless⟩ := System.run_lossless guarded.1
    exact (meets before serial kbd waiting).mpr (lossless.apart guarded.2.1)

/-- One character that arrived by interrupt is returned. -/
theorem consGetc_waiting_one :
    let start := System.initial false
    Guarded System.step System.Roomy start [.kbdIntr [97], .getc [] []] ∧ (start.run [.kbdIntr [97]]).Waiting ∧
      ((start.run [.kbdIntr [97]]).getc [] []).1 ≠ 0 := by
  have guarded : Guarded System.step System.Roomy (System.initial false) [.kbdIntr [97], .getc [] []] :=
    ⟨by decide, by decide, trivial⟩
  have waiting : ((System.initial false).run [.kbdIntr [97]]).Waiting := ⟨0, by decide, 0, by decide, by decide⟩
  exact ⟨guarded, waiting,
    (consGetc_waiting false [.kbdIntr [97], .getc [] []]).2 guarded [.kbdIntr [97]] [] [] [] rfl waiting⟩

/-- As many characters as the buffer has slots, and no read among them, look like an empty buffer. -/
theorem consGetc_waiting_fails :
    let s := (System.initial false).run [.kbdIntr (List.replicate 512 97)]
    s.Waiting ∧ (s.getc [] []).1 = 0 := by
  refine ⟨⟨5, ?_, 5, ?_, ?_⟩, ?_⟩
  · decide +kernel
  · decide
  · decide +kernel
  · decide +kernel

end JosSmp.Console
