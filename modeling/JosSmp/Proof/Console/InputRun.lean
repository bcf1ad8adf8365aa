import JosSmp.Library.Ring
import JosSmp.Library.Run
import JosSmp.Construction.Kern.ConsoleInput
import Mathlib.Order.Interval.Finset.Nat

/-!
This file follows the console input buffer through any sequence of interrupts and reads.
-/

namespace JosSmp.Console
open Library

/-- A device hands over the bytes of a batch; `cons_getc` polls both devices. -/
inductive Event where
  | serialIntr (batch : List UInt8)
  | kbdIntr (batch : List UInt8)
  | getc (serial kbd : List UInt8)

/-- The bytes as the handlers return them. -/
def chars (bytes : List UInt8) : List Int := bytes.map fun b => (b.toNat : Int)

@[simp] theorem chars_nil : chars [] = [] := rfl

@[simp] theorem chars_cons (b : UInt8) (rest : List UInt8) : chars (b :: rest) = (b.toNat : Int) :: chars rest := rfl

@[simp] theorem chars_append (first second : List UInt8) : chars (first ++ second) = chars first ++ chars second :=
  List.map_append

/-- The input buffer with a record of the characters that were delivered and returned.
A delivered character is known by its index, and `owner` tells which one a slot of the buffer holds. -/
structure System where
  serialExists : Bool
  cons : Cons
  delivered : List UInt8
  owner : Nat → Option Nat
  taken : List Nat
  returned : List Int

def System.initial (serialExists : Bool) : System where
  serialExists := serialExists
  cons := Cons.initial
  delivered := []
  owner := fun _ => none
  taken := []
  returned := []

/-- One byte arrives; a zero byte is no character. -/
def System.arrive (s : System) (b : UInt8) : System :=
  { s with
    cons := consIntr s.cons [(b.toNat : Int)]
    delivered := if b = 0 then s.delivered else s.delivered ++ [b]
    owner := if b = 0 then s.owner else Function.update s.owner s.cons.wpos (some s.delivered.length) }

def System.deliver (s : System) (batch : List UInt8) : System := batch.foldl System.arrive s

/-- The state of the system when the handlers that an event calls have returned. -/
def System.polled (s : System) : Event → System
  | .serialIntr batch => if s.serialExists then s.deliver batch else s
  | .kbdIntr batch => s.deliver batch
  | .getc serial kbd => (if s.serialExists then s.deliver serial else s).deliver kbd

/-- The value that `cons_getc` returns, and the buffer it leaves. -/
def System.getc (s : System) (serial kbd : List UInt8) : Int × Cons :=
  consGetc s.serialExists s.cons (chars serial) (chars kbd)

def System.step (s : System) : Event → System
  | .getc serial kbd =>
      let out := s.getc serial kbd
      let polled := s.polled (.getc serial kbd)
      { polled with
        cons := out.2
        taken := if polled.cons.rpos ≠ polled.cons.wpos then
            polled.taken ++ (polled.owner polled.cons.rpos).toList
          else polled.taken
        returned := if out.1 = 0 then polled.returned else polled.returned ++ [out.1] }
  | event => s.polled event

def System.run (s : System) (events : List Event) : System := events.foldl System.step s

/-- The delivered characters that no call has returned. -/
def System.unreturned (s : System) : Finset Nat := (Finset.range s.delivered.length).filter fun i => i ∉ s.taken

/-- The characters that arrive in an event. -/
def Event.characters (serialExists : Bool) : Event → List UInt8
  | .serialIntr batch => if serialExists then batch.filter (· ≠ 0) else []
  | .kbdIntr batch => batch.filter (· ≠ 0)
  | .getc serial kbd => (if serialExists then serial.filter (· ≠ 0) else []) ++ kbd.filter (· ≠ 0)

/-- The characters that wait and those that arrive leave one slot of the buffer free. -/
def System.Roomy (s : System) (event : Event) : Prop :=
  s.unreturned.card + (event.characters s.serialExists).length ≤ consbufsize - 1

instance (s : System) (event : Event) : Decidable (s.Roomy event) := inferInstanceAs (Decidable (_ ≤ _))

/-- Some delivered character was not returned and still lies in its slot of the buffer. -/
def System.Waiting (s : System) : Prop := ∃ i ∈ s.unreturned, ∃ slot < consbufsize, s.owner slot = some i

/-- How many more characters were delivered than returned. -/
def System.unread (s : System) : Nat := s.delivered.length - s.returned.length

/-- After its polling a call does not find a positive whole number of buffers unread. -/
def System.Apart (s : System) : Event → Prop
  | .getc serial kbd =>
      let unread := (s.polled (.getc serial kbd)).unread
      consbufsize ∣ unread → unread = 0
  | _ => True

/-- A byte is never taken for the end of the data. -/
theorem consIntr_chars (cons : Cons) (b : UInt8) (rest : List UInt8) :
    consIntr cons (chars (b :: rest)) = consIntr (consIntr cons [(b.toNat : Int)]) (chars rest) := by
  have data : (b.toNat : Int) ≠ -1 := by omega
  simp only [chars_cons, consIntr, if_neg data]
  split <;> rfl

variable {s : System} {next i : Nat}

/-- The record follows the buffer through a whole batch. -/
theorem System.deliver_cons (s : System) (batch : List UInt8) :
    (s.deliver batch).cons = consIntr s.cons (chars batch) := by
  induction batch generalizing s with
  | nil => rfl
  | cons b rest ih =>
      rw [consIntr_chars]
      exact ih (s.arrive b)

/-- A delivery changes neither what was returned nor the set of devices. -/
theorem System.deliver_frame (s : System) (batch : List UInt8) :
    (s.deliver batch).taken = s.taken ∧ (s.deliver batch).returned = s.returned ∧
      (s.deliver batch).serialExists = s.serialExists := by
  induction batch generalizing s with
  | nil => exact ⟨rfl, rfl, rfl⟩
  | cons b rest ih => exact ih (s.arrive b)

/-- A delivery appends the characters of its batch. -/
theorem System.deliver_delivered (s : System) (batch : List UInt8) :
    (s.deliver batch).delivered = s.delivered ++ batch.filter (· ≠ 0) := by
  induction batch generalizing s with
  | nil => simp [deliver]
  | cons b rest ih =>
      refine (ih (s.arrive b)).trans ?_
      simp only [arrive]
      by_cases zero : b = 0
      · simp [zero]
      · simp [zero]

theorem System.polled_frame (s : System) (event : Event) :
    (s.polled event).taken = s.taken ∧ (s.polled event).returned = s.returned := by
  cases event with
  | serialIntr batch =>
      simp only [polled]
      split
      · exact ⟨(s.deliver_frame batch).1, (s.deliver_frame batch).2.1⟩
      · exact ⟨rfl, rfl⟩
  | kbdIntr batch => exact ⟨(s.deliver_frame batch).1, (s.deliver_frame batch).2.1⟩
  | getc serial kbd =>
      simp only [polled]
      split
      · obtain ⟨taken, returned, _⟩ := (s.deliver serial).deliver_frame kbd
        exact ⟨taken.trans (s.deliver_frame serial).1, returned.trans (s.deliver_frame serial).2.1⟩
      · exact ⟨(s.deliver_frame kbd).1, (s.deliver_frame kbd).2.1⟩

/-- The handlers that an event calls deliver its characters in order. -/
theorem System.polled_delivered (s : System) (event : Event) :
    (s.polled event).delivered = s.delivered ++ event.characters s.serialExists := by
  cases event with
  | serialIntr batch =>
      simp only [polled, Event.characters]
      split
      · exact s.deliver_delivered batch
      · simp
  | kbdIntr batch => exact s.deliver_delivered batch
  | getc serial kbd =>
      simp only [polled, Event.characters]
      split
      · rw [deliver_delivered, deliver_delivered, List.append_assoc]
      · rw [deliver_delivered, List.nil_append]

/-- The call polls exactly what the record delivers. -/
theorem System.polled_cons (s : System) (serial kbd : List UInt8) :
    (s.polled (.getc serial kbd)).cons = kbdIntr (serialIntr s.serialExists s.cons (chars serial)) (chars kbd) := by
  simp only [polled, kbdIntr, serialIntr, deliver_cons]
  split <;> simp only [deliver_cons]

/-- The call takes the character at `rpos` unless the indices agree. -/
theorem System.getc_eq (s : System) (serial kbd : List UInt8) :
    let polled := s.polled (.getc serial kbd)
    s.getc serial kbd =
      if polled.cons.rpos ≠ polled.cons.wpos then
        (((polled.cons.buf polled.cons.rpos).toNat : Int),
          { polled.cons with rpos := advance consbufsize polled.cons.rpos })
      else (0, polled.cons) := by
  simp only [polled_cons]
  rfl

/-- The buffer follows the delivered characters with the reading position `next`. -/
structure Tracked (s : System) (next : Nat) : Prop where
  follows : Follows consbufsize next s.delivered s.cons.buf s.cons.rpos s.cons.wpos
  owners : Holds consbufsize ((List.range s.delivered.length).map some) s.owner
  nonzero : ∀ b ∈ s.delivered, b ≠ 0
  ordered : s.returned.Sublist (chars (s.delivered.take next))
  -- a reader that is lapped skips whole buffers only
  turns : next % consbufsize = s.returned.length % consbufsize
  once : s.taken.Sublist (List.range next)
  paired : s.taken.length = s.returned.length

theorem Tracked.initial (serialExists : Bool) : Tracked (System.initial serialExists) 0 :=
  ⟨.initial (by decide) _, .empty _ _, by simp [System.initial], by simp [System.initial], rfl, .slnil, rfl⟩

/-- A character that arrives is stored in the slot at `wpos`. -/
theorem Tracked.store (tracked : Tracked s next) {b : UInt8} (character : b ≠ 0) :
    Tracked (s.arrive b) (lap consbufsize next s.delivered.length) := by
  obtain ⟨follows, owners, nonzero, ordered, turns, once, paired⟩ := tracked
  have data : (b.toNat : Int) ≠ -1 := by omega
  have some : (b.toNat : Int) ≠ 0 := by
    intro zero
    exact character (UInt8.toNat_inj.mp (Int.ofNat_eq_zero.mp zero))
  have byte : UInt8.ofInt (b.toNat : Int) = b := by
    apply UInt8.toNat_inj.mp
    have bound := b.toNat_lt
    rw [UInt8.ofInt, UInt8.toNat_ofNat']
    omega
  have stored : consIntr s.cons [(b.toNat : Int)] =
      ⟨Function.update s.cons.buf s.cons.wpos b, s.cons.rpos, advance consbufsize s.cons.wpos⟩ := by
    simp only [consIntr, if_neg data, if_neg some, Cons.store, byte]
    rfl
  have reached := le_lap consbufsize next _ follows.reached
  simp only [System.arrive, if_neg character, stored]
  refine ⟨follows.push b, ?_, ?_, ?_, (lap_mod _ _ _).trans turns, ?_, paired⟩
  · have pushed := owners.push (.some s.delivered.length)
    simp only [List.length_map, List.length_range, ← follows.writes] at pushed
    simpa [List.range_succ] using pushed
  · intro c member
    obtain old | new := List.mem_append.mp member
    · exact nonzero c old
    · rw [List.mem_singleton.mp new]
      exact character
  · refine ordered.trans (List.Sublist.map _ ?_)
    exact (List.take_sublist_take_left reached).trans ((List.prefix_append _ _).take _).sublist
  · exact once.trans (List.range_sublist.mpr reached)

theorem Tracked.skip (tracked : Tracked s next) : Tracked (s.arrive 0) next := tracked

/-- A batch moves the reading position only when it laps the reader. -/
theorem Tracked.deliver (tracked : Tracked s next) (batch : List UInt8) :
    ∃ moved, Tracked (s.deliver batch) moved ∧
      ((s.deliver batch).delivered.length < next + consbufsize → moved = next) := by
  induction batch generalizing s next with
  | nil => exact ⟨next, tracked, fun _ => rfl⟩
  | cons b rest ih =>
      by_cases zero : b = 0
      · subst zero
        exact ih tracked.skip
      · obtain ⟨moved, after, near⟩ := ih (tracked.store zero)
        refine ⟨moved, after, fun short => ?_⟩
        have longer := congrArg List.length ((s.arrive b).deliver_delivered rest)
        rw [List.length_append] at longer
        have grown : (s.arrive b).delivered.length = s.delivered.length + 1 := by simp [System.arrive, zero]
        have stays : lap consbufsize next s.delivered.length = next := by
          apply lap_eq
          change ((s.arrive b).deliver rest).delivered.length < _ at short
          omega
        rw [stays] at near
        exact near short

theorem Tracked.polled (tracked : Tracked s next) (event : Event) :
    ∃ moved, Tracked (s.polled event) moved ∧
      ((s.polled event).delivered.length < next + consbufsize → moved = next) := by
  cases event with
  | serialIntr batch =>
      simp only [System.polled]
      split
      · exact tracked.deliver batch
      · exact ⟨next, tracked, fun _ => rfl⟩
  | kbdIntr batch => exact tracked.deliver batch
  | getc serial kbd =>
      simp only [System.polled]
      split
      · obtain ⟨first, serialTracked, serialNear⟩ := tracked.deliver serial
        obtain ⟨second, kbdTracked, kbdNear⟩ := serialTracked.deliver kbd
        refine ⟨second, kbdTracked, fun short => ?_⟩
        have longer := congrArg List.length ((s.deliver serial).deliver_delivered kbd)
        rw [List.length_append] at longer
        have same := serialNear (by omega)
        rw [same] at kbdNear
        exact kbdNear short
      · exact tracked.deliver kbd

/-- A call that finds a character returns the one at the reading position. -/
theorem Tracked.getc_some {serial kbd : List UInt8} (tracked : Tracked (s.polled (.getc serial kbd)) next)
    (behind : next < (s.polled (.getc serial kbd)).delivered.length) :
    (s.getc serial kbd).1 = ((s.polled (.getc serial kbd)).delivered[next].toNat : Int) ∧
      (s.getc serial kbd).1 ≠ 0 ∧ Tracked (s.step (.getc serial kbd)) (next + 1) ∧
      (s.step (.getc serial kbd)).taken = s.taken ++ [next] := by
  obtain ⟨follows, owners, nonzero, ordered, turns, once, paired⟩ := tracked
  have call := s.getc_eq serial kbd
  have frame := s.polled_frame (.getc serial kbd)
  have front := follows.front behind
  have busy : (s.polled (.getc serial kbd)).cons.rpos ≠ (s.polled (.getc serial kbd)).cons.wpos := by
    intro same
    exact absurd (follows.idle.mp same) (Nat.ne_of_lt behind)
  have owner : (s.polled (.getc serial kbd)).owner (s.polled (.getc serial kbd)).cons.rpos = some next := by
    have held := owners next (by simpa using behind) (by simpa using le_of_lt follows.near)
    rw [follows.reads, held, List.getElem_map, List.getElem_range]
  dsimp only at call
  rw [if_pos busy, front] at call
  have character : ((s.polled (.getc serial kbd)).delivered[next].toNat : Int) ≠ 0 := by
    intro zero
    exact nonzero _ (List.getElem_mem behind) (UInt8.toNat_inj.mp (Int.ofNat_eq_zero.mp zero))
  simp only [System.step, call, if_neg character, if_pos busy, owner, Option.toList_some, frame]
  rw [frame.2] at ordered turns
  rw [frame.1] at once
  rw [frame.1, frame.2] at paired
  refine ⟨trivial, character, ⟨follows.pop behind, owners, nonzero, ?_, ?_, ?_, ?_⟩, trivial⟩
  · rw [List.take_succ_eq_append_getElem behind, chars_append]
    exact ordered.append (List.Sublist.refl _)
  · rw [List.length_append, List.length_singleton, Nat.add_mod, turns, ← Nat.add_mod]
  · rw [List.range_succ]
    exact once.append (List.Sublist.refl _)
  · rw [List.length_append, List.length_append, paired]
    rfl

/-- A call that finds no character returns zero. -/
theorem Tracked.getc_none {serial kbd : List UInt8} (tracked : Tracked (s.polled (.getc serial kbd)) next)
    (read : next = (s.polled (.getc serial kbd)).delivered.length) :
    (s.getc serial kbd).1 = 0 ∧ s.step (.getc serial kbd) = s.polled (.getc serial kbd) := by
  have call := s.getc_eq serial kbd
  have idle := tracked.follows.idle.mpr read
  dsimp only at call
  rw [if_neg (not_not.mpr idle)] at call
  simp [System.step, call, idle]

/-- A call returns zero exactly when a whole number of buffers is unread, be it none at all. -/
theorem Tracked.getc_zero {serial kbd : List UInt8} (tracked : Tracked (s.polled (.getc serial kbd)) next) :
    (s.getc serial kbd).1 = 0 ↔ consbufsize ∣ (s.polled (.getc serial kbd)).unread := by
  have few := tracked.ordered.length_le
  simp only [chars, List.length_map, List.length_take] at few
  have same : consbufsize ∣ (s.polled (.getc serial kbd)).unread ↔
      (s.polled (.getc serial kbd)).cons.rpos = (s.polled (.getc serial kbd)).cons.wpos := by
    rw [System.unread, ← Nat.modEq_iff_dvd' (by omega), tracked.follows.reads, tracked.follows.writes, tracked.turns]
    rfl
  rw [same, tracked.follows.idle]
  obtain behind | read := Nat.lt_or_eq_of_le tracked.follows.reached
  · have character := (tracked.getc_some behind).2.1
    exact iff_of_false character (Nat.ne_of_lt behind)
  · exact iff_of_true (tracked.getc_none read).1 read

/-- Characters that were not returned are unread. -/
theorem Tracked.unread_pos (tracked : Tracked s next) (member : i ∈ s.unreturned) : 0 < s.unread := by
  have reached := tracked.follows.reached
  by_contra none
  rw [System.unread, ← tracked.paired] at none
  -- as many were returned as were delivered, each of them at most once
  have all : s.taken = List.range next := by
    apply tracked.once.eq_of_length_le
    rw [List.length_range]
    omega
  have short := tracked.once.length_le
  rw [List.length_range] at short
  simp only [System.unreturned, Finset.mem_filter, Finset.mem_range, all, List.mem_range] at member
  omega

theorem Tracked.step (tracked : Tracked s next) (event : Event) : ∃ moved, Tracked (s.step event) moved := by
  obtain ⟨moved, after, _⟩ := tracked.polled event
  cases event with
  | serialIntr batch => exact ⟨moved, after⟩
  | kbdIntr batch => exact ⟨moved, after⟩
  | getc serial kbd =>
      obtain behind | read := Nat.lt_or_eq_of_le after.follows.reached
      · exact ⟨moved + 1, (after.getc_some behind).2.2.1⟩
      · rw [(after.getc_none read).2]
        exact ⟨moved, after⟩

/-- Every run keeps the buffer tracked, whatever arrives. -/
theorem System.run_tracked (serialExists : Bool) (events : List Event) :
    ∃ next, Tracked ((System.initial serialExists).run events) next := by
  apply List.foldlRecOn (motive := fun s => ∃ next, Tracked s next) events System.step
  · exact ⟨0, .initial serialExists⟩
  · intro s ⟨next, tracked⟩ event _
    exact tracked.step event

/-- So far every character was returned in its turn. -/
def Lossless (s : System) (next : Nat) : Prop := Tracked s next ∧ s.taken = List.range next

/-- The characters that wait are those from the reading position on. -/
theorem Lossless.unreturned (lossless : Lossless s next) : s.unreturned = Finset.Ico next s.delivered.length := by
  ext i
  simp only [System.unreturned, lossless.2, Finset.mem_filter, Finset.mem_range, List.mem_range, not_lt, Finset.mem_Ico]
  exact and_comm

/-- An event with room keeps every waiting character. -/
theorem Lossless.polled (lossless : Lossless s next) {event : Event} (roomy : s.Roomy event) :
    Lossless (s.polled event) next := by
  obtain ⟨moved, after, near⟩ := lossless.1.polled event
  have reached := lossless.1.follows.reached
  have same := near (by
    rw [System.Roomy, lossless.unreturned, Nat.card_Ico] at roomy
    rw [System.polled_delivered, List.length_append]
    have size : consbufsize = 512 := rfl
    omega)
  rw [same] at after
  exact ⟨after, (s.polled_frame event).1.trans lossless.2⟩

theorem Lossless.step (lossless : Lossless s next) {event : Event} (roomy : s.Roomy event) :
    ∃ moved, Lossless (s.step event) moved := by
  have after := lossless.polled roomy
  cases event with
  | serialIntr batch => exact ⟨next, after⟩
  | kbdIntr batch => exact ⟨next, after⟩
  | getc serial kbd =>
      obtain behind | read := Nat.lt_or_eq_of_le after.1.follows.reached
      · obtain ⟨_, _, tracked, taken⟩ := after.1.getc_some behind
        refine ⟨next + 1, tracked, ?_⟩
        rw [taken, lossless.2, List.range_succ]
      · rw [(after.1.getc_none read).2]
        exact ⟨next, after⟩

/-- A run in which every event finds room stays lossless. -/
theorem System.run_lossless {serialExists : Bool} {events : List Event}
    (guarded : Guarded System.step System.Roomy (System.initial serialExists) events) :
    ∃ next, Lossless ((System.initial serialExists).run events) next := by
  have keeps (s : System) (event : Event) (lossless : ∃ next, Lossless s next) (roomy : s.Roomy event) :
      ∃ next, Lossless (s.step event) next := by
    obtain ⟨next, lossless⟩ := lossless
    exact lossless.step roomy
  exact guarded.invariant keeps ⟨0, .initial serialExists, rfl⟩

end JosSmp.Console
