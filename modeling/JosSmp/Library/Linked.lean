import Mathlib.Data.List.Nodup
import Mathlib.Logic.Function.Basic

/-!
This file gives doubly linked lists whose back links name the place that points to an element.
A place is the head of a list or the slot of an element, so an element leaves its list without knowing which one it is.
-/

namespace JosSmp.Library

/-- What each place points to, and the place that each element takes to point to it. -/
@[ext]
structure Links (P E : Type*) where
  get : P → Option E
  back : E → P

variable {P E : Type*} {slot : E → P} {m m' : Links P E} {p q : P} {e n : E} {xs ys zs : List E}

/-- The elements that are linked from a place on. -/
def Linked (slot : E → P) (m : Links P E) : P → List E → Prop
  | p, [] => m.get p = none
  | p, x :: xs => m.get p = some x ∧ m.back x = p ∧ Linked slot m (slot x) xs

/-- The places that a linked list passes. -/
def places (slot : E → P) (p : P) (xs : List E) : List P := p :: xs.map slot

theorem Linked.congr (linked : Linked slot m p xs) (get : ∀ q ∈ places slot p xs, m'.get q = m.get q)
    (back : ∀ x ∈ xs, m'.back x = m.back x) : Linked slot m' p xs := by
  induction xs generalizing p with
  | nil => exact (get p List.mem_cons_self).trans linked
  | cons x xs ih =>
      obtain ⟨here, behind, later⟩ := linked
      obtain ⟨same, others⟩ := List.forall_mem_cons.mp back
      refine ⟨(get p List.mem_cons_self).trans here, same.trans behind, ih later ?_ others⟩
      exact fun q member => get q (List.mem_cons_of_mem p member)

/-- The links decide the list. -/
theorem Linked.unique (first : Linked slot m p xs) (second : Linked slot m p ys) : xs = ys := by
  induction xs generalizing p ys with
  | nil =>
      cases ys with
      | nil => rfl
      | cons y ys => exact absurd (first.symm.trans second.1) (by simp)
  | cons x xs ih =>
      cases ys with
      | nil => exact absurd (second.symm.trans first.1) (by simp)
      | cons y ys =>
          obtain rfl := Option.some.inj (first.1.symm.trans second.1)
          rw [ih first.2.2 second.2.2]

/-- The links from the slot of an element on are the rest of the list. -/
theorem Linked.suffix (linked : Linked slot m p (xs ++ e :: ys)) : Linked slot m (slot e) ys := by
  induction xs generalizing p with
  | nil => exact linked.2.2
  | cons x xs ih => exact ih linked.2.2

/-- A list comes back neither to its own place nor to one of its elements. -/
theorem Linked.nodup (linked : Linked slot m p xs) :
    (places slot p xs).Nodup ∧ xs.Nodup := by
  induction xs generalizing p with
  | nil => exact ⟨List.nodup_singleton p, List.nodup_nil⟩
  | cons x xs ih =>
      obtain ⟨outside, others⟩ := ih linked.2.2
      have fresh : p ∉ places slot (slot x) xs := by
        intro member
        rw [places, ← List.map_cons, List.mem_map] at member
        obtain ⟨y, listed, rfl⟩ := member
        obtain ⟨before, after, split⟩ := List.append_of_mem listed
        have again : Linked slot m (slot y) after := by
          rw [split] at linked
          exact linked.suffix
        have size := congrArg List.length (linked.unique again)
        have size' := congrArg List.length split
        rw [List.length_append, List.length_cons] at size'
        rw [List.length_cons] at size size'
        omega
      refine ⟨List.nodup_cons.mpr ⟨fresh, outside⟩, List.nodup_cons.mpr ⟨fun member => ?_, others⟩⟩
      have again : slot x ∈ xs.map slot := List.mem_map_of_mem member
      exact (List.nodup_cons.mp outside).1 again

/-- Each element is pointed to by the place that it names, which is a place of the list. -/
theorem Linked.back_mem (linked : Linked slot m p xs) (member : e ∈ xs) :
    m.get (m.back e) = some e ∧ m.back e ∈ places slot p xs := by
  induction xs generalizing p with
  | nil => cases member
  | cons x xs ih =>
      obtain ⟨here, behind, later⟩ := linked
      obtain rfl | member := List.mem_cons.mp member
      · rw [behind]
        exact ⟨here, List.mem_cons_self⟩
      · obtain ⟨points, listed⟩ := ih later member
        exact ⟨points, List.mem_cons_of_mem p listed⟩

/-- What a place of the list points to is in the list and names that place. -/
theorem Linked.get_mem (linked : Linked slot m p xs) (member : q ∈ places slot p xs) (points : m.get q = some n) :
    n ∈ xs ∧ m.back n = q := by
  induction xs generalizing p with
  | nil =>
      rw [places, List.map_nil, List.mem_singleton] at member
      subst member
      exact absurd (linked.symm.trans points) (by simp)
  | cons x xs ih =>
      obtain ⟨here, behind, later⟩ := linked
      obtain rfl | member := List.mem_cons.mp member
      · obtain rfl := Option.some.inj (here.symm.trans points)
        exact ⟨List.mem_cons_self, behind⟩
      · obtain ⟨listed, named⟩ := ih later member
        exact ⟨List.mem_cons_of_mem x listed, named⟩

/-- No element points to itself. -/
theorem Linked.next_ne (linked : Linked slot m p xs) (member : e ∈ xs) : m.get (slot e) ≠ some e := by
  obtain ⟨before, after, rfl⟩ := List.append_of_mem member
  intro points
  have alone := (List.nodup_append.mp linked.nodup.2).2.1
  have again := (linked.suffix.get_mem List.mem_cons_self points).1
  exact (List.nodup_cons.mp alone).1 again

/-- A place points to the first element of its list. -/
theorem Linked.get_eq (linked : Linked slot m p xs) : m.get p = xs.head? := by
  cases xs with
  | nil => exact linked
  | cons x xs => exact linked.1

/-- A list that shares an element with another one starts at a place of the other one. -/
theorem Linked.place_mem (injective : Function.Injective slot) (first : Linked slot m p xs)
    (second : Linked slot m q ys) (noSlot : ∀ x, q ≠ slot x) (here : e ∈ xs) (there : e ∈ ys) :
    p ∈ places slot q ys := by
  induction xs generalizing p with
  | nil => cases here
  | cons x xs ih =>
      have named (listed : x ∈ ys) : p ∈ places slot q ys := by
        rw [← first.2.1]
        exact (second.back_mem listed).2
      obtain rfl | here := List.mem_cons.mp here
      · exact named there
      · obtain same | listed := List.mem_cons.mp (ih first.2.2 here)
        · exact absurd same.symm (noSlot x)
        · exact named ((List.mem_map_of_injective injective).mp listed)

/-- The back link of an element that a place points to. -/
def Links.setBack [DecidableEq E] (m : Links P E) (target : Option E) (p : P) : Links P E :=
  match target with
  | none => m
  | some n => { m with back := Function.update m.back n p }

theorem setBack_get [DecidableEq E] (target : Option E) (p : P) : (m.setBack target p).get = m.get := by
  cases target <;> rfl

theorem setBack_ne [DecidableEq E] {target : Option E} (other : target ≠ some n) (p : P) :
    (m.setBack target p).back n = m.back n := by
  cases target with
  | none => rfl
  | some k => exact Function.update_of_ne (fun same => other (congrArg some same.symm)) p m.back

theorem setBack_self [DecidableEq E] (p : P) : (m.setBack (some n) p).back n = p := by
  change Function.update m.back n p n = p
  exact Function.update_self ..

/-- The list with a new element at a place. -/
def insertAt [DecidableEq P] (slot : E → P) (p : P) (e : E) : P → List E → List E
  | q, [] => if q = p then [e] else []
  | q, x :: xs => if q = p then e :: x :: xs else x :: insertAt slot p e (slot x) xs

/-- A list that does not pass the place stays as it is. -/
theorem insertAt_outside [DecidableEq P] (outside : p ∉ places slot q xs) : insertAt slot p e q xs = xs := by
  induction xs generalizing q with
  | nil => exact if_neg fun same : q = p => outside (same ▸ List.mem_cons_self)
  | cons x xs ih =>
      obtain ⟨other, later⟩ := not_or.mp (List.mem_cons.not.mp outside)
      rw [insertAt, if_neg (Ne.symm other), ih later]

theorem insertAt_root [DecidableEq P] (p : P) (e : E) (xs : List E) : insertAt slot p e p xs = e :: xs := by
  cases xs <;> exact if_pos rfl

/-- The list with a new element behind the first occurrence of another one. -/
def insertAfter [DecidableEq E] (l e : E) : List E → List E
  | [] => []
  | x :: xs => if x = l then x :: e :: xs else x :: insertAfter l e xs

/-- The list with a new element in front of the first occurrence of another one. -/
def insertBefore [DecidableEq E] (l e : E) : List E → List E
  | [] => []
  | x :: xs => if x = l then e :: x :: xs else x :: insertBefore l e xs

section Edits

variable [DecidableEq P] [DecidableEq E]

/-- A new element is linked in at a place, and points to what the place pointed to. -/
def splice (slot : E → P) (p : P) (e : E) (m : Links P E) : Links P E where
  get := Function.update (Function.update m.get (slot e) (m.get p)) p (some e)
  back := Function.update (m.setBack (m.get p) (slot e)).back e p

/-- The place that points to an element points past it. -/
def unlink (slot : E → P) (e : E) (m : Links P E) : Links P E where
  get := Function.update m.get (m.back e) (m.get (slot e))
  back := (m.setBack (m.get (slot e)) (m.back e)).back

/-- The slot of an element is the place behind it. -/
theorem insertAt_slot (injective : Function.Injective slot) {l : E} (other : q ≠ slot l) :
    insertAt slot (slot l) e q xs = insertAfter l e xs := by
  induction xs generalizing q with
  | nil => exact if_neg other
  | cons x xs ih =>
      rw [insertAt, if_neg other, insertAfter]
      by_cases same : x = l
      · rw [if_pos same, same, insertAt_root]
      · rw [if_neg same, ih fun again => same (injective again)]

/-- The place that points to an element is the place in front of it. -/
theorem Linked.insertAt_back {l : E} (linked : Linked slot m q xs) (held : m.get (m.back l) = some l) :
    insertAt slot (m.back l) e q xs = insertBefore l e xs := by
  induction xs generalizing q with
  | nil =>
      refine if_neg ?_
      rintro rfl
      exact absurd (linked.symm.trans held) (by simp)
  | cons x xs ih =>
      obtain ⟨points, behind, later⟩ := linked
      rw [insertAt, insertBefore]
      by_cases same : x = l
      · rw [if_pos same, if_pos (by rw [← same, behind])]
      · rw [if_neg same, if_neg, ih later]
        rintro rfl
        exact same (Option.some.inj (points.symm.trans held))

/-- Linking in an element inserts it into the list that passes the place, and into no other list. -/
theorem Linked.splice (injective : Function.Injective slot) (linked : Linked slot m q zs) (fresh : e ∉ zs)
    (other : q ≠ slot e) (named : ∀ n, m.get p = some n → m.back n = p) :
    Linked slot (splice slot p e m) q (insertAt slot p e q zs) := by
  induction zs generalizing q with
  | nil =>
      by_cases here : q = p
      · subst here
        rw [insertAt, if_pos rfl]
        refine ⟨Function.update_self .., Function.update_self .., ?_⟩
        exact (Function.update_of_ne (Ne.symm other) ..).trans ((Function.update_self ..).trans linked)
      · rw [insertAt, if_neg here]
        exact (Function.update_of_ne here ..).trans ((Function.update_of_ne other ..).trans linked)
  | cons x zs ih =>
      have whole := linked
      obtain ⟨points, behind, later⟩ := linked
      obtain ⟨different, fresh⟩ := not_or.mp (List.mem_cons.not.mp fresh)
      have apart : slot x ≠ slot e := fun same => different (injective same).symm
      by_cases here : q = p
      · subst here
        obtain ⟨noPlace, distinct⟩ := whole.nodup
        have rest := ih later fresh apart
        rw [insertAt_outside (List.nodup_cons.mp noPlace).1] at rest
        rw [insertAt, if_pos rfl]
        refine ⟨Function.update_self .., Function.update_self .., ?_, ?_, rest⟩
        · exact (Function.update_of_ne (Ne.symm other) ..).trans ((Function.update_self ..).trans points)
        · refine (Function.update_of_ne (Ne.symm different) ..).trans ?_
          rw [points]
          exact setBack_self (slot e)
      · rw [insertAt, if_neg here]
        refine ⟨?_, ?_, ih later fresh apart⟩
        · exact (Function.update_of_ne here ..).trans ((Function.update_of_ne other ..).trans points)
        · refine (Function.update_of_ne (Ne.symm different) ..).trans ((setBack_ne ?_ _).trans behind)
          intro next
          exact here (behind.symm.trans (named x next))

/-- Unlinking an element erases it from its list, and changes no other list. -/
theorem Linked.unlink (injective : Function.Injective slot) (linked : Linked slot m q zs) (other : q ≠ slot e)
    (held : m.get (m.back e) = some e) (named : ∀ n, m.get (slot e) = some n → m.back n = slot e) :
    Linked slot (unlink slot e m) q (zs.erase e) := by
  induction zs generalizing q with
  | nil =>
      have apart : q ≠ m.back e := by
        rintro rfl
        exact absurd (linked.symm.trans held) (by simp)
      exact (Function.update_of_ne apart ..).trans linked
  | cons x zs ih =>
      obtain ⟨noPlace, distinct⟩ := linked.nodup
      obtain ⟨points, behind, later⟩ := linked
      by_cases same : x = e
      · subst same
        obtain ⟨outside, noPlace⟩ := List.nodup_cons.mp noPlace
        rw [List.erase_cons_head]
        cases zs with
        | nil =>
            change Function.update m.get (m.back x) (m.get (slot x)) q = none
            rw [behind, Function.update_self]
            exact later
        | cons y zs =>
            obtain ⟨next, named', rest⟩ := later
            refine ⟨?_, ?_, rest.congr (fun k member => ?_) fun k member => ?_⟩
            · change Function.update m.get (m.back x) (m.get (slot x)) q = some y
              rw [behind, Function.update_self]
              exact next
            · change (m.setBack (m.get (slot x)) (m.back x)).back y = q
              rw [next, setBack_self]
              exact behind
            · refine Function.update_of_ne ?_ ..
              rintro rfl
              rw [behind] at member
              exact outside (List.mem_cons_of_mem _ member)
            · refine setBack_ne ?_ _
              rw [next]
              rintro repeated
              obtain rfl := Option.some.inj repeated
              exact (List.nodup_cons.mp (List.nodup_cons.mp distinct).2).1 member
      · rw [List.erase_cons_tail (by simpa using same)]
        have apart : q ≠ m.back e := by
          rintro rfl
          exact same (Option.some.inj (points.symm.trans held))
        refine ⟨(Function.update_of_ne apart ..).trans points, (setBack_ne ?_ _).trans behind, ih later ?_⟩
        · intro next
          exact other (behind.symm.trans (named x next))
        · exact fun again => same (injective again)

end Edits

end JosSmp.Library
