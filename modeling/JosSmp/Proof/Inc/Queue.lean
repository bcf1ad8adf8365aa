import JosSmp.Library.Linked
import JosSmp.Library.Run
import JosSmp.Construction.Inc.Queue

/-!
This file proves that the list macros maintain lists.
-/

namespace JosSmp.Queue
open Library

variable {H E : Type} {m : Heap H E} {lists : H → List E}

/-- The value of `*place`. -/
def Heap.deref (m : Heap H E) : Place H E → Option E
  | .lhFirst head => m.lhFirst head
  | .leNext elm => m.leNext elm

def Heap.links (m : Heap H E) : Links (Place H E) E := ⟨m.deref, m.lePrev⟩

/-- The fields hold the lists: each head starts its list, and each element points back to the pointer to it. -/
structure Represents (m : Heap H E) (lists : H → List E) : Prop where
  linked : ∀ h, Linked .leNext m.links (.lhFirst h) (lists h)

theorem leNext_injective : Function.Injective (Place.leNext : E → Place H E) := fun _ _ same => by
  injection same

/-- The head of a list is no place of another list. -/
theorem head_outside {h head : H} (other : h ≠ head) (xs : List E) :
    Place.lhFirst head ∉ places .leNext (.lhFirst h) xs := by
  intro member
  obtain same | listed := List.mem_cons.mp member
  · exact other (Place.lhFirst.inj same).symm
  · obtain ⟨_, _, same⟩ := List.mem_map.mp listed
    cases same

theorem Represents.held (represents : Represents m lists) {h : H} {e : E} (member : e ∈ lists h) :
    m.deref (m.lePrev e) = some e := ((represents.linked h).back_mem member).1

/-- The element behind an element of a list points back to it. -/
theorem Represents.named (represents : Represents m lists) {h : H} {e n : E} (member : e ∈ lists h)
    (next : m.leNext e = some n) : m.lePrev n = .leNext e :=
  ((represents.linked h).get_mem (List.mem_cons_of_mem _ (List.mem_map_of_mem member)) next).2

/-- An element is in one list only. -/
theorem Represents.single (represents : Represents m lists) {h h' : H} {e : E} (here : e ∈ lists h)
    (there : e ∈ lists h') : h' = h := by
  have place := (represents.linked h').place_mem leNext_injective (represents.linked h) (fun _ => by simp) there here
  obtain same | listed := List.mem_cons.mp place
  · exact Place.lhFirst.inj same
  · obtain ⟨_, _, same⟩ := List.mem_map.mp listed
    cases same

section Macros

variable [DecidableEq E]

@[simp] theorem deref_setPrev (e : E) (p : Place H E) : (m.setPrev e p).deref = m.deref := by
  funext q
  cases q <;> rfl

/-- The back link of the element that a pointer points to, if there is one. -/
theorem links_match (m : Heap H E) (target : Option E) (p : Place H E) :
    (match target with
      | none => m
      | some n => m.setPrev n p).links = m.links.setBack target p := by
  cases target with
  | none => rfl
  | some n => exact Links.ext (deref_setPrev n p) rfl

variable [DecidableEq H]

@[simp] theorem deref_assign (p : Place H E) (v : Option E) :
    (m.assign p v).deref = Function.update m.deref p v := by
  funext q
  cases p <;> cases q <;> simp [Heap.assign, Heap.setFirst, Heap.setNext, Heap.deref, Function.update_apply]

@[simp] theorem lePrev_assign (p : Place H E) (v : Option E) : (m.assign p v).lePrev = m.lePrev := by
  cases p <;> rfl

/-- Both insertions behind a place link the new element in there. -/
theorem links_insert (m : Heap H E) (p : Place H E) (e : E) :
    (((match m.deref p with
      | none => m.assign (.leNext e) (m.deref p)
      | some n => (m.assign (.leNext e) (m.deref p)).setPrev n (.leNext e)).assign p (some e)).setPrev e p).links =
      splice .leNext p e m.links := by
  have linked := links_match (m.assign (.leNext e) (m.deref p)) (m.deref p) (.leNext e)
  generalize (match m.deref p with
    | none => m.assign (.leNext e) (m.deref p)
    | some n => (m.assign (.leNext e) (m.deref p)).setPrev n (.leNext e)) = m₁ at linked ⊢
  have get : m₁.deref = Function.update m.deref (.leNext e) (m.deref p) := by
    rw [← deref_assign]
    exact (congrArg Links.get linked).trans (setBack_get _ _)
  have back : m₁.lePrev = (m.links.setBack (m.deref p) (.leNext e)).back := by
    refine (congrArg Links.back linked).trans ?_
    cases m.deref p <;> rfl
  refine Links.ext ?_ ?_
  · change ((m₁.assign p (some e)).setPrev e p).deref = _
    rw [deref_setPrev, deref_assign, get]
    rfl
  · change Function.update (m₁.assign p (some e)).lePrev e p = _
    rw [lePrev_assign, back]
    rfl

theorem links_insertHead (h : H) (e : E) : (listInsertHead h e m).links = splice .leNext (.lhFirst h) e m.links :=
  links_insert m (.lhFirst h) e

theorem links_insertAfter (l e : E) : (listInsertAfter l e m).links = splice .leNext (.leNext l) e m.links := by
  have kept : listNext l (m.setNext e (listNext l m)) = listNext l m := by
    simp only [listNext, Heap.setNext, Function.update_apply]
    split
    · rename_i same
      rw [same]
    · rfl
  rw [listInsertAfter]
  simp only [kept]
  exact links_insert m (.leNext l) e

/-- An insertion in front of an element links the new one in at the place that points to it. -/
theorem links_insertBefore {l e : E} (other : l ≠ e) (held : m.deref (m.lePrev l) = some l) :
    (listInsertBefore l e m).links = splice .leNext (m.lePrev l) e m.links := by
  have prev : ((m.setPrev e (m.lePrev l)).setNext e (some l)).lePrev l = m.lePrev l := Function.update_of_ne other ..
  refine Links.ext ?_ ?_
  · change (listInsertBefore l e m).deref = _
    simp only [listInsertBefore, prev, deref_setPrev, deref_assign]
    change Function.update ((m.setPrev e (m.lePrev l)).assign (.leNext e) (some l)).deref _ _ = _
    rw [deref_assign, deref_setPrev, ← held]
    rfl
  · change (listInsertBefore l e m).lePrev = _
    simp only [listInsertBefore, prev]
    change Function.update (((m.setPrev e (m.lePrev l)).setNext e (some l)).assign (m.lePrev l) (some e)).lePrev l _ = _
    rw [lePrev_assign, splice]
    change _ = Function.update (m.links.setBack (m.deref (m.lePrev l)) (.leNext e)).back e (m.lePrev l)
    rw [held]
    exact Function.update_comm other.symm ..

/-- A removal unlinks the element, which does not point to itself. -/
theorem links_remove {e : E} (other : m.leNext e ≠ some e) : (listRemove e m).links = unlink .leNext e m.links := by
  have removed (m₁ : Heap H E) (linked : m₁.links = m.links.setBack (m.leNext e) (m.lePrev e)) :
      (m₁.assign (m₁.lePrev e) (listNext e m₁)).links = unlink .leNext e m.links := by
    have get : m₁.deref = m.deref := (congrArg Links.get linked).trans (setBack_get _ _)
    have prev : m₁.lePrev e = m.lePrev e := (congrFun (congrArg Links.back linked) e).trans (setBack_ne other _)
    have next : listNext e m₁ = m.leNext e := congrFun get (.leNext e)
    refine Links.ext ?_ ?_
    · change (m₁.assign (m₁.lePrev e) (listNext e m₁)).deref = _
      rw [deref_assign, get, prev, next]
      rfl
    · change (m₁.assign (m₁.lePrev e) (listNext e m₁)).lePrev = _
      rw [lePrev_assign]
      exact congrArg Links.back linked
  exact removed _ (links_match m (m.leNext e) (m.lePrev e))

end Macros

/-- The loop visits the elements from its variable on. -/
theorem foreachLoop_visits {xs : List E} {p : Place H E} (linked : Linked .leNext m.links p xs) {fuel : Nat}
    (enough : xs.length ≤ fuel) : foreachLoop (fun _ m => m) fuel (m.deref p) m = some (xs, m) := by
  induction xs generalizing p fuel with
  | nil =>
      have ends : m.deref p = none := linked
      rw [ends, foreachLoop]
  | cons x xs ih =>
      have points : m.deref p = some x := linked.1
      cases fuel with
      | zero => exact absurd enough (Nat.not_succ_le_zero _)
      | succ fuel =>
          have onward := ih linked.2.2 (Nat.le_of_succ_le_succ enough)
          rw [points, foreachLoop]
          change (foreachLoop (fun _ m => m) fuel (m.deref (.leNext x)) m).map _ = _
          rw [onward, Option.map_some]

/-- The operations on lists. -/
inductive Op (H E : Type) where
  | init (head : H)
  | insertHead (head : H) (elm : E)
  | insertAfter (listelm elm : E)
  | insertBefore (listelm elm : E)
  | remove (elm : E)

section Run

variable [DecidableEq H] [DecidableEq E]

def Op.run : Op H E → Heap H E → Heap H E
  | .init head => listInit head
  | .insertHead head elm => listInsertHead head elm
  | .insertAfter listelm elm => listInsertAfter listelm elm
  | .insertBefore listelm elm => listInsertBefore listelm elm
  | .remove elm => listRemove elm

/-- What an operation does to the lists. -/
def Op.apply (op : Op H E) (lists : H → List E) : H → List E :=
  match op with
  | .init head => Function.update lists head []
  | .insertHead head elm => Function.update lists head (elm :: lists head)
  | .insertAfter listelm elm => fun h => Library.insertAfter listelm elm (lists h)
  | .insertBefore listelm elm => fun h => Library.insertBefore listelm elm (lists h)
  | .remove elm => fun h => (lists h).erase elm

/-- A new element is in no list, and the element that an operation names is in one. -/
def Op.Admits (lists : H → List E) : Op H E → Prop
  | .init _ => True
  | .insertHead _ elm => ∀ h, elm ∉ lists h
  | .insertAfter listelm elm => (∃ h, listelm ∈ lists h) ∧ ∀ h, elm ∉ lists h
  | .insertBefore listelm elm => (∃ h, listelm ∈ lists h) ∧ ∀ h, elm ∉ lists h
  | .remove elm => ∃ h, elm ∈ lists h

/-- Linking in a fresh element at a place of some list inserts it there in all lists. -/
theorem Represents.splice (represents : Represents m lists) {p : Place H E} {e : E} (fresh : ∀ h, e ∉ lists h)
    {h : H} (place : p ∈ places .leNext (.lhFirst h) (lists h)) (h' : H) :
    Linked .leNext (Library.splice .leNext p e m.links) (.lhFirst h')
      (insertAt .leNext p e (.lhFirst h') (lists h')) :=
  (represents.linked h').splice leNext_injective (fresh h') (by simp) fun _ points =>
    ((represents.linked h).get_mem place points).2

/-- Each macro does to the fields what its operation does to the lists. -/
theorem Represents.step (represents : Represents m lists) {op : Op H E} (admitted : op.Admits lists) :
    Represents (op.run m) (op.apply lists) := by
  cases op with
  | init head =>
      refine ⟨fun h => ?_⟩
      by_cases same : h = head
      · subst same
        simp only [Op.apply, Function.update_self]
        exact Function.update_self ..
      · simp only [Op.apply, Function.update_of_ne same]
        refine (represents.linked h).congr (fun q member => ?_) fun _ _ => rfl
        change (m.assign (.lhFirst head) none).deref q = _
        rw [deref_assign]
        refine Function.update_of_ne ?_ ..
        rintro rfl
        exact head_outside same _ member
  | insertHead head elm =>
      refine ⟨fun h => ?_⟩
      have inserted := represents.splice admitted (h := head) List.mem_cons_self h
      rw [← links_insertHead] at inserted
      by_cases same : h = head
      · subst same
        simp only [Op.apply, Function.update_self]
        rwa [insertAt_root] at inserted
      · simp only [Op.apply, Function.update_of_ne same]
        rwa [insertAt_outside (head_outside same _)] at inserted
  | insertAfter listelm elm =>
      obtain ⟨⟨head, member⟩, fresh⟩ := admitted
      refine ⟨fun h => ?_⟩
      have place : Place.leNext listelm ∈ places .leNext (.lhFirst head) (lists head) :=
        List.mem_cons_of_mem _ (List.mem_map_of_mem member)
      have inserted := represents.splice fresh place h
      rwa [← links_insertAfter, insertAt_slot leNext_injective (by simp)] at inserted
  | insertBefore listelm elm =>
      obtain ⟨⟨head, member⟩, fresh⟩ := admitted
      refine ⟨fun h => ?_⟩
      have place := ((represents.linked head).back_mem member).2
      have held := represents.held member
      have other : listelm ≠ elm := by
        rintro rfl
        exact fresh head member
      have inserted := represents.splice fresh place h
      rw [(represents.linked h).insertAt_back held] at inserted
      change Linked _ (listInsertBefore listelm elm m).links _ _
      rwa [links_insertBefore other held]
  | remove elm =>
      obtain ⟨head, member⟩ := admitted
      refine ⟨fun h => ?_⟩
      change Linked _ (listRemove elm m).links _ _
      rw [links_remove ((represents.linked head).next_ne member)]
      exact (represents.linked h).unlink leNext_injective (by simp) (represents.held member) fun _ =>
        represents.named member

/-- A macro runs on the fields, and its operation on the lists that they should hold. -/
def Op.step (s : Heap H E × (H → List E)) (op : Op H E) : Heap H E × (H → List E) := (op.run s.1, op.apply s.2)

/-- From cleared heads on, any sequence of admitted macros leaves fields that hold the lists: each element points back
to the pointer to it, `LIST_FOREACH` runs through the lists in order, and no element is in two places. -/
theorem queue_represents (m : Heap H E) (cleared : ∀ h, m.lhFirst h = none) (ops : List (Op H E))
    (admitted : Guarded Op.step (fun s op => op.Admits s.2) (m, fun _ => []) ops) :
    let s := ops.foldl Op.step (m, fun _ => [])
    Represents s.1 s.2 ∧
    ∀ h, (∀ fuel, (s.2 h).length ≤ fuel → listForeach (fun _ m => m) fuel h s.1 = some (s.2 h, s.1)) ∧
      listEmpty h s.1 = (s.2 h).isEmpty ∧ (s.2 h).Nodup ∧
      ∀ e ∈ s.2 h, s.1.deref (s.1.lePrev e) = some e ∧ ∀ h', e ∈ s.2 h' → h' = h := by
  intro s
  have keeps (s : Heap H E × (H → List E)) (op : Op H E) (represents : Represents s.1 s.2)
      (allowed : op.Admits s.2) : Represents (Op.step s op).1 (Op.step s op).2 := represents.step allowed
  have represents : Represents s.1 s.2 := admitted.invariant keeps ⟨cleared⟩
  refine ⟨represents, fun h => ?_⟩
  have linked := represents.linked h
  refine ⟨fun fuel enough => foreachLoop_visits linked enough, ?_, linked.nodup.2, fun e member => ?_⟩
  · have first : s.1.lhFirst h = (s.2 h).head? := linked.get_eq
    rw [listEmpty, first]
    cases s.2 h <;> rfl
  · exact ⟨represents.held member, fun h' there => represents.single member there⟩

/-- An element moves from one list to another one. -/
theorem queue_represents_moved :
    let m : Heap Bool Nat := ⟨fun _ => none, fun _ => some 7, fun _ => .lhFirst true⟩
    let s := [.insertHead false 1, .insertAfter 1 2, .insertBefore 2 3, .remove 1, .insertHead true 1].foldl Op.step
      (m, fun _ => [])
    Represents s.1 s.2 ∧
    ∀ h, (∀ fuel, (s.2 h).length ≤ fuel → listForeach (fun _ m => m) fuel h s.1 = some (s.2 h, s.1)) ∧
      listEmpty h s.1 = (s.2 h).isEmpty ∧ (s.2 h).Nodup ∧
      ∀ e ∈ s.2 h, s.1.deref (s.1.lePrev e) = some e ∧ ∀ h', e ∈ s.2 h' → h' = h :=
  queue_represents ⟨fun _ => none, fun _ => some 7, fun _ => .lhFirst true⟩ (fun _ => rfl)
    [.insertHead false 1, .insertAfter 1 2, .insertBefore 2 3, .remove 1, .insertHead true 1] (by
      refine ⟨?_, ?_, ?_, ?_, ?_, trivial⟩ <;> unfold Op.Admits <;> decide)

/-- The loop body that removes the elements with a property. -/
def removeIf (p : E → Bool) (elm : E) (m : Heap H E) : Heap H E := if p elm then listRemove elm m else m

/-- A removed element keeps its own link, by which the loop goes on. -/
theorem next_removeIf {h : H} {e : E} (represents : Represents m lists) (member : e ∈ lists h) (p : E → Bool) :
    listNext e (removeIf p e m) = m.leNext e := by
  unfold removeIf
  split
  · have other := (represents.linked h).next_ne member
    have apart : Place.leNext e ≠ m.lePrev e := by
      intro same
      have held := represents.held member
      rw [← same] at held
      exact other held
    exact (congrFun (congrArg Links.get (links_remove other)) (.leNext e)).trans (Function.update_of_ne apart ..)
  · rfl

/-- Erasing an element of one list changes that list only. -/
theorem Represents.erase_eq {h : H} {e : E} {before after : List E} (represents : Represents m lists)
    (split : lists h = before ++ e :: after) :
    (fun h => (lists h).erase e) = Function.update lists h (before ++ after) := by
  have member : e ∈ lists h := split ▸ List.mem_append_right before List.mem_cons_self
  funext h'
  by_cases same : h' = h
  · subst same
    have fresh : e ∉ before := by
      have distinct := (represents.linked h').nodup.2
      rw [split] at distinct
      exact fun again => (List.nodup_append.mp distinct).2.2 e again e List.mem_cons_self rfl
    rw [Function.update_self, split, List.erase_append_right _ fresh, List.erase_cons_head]
  · rw [Function.update_of_ne same]
    exact List.erase_of_not_mem fun there => same (represents.single member there)

/-- From an element on, the loop visits the rest of the list and keeps the elements without the property. -/
theorem foreachLoop_removeIf {h : H} {fuel : Nat} {before rest : List E} (p : E → Bool)
    (represents : Represents m lists) (split : lists h = before ++ rest) (enough : rest.length ≤ fuel) :
    ∃ m', foreachLoop (removeIf p) fuel rest.head? m = some (rest, m') ∧
      Represents m' (Function.update lists h (before ++ rest.filter fun e => !p e)) := by
  induction rest generalizing m lists before fuel with
  | nil =>
      refine ⟨m, by rw [List.head?_nil, foreachLoop], ?_⟩
      rwa [List.filter_nil, ← split, Function.update_eq_self]
  | cons x rest ih =>
      cases fuel with
      | zero => exact absurd enough (Nat.not_succ_le_zero _)
      | succ fuel =>
          have less := Nat.le_of_succ_le_succ enough
          have member : x ∈ lists h := split ▸ List.mem_append_right before List.mem_cons_self
          have next : listNext x (removeIf p x m) = rest.head? := by
            have linked := represents.linked h
            rw [split] at linked
            exact (next_removeIf represents member p).trans linked.suffix.get_eq
          rw [List.head?_cons, foreachLoop]
          simp only [next]
          by_cases removed : p x = true
          · have after : Represents (removeIf p x m) (Function.update lists h (before ++ rest)) := by
              rw [← represents.erase_eq split, removeIf, if_pos removed]
              have allowed : Op.Admits lists (.remove x) := ⟨h, member⟩
              exact represents.step allowed
            obtain ⟨m', run, final⟩ := ih after (Function.update_self ..) less
            refine ⟨m', by rw [run, Option.map_some], ?_⟩
            rw [Function.update_idem] at final
            rwa [List.filter_cons_of_neg (by simpa using removed)]
          · have after : Represents (removeIf p x m) lists := by
              rwa [removeIf, if_neg removed]
            have onward : lists h = (before ++ [x]) ++ rest := by
              rw [split, List.append_assoc]
              rfl
            obtain ⟨m', run, final⟩ := ih after onward less
            refine ⟨m', by rw [run, Option.map_some], ?_⟩
            rw [List.filter_cons_of_pos (by simpa using removed)]
            rwa [List.append_assoc] at final

/-- A loop may remove the element that it is at: it still visits the whole list, and the rest of it stays. -/
theorem foreach_remove (m : Heap H E) (lists : H → List E) (represents : Represents m lists) (head : H)
    (p : E → Bool) (fuel : Nat) (enough : (lists head).length ≤ fuel) :
    ∃ m', listForeach (removeIf p) fuel head m = some (lists head, m') ∧
      Represents m' (Function.update lists head ((lists head).filter fun e => !p e)) := by
  obtain ⟨m', run, final⟩ := foreachLoop_removeIf p represents (List.nil_append _).symm enough
  refine ⟨m', ?_, final⟩
  rw [listForeach, listFirst, ← run]
  congr 1
  exact (represents.linked head).get_eq

/-- The loop removes the even elements of a list of three. -/
theorem foreach_remove_even :
    let m : Heap Unit Nat := ⟨fun _ => some 1, fun e => if e < 3 then some (e + 1) else none,
      fun e => if e = 1 then .lhFirst () else .leNext (e - 1)⟩
    ∃ m', listForeach (removeIf fun e => e % 2 == 0) 3 () m = some ([1, 2, 3], m') ∧
      Represents m' (Function.update (fun _ => [1, 2, 3]) () ([1, 2, 3].filter fun e => !(e % 2 == 0))) :=
  foreach_remove _ (fun _ => [1, 2, 3]) ⟨fun _ => by simp [Linked, Heap.links, Heap.deref]⟩ () _ 3 (Nat.le_refl 3)

end Run

end JosSmp.Queue
