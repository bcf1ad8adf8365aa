import Mathlib.Logic.Function.Basic

/-!
This file models `inc/queue.h`.
The macros are generic in the type of the elements and in the field that holds the links.
-/

namespace JosSmp.Queue

/-- What a pointer to a pointer to an element addresses: the field `lh_first` of a head, or the field `le_next` of
an element. -/
inductive Place (H E : Type) where
  | lhFirst (head : H)
  | leNext (elm : E)
  deriving DecidableEq, Repr

/-- The fields of all heads and of all elements. -/
structure Heap (H E : Type) where
  lhFirst : H → Option E
  leNext : E → Option E
  lePrev : E → Place H E

variable {H E : Type} [DecidableEq H] [DecidableEq E]

def Heap.setFirst (m : Heap H E) (head : H) (v : Option E) : Heap H E :=
  { m with lhFirst := Function.update m.lhFirst head v }

def Heap.setNext (m : Heap H E) (elm : E) (v : Option E) : Heap H E :=
  { m with leNext := Function.update m.leNext elm v }

def Heap.setPrev (m : Heap H E) (elm : E) (v : Place H E) : Heap H E :=
  { m with lePrev := Function.update m.lePrev elm v }

/-- The assignment `*place = v`. -/
def Heap.assign (m : Heap H E) : Place H E → Option E → Heap H E
  | .lhFirst head, v => m.setFirst head v
  | .leNext elm, v => m.setNext elm v

def listEmpty (head : H) (m : Heap H E) : Bool := (m.lhFirst head).isNone

def listFirst (head : H) (m : Heap H E) : Option E := m.lhFirst head

def listNext (elm : E) (m : Heap H E) : Option E := m.leNext elm

/-- The loop of `LIST_FOREACH` from `var` on, with the elements that its body was run for. -/
def foreachLoop (body : E → Heap H E → Heap H E) : (fuel : Nat) → (var : Option E) → Heap H E →
    Option (List E × Heap H E)
  | _, none, m => some ([], m)
  | 0, some _, _ => none
  | fuel + 1, some elm, m =>
      let m := body elm m
      (foreachLoop body fuel (listNext elm m) m).map fun (visited, m) => (elm :: visited, m)

/-- The loop need not end, so it has a result only when `fuel` passes are enough. -/
def listForeach (body : E → Heap H E → Heap H E) (fuel : Nat) (head : H) (m : Heap H E) : Option (List E × Heap H E) :=
  foreachLoop body fuel (listFirst head m) m

def listInit (head : H) (m : Heap H E) : Heap H E := m.setFirst head none

def listInsertAfter (listelm elm : E) (m : Heap H E) : Heap H E :=
  let m := m.setNext elm (listNext listelm m)
  -- The condition tests the value just assigned, which is still the next element of `listelm`.
  let m := match listNext listelm m with
    | none => m
    | some next => m.setPrev next (.leNext elm)
  let m := m.setNext listelm (some elm)
  m.setPrev elm (.leNext listelm)

def listInsertBefore (listelm elm : E) (m : Heap H E) : Heap H E :=
  let m := m.setPrev elm (m.lePrev listelm)
  let m := m.setNext elm (some listelm)
  let m := m.assign (m.lePrev listelm) (some elm)
  m.setPrev listelm (.leNext elm)

def listInsertHead (head : H) (elm : E) (m : Heap H E) : Heap H E :=
  let m := m.setNext elm (listFirst head m)
  let m := match listFirst head m with
    | none => m
    | some first => m.setPrev first (.leNext elm)
  let m := m.setFirst head (some elm)
  m.setPrev elm (.lhFirst head)

def listRemove (elm : E) (m : Heap H E) : Heap H E :=
  let m := match listNext elm m with
    | none => m
    | some next => m.setPrev next (m.lePrev elm)
  m.assign (m.lePrev elm) (listNext elm m)

end JosSmp.Queue
