import JosSmp.Construction.Lib.Nsipc

/-!
This file separates the memory of the caller from the two pages that it shares with the network server.
-/

namespace JosSmp.Nsipc
open Machine

variable {buf : Nsipcbuf} {reply : Reply} {c : Client} {a : Nat}

/-- The address lies in neither of the shared pages. -/
def Unshared (buf : Nsipcbuf) (a : Nat) : Prop := ¬ InPage reqva a ∧ ¬ InPage buf.start a

theorem nsipc_unshared (unshared : Unshared buf a) : (nsipc buf reply c).2.ram.byte a = c.ram.byte a :=
  (if_neg unshared.1).trans (if_neg unshared.2)

/-- An object without a byte in a page lies below or above it. -/
theorem apart_page {start n : Nat} (outside : ∀ i < n, ¬ InPage start (a + i)) (nonempty : 0 < n) :
    a + n ≤ start ∨ start + pgsize ≤ a := by
  by_contra meets
  unfold InPage at outside
  by_cases below : a ≤ start
  · exact outside (start - a) (by omega) (by unfold pgsize; omega)
  · exact outside 0 nonempty (by omega)

/-- A field of a request lies in the request page. -/
theorem field_inPage (buf : Nsipcbuf) (field : Field) : InPage buf.start (buf.start + field.offset) := by
  have inside := field.inside
  unfold InPage
  omega

theorem assign_unshared (field : Field) (v : UInt32) (unshared : Unshared buf a) :
    (c.assign (buf.start + field.offset) v).ram.byte a = c.ram.byte a := by
  have inside := field.inside
  have outside := unshared.2
  unfold InPage at outside
  exact Ram.byte_store32 v (by omega)

/-- A request page of a user program. -/
def requestPage : Nsipcbuf := ⟨0x00804000, by decide, by decide, by decide⟩

end JosSmp.Nsipc
