import JosSmp.Proof.Nsipc.Pages
import JosSmp.Proof.String.Memmove

/-!
This file proves which calls of the network client stay inside the page of their request.
-/

namespace JosSmp.Nsipc
open Library Machine

/-- The bytes that a write covers; a copy may run over the end of the address space. -/
def Write.Covers : Write → Nat → Prop
  | .assigned a, b => a ≤ b ∧ b < a + 4
  | .moved dst n, b => ∃ i < n, b = address (dst + i)

/-- Every byte that has been written lies in the request page, and no byte outside of the shared pages has changed. -/
def Contained (buf : Nsipcbuf) (ram : Ram) (c : Client) : Prop :=
  (∀ write ∈ c.writes, ∀ b, write.Covers b → InPage buf.start b) ∧ ∀ a, Unshared buf a → c.ram.byte a = ram.byte a

/-- A call that panics has not copied anything. -/
def ContainedCall (buf : Nsipcbuf) (ram : Ram) (result : Option (Int × Client)) : Prop :=
  ∀ r c, result = some (r, c) → Contained buf ram c

section Steps

variable {buf : Nsipcbuf} {reply : Reply} {ram : Ram} {c : Client}

theorem contained_start (buf : Nsipcbuf) (ram : Ram) : Contained buf ram ⟨ram, []⟩ :=
  ⟨fun _ written => absurd written List.not_mem_nil, fun _ _ => rfl⟩

theorem Contained.assign (contained : Contained buf ram c) (field : Field) (v : UInt32) :
    Contained buf ram (c.assign (buf.start + field.offset) v) := by
  have inside := field.inside
  refine ⟨List.forall_mem_cons.mpr ⟨fun b covers => ?_, contained.1⟩, fun a unshared => ?_⟩
  · unfold Write.Covers at covers
    unfold InPage
    omega
  · rw [assign_unshared field v unshared, contained.2 a unshared]

/-- The answer of the server changes the shared pages only. -/
theorem Contained.nsipc (contained : Contained buf ram c) : Contained buf ram (nsipc buf reply c).2 :=
  ⟨contained.1, fun a unshared => (nsipc_unshared unshared).trans (contained.2 a unshared)⟩

/-- A copy to a field stays in the page exactly when it ends there. -/
theorem covers_inPage_iff (buf : Nsipcbuf) {offset n : Nat} (inside : offset < pgsize) :
    (∀ b, (Write.moved (buf.start + offset) n).Covers b → InPage buf.start b) ↔ offset + n ≤ pgsize := by
  have fits := buf.fits
  have size : pgsize = 4096 := rfl
  constructor
  · intro contained
    by_contra above
    -- The first byte behind the page is written, or the first byte of the address space.
    have place := contained _ ⟨pgsize - offset, by omega, rfl⟩
    unfold InPage address at place
    omega
  · rintro within _ ⟨i, before, rfl⟩
    have same : address ((buf.start + offset : Nat) + i) = buf.start + offset + i := address_eq rfl (by omega)
    unfold InPage
    omega

theorem Contained.memmove (contained : Contained buf ram c) {offset n : Nat} (src : Nat)
    (inside : offset < pgsize) (within : offset + n ≤ pgsize) :
    Contained buf ram (c.memmove (buf.start + offset) src n) := by
  have fits := buf.fits
  refine ⟨List.forall_mem_cons.mpr ⟨(covers_inPage_iff buf inside).mpr within, contained.1⟩, fun a unshared => ?_⟩
  have outside := unshared.2
  unfold InPage at outside
  rw [← contained.2 a unshared]
  exact Cstring.memmove_outside _ src n c.ram (by omega) (by omega) (by omega)

end Steps

section Calls

variable {buf : Nsipcbuf} {reply : Reply} {ram : Ram} {s : Int}

/-- A call that sends an address stays in the page exactly when the address ends there. -/
theorem sendName_contained_iff (req : NsreqName) (name : Nat) (namelen : UInt32) :
    Contained buf ram (sendName buf req reply s name namelen ⟨ram, []⟩).2 ↔
      req.reqName + namelen.toNat ≤ pgsize := by
  constructor
  · intro contained
    have moved : Write.moved (buf.start + req.reqName) namelen.toNat ∈
        (sendName buf req reply s name namelen ⟨ram, []⟩).2.writes := List.mem_cons_of_mem _ List.mem_cons_self
    exact (covers_inPage_iff buf req.inside).mp (contained.1 _ moved)
  · intro within
    exact ((((contained_start buf ram).assign _ _).memmove name req.inside within).assign _ _).nsipc

/-- The state in which `nsipc_send` sends its request. -/
def sendRequested (buf : Nsipcbuf) (req : NsreqSend) (s : Int) (dataptr : Nat) (size : Int) (flags : UInt32)
    (ram : Ram) : Client :=
  let c : Client := ⟨ram, []⟩
  let c := c.assign (buf.start + req.reqS.offset) (UInt32.ofInt s)
  let c := c.memmove (buf.start + req.reqDataptr) dataptr (size % 4294967296).toNat
  let c := c.assign (buf.start + req.reqSize.offset) (UInt32.ofInt size)
  c.assign (buf.start + req.reqFlags.offset) flags

variable {req : NsreqSend} {dataptr : Nat} {size : Int} {flags : UInt32}

theorem nsipcSend_eq :
    nsipcSend buf req reply s dataptr size flags ⟨ram, []⟩ =
      if size < 1600 then some (nsipc buf reply (sendRequested buf req s dataptr size flags ram)) else none := rfl

/-- `nsipc_send` stays in the page exactly when it panics, or its size is not negative and its data end there. -/
theorem nsipcSend_contained_iff (lower : -2147483648 ≤ size) :
    ContainedCall buf ram (nsipcSend buf req reply s dataptr size flags ⟨ram, []⟩) ↔
      1600 ≤ size ∨ 0 ≤ size ∧ req.reqDataptr + size ≤ pgsize := by
  have page : pgsize = 4096 := rfl
  rw [nsipcSend_eq]
  by_cases passes : size < 1600
  · rw [if_pos passes]
    constructor
    · intro contained
      have moved : Write.moved (buf.start + req.reqDataptr) (size % 4294967296).toNat ∈
          (nsipc buf reply (sendRequested buf req s dataptr size flags ram)).2.writes :=
        List.mem_cons_of_mem _ (List.mem_cons_of_mem _ List.mem_cons_self)
      have inside := (covers_inPage_iff buf req.inside).mp ((contained _ _ rfl).1 _ moved)
      omega
    · intro condition r c returned
      cases returned
      have within : req.reqDataptr + (size % 4294967296).toNat ≤ pgsize := by omega
      exact ((((((contained_start buf ram).assign _ _).memmove dataptr req.inside within).assign _ _).assign _ _).nsipc)
  · rw [if_neg passes]
    exact iff_of_true nofun (.inl (by omega))

end Calls

/-- `nsipc_send` stays in the request page exactly when its size fails the assertion, or is not negative and ends in
the page, and `nsipc_bind` and `nsipc_connect` exactly when the address ends in the page. -/
theorem request_contained_iff (buf : Nsipcbuf) (reply : Reply) (ram : Ram) (s : Int) (src : Nat)
    (reqSend : NsreqSend) (size : Int) (flags : UInt32) (lower : -2147483648 ≤ size)
    (reqBind : NsreqBind) (reqConnect : NsreqConnect) (namelen : UInt32) :
    (ContainedCall buf ram (nsipcSend buf reqSend reply s src size flags ⟨ram, []⟩) ↔
        1600 ≤ size ∨ 0 ≤ size ∧ reqSend.reqDataptr + size ≤ pgsize) ∧
      (Contained buf ram (nsipcBind buf reqBind reply s src namelen ⟨ram, []⟩).2 ↔
        reqBind.reqName + namelen.toNat ≤ pgsize) ∧
      (Contained buf ram (nsipcConnect buf reqConnect reply s src namelen ⟨ram, []⟩).2 ↔
        reqConnect.reqName + namelen.toNat ≤ pgsize) :=
  ⟨nsipcSend_contained_iff lower, sendName_contained_iff reqBind src namelen,
    sendName_contained_iff reqConnect src namelen⟩

section Inputs

theorem first_inside : 0 + 4 ≤ pgsize := by decide

theorem second_inside : 4 + 4 ≤ pgsize := by decide

theorem third_inside : 8 + 4 ≤ pgsize := by decide

theorem payload_inside : 12 < pgsize := by decide

theorem name_inside : 8 < pgsize := by decide

/-- The payload of a request stands behind its other fields. -/
def sendRequest : NsreqSend := ⟨⟨0, first_inside⟩, 12, payload_inside, ⟨4, second_inside⟩, ⟨8, third_inside⟩⟩

def nameRequest : NsreqName := ⟨⟨0, first_inside⟩, 8, name_inside, ⟨4, second_inside⟩⟩

/-- The server returns zero. -/
def accomplished : Reply := ⟨0, by decide, by decide, fun _ => 0, fun _ => 0⟩

/-- A negative size passes the assertion, and an address of 5000 bytes is not checked at all. -/
theorem request_contained_fails :
    (¬ ∀ (buf : Nsipcbuf) (req : NsreqSend) (reply : Reply) (ram : Ram) (s : Int) (src : Nat) (size : Int)
      (flags : UInt32), -2147483648 ≤ size → size < 2147483648 →
      ContainedCall buf ram (nsipcSend buf req reply s src size flags ⟨ram, []⟩)) ∧
    (¬ ∀ (buf : Nsipcbuf) (req : NsreqBind) (reply : Reply) (ram : Ram) (s : Int) (src : Nat) (namelen : UInt32),
      Contained buf ram (nsipcBind buf req reply s src namelen ⟨ram, []⟩).2) ∧
    ¬ ∀ (buf : Nsipcbuf) (req : NsreqConnect) (reply : Reply) (ram : Ram) (s : Int) (src : Nat) (namelen : UInt32),
      Contained buf ram (nsipcConnect buf req reply s src namelen ⟨ram, []⟩).2 := by
  refine ⟨fun claim => ?_, fun claim => ?_, fun claim => ?_⟩
  · have contained := claim requestPage sendRequest accomplished ⟨fun _ => 0, []⟩ 3 0xeebfd000 (-1) 0 (by decide)
      (by decide)
    exact absurd ((nsipcSend_contained_iff (by decide)).mp contained) (by decide)
  · have contained := claim requestPage nameRequest accomplished ⟨fun _ => 0, []⟩ 3 0xeebfd000 5000
    exact absurd ((sendName_contained_iff _ _ _).mp contained) (by decide)
  · have contained := claim requestPage nameRequest accomplished ⟨fun _ => 0, []⟩ 3 0xeebfd000 5000
    exact absurd ((sendName_contained_iff _ _ _).mp contained) (by decide)

/-- A packet of 1599 bytes and an address of sixteen bytes. -/
theorem request_contained_packet :
    let ram : Ram := ⟨fun _ => 0, []⟩
    (ContainedCall requestPage ram (nsipcSend requestPage sendRequest accomplished 3 0xeebfd000 1599 0 ⟨ram, []⟩) ↔
        1600 ≤ (1599 : Int) ∨ 0 ≤ (1599 : Int) ∧ sendRequest.reqDataptr + (1599 : Int) ≤ pgsize) ∧
      (Contained requestPage ram (nsipcBind requestPage nameRequest accomplished 3 0xeebfd000 16 ⟨ram, []⟩).2 ↔
        nameRequest.reqName + (16 : UInt32).toNat ≤ pgsize) ∧
      (Contained requestPage ram (nsipcConnect requestPage nameRequest accomplished 3 0xeebfd000 16 ⟨ram, []⟩).2 ↔
        nameRequest.reqName + (16 : UInt32).toNat ≤ pgsize) :=
  request_contained_iff requestPage accomplished ⟨fun _ => 0, []⟩ 3 0xeebfd000 sendRequest 1599 0 (by decide)
    nameRequest nameRequest 16

end Inputs

end JosSmp.Nsipc
