import JosSmp.Proof.Nsipc.Pages
import JosSmp.Proof.String.Memmove

/-!
This file proves which replies of the network server leave the memory of the caller unharmed.
-/

namespace JosSmp.Nsipc
open Library Machine

section Recv

variable {buf : Nsipcbuf} {req : NsreqRecv} {reply : Reply} {s : Int} {mem : Nat} {len : Int} {flags : UInt32}
  {ram : Ram}

/-- A call that returns has written its request, and no more than `len` bytes from `mem` on, and nothing there if it
returns an error. All other bytes outside of the shared pages are as before. -/
def RecvHarmless (buf : Nsipcbuf) (mem : Nat) (len : Int) (ram : Ram) (result : Option (Int × Client)) : Prop :=
  ∀ r c, result = some (r, c) →
    (∀ a, Write.assigned a ∈ c.writes → InPage buf.start a) ∧
    (∀ dst n, Write.moved dst n ∈ c.writes → dst = mem ∧ n ≤ len ∧ (r < 0 → n = 0)) ∧
    ∀ a, Unshared buf a → a < mem ∨ mem + len ≤ a → c.ram.byte a = ram.byte a

/-- The state in which `nsipc_recv` looks at the reply. -/
def recvAnswered (buf : Nsipcbuf) (req : NsreqRecv) (reply : Reply) (s len : Int) (flags : UInt32) (ram : Ram) :
    Client :=
  let c : Client := ⟨ram, []⟩
  let c := c.assign (buf.start + req.reqS.offset) (UInt32.ofInt s)
  let c := c.assign (buf.start + req.reqLen.offset) (UInt32.ofInt len)
  let c := c.assign (buf.start + req.reqFlags.offset) flags
  (nsipc buf reply c).2

theorem nsipcRecv_eq :
    nsipcRecv buf req reply s mem len flags ⟨ram, []⟩ =
      if reply.r < 1600 ∧ reply.r ≤ len then
        some (reply.r, (recvAnswered buf req reply s len flags ram).memmove mem reqva (reply.r % 4294967296).toNat)
      else none := rfl

/-- The request leaves the memory outside of the shared pages alone. -/
theorem recvAnswered_unshared {a : Nat} (unshared : Unshared buf a) :
    (recvAnswered buf req reply s len flags ram).ram.byte a = ram.byte a :=
  (nsipc_unshared unshared).trans <| (assign_unshared _ _ unshared).trans <| (assign_unshared _ _ unshared).trans <|
    assign_unshared _ _ unshared

theorem recvAnswered_writes :
    (recvAnswered buf req reply s len flags ram).writes =
      [.assigned (buf.start + req.reqFlags.offset), .assigned (buf.start + req.reqLen.offset),
        .assigned (buf.start + req.reqS.offset)] := rfl

/-- The one copy of `nsipc_recv` is harmless exactly when the server reports no error. -/
theorem nsipcRecv_harmless (positive : 0 ≤ len) (fits : mem + len ≤ 4294967296) :
    RecvHarmless buf mem len ram (nsipcRecv buf req reply s mem len flags ⟨ram, []⟩) ↔ 0 ≤ reply.r := by
  have lower := reply.lower
  rw [nsipcRecv_eq]
  constructor
  · intro harmless
    by_contra error
    rw [if_pos (by omega)] at harmless
    obtain ⟨_, moved, _⟩ := harmless _ _ rfl
    have none := (moved _ _ List.mem_cons_self).2.2 (by omega)
    omega
  · intro success r c returned
    split at returned
    · rename_i passed
      cases returned
      have count : (reply.r % 4294967296).toNat = reply.r.toNat := by omega
      rw [count]
      refine ⟨?_, ?_, ?_⟩
      · intro a assigned
        rw [Client.memmove, recvAnswered_writes] at assigned
        simp only [List.mem_cons, Write.assigned.injEq, reduceCtorEq, List.not_mem_nil, or_false, false_or] at assigned
        obtain rfl | rfl | rfl := assigned
        · exact field_inPage buf _
        · exact field_inPage buf _
        · exact field_inPage buf _
      · intro dst n moved
        rw [Client.memmove, recvAnswered_writes] at moved
        simp only [List.mem_cons, Write.moved.injEq, reduceCtorEq, List.not_mem_nil, or_false] at moved
        omega
      · intro a unshared outside
        obtain ⟨bytes, _⟩ := Cstring.memmove_bytes mem reqva reply.r.toNat
          (recvAnswered buf req reply s len flags ram).ram (by omega) (by unfold reqva; omega)
        rw [Client.memmove]
        dsimp only
        rw [bytes, writeBlock_outside, recvAnswered_unshared unshared]
        rw [readBlock_length]
        omega
    · cases returned

end Recv

section Accept

variable {buf : Nsipcbuf} {req : NsreqAccept} {ret : NsretAccept} {reply : Reply} {s : Int} {addr addrlen : Nat}
  {ram : Ram}

/-- The length `*addrlen` that the caller passes. -/
def incoming (addrlen : Nat) (ram : Ram) : Nat := (ram.load32 addrlen).toNat

/-- The pointers of the caller point to two objects outside of the shared pages. -/
structure ValidPointers (buf : Nsipcbuf) (addr addrlen : Nat) (ram : Ram) : Prop where
  addrFits : addr + incoming addrlen ram ≤ 4294967296
  addrlenFits : addrlen + 4 ≤ 4294967296
  apart : addr + incoming addrlen ram ≤ addrlen ∨ addrlen + 4 ≤ addr
  addrUnshared : ∀ i < incoming addrlen ram, Unshared buf (addr + i)
  addrlenUnshared : ∀ i < 4, Unshared buf (addrlen + i)

/-- A call has written its request, no more than the incoming length from `addr` on, and `*addrlen`. If it returns an
error, the address and its length are as before. -/
def AcceptHarmless (buf : Nsipcbuf) (addr addrlen : Nat) (ram : Ram) (result : Int × Client) : Prop :=
  (∀ a, Write.assigned a ∈ result.2.writes → InPage buf.start a ∨ a = addrlen) ∧
  (∀ dst n, Write.moved dst n ∈ result.2.writes → dst = addr ∧ n ≤ incoming addrlen ram) ∧
  (result.1 < 0 → (∀ i < incoming addrlen ram, result.2.ram.byte (addr + i) = ram.byte (addr + i)) ∧
    result.2.ram.load32 addrlen = ram.load32 addrlen)

/-- The state in which `nsipc_accept` looks at the reply. -/
def acceptAnswered (buf : Nsipcbuf) (req : NsreqAccept) (reply : Reply) (s : Int) (ram : Ram) : Client :=
  (nsipc buf reply (Client.assign (buf.start + req.reqS.offset) (UInt32.ofInt s) ⟨ram, []⟩)).2

/-- The length that the reply gives. -/
def replied (ret : NsretAccept) (ram : Ram) : UInt32 := ram.load32 (reqva + ret.retAddrlen.offset)

/-- The reply gives no more than the caller has room for, and an error repeats what the caller has. -/
def FitsCaller (ret : NsretAccept) (addr addrlen : Nat) (ram answered : Ram) (r : Int) : Prop :=
  (replied ret answered).toNat ≤ incoming addrlen ram ∧
    (r < 0 → (replied ret answered).toNat = incoming addrlen ram ∧
      ∀ i < incoming addrlen ram, answered.byte (reqva + ret.retAddr + i) = ram.byte (addr + i))

theorem acceptAnswered_unshared {a : Nat} (unshared : Unshared buf a) :
    (acceptAnswered buf req reply s ram).ram.byte a = ram.byte a :=
  (nsipc_unshared unshared).trans (assign_unshared _ _ unshared)

/-- The memory behind the copy, as long as it fits. -/
theorem memmove_reply (valid : ValidPointers buf addr addrlen ram) (answered : Ram) {n : Nat}
    (fits : n ≤ incoming addrlen ram) :
    (Cstring.memmove addr (reqva + ret.retAddr) n answered).2.byte =
      writeBlock answered.byte addr (readBlock answered.byte (reqva + ret.retAddr) n) := by
  have inside := ret.inside
  have addrFits := valid.addrFits
  have source : reqva + ret.retAddr + n ≤ 4294967296 := by
    have place : reqva = 0x0ffff000 := rfl
    have size : pgsize = 4096 := rfl
    by_cases empty : n = 0
    · omega
    · have apart := apart_page (fun i before => (valid.addrUnshared i before).1) (by omega)
      omega
  exact (Cstring.memmove_bytes addr (reqva + ret.retAddr) n answered (by omega) source).1

/-- The length is read a second time, behind the copy, and is still the same. -/
theorem replied_again (valid : ValidPointers buf addr addrlen ram) (answered : Ram) {n : Nat}
    (fits : n ≤ incoming addrlen ram) :
    replied ret (Cstring.memmove addr (reqva + ret.retAddr) n answered).2 = replied ret answered := by
  have field := ret.retAddrlen.inside
  apply Ram.load32_congr
  intro i small
  rw [memmove_reply valid answered fits]
  by_cases empty : n = 0
  · rw [empty]
    exact congrFun (writeBlock_nil _ _) _
  · have apart := apart_page (fun i before => (valid.addrUnshared i before).1) (by omega)
    apply writeBlock_outside
    rw [readBlock_length]
    omega

/-- The state behind the copy. -/
def acceptCopied (buf : Nsipcbuf) (req : NsreqAccept) (ret : NsretAccept) (reply : Reply) (s : Int) (addr : Nat)
    (ram : Ram) : Client :=
  let answered := acceptAnswered buf req reply s ram
  answered.memmove addr (reqva + ret.retAddr) (replied ret answered.ram).toNat

theorem nsipcAccept_eq :
    nsipcAccept buf req ret reply s addr addrlen ⟨ram, []⟩ =
      (reply.r, (acceptCopied buf req ret reply s addr ram).assign addrlen
        (replied ret (acceptCopied buf req ret reply s addr ram).ram)) := rfl

theorem acceptCopied_writes :
    (acceptCopied buf req ret reply s addr ram).writes =
      [.moved addr (replied ret (acceptAnswered buf req reply s ram).ram).toNat,
        .assigned (buf.start + req.reqS.offset)] := rfl

/-- What the caller finds behind a reply that fits. -/
theorem nsipcAccept_fits (valid : ValidPointers buf addr addrlen ram)
    (fits : (replied ret (acceptAnswered buf req reply s ram).ram).toNat ≤ incoming addrlen ram) :
    let answered := (acceptAnswered buf req reply s ram).ram
    let result := (nsipcAccept buf req ret reply s addr addrlen ⟨ram, []⟩).2.ram
    result.load32 addrlen = replied ret answered ∧
      ∀ i < incoming addrlen ram, result.byte (addr + i) =
        if i < (replied ret answered).toNat then answered.byte (reqva + ret.retAddr + i) else ram.byte (addr + i) := by
  have apart := valid.apart
  have unshared (i : Nat) (inside : i < incoming addrlen ram) :
      (acceptAnswered buf req reply s ram).ram.byte (addr + i) = ram.byte (addr + i) :=
    acceptAnswered_unshared (valid.addrUnshared i inside)
  dsimp only
  rw [nsipcAccept_eq, Client.assign]
  constructor
  · rw [Ram.load32_store32]
    exact replied_again valid _ fits
  · intro i inside
    dsimp only
    rw [Ram.byte_store32 _ (by omega), acceptCopied, Client.memmove]
    dsimp only
    rw [memmove_reply valid _ fits]
    split
    · rename_i copied
      exact writeBlock_readBlock _ _ _ _ copied
    · rename_i kept
      rw [writeBlock_outside _ (by rw [readBlock_length]; omega)]
      exact unshared i inside

/-- The one copy of `nsipc_accept` is harmless exactly when the reply fits the caller. -/
theorem nsipcAccept_harmless (valid : ValidPointers buf addr addrlen ram) :
    AcceptHarmless buf addr addrlen ram (nsipcAccept buf req ret reply s addr addrlen ⟨ram, []⟩) ↔
      FitsCaller ret addr addrlen ram (acceptAnswered buf req reply s ram).ram reply.r := by
  have moved : Write.moved addr (replied ret (acceptAnswered buf req reply s ram).ram).toNat ∈
      (nsipcAccept buf req ret reply s addr addrlen ⟨ram, []⟩).2.writes :=
    List.mem_cons_of_mem _ List.mem_cons_self
  constructor
  · intro ⟨_, bounded, unchanged⟩
    have fits := (bounded _ _ moved).2
    obtain ⟨length, bytes⟩ := nsipcAccept_fits valid fits
    refine ⟨fits, fun error => ?_⟩
    obtain ⟨sameBytes, sameLength⟩ := unchanged error
    have whole : (replied ret (acceptAnswered buf req reply s ram).ram).toNat = incoming addrlen ram :=
      congrArg UInt32.toNat (length.symm.trans sameLength)
    refine ⟨whole, fun i inside => ?_⟩
    have here := (bytes i inside).symm.trans (sameBytes i inside)
    rwa [if_pos (by omega)] at here
  · intro ⟨fits, repeats⟩
    obtain ⟨length, bytes⟩ := nsipcAccept_fits valid fits
    refine ⟨?_, ?_, ?_⟩
    · intro a assigned
      rw [nsipcAccept_eq, Client.assign, acceptCopied_writes] at assigned
      simp only [List.mem_cons, Write.assigned.injEq, reduceCtorEq, List.not_mem_nil, or_false, false_or] at assigned
      obtain rfl | rfl := assigned
      · exact .inr rfl
      · exact .inl (field_inPage buf _)
    · intro dst n copied
      rw [nsipcAccept_eq, Client.assign, acceptCopied_writes] at copied
      simp only [List.mem_cons, Write.moved.injEq, reduceCtorEq, List.not_mem_nil, or_false, false_or] at copied
      obtain ⟨rfl, rfl⟩ := copied
      exact ⟨rfl, fits⟩
    · intro error
      obtain ⟨whole, same⟩ := repeats error
      refine ⟨fun i inside => ?_, length.trans (UInt32.toNat_inj.mp whole)⟩
      rw [bytes i inside, if_pos (by omega)]
      exact same i inside

end Accept

/-- `nsipc_recv` leaves the caller unharmed exactly when the server reports no error, and `nsipc_accept` exactly when
the reply gives no more than the caller has room for and an error repeats what the caller has. -/
theorem reply_harmless_iff (buf : Nsipcbuf) (reply : Reply) (ram : Ram) (s : Int)
    (reqRecv : NsreqRecv) (mem : Nat) (len : Int) (flags : UInt32) (positive : 0 ≤ len) (fits : mem + len ≤ 4294967296)
    (reqAccept : NsreqAccept) (ret : NsretAccept) (addr addrlen : Nat) (valid : ValidPointers buf addr addrlen ram) :
    (RecvHarmless buf mem len ram (nsipcRecv buf reqRecv reply s mem len flags ⟨ram, []⟩) ↔ 0 ≤ reply.r) ∧
      (AcceptHarmless buf addr addrlen ram (nsipcAccept buf reqAccept ret reply s addr addrlen ⟨ram, []⟩) ↔
        FitsCaller ret addr addrlen ram (acceptAnswered buf reqAccept reply s ram).ram reply.r) :=
  ⟨nsipcRecv_harmless positive fits, nsipcAccept_harmless valid⟩

section Inputs

/-- The structures of the requests. -/
def acceptRequest : NsreqAccept := ⟨⟨0, by decide⟩⟩

def recvRequest : NsreqRecv := ⟨⟨0, by decide⟩, ⟨4, by decide⟩, ⟨8, by decide⟩⟩

/-- The length stands behind an address of sixteen bytes. -/
def acceptReturn : NsretAccept := ⟨0, by decide, ⟨16, by decide⟩⟩

/-- The caller of `nsipc_accept` has room for sixteen bytes. -/
def callerRam : Ram := ⟨fun a => if a = 0xeebfdef0 then 16 else 0, []⟩

/-- An error, and two replies with addresses of sixteen and of 28 bytes. -/
def refused : Reply := ⟨-1, by decide, by decide, fun _ => 0, fun _ => 0⟩

def accepted : Reply := ⟨100, by decide, by decide, fun i => if i = 16 then 16 else 0, fun _ => 0⟩

def overlong : Reply := ⟨100, by decide, by decide, fun i => if i = 16 then 28 else 0, fun _ => 0⟩

theorem caller_valid : ValidPointers requestPage 0xeebfdf00 0xeebfdef0 callerRam where
  addrFits := by decide
  addrlenFits := by decide
  apart := .inr (by decide)
  addrUnshared := by
    unfold Unshared
    decide
  addrlenUnshared := by
    unfold Unshared
    decide

/-- An error makes `nsipc_recv` copy almost four gigabytes, and a long reply makes `nsipc_accept` copy more than the
caller has room for. -/
theorem reply_harmless_fails :
    (¬ ∀ (buf : Nsipcbuf) (reply : Reply) (ram : Ram) (s : Int) (req : NsreqRecv) (mem : Nat) (len : Int)
      (flags : UInt32),
      0 ≤ len → mem + len ≤ 4294967296 →
      RecvHarmless buf mem len ram (nsipcRecv buf req reply s mem len flags ⟨ram, []⟩)) ∧
    ¬ ∀ (buf : Nsipcbuf) (reply : Reply) (ram : Ram) (s : Int) (req : NsreqAccept) (ret : NsretAccept)
      (addr addrlen : Nat),
      ValidPointers buf addr addrlen ram →
      AcceptHarmless buf addr addrlen ram (nsipcAccept buf req ret reply s addr addrlen ⟨ram, []⟩) := by
  constructor
  · intro claim
    have harmless := claim requestPage refused callerRam 3 recvRequest 0xeebfd000 128 0 (by decide) (by decide)
    have success := (nsipcRecv_harmless (by decide) (by decide)).mp harmless
    exact absurd success (by decide)
  · intro claim
    have harmless :=
      claim requestPage overlong callerRam 3 acceptRequest acceptReturn 0xeebfdf00 0xeebfdef0 caller_valid
    have room := ((nsipcAccept_harmless caller_valid).mp harmless).1
    exact absurd room (by decide)

/-- A reply that reports 100 bytes, or a connection with an address of sixteen bytes. -/
theorem reply_harmless_accepted :
    (RecvHarmless requestPage 0xeebfd000 128 callerRam
        (nsipcRecv requestPage recvRequest accepted 3 0xeebfd000 128 0 ⟨callerRam, []⟩) ↔ 0 ≤ accepted.r) ∧
      (AcceptHarmless requestPage 0xeebfdf00 0xeebfdef0 callerRam
        (nsipcAccept requestPage acceptRequest acceptReturn accepted 3 0xeebfdf00 0xeebfdef0 ⟨callerRam, []⟩) ↔
        FitsCaller acceptReturn 0xeebfdf00 0xeebfdef0 callerRam
          (acceptAnswered requestPage acceptRequest accepted 3 callerRam).ram accepted.r) :=
  reply_harmless_iff requestPage accepted callerRam 3 recvRequest 0xeebfd000 128 0 (by decide) (by decide) acceptRequest
    acceptReturn 0xeebfdf00 0xeebfdef0 caller_valid

end Inputs

end JosSmp.Nsipc
