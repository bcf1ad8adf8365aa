import JosSmp.Construction.Lib.Memmove

/-!
This file models the calls of `lib/nsipc.c` that copy data into a request to the network server, or out of its reply.
The server, and the structures that a request and a reply consist of, are parameters.
-/

namespace JosSmp.Nsipc
open Machine

def pgsize : Nat := 4096

/-- The address at which the page of a reply is mapped. -/
def reqva : Nat := 0x0ffff000

/-- The page `nsipcbuf`, which is shared with the server. -/
structure Nsipcbuf where
  start : Nat
  aligned : start % pgsize = 0
  fits : start + pgsize ≤ 4294967296
  apart : start ≠ reqva

/-- The offset of a field of four bytes in a page. -/
structure Field where
  offset : Nat
  inside : offset + 4 ≤ pgsize

structure NsreqAccept where
  reqS : Field

/-- The field `ret_addr` may have any size. -/
structure NsretAccept where
  retAddr : Nat
  inside : retAddr ≤ pgsize
  retAddrlen : Field

structure NsreqRecv where
  reqS : Field
  reqLen : Field
  reqFlags : Field

/-- The request of a call that sends an address: the field `req_name` starts in the page and may have any size. -/
structure NsreqName where
  reqS : Field
  reqName : Nat
  inside : reqName < pgsize
  reqNamelen : Field

abbrev NsreqBind := NsreqName

abbrev NsreqConnect := NsreqName

/-- The field `req_dataptr` starts in the page and may have any size. -/
structure NsreqSend where
  reqS : Field
  reqDataptr : Nat
  inside : reqDataptr < pgsize
  reqSize : Field
  reqFlags : Field

/-- What the server answers: any `int`, and any contents of the reply page and of the request page. -/
structure Reply where
  r : Int
  lower : -2147483648 ≤ r
  upper : r < 2147483648
  page : Nat → UInt8
  request : Nat → UInt8

/-- An assignment writes four bytes, and a call of `memmove` writes `n` bytes from `dst` on. -/
inductive Write where
  | assigned (a : Nat)
  | moved (dst n : Nat)

/-- The memory of the caller, and what the code has written, last write first. -/
structure Client where
  ram : Ram
  writes : List Write

def Client.assign (a : Nat) (v : UInt32) (c : Client) : Client := ⟨c.ram.store32 a v, .assigned a :: c.writes⟩

def Client.memmove (dst src n : Nat) (c : Client) : Client :=
  ⟨(Cstring.memmove dst src n c.ram).2, .moved dst n :: c.writes⟩

def InPage (start a : Nat) : Prop := start ≤ a ∧ a < start + pgsize

instance (start a : Nat) : Decidable (InPage start a) := inferInstanceAs (Decidable (_ ∧ _))

/-- A call of the server changes the two shared pages only. -/
def nsipc (buf : Nsipcbuf) (reply : Reply) (c : Client) : Int × Client :=
  (reply.r,
    { c with ram.byte a :=
        if InPage reqva a then reply.page (a - reqva)
        else if InPage buf.start a then reply.request (a - buf.start)
        else c.ram.byte a })

def nsipcAccept (buf : Nsipcbuf) (req : NsreqAccept) (ret : NsretAccept) (reply : Reply) (s : Int)
    (addr addrlen : Nat) (c : Client) : Int × Client :=
  let c := c.assign (buf.start + req.reqS.offset) (UInt32.ofInt s)
  let (r, c) := nsipc buf reply c
  let c := c.memmove addr (reqva + ret.retAddr) (c.ram.load32 (reqva + ret.retAddrlen.offset)).toNat
  let c := c.assign addrlen (c.ram.load32 (reqva + ret.retAddrlen.offset))
  (r, c)

/-- A failed assertion panics. -/
def nsipcRecv (buf : Nsipcbuf) (req : NsreqRecv) (reply : Reply) (s : Int) (mem : Nat) (len : Int)
    (flags : UInt32) (c : Client) : Option (Int × Client) :=
  let c := c.assign (buf.start + req.reqS.offset) (UInt32.ofInt s)
  let c := c.assign (buf.start + req.reqLen.offset) (UInt32.ofInt len)
  let c := c.assign (buf.start + req.reqFlags.offset) flags
  let (r, c) := nsipc buf reply c
  if r < 1600 ∧ r ≤ len then some (r, c.memmove mem reqva (r % 4294967296).toNat) else none

/-- The calls that send an address differ only in the type of their request. -/
def sendName (buf : Nsipcbuf) (req : NsreqName) (reply : Reply) (s : Int) (name : Nat) (namelen : UInt32)
    (c : Client) : Int × Client :=
  let c := c.assign (buf.start + req.reqS.offset) (UInt32.ofInt s)
  let c := c.memmove (buf.start + req.reqName) name namelen.toNat
  let c := c.assign (buf.start + req.reqNamelen.offset) namelen
  nsipc buf reply c

def nsipcBind (buf : Nsipcbuf) (req : NsreqBind) (reply : Reply) (s : Int) (name : Nat) (namelen : UInt32)
    (c : Client) : Int × Client := sendName buf req reply s name namelen c

def nsipcConnect (buf : Nsipcbuf) (req : NsreqConnect) (reply : Reply) (s : Int) (name : Nat) (namelen : UInt32)
    (c : Client) : Int × Client := sendName buf req reply s name namelen c

def nsipcSend (buf : Nsipcbuf) (req : NsreqSend) (reply : Reply) (s : Int) (dataptr : Nat) (size : Int)
    (flags : UInt32) (c : Client) : Option (Int × Client) :=
  let c := c.assign (buf.start + req.reqS.offset) (UInt32.ofInt s)
  if size < 1600 then
    let c := c.memmove (buf.start + req.reqDataptr) dataptr (size % 4294967296).toNat
    let c := c.assign (buf.start + req.reqSize.offset) (UInt32.ofInt size)
    let c := c.assign (buf.start + req.reqFlags.offset) flags
    some (nsipc buf reply c)
  else none

end JosSmp.Nsipc
