import Mathlib.Logic.Function.Iterate
import JosSmp.Library.Leads
import JosSmp.Construction.Machine.Cpu
import JosSmp.Proof.Entry.Descriptor

/-!
This file gives the rules for programs of the processor: one instruction, the loop that waits for the keyboard
controller, and the load of a segment register.
-/

namespace JosSmp.Machine
open Library Mmu

variable {program : List (Bool × Instr)} {c c' : Cpu} {goal : Cpu → Prop}

/-- An instruction that has a result leads to where its result leads. -/
theorem Cpu.leads_step {big : Bool} {instr : Instr} (here : program[c.ip]? = some (big, instr))
    (mode : (c.seg .cs).big = big) (exec : instr.exec c.fetched = some c')
    (later : Leads (Cpu.step program) goal c') : Leads (Cpu.step program) goal c := by
  have once : steps (Cpu.step program) 1 c = some c' := by
    rw [steps, Cpu.step, here]
    dsimp only
    rw [if_pos mode, exec]
    rfl
  exact .after once later

section Registers

/-- A byte that is moved to `%al` is read back. -/
theorem toUInt8_movb (eax : UInt32) (v : UInt8) : ((eax &&& 0xFFFFFF00) ||| v.toUInt32).toUInt8 = v := by
  apply UInt8.toNat_inj.mp
  have small := v.toNat_lt
  rw [UInt32.toNat_toUInt8, UInt32.toNat_or, UInt32.toNat_and, UInt8.toNat_toUInt32, Nat.or_mod_two_pow (n := 8),
    Nat.and_mod_two_pow (n := 8), show (0xFFFFFF00 : UInt32).toNat % 2 ^ 8 = 0 from rfl, Nat.and_zero, Nat.zero_or]
  omega

/-- A word that is moved to `%ax` is read back. -/
theorem toUInt16_movw (eax : UInt32) (v : UInt16) : ((eax &&& 0xFFFF0000) ||| v.toUInt32).toUInt16 = v := by
  apply UInt16.toNat_inj.mp
  have small := v.toNat_lt
  rw [UInt32.toNat_toUInt16, UInt32.toNat_or, UInt32.toNat_and, UInt16.toNat_toUInt32, Nat.or_mod_two_pow (n := 16),
    Nat.and_mod_two_pow (n := 16), show (0xFFFF0000 : UInt32).toNat % 2 ^ 16 = 0 from rfl, Nat.and_zero, Nat.zero_or]
  omega

theorem toUInt16_xorw (eax : UInt32) : (eax &&& 0xFFFF0000).toUInt16 = 0 := by
  apply UInt16.toNat_inj.mp
  rw [UInt32.toNat_toUInt16, UInt32.toNat_and, Nat.and_mod_two_pow (n := 16),
    show (0xFFFF0000 : UInt32).toNat % 2 ^ 16 = 0 from rfl, Nat.and_zero]
  rfl

end Registers

section Controller

variable {k : Controller}

theorem Controller.tick_idle (idle : k.busy = 0) : k.tick = k := by
  obtain ⟨busy, full, free, later, taken, pending, outputPort, nextPort⟩ := k
  obtain rfl : busy = 0 := idle
  rfl

/-- The controller takes the command to write its output port. -/
theorem Controller.take_command (idle : k.busy = 0) :
    k.take 0x64 0xD1 =
      some { k with busy := k.later k.taken, taken := k.taken + 1, pending := true, outputPort := k.nextPort } := by
  rw [take, if_neg (not_not.mpr idle), if_pos ⟨rfl, rfl⟩]

/-- The controller takes the byte for its output port. -/
theorem Controller.take_output (idle : k.busy = 0) (pending : k.pending) {v : UInt8} (running : v &&& 0x1 ≠ 0) :
    k.take 0x60 v =
      some { k with
        busy := k.later k.taken
        taken := k.taken + 1
        pending := false
        outputPort := k.nextPort
        nextPort := v } := by
  rw [take, if_neg (not_not.mpr idle), if_neg (fun both => absurd both.1 (by decide)), if_pos ⟨rfl, pending, running⟩]

/-- The controller opens the address line 20 when it has taken its last byte, or has opened it. -/
def Controller.Opens (k : Controller) : Prop := k.nextPort.toBitVec.getLsbD 1

/-- The address line 20 is open, and stays so. -/
def Controller.Opened (k : Controller) : Prop := k.busy = 0 ∧ k.Opens

theorem Controller.Opened.a20 (opened : k.Opened) : k.a20 := by
  rw [Controller.a20, if_pos opened.1]
  exact opened.2

theorem Controller.Opened.tick (opened : k.Opened) : k.tick.Opened := by rwa [Controller.tick_idle opened.1]

/-- The time that the controller takes for its last byte passes. -/
theorem Controller.Opens.iterate (opens : k.Opens) {n : Nat} (enough : k.busy ≤ n) : (Controller.tick^[n] k).Opened := by
  have ticks (n : Nat) : Controller.tick^[n] k = { k with busy := k.busy - n } := by
    induction n with
    | zero => rfl
    | succ n ih => rw [Function.iterate_succ_apply', ih]; rfl
  rw [ticks]
  exact ⟨Nat.sub_eq_zero_of_le enough, opens⟩

end Controller

theorem Cpu.exec_testb {v mask : UInt8} {zero : Bool} (al : c.eax.toUInt8 = v) (test : (v &&& mask == 0) = zero) :
    Instr.exec (.testb mask) c = some { c with zero } := by
  rw [Instr.exec, al, test]

theorem Cpu.exec_outb {port : Nat} {v : UInt8} {k : Controller} (al : c.eax.toUInt8 = v)
    (takes : c.controller.take port v = some k) : Instr.exec (.outb port) c = some { c with controller := k } := by
  rw [Instr.exec, al, takes]
  rfl

/-- One pass of the loop that waits for the keyboard controller: it goes on behind the loop if the controller is not
busy when its status is read. -/
theorem Cpu.leads_pass {big : Bool} {i : Nat} (read : program[i]? = some (big, .inb 0x64))
    (test : program[i + 1]? = some (big, .testb 0x2)) (back : program[i + 2]? = some (big, .jnz i))
    (place : c.ip = i) (mode : (c.seg .cs).big = big) {zero : Bool}
    (found : (c.controller.tick.status &&& 0x2 == 0) = zero)
    (later : ∀ eax, Leads (Cpu.step program) goal
      { c with eax, zero, ip := if zero then i + 3 else i, controller := c.controller.tick.tick.tick }) :
    Leads (Cpu.step program) goal c := by
  subst place
  refine leads_step read mode (by rw [Instr.exec, if_pos rfl]) ?_
  refine leads_step test mode (exec_testb (toUInt8_movb _ _) found) ?_
  have exit := later ((c.eax &&& 0xFFFFFF00) ||| c.controller.tick.status.toUInt32)
  cases zero with
  | false => exact leads_step back mode rfl exit
  | true => exact leads_step back mode rfl exit

/-- The loop waits until the keyboard controller has taken its last byte. -/
theorem Cpu.leads_wait {big : Bool} {i : Nat} (read : program[i]? = some (big, .inb 0x64))
    (test : program[i + 1]? = some (big, .testb 0x2)) (back : program[i + 2]? = some (big, .jnz i))
    (place : c.ip = i) (mode : (c.seg .cs).big = big)
    (later : ∀ eax zero, Leads (Cpu.step program) goal
      { c with eax, zero, ip := i + 3, controller := { c.controller with busy := 0 } }) :
    Leads (Cpu.step program) goal c := by
  induction waiting : c.controller.busy using Nat.strongRecOn generalizing c with
  | _ busy ih =>
      subst waiting
      have passed : c.controller.tick.tick.tick = { c.controller with busy := c.controller.busy - 3 } := rfl
      by_cases free : c.controller.busy - 1 = 0
      · have found : (c.controller.tick.status &&& 0x2 == 0) = true := by
          rw [Controller.status, Controller.tick, if_pos free]
          exact beq_iff_eq.mpr c.controller.free.property
        have idle : c.controller.busy - 3 = 0 := by omega
        refine leads_pass read test back place mode found fun eax => ?_
        rw [passed, idle]
        exact later eax true
      · have found : (c.controller.tick.status &&& 0x2 == 0) = false := by
          rw [Controller.status, Controller.tick, if_neg free]
          exact beq_eq_false_iff_ne.mpr (c.controller.full _).property
        refine leads_pass read test back place mode found fun eax => ?_
        rw [passed]
        exact ih (c.controller.busy - 3) (by omega) rfl mode later rfl

/-- A byte that is moved to `%al` and written to a port. -/
theorem Cpu.leads_send {big : Bool} {port : Nat} {v : UInt8} {k : Controller}
    (move : program[c.ip]? = some (big, .movbAl v)) (write : program[c.ip + 1]? = some (big, .outb port))
    (mode : (c.seg .cs).big = big) (idle : c.controller.busy = 0) (takes : c.controller.take port v = some k)
    (later : ∀ eax, Leads (Cpu.step program) goal { c with eax, ip := c.ip + 2, controller := k }) :
    Leads (Cpu.step program) goal c := by
  have still : c.controller.tick.tick.take port v = some k := by
    rw [Controller.tick_idle idle, Controller.tick_idle idle, takes]
  refine leads_step move mode rfl ?_
  exact leads_step write mode (exec_outb (toUInt8_movb _ _) still) (later _)

/-- A word is stored at the addresses of its two bytes. -/
theorem Cpu.exec_movwMem {v : UInt16} {a la : UInt32} (reach : c.linearOf .ds a 2 = some la) :
    Instr.exec (.movwMem v a) c =
      some { c with
        memory := Function.update (Function.update c.memory (c.physical la) v.toUInt8) (c.physical (la + 1))
          (v >>> 8).toUInt8 } := by
  rw [Instr.exec, reach]
  rfl

section Segments

theorem Cpu.loadSegment_real (real : c.protectedMode = false) (s : Seg) (selector : UInt16) :
    c.loadSegment s selector =
      some (c.setSegment s { c.seg s with selector, base := 16 * selector.toUInt32 }) := by
  rw [loadSegment, real]
  rfl

/-- A segment register is loaded in real mode. -/
theorem Cpu.leads_real {big : Bool} {s : Seg} (here : program[c.ip]? = some (big, .movwSeg s))
    (mode : (c.seg .cs).big = big) (real : c.protectedMode = false)
    (later : Leads (Cpu.step program) goal (c.fetched.setSegment s
      { c.seg s with selector := c.eax.toUInt16, base := 16 * c.eax.toUInt16.toUInt32 })) :
    Leads (Cpu.step program) goal c :=
  leads_step here mode (loadSegment_real (c := c.fetched) real s c.eax.toUInt16) later

/-- The linear addresses below `stop` are physical ones: none of them has the bit 20, or its line is open. -/
def Controller.Direct (k : Controller) (stop : Nat) : Prop := stop ≤ 0x100000 ∨ k.Opened ∧ stop ≤ 4294967296

theorem Controller.Direct.tick {k : Controller} {stop : Nat} (direct : k.Direct stop) : k.tick.Direct stop := by
  obtain low | ⟨opened, space⟩ := direct
  · exact .inl low
  · exact .inr ⟨opened.tick, space⟩

theorem Controller.Direct.mono {k : Controller} {stop stop' : Nat} (direct : k.Direct stop) (less : stop' ≤ stop) :
    k.Direct stop' := by
  obtain low | ⟨opened, space⟩ := direct
  · exact .inl (Nat.le_trans less low)
  · exact .inr ⟨opened, Nat.le_trans less space⟩

theorem Cpu.physical_eq {stop : Nat} {la : UInt32} (direct : c.controller.Direct stop) (inside : la.toNat < stop) :
    c.physical la = la.toNat := by
  obtain low | ⟨opened, _⟩ := direct
  · have small : la.toNat < 2 ^ 20 := by omega
    have mask : (0xFFEFFFFF : UInt32).toNat % 2 ^ 20 = 2 ^ 20 - 1 := rfl
    have kept : (la &&& 0xFFEFFFFF).toNat = la.toNat := by
      rw [UInt32.toNat_and, ← Nat.mod_eq_of_lt (Nat.lt_of_le_of_lt Nat.and_le_left small), Nat.and_mod_two_pow, mask,
        Nat.and_two_pow_sub_one_eq_mod, Nat.mod_mod, Nat.mod_eq_of_lt small]
    rw [physical, kept, ite_self]
  · rw [physical, if_pos opened.a20]

/-- The processor reads its memory as it is. -/
theorem Cpu.bytes_eq {la : UInt32} {size : Nat} (direct : c.controller.Direct (la.toNat + size)) :
    c.bytes la size = readBlock c.memory la.toNat size := by
  apply List.map_congr_left
  intro i inside
  have below := List.mem_range.mp inside
  have space : la.toNat + size ≤ 4294967296 := direct.elim (fun low => by omega) And.right
  have place : (la + UInt32.ofNat i).toNat = la.toNat + i := by
    rw [UInt32.toNat_add, UInt32.toNat_ofNat']
    omega
  rw [physical_eq direct (by omega), place]

/-- A table of the null descriptor, a code segment and a data segment that both start at `base`. -/
def tableBytes (base : UInt32) : List UInt8 :=
  segNull ++ segAsm (staX ||| staR) base 0xffffffff ++ segAsm staW base 0xffffffff

/-- The access bytes of the two segments, of which the lowest bit says that the segment is in use. -/
def codeAccess (used : Bool) : UInt8 := if used then 0x9B else 0x9A
def dataAccess (used : Bool) : UInt8 := if used then 0x93 else 0x92

/-- The memory when the processor has marked the segments of a table that it uses. -/
def marked (table : Nat) (code data : Bool) (memory : Memory) : Memory :=
  Function.update (Function.update memory (table + 13) (codeAccess code)) (table + 21) (dataAccess data)

/-- The table in that memory. -/
def markedBytes (base : UInt32) (code data : Bool) : List UInt8 :=
  ((tableBytes base).set 13 (codeAccess code)).set 21 (dataAccess data)

theorem marked_held {table : Nat} {base : UInt32} {memory : Memory} (held : BlockAt memory table (tableBytes base))
    (code data : Bool) : BlockAt (marked table code data memory) table (markedBytes base code data) :=
  (held.update 13 (codeAccess code)).update 21 (dataAccess data)

/-- No segment is in use yet. -/
theorem marked_unused {table : Nat} {base : UInt32} {memory : Memory}
    (held : BlockAt memory table (tableBytes base)) : marked table false false memory = memory := by
  have size : (tableBytes base).length = 24 := rfl
  have codeByte : memory (table + 13) = codeAccess false := held.get (i := 13) (by omega)
  have dataByte : memory (table + 21) = dataAccess false := held.get (i := 21) (by omega)
  rw [marked, ← codeByte, Function.update_eq_self, ← dataByte, Function.update_eq_self]

theorem marked_code (table : Nat) (code data : Bool) (memory : Memory) :
    Function.update (marked table code data memory) (table + 13) 0x9B = marked table true data memory := by
  rw [marked, marked, Function.update_comm (by omega), Function.update_idem]
  rfl

theorem marked_data (table : Nat) (code data : Bool) (memory : Memory) :
    Function.update (marked table code data memory) (table + 21) 0x93 = marked table code true memory := by
  rw [marked, marked, Function.update_idem]
  rfl

/-- The processor uses such a table, of which it has used some segments. -/
structure Cpu.Uses (c : Cpu) (base : UInt32) (memory : Memory) (code data : Bool) : Prop where
  protect : c.protectedMode
  limit : c.gdtLimit = 0x17
  direct : c.controller.Direct (c.gdtBase.toNat + 24)
  held : BlockAt memory c.gdtBase.toNat (tableBytes base)
  kept : c.memory = marked c.gdtBase.toNat code data memory

/-- The whole address space from `base` on, for code of 32 bits. -/
def wholeFrom (selector : UInt16) (base : UInt32) : SegmentRegister := ⟨selector, base, 0xFFFFFFFF, true⟩

namespace Cpu.Uses

variable {base : UInt32} {memory : Memory} {code data : Bool}

theorem fetched (uses : c.Uses base memory code data) : c.fetched.Uses base memory code data :=
  ⟨uses.protect, uses.limit, uses.direct.tick, uses.held, uses.kept⟩

/-- A selector of the table loads a segment that starts at `base`, and marks it as used. -/
theorem load (uses : c.Uses base memory code data) (type : UInt32) (small : type < 16) {s : Seg} {selector : UInt16}
    {access : UInt8} (inside : selector.toNat + 8 ≤ 24) (index : selector &&& 0x7 = 0 ∧ selector ≠ 0)
    (named : ((markedBytes base code data).drop selector.toNat).take 8 =
      (segAsm type base 0xffffffff).set 5 access)
    (admits : Admits s ((segAsm type base 0xffffffff).set 5 access)) :
    c.loadSegment s selector =
      some ({ c with
        memory := Function.update c.memory (c.gdtBase.toNat + (selector.toNat + 5)) (access ||| 0x1) }.setSegment s
          (wholeFrom selector base)) := by
  have flags : ((segAsm type base 0xffffffff).set 5 access).getD 6 0 = 0xCF := rfl
  have within : selector.toNat + 7 ≤ c.gdtLimit := by rw [uses.limit]; omega
  have space : c.gdtBase.toNat + 24 ≤ 4294967296 := uses.direct.elim (fun low => by omega) And.right
  have place : (c.gdtBase + selector.toUInt32).toNat = c.gdtBase.toNat + selector.toNat := by
    rw [UInt32.toNat_add, UInt16.toNat_toUInt32]
    omega
  have behind : (c.gdtBase + selector.toUInt32 + 5).toNat = c.gdtBase.toNat + (selector.toNat + 5) := by
    have five : (5 : UInt32).toNat = 5 := rfl
    rw [UInt32.toNat_add, place, five]
    omega
  have read : readBlock c.memory (c.gdtBase.toNat + selector.toNat) 8 = (segAsm type base 0xffffffff).set 5 access := by
    rw [uses.kept, ← named]
    exact (marked_held uses.held code data).slice inside
  have descriptor : c.bytes (c.gdtBase + selector.toUInt32) 8 = (segAsm type base 0xffffffff).set 5 access := by
    rw [bytes_eq (uses.direct.mono (by omega)), place, read]
  have held : BlockAt c.memory (c.gdtBase.toNat + selector.toNat) ((segAsm type base 0xffffffff).set 5 access) := read
  have old : c.memory (c.gdtBase.toNat + (selector.toNat + 5)) = access := by
    rw [← Nat.add_assoc]
    exact held.get (show 5 < 8 by decide)
  have address : c.physical (c.gdtBase + selector.toUInt32 + 5) = c.gdtBase.toNat + (selector.toNat + 5) := by
    rw [physical_eq uses.direct (by omega), behind]
  have whole : segmentBase ((segAsm type base 0xffffffff).set 5 access) = base ∧
      segmentLimit ((segAsm type base 0xffffffff).set 5 access) = 0xFFFFFFFF :=
    ⟨segmentBase_segAsm small, segmentLimit_segAsm small⟩
  rw [loadSegment, if_pos uses.protect]
  dsimp only
  rw [descriptor, if_pos ⟨index.1, index.2, within, admits⟩, address, old, whole.1, whole.2, flags]
  rfl

theorem load_code (uses : c.Uses base memory code data) :
    c.loadSegment .cs 0x8 =
      some ({ c with memory := marked c.gdtBase.toNat true data memory }.setSegment .cs (wholeFrom 0x8 base)) := by
  have admits : Admits .cs ((segAsm (staX ||| staR) base 0xffffffff).set 5 (codeAccess code)) := by
    have byte : ((segAsm (staX ||| staR) base 0xffffffff).set 5 (codeAccess code)).getD 5 0 = codeAccess code := rfl
    rw [Admits, if_pos rfl, byte]
    cases code <;> rfl
  have set : codeAccess code ||| 0x1 = 0x9B := by cases code <;> rfl
  rw [uses.load (staX ||| staR) (by decide) (by decide) (by decide) rfl admits, set, uses.kept]
  exact congrArg (fun memory => some (Cpu.setSegment { c with memory } .cs _)) (marked_code ..)

theorem load_data (uses : c.Uses base memory code data) {s : Seg} (other : s ≠ .cs) :
    c.loadSegment s 0x10 =
      some ({ c with memory := marked c.gdtBase.toNat code true memory }.setSegment s (wholeFrom 0x10 base)) := by
  have admits : Admits s ((segAsm staW base 0xffffffff).set 5 (dataAccess data)) := by
    have byte : ((segAsm staW base 0xffffffff).set 5 (dataAccess data)).getD 5 0 = dataAccess data := rfl
    rw [Admits, if_neg other, byte]
    cases data <;> rfl
  have set : dataAccess data ||| 0x1 = 0x93 := by cases data <;> rfl
  rw [uses.load staW (by decide) (by decide) (by decide) rfl admits, set, uses.kept]
  exact congrArg (fun memory => some (Cpu.setSegment { c with memory } s _)) (marked_data ..)

/-- A data segment register is loaded with the data segment of the table. -/
theorem leads_data {big : Bool} {s : Seg} (uses : c.Uses base memory code data)
    (here : program[c.ip]? = some (big, .movwSeg s)) (mode : (c.seg .cs).big = big)
    (selector : c.eax.toUInt16 = 0x10) (other : s ≠ .cs)
    (later : Leads (Cpu.step program) goal
      ({ c.fetched with memory := marked c.gdtBase.toNat code true memory }.setSegment s (wholeFrom 0x10 base))) :
    Leads (Cpu.step program) goal c :=
  leads_step here mode ((congrArg (c.fetched.loadSegment s) selector).trans (uses.fetched.load_data other)) later

/-- A far jump loads the code segment of the table. -/
theorem leads_ljmp {big : Bool} {target : Nat} (uses : c.Uses base memory code data)
    (here : program[c.ip]? = some (big, .ljmp 0x8 target)) (mode : (c.seg .cs).big = big)
    (later : Leads (Cpu.step program) goal
      { Cpu.setSegment { c.fetched with memory := marked c.gdtBase.toNat true data memory } .cs (wholeFrom 0x8 base) with
        ip := target }) :
    Leads (Cpu.step program) goal c :=
  leads_step here mode ((congrArg (Option.map _) uses.fetched.load_code).trans rfl) later

end Cpu.Uses

/-- The four bytes of a word are its parts. -/
theorem long_part (v : UInt32) : long v = [part v 0, part v 8, part v 16, part v 24].map UInt8.ofBitVec := by
  simp only [long, word, List.cons_append, List.nil_append, List.map_cons, List.map_nil, List.cons.injEq, and_true]
  refine ⟨?_, ?_, ?_, ?_⟩ <;>
  · apply UInt8.toNat_inj.mp
    rw [part_toNat]
    simp only [UInt32.toNat_toUInt8, UInt32.toNat_shiftRight, UInt32.reduceToNat, Nat.reduceMod, Nat.reducePow,
      Nat.shiftRight_eq_div_pow] <;> omega

theorem ofBytes_long (v : UInt32) : ofBytes (long v) = v := by
  have join : part v 24 ++ part v 16 ++ part v 8 ++ part v 0 = v.toBitVec := by
    rw [part, append_part v 16, append_part v 8, append_part v 0]
    exact BitVec.extractLsb'_eq_self
  rw [long_part]
  exact congrArg UInt32.ofBitVec join

/-- The instruction reads its operand from memory. -/
theorem Cpu.exec_lgdt (table : UInt32) {a la : UInt32} (direct : c.controller.Direct (la.toNat + 6))
    (place : c.linearOf .ds a 6 = some la) (operand : BlockAt c.memory la.toNat (word 0x17 ++ long table)) :
    Instr.exec (.lgdt a) c =
      some { c with gdtLimit := 0x17, gdtBase := if (c.seg .cs).big then table else table &&& 0xFFFFFF } := by
  have space : la.toNat + 6 ≤ 4294967296 := direct.elim (fun low => by omega) And.right
  have next : (la + 2).toNat = la.toNat + 2 := by
    simp only [UInt32.toNat_add, UInt32.reduceToNat]
    omega
  have limit : c.bytes la 2 = [0x17, 0] := by
    rw [bytes_eq (direct.mono (by omega))]
    exact operand.slice (show 0 + 2 ≤ 6 by decide)
  have base : c.bytes (la + 2) 4 = long table := by
    rw [bytes_eq (direct.mono (by omega)), next]
    exact operand.slice (show 2 + 4 ≤ 6 by decide)
  simp only [Instr.exec, place, Option.bind_eq_bind, Option.bind_some, limit, base, ofBytes_long]
  rfl

end Segments

end JosSmp.Machine
