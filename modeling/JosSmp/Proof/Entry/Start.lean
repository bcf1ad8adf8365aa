import JosSmp.Construction.Kern.Start
import JosSmp.Proof.Boot.Start
import JosSmp.Proof.Entry.Relocate

/-!
This file proves that `kern/entry.S` calls `i386_init` at the addresses that the kernel is linked for.
-/

namespace JosSmp.Entry
open Library Machine Mmu Boot

variable {c : Cpu} {bootstacktop mygdt : UInt32} {memory : Memory}

/-- The memory when the program has told the firmware of a warm boot. -/
def warm (memory : Memory) : Memory := Function.update (Function.update memory 0x472 0x34) 0x473 0x12

/-- How `i386_init` is called: the segments that it uses move an address of the kernel to where the loader has put it,
the frame pointer ends a backtrace, and the stack is the one of the kernel. -/
structure Entered (memory : Memory) (mygdt bootstacktop : UInt32) (c : Cpu) : Prop where
  kept : c.memory = marked (reloc mygdt).toNat true true (warm memory)
  quiet : c.interrupts = false
  forward : c.down = false
  a20 : c.controller.a20
  cs : c.seg .cs = wholeFrom 0x8 (-kernbase)
  data : ∀ s ∈ [Seg.ds, .es, .ss], c.seg s = wholeFrom 0x10 (-kernbase)
  flat : ∀ s ∈ [Seg.fs, .gs], c.seg s = wholeFrom 0x10 0
  ebp : c.ebp = 0
  esp : c.esp = bootstacktop

/-- The program runs in the flat segments that `bootmain` runs in. -/
theorem leads_entered {start : UInt32} (called : Called memory start c) (place : c.ip = 0)
    (taken : c.controller.busy = 0) (space : (reloc mygdt).toNat + 30 ≤ 4294967296)
    (apart : 0x474 ≤ (reloc mygdt).toNat)
    (held : BlockAt memory (reloc mygdt).toNat (Entry.mygdt ++ mygdtdescBytes mygdt)) :
    Leads (Cpu.step (entryS (mygdt + 24) bootstacktop)) (fun c => Entered memory mygdt bootstacktop c ∧ c.ip = 9)
      c := by
  have inData := called.flat .ds
  obtain ⟨rfl, quiet, forward, protect, opens, cs, data, _⟩ := called
  obtain ⟨eax, ebp, esp, zero, interrupts, down, seg, cr0, gdtBase, gdtLimit, ip, memory, controller⟩ := c
  obtain rfl : ip = 0 := place
  have big : (seg .cs).big = true := congrArg SegmentRegister.big cs
  have opened : controller.Opened := ⟨taken, opens⟩
  have direct {k : Controller} (opened : k.Opened) : k.Direct 4294967296 := .inr ⟨opened, Nat.le_refl _⟩
  let warmed (seg : Seg → SegmentRegister) (eax gdtBase : UInt32) (gdtLimit ip : Nat) (code data : Bool)
      (k : Controller) : Cpu :=
    ⟨eax, ebp, esp, zero, interrupts, down, seg, cr0, gdtBase, gdtLimit, ip,
      marked (reloc mygdt).toNat code data (warm memory), k⟩
  have place : (reloc mygdt + 24).toNat = (reloc mygdt).toNat + 24 := by
    simp only [UInt32.toNat_add, UInt32.reduceToNat]
    omega
  have behind : reloc (mygdt + 24) = reloc mygdt + 24 := by
    rw [reloc, reloc, UInt32.sub_eq_add_neg, UInt32.sub_eq_add_neg, UInt32.add_assoc, UInt32.add_comm 24,
      ← UInt32.add_assoc]
  have kept : BlockAt (warm memory) (reloc mygdt).toNat (Entry.mygdt ++ mygdtdescBytes mygdt) := by
    refine held.congr fun a after _ => ?_
    rw [warm, Function.update_of_ne (by omega), Function.update_of_ne (by omega)]
  obtain ⟨segments, operand⟩ := blockAt_append.mp kept
  have unused : marked (reloc mygdt).toNat false false (warm memory) = warm memory := marked_unused segments
  have store : Instr.exec (.movwMem 0x1234 0x472)
      ⟨eax, ebp, esp, zero, interrupts, down, seg, cr0, gdtBase, gdtLimit, 1, memory, controller.tick⟩ =
        some (warmed seg eax gdtBase gdtLimit 1 false false controller.tick) := by
    have reach : Cpu.linearOf
        ⟨eax, ebp, esp, zero, interrupts, down, seg, cr0, gdtBase, gdtLimit, 1, memory, controller.tick⟩ .ds 0x472 2 =
          some 0x472 := inData 0x472 (by decide)
    rw [Cpu.exec_movwMem reach, Cpu.physical_eq (direct opened.tick) (UInt32.toNat_lt _),
      Cpu.physical_eq (direct opened.tick) (UInt32.toNat_lt _)]
    dsimp only [warmed]
    rw [unused]
    rfl
  have reach : (warmed seg eax gdtBase gdtLimit 2 false false controller.tick.tick).linearOf .ds (reloc (mygdt + 24)) 6 =
      some (reloc mygdt + 24) := by
    rw [behind]
    exact inData (reloc mygdt + 24) (by omega)
  have load := Cpu.exec_lgdt (c := warmed seg eax gdtBase gdtLimit 2 false false controller.tick.tick) (reloc mygdt)
    ((direct opened.tick.tick).mono (by omega)) reach (by
      rw [place]
      dsimp only [warmed]
      rw [unused]
      exact operand)
  have uses (seg : Seg → SegmentRegister) (eax : UInt32) (ip : Nat) (code data : Bool) {k : Controller}
      (opened : k.Opened) :
      (warmed seg eax (reloc mygdt) 0x17 ip code data k).Uses (-kernbase) (warm memory) code data :=
    ⟨protect, rfl, (direct opened).mono (by dsimp only [warmed]; omega), segments, rfl⟩
  have third : controller.tick.tick.tick.Opened := opened.tick.tick.tick
  have sixth : controller.tick.tick.tick.tick.tick.tick.Opened := third.tick.tick.tick
  refine Cpu.leads_step rfl big store ?_
  refine Cpu.leads_step rfl big load ?_
  refine Cpu.leads_step rfl big rfl ?_
  rw [show (warmed seg eax gdtBase gdtLimit 2 false false controller.tick.tick).seg .cs = seg .cs from rfl, big]
  refine (uses _ _ _ _ _ third).leads_data rfl big rfl (by decide) ?_
  refine (uses _ _ _ _ _ third.tick).leads_data rfl big rfl (by decide) ?_
  refine (uses _ _ _ _ _ third.tick.tick).leads_data rfl big rfl (by decide) ?_
  refine (uses _ _ _ _ _ sixth).leads_ljmp rfl big ?_
  refine Cpu.leads_step rfl rfl rfl ?_
  refine Cpu.leads_step rfl rfl rfl ?_
  refine .now ⟨⟨rfl, quiet, forward, sixth.tick.tick.tick.a20, rfl, fun s listed => ?_, fun s listed => ?_, rfl, rfl⟩,
    rfl⟩
  · simp only [List.mem_cons, List.not_mem_nil, or_false] at listed
    obtain rfl | rfl | rfl := listed <;> rfl
  · simp only [List.mem_cons, List.not_mem_nil, or_false] at listed
    obtain rfl | rfl := listed <;> exact data _ (by decide)

/-- In the segments that `i386_init` is called with, an address of the kernel lies where the loader has put it. -/
theorem Entered.relocates (entered : Entered memory mygdt bootstacktop c) {s : Seg}
    (listed : s ∈ [Seg.cs, .ds, .es, .ss]) (va : UInt32) {size : Nat} (inside : va.toNat + size ≤ 4294967296) :
    c.linearOf s va size = some (reloc va) := by
  have whole : (c.seg s).base = -kernbase ∧ (c.seg s).limit = 0xFFFFFFFF := by
    obtain code | data := List.mem_cons.mp listed
    · rw [code, entered.cs]
      exact ⟨rfl, rfl⟩
    · rw [entered.data s data]
      exact ⟨rfl, rfl⟩
  rw [Cpu.linearOf, whole.1, whole.2, reloc, UInt32.sub_eq_add_neg, UInt32.add_comm]
  exact if_pos inside

/-- The address line 20 keeps the low bits of a linked address. -/
theorem Entered.physical (entered : Entered memory mygdt bootstacktop c) {va : UInt32} (high : va >>> 24 = 0xF0) :
    c.physical (reloc va) = va.toNat % 0x1000000 := by
  rw [Cpu.physical, if_pos entered.a20, reloc_eq high]
  exact toNat_mask va 24 rfl

/-- From the state in which `bootmain` runs, when the keyboard controller has taken its last byte, and with the tables
of the kernel in memory, the program calls `i386_init`: in segments by which an address of the kernel means the place
where the loader has put it, with a frame pointer that ends a backtrace, with the stack of the kernel, and with the
memory as it was but for the sign of a warm boot and the marks of the segments that are used. -/
theorem entryS_calls (c : Cpu) (memory : Memory) (start bootstacktop mygdt : UInt32) (called : Called memory start c)
    (place : c.ip = 0) (taken : c.controller.busy = 0) (space : (reloc mygdt).toNat + 30 ≤ 4294967296)
    (apart : 0x474 ≤ (reloc mygdt).toNat)
    (held : BlockAt memory (reloc mygdt).toNat (Entry.mygdt ++ mygdtdescBytes mygdt)) :
    Leads (Cpu.step (entryS (mygdt + 24) bootstacktop))
      (fun c' => (entryS (mygdt + 24) bootstacktop)[c'.ip]? = some (true, .call) ∧
        Entered memory mygdt bootstacktop c' ∧
        ∀ s ∈ [Seg.cs, .ds, .es, .ss], ∀ (va : UInt32) (size : Nat), va.toNat + size ≤ 4294967296 →
          va >>> 24 = 0xF0 → ∃ la, c'.linearOf s va size = some la ∧ c'.physical la = va.toNat % 0x1000000) c := by
  refine (leads_entered called place taken space apart held).trans fun c' ⟨entered, last⟩ => ?_
  refine .now ⟨by rw [last]; rfl, entered, fun s listed va size inside high => ?_⟩
  exact ⟨reloc va, entered.relocates listed va inside, entered.physical high⟩

/-- The tables of a kernel that is linked at `0xF0100000`. -/
theorem entryS_calls_tables :
    let memory : Memory := writeBlock (fun _ => 0) 0x10F000 (Entry.mygdt ++ mygdtdescBytes 0xF010F000)
    let flat : Seg → SegmentRegister := fun s => if s = .cs then wholeFrom 0x8 0 else wholeFrom 0x10 0
    let c : Cpu := ⟨0, 0, 0x7C00, false, false, false, flat, 0x11, 0x7C4C, 0x17, 0, memory,
      ⟨0, fun _ => ⟨0x02, by decide⟩, ⟨0, by decide⟩, fun _ => 0, 0, false, 0xDD, 0xDF⟩⟩
    Leads (Cpu.step (entryS (0xF010F000 + 24) 0xF010F000))
      (fun c' => (entryS (0xF010F000 + 24) 0xF010F000)[c'.ip]? = some (true, .call) ∧
        Entered memory 0xF010F000 0xF010F000 c' ∧
        ∀ s ∈ [Seg.cs, .ds, .es, .ss], ∀ (va : UInt32) (size : Nat), va.toNat + size ≤ 4294967296 →
          va >>> 24 = 0xF0 → ∃ la, c'.linearOf s va size = some la ∧ c'.physical la = va.toNat % 0x1000000) c := by
  intro memory flat c
  have data (s : Seg) (other : s ≠ .cs) : flat s = wholeFrom 0x10 0 := if_neg other
  have opens : c.controller.Opens := show (0xDF : UInt8).toBitVec.getLsbD 1 = true by decide
  exact entryS_calls c memory 0x7C00 0xF010F000 0xF010F000
    ⟨rfl, rfl, rfl, by decide, opens, rfl, data, rfl⟩ rfl rfl (by decide) (by decide) (readBlock_writeBlock _ _ _)

end JosSmp.Entry
