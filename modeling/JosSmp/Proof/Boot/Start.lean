import JosSmp.Construction.Boot.Start
import JosSmp.Proof.Machine.Cpu

/-!
This file proves that `boot/boot.S` calls `bootmain` in protected mode, with flat segments and the address line 20.
-/

namespace JosSmp.Boot
open Library Machine Mmu

variable {c : Cpu} {start desc table : UInt32} {memory : Memory}

/-- What the program sets up before it waits for the keyboard controller. -/
structure Prepared (memory : Memory) (c : Cpu) : Prop where
  kept : c.memory = memory
  real : c.protectedMode = false
  small : (c.seg .cs).big = false
  base : (c.seg .ds).base = 0
  limit : 0xFFFF ≤ (c.seg .ds).limit.toNat
  quiet : c.interrupts = false
  forward : c.down = false

/-- The data segments of real mode start at zero. -/
theorem leads_prepared (place : c.ip = 0) (kept : c.memory = memory) (real : c.protectedMode = false)
    (small : (c.seg .cs).big = false) (limit : 0xFFFF ≤ (c.seg .ds).limit.toNat) :
    Leads (Cpu.step (bootS start desc)) (fun c => Prepared memory c ∧ c.ip = seta20First) c := by
  obtain ⟨eax, ebp, esp, zero, interrupts, down, seg, cr0, gdtBase, gdtLimit, ip, memory, controller⟩ := c
  obtain rfl : ip = 0 := place
  refine Cpu.leads_step rfl small rfl ?_
  refine Cpu.leads_step rfl small rfl ?_
  refine Cpu.leads_step rfl small rfl ?_
  refine Cpu.leads_real rfl small real ?_
  refine Cpu.leads_real rfl small real ?_
  refine Cpu.leads_real rfl small real ?_
  refine .now ⟨⟨kept, real, small, ?_, limit, rfl, rfl⟩, rfl⟩
  change 16 * (eax &&& 0xFFFF0000).toUInt16.toUInt32 = 0
  rw [toUInt16_xorw]
  rfl

/-- The keyboard controller is free for each of the two bytes that open the address line 20. The program does not wait
until the controller has taken the second one. -/
theorem leads_gate (prepared : Prepared memory c) (place : c.ip = seta20First) :
    Leads (Cpu.step (bootS start desc)) (fun c => Prepared memory c ∧ c.controller.Opens ∧ c.ip = 16) c := by
  refine Cpu.leads_wait rfl rfl rfl place prepared.small fun eax zero => ?_
  refine Cpu.leads_send rfl rfl prepared.small rfl (Controller.take_command rfl) fun eax => ?_
  refine Cpu.leads_wait (i := seta20Second) rfl rfl rfl rfl prepared.small fun eax zero => ?_
  refine Cpu.leads_send rfl rfl prepared.small rfl (Controller.take_output rfl rfl (by decide)) fun eax => ?_
  have opens : (0xdf : UInt8).toBitVec.getLsbD 1 = true := by decide
  exact .now ⟨⟨prepared.kept, prepared.real, prepared.small, prepared.base, prepared.limit, prepared.quiet,
    prepared.forward⟩, opens, rfl⟩

/-- The state in which the program jumps to its code of 32 bits. -/
structure Protected (memory : Memory) (table : UInt32) (c : Cpu) : Prop where
  uses : c.Uses 0 memory false false
  base : c.gdtBase = table
  low : table.toNat + 24 ≤ 0x100000
  small : (c.seg .cs).big = false
  quiet : c.interrupts = false
  forward : c.down = false
  opens : c.controller.Opens

/-- The table is loaded before the processor switches to protected mode. It has no address with the bit 20. -/
theorem leads_protected (prepared : Prepared memory c) (opens : c.controller.Opens) (place : c.ip = 16)
    (low : table.toNat + 30 ≤ 0x10000) (held : BlockAt memory table.toNat (gdt ++ gdtdescBytes table)) :
    Leads (Cpu.step (bootS start (table + 24))) (fun c => Protected memory table c ∧ c.ip = 20) c := by
  obtain ⟨eax, ebp, esp, zero, interrupts, down, seg, cr0, gdtBase, gdtLimit, ip, memory, controller⟩ := c
  obtain ⟨rfl, real, small, base, limit, quiet, forward⟩ := prepared
  obtain rfl : ip = 16 := place
  dsimp only at opens small base limit quiet forward
  have place : (table + 24).toNat = table.toNat + 24 := by
    simp only [UInt32.toNat_add, UInt32.reduceToNat]
    omega
  have operand : BlockAt memory (table + 24).toNat (word 0x17 ++ long table) := by
    rw [place]
    exact (blockAt_append.mp held).2
  have mask : table &&& 0xFFFFFF = table := by
    apply UInt32.toNat_inj.mp
    rw [toNat_mask table 24 rfl]
    omega
  let fetched : Cpu :=
    ⟨eax, ebp, esp, zero, interrupts, down, seg, cr0, gdtBase, gdtLimit, 17, memory, controller.tick⟩
  have reach : fetched.linearOf .ds (table + 24) 6 = some (table + 24) := by
    rw [Cpu.linearOf, if_pos (by dsimp only [fetched]; omega)]
    dsimp only [fetched]
    rw [base, UInt32.zero_add]
  have load := Cpu.exec_lgdt (c := fetched) table (.inl (by omega)) reach operand
  have code : (fetched.seg .cs).big = false := small
  rw [code, mask] at load
  refine Cpu.leads_step rfl small load ?_
  refine Cpu.leads_step rfl small rfl ?_
  refine Cpu.leads_step rfl small rfl ?_
  refine Cpu.leads_step rfl small rfl ?_
  have segments : BlockAt memory table.toNat (tableBytes 0) := (blockAt_append.mp held).1
  have space : table.toNat + 24 ≤ 0x100000 := by omega
  have protect : (cr0 ||| 0x1).toBitVec.getLsbD 0 = true := by
    rw [UInt32.toBitVec_or, BitVec.getLsbD_or]
    exact Bool.or_true _
  have unused := (marked_unused segments).symm
  exact .now ⟨⟨⟨protect, rfl, .inl space, segments, unused⟩, rfl, space, small, quiet, forward, opens⟩, rfl⟩

/-- How `bootmain` is called: no interrupts, all segments flat, and the stack below the program. The address line 20
opens as soon as the keyboard controller has taken its last byte. -/
structure Called (memory : Memory) (start : UInt32) (c : Cpu) : Prop where
  kept : c.memory = memory
  quiet : c.interrupts = false
  forward : c.down = false
  protect : c.protectedMode
  opens : c.controller.Opens
  cs : c.seg .cs = wholeFrom protModeCseg 0
  data : ∀ s, s ≠ .cs → c.seg s = wholeFrom protModeDseg 0
  esp : c.esp = start

/-- All segments are loaded from the table, and marked there. -/
theorem leads_called (state : Protected memory table c) (place : c.ip = 20) :
    Leads (Cpu.step (bootS start desc)) (fun c => Called (marked table.toNat true true memory) start c ∧ c.ip = 28)
      c := by
  obtain ⟨uses, base, low, small, quiet, forward, opens⟩ := state
  obtain ⟨eax, ebp, esp, zero, interrupts, down, seg, cr0, gdtBase, gdtLimit, ip, held, controller⟩ := c
  obtain rfl : ip = 20 := place
  obtain rfl : gdtBase = table := base
  have still (eax : UInt32) (seg : Seg → SegmentRegister) (ip : Nat) (controller : Controller) (code data : Bool) :
      Cpu.Uses ⟨eax, ebp, esp, zero, interrupts, down, seg, cr0, gdtBase, gdtLimit, ip,
        marked gdtBase.toNat code data memory, controller⟩ 0 memory code data :=
    ⟨uses.protect, uses.limit, .inl low, uses.held, rfl⟩
  have selector := toUInt16_movw eax protModeDseg
  refine uses.leads_ljmp rfl small ?_
  refine Cpu.leads_step rfl rfl rfl ?_
  refine (still _ _ _ _ _ _).leads_data rfl rfl selector (by decide) ?_
  refine (still _ _ _ _ _ _).leads_data rfl rfl selector (by decide) ?_
  refine (still _ _ _ _ _ _).leads_data rfl rfl selector (by decide) ?_
  refine (still _ _ _ _ _ _).leads_data rfl rfl selector (by decide) ?_
  refine (still _ _ _ _ _ _).leads_data rfl rfl selector (by decide) ?_
  refine Cpu.leads_step rfl rfl rfl ?_
  refine .now ⟨⟨rfl, quiet, forward, uses.protect, opens, rfl, fun s data => ?_, rfl⟩, rfl⟩
  cases s with
  | cs => exact absurd rfl data
  | ds | es | fs | gs | ss => rfl

/-- The whole program. -/
theorem leads_bootmain (place : c.ip = 0) (real : c.protectedMode = false) (small : (c.seg .cs).big = false)
    (limit : 0xFFFF ≤ (c.seg .ds).limit.toNat) (low : table.toNat + 30 ≤ 0x10000)
    (held : BlockAt c.memory table.toNat (gdt ++ gdtdescBytes table)) :
    Leads (Cpu.step (bootS start (table + 24)))
      (fun c' => Called (marked table.toNat true true c.memory) start c' ∧ c'.ip = 28) c := by
  refine (leads_prepared place rfl real small limit).trans fun c₁ ⟨prepared, first⟩ => ?_
  refine (leads_gate prepared first).trans fun c₂ ⟨prepared, opens, second⟩ => ?_
  refine (leads_protected prepared opens second low held).trans fun c₃ ⟨state, third⟩ => ?_
  exact leads_called state third

/-- In the segments that `bootmain` is called with, an address is its own linear address. -/
theorem Called.flat (called : Called memory start c) (s : Seg) (va : UInt32) {size : Nat}
    (inside : va.toNat + size ≤ 4294967296) : c.linearOf s va size = some va := by
  have whole : (c.seg s).base = 0 ∧ (c.seg s).limit = 0xFFFFFFFF := by
    by_cases code : s = .cs
    · rw [code, called.cs]
      exact ⟨rfl, rfl⟩
    · rw [called.data s code]
      exact ⟨rfl, rfl⟩
  rw [Cpu.linearOf, whole.1, whole.2, UInt32.zero_add]
  exact if_pos inside

/-- From any state in which the firmware may start it, and whatever time the keyboard controller takes, the program
calls `bootmain`: without interrupts, with the stack below the program, and with segments by which every address means
itself. Below the first megabyte it is its own physical address too, and everywhere else as soon as the controller has
taken its last byte. In memory the processor has marked the two segments of the table as used. -/
theorem bootS_calls (c : Cpu) (start table : UInt32) (place : c.ip = 0) (real : c.protectedMode = false)
    (small : (c.seg .cs).big = false) (limit : 0xFFFF ≤ (c.seg .ds).limit.toNat) (low : table.toNat + 30 ≤ 0x10000)
    (held : BlockAt c.memory table.toNat (gdt ++ gdtdescBytes table)) :
    Leads (Cpu.step (bootS start (table + 24)))
      (fun c' => (bootS start (table + 24))[c'.ip]? = some (true, .call) ∧
        Called (marked table.toNat true true c.memory) start c' ∧
        (∀ s (va : UInt32) (size : Nat), va.toNat + size ≤ 4294967296 → c'.linearOf s va size = some va) ∧
        (∀ va : UInt32, va.toNat < 0x100000 → c'.physical va = va.toNat) ∧
        ∀ n, c'.controller.busy ≤ n → ∀ va : UInt32,
          Cpu.physical { c' with controller := Controller.tick^[n] c'.controller } va = va.toNat) c := by
  refine (leads_bootmain place real small limit low held).trans fun c' ⟨called, last⟩ => ?_
  refine .now ⟨by rw [last]; rfl, called, fun s va size inside => called.flat s va inside, ?_, ?_⟩
  · exact fun va below => Cpu.physical_eq (.inl (Nat.le_refl _)) below
  · exact fun n enough va => Cpu.physical_eq (.inr ⟨called.opens.iterate enough, Nat.le_refl _⟩) va.toNat_lt

/-- The firmware starts the program at `0x7C00`, with its table in the same sector and a slow keyboard controller. -/
theorem bootS_calls_sector :
    let slow : Controller := ⟨5, fun _ => ⟨0x02, by decide⟩, ⟨0x1C, by decide⟩, fun _ => 7, 0, false, 0xCD, 0xCD⟩
    let memory : Memory := writeBlock (fun _ => 0) 0x7C4C (gdt ++ gdtdescBytes 0x7C4C)
    let c : Cpu := ⟨0, 0, 0, false, true, true, fun _ => ⟨0, 0, 0xFFFF, false⟩, 0x10, 0, 0, 0, memory, slow⟩
    Leads (Cpu.step (bootS 0x7C00 (0x7C4C + 24)))
      (fun c' => (bootS 0x7C00 (0x7C4C + 24))[c'.ip]? = some (true, .call) ∧
        Called (marked 0x7C4C true true memory) 0x7C00 c' ∧
        (∀ s (va : UInt32) (size : Nat), va.toNat + size ≤ 4294967296 → c'.linearOf s va size = some va) ∧
        (∀ va : UInt32, va.toNat < 0x100000 → c'.physical va = va.toNat) ∧
        ∀ n, c'.controller.busy ≤ n → ∀ va : UInt32,
          Cpu.physical { c' with controller := Controller.tick^[n] c'.controller } va = va.toNat) c :=
  bootS_calls ⟨0, 0, 0, false, true, true, fun _ => ⟨0, 0, 0xFFFF, false⟩, 0x10, 0, 0, 0,
    writeBlock (fun _ => 0) 0x7C4C (gdt ++ gdtdescBytes 0x7C4C),
    ⟨5, fun _ => ⟨0x02, by decide⟩, ⟨0x1C, by decide⟩, fun _ => 7, 0, false, 0xCD, 0xCD⟩⟩ 0x7C00 0x7C4C rfl
    (by decide) rfl (by decide) (by decide) (readBlock_writeBlock _ _ _)

end JosSmp.Boot
