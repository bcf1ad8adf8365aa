import JosSmp.Proof.Boot.Overcopy
import JosSmp.Proof.Boot.Ports
import JosSmp.Proof.Entry.Start

/-!
This file proves that the machine comes from the first instruction of the boot loader to a kernel that finds itself at
its linked addresses.
-/

namespace JosSmp.Entry
open Library Machine Mmu Boot

variable {c : Cpu} {disk : Nat → UInt8} {image memory : Memory} {start bootstacktop mygdt : UInt32} {k j : Nat}

/-- A segment of the image holds the tables of the kernel, at the place that they are linked for. -/
def TablesIn (image : Memory) (mygdt : UInt32) : Prop :=
  ∃ k < ePhnum image 0, ∃ j, j + 30 ≤ (segment image k).size ∧ (segment image k).start + j = (reloc mygdt).toNat ∧
    BlockAt image ((segment image k).offset + j) (Entry.mygdt ++ mygdtdescBytes mygdt)

/-- Each byte of each segment is in its place. -/
def Holds (image memory : Memory) : Prop :=
  ∀ k < ePhnum image 0, ∀ j < (segment image k).size,
    memory ((segment image k).start + j) = image ((segment image k).offset + j)

/-- What the processor reads at a linked address of a segment, for code and for data, is the byte of the image, but for
the two bytes of the table in which the processor marks the segments that it uses. -/
def Mapped (image : Memory) (mygdt : UInt32) (c : Cpu) : Prop :=
  ∀ s ∈ [Seg.cs, .ds, .es, .ss], ∀ k < ePhnum image 0, ∀ j < (segment image k).size, ∀ va : UInt32,
    va >>> 24 = 0xF0 → va.toNat % 0x1000000 = (segment image k).start + j →
      va.toNat % 0x1000000 ≠ (reloc mygdt).toNat + 13 → va.toNat % 0x1000000 ≠ (reloc mygdt).toNat + 21 →
        ∃ la, c.linearOf s va 1 = some la ∧ c.memory (c.physical la) = image ((segment image k).offset + j)

/-- The memory of a kernel that is loaded: the segments, and below them the page of the file header. -/
structure Loaded (image memory loaded : Memory) : Prop where
  holds : Holds image loaded
  kept : ∀ a < 0x100000, a < elfhdr ∨ elfhdr + 4096 ≤ a → loaded a = memory a

/-- The loader enters a kernel whose bytes beyond its segments are harmless. -/
theorem bootmain_loaded {fuel : Nat} (wellFormed : WellFormed (kernel disk)) (harmless : Harmless (kernel disk))
    (enough : 8388608 ≤ fuel) (memory : Memory) :
    ∃ loaded, Boot.bootmain disk fuel memory = some (.enter (eEntry (kernel disk) 0 % 0x1000000) loaded) ∧
      Loaded (kernel disk) memory loaded := by
  have ends {s : Segment} (below : s.start + s.size ≤ 4294966784) : s.Ends fuel := s.ends_of_reachable below enough
  refine ⟨_, (bootmain_enter_iff wellFormed).mpr
    ⟨ends (by decide), fun k within => ends (harmless.reachable k within), rfl, rfl⟩, ?_, ?_⟩
  · intro k within j inside
    exact (placed_iff wellFormed within inside).mpr (harmless.shared k within j inside)
  · intro a low apart
    rw [placed, overlay_untouched _ _, paged]
    · have outside : Segment.put (kernel disk) firstPage a = none := by
        refine if_neg ?_
        have base : elfhdr = 65536 := rfl
        have start : firstPage.start = elfhdr := rfl
        have size : firstPage.size = 4096 := rfl
        omega
      rw [outside, Option.getD_none]
    · intro i earlier
      have high := wellFormed.high i earlier
      exact if_neg (by omega)

/-- The stack of the loader lies below the segments. -/
theorem Holds.congr {memory' : Memory} (holds : Holds image memory) (wellFormed : WellFormed image)
    (agree : ∀ a, 0x100000 ≤ a → memory' a = memory a) : Holds image memory' := by
  intro k within j inside
  have high := wellFormed.high k within
  rw [agree _ (by omega), holds k within j inside]

/-- The tables are where the kernel expects them. -/
theorem Holds.tables (holds : Holds image memory) (wellFormed : WellFormed image) (tables : TablesIn image mygdt) :
    (reloc mygdt).toNat + 30 ≤ 4294967296 ∧ 0x474 ≤ (reloc mygdt).toNat ∧
      BlockAt memory (reloc mygdt).toNat (Entry.mygdt ++ mygdtdescBytes mygdt) := by
  obtain ⟨k, within, j, inside, place, held⟩ := tables
  have high := wellFormed.high k within
  have bound := wellFormed.unwrapped k within
  refine ⟨by omega, by omega, ?_⟩
  rw [← place]
  refine held.moved fun i below => ?_
  have size : (Entry.mygdt ++ mygdtdescBytes mygdt).length = 30 := rfl
  rw [Nat.add_assoc, Nat.add_assoc]
  exact holds k within (j + i) (by omega)

/-- The sign of a warm boot lies below the kernel. -/
theorem Entered.mapped (entered : Entered memory mygdt bootstacktop c) (holds : Holds image memory)
    (wellFormed : WellFormed image) : Mapped image mygdt c := by
  intro s listed k within j inside va linked place code data
  have bound := va.toNat_lt
  have high := wellFormed.high k within
  refine ⟨reloc va, entered.relocates listed va (by omega), ?_⟩
  rw [entered.physical linked, entered.kept, marked, Function.update_of_ne data, Function.update_of_ne code, place, warm,
    Function.update_of_ne (by omega), Function.update_of_ne (by omega)]
  exact holds k within j inside

/-- From any state in which the firmware may start the boot loader, and whatever time the keyboard controller and the
drive take: the loader comes to `bootmain`, whose loads put the kernel in its place and spare what else lies below it.
Whatever it leaves on its stack and in the general registers, the kernel then calls `i386_init` where each linked
address of a segment is the byte of the image on the disk. The program does not wait until the keyboard controller has
opened the address line 20: the loads are those of a machine that has opened it when the first segment comes. -/
theorem powerOn_reaches (c : Cpu) (drive : Drive) (start table mygdt bootstacktop : UInt32) (waits fuel : Nat)
    (place : c.ip = 0) (real : c.protectedMode = false) (small : (c.seg .cs).big = false)
    (limit : 0xFFFF ≤ (c.seg .ds).limit.toNat) (low : table.toNat + 30 ≤ 0x10000)
    (held : BlockAt c.memory table.toNat (gdt ++ gdtdescBytes table)) (stack : start.toNat ≤ elfhdr)
    (empty : drive.data = []) (few : drive.busy.length < waits) (later : ∀ n, (drive.later n).length < waits)
    (enough : 8388608 ≤ fuel) (wellFormed : WellFormed (kernel drive.disk)) (harmless : Harmless (kernel drive.disk))
    (tables : TablesIn (kernel drive.disk) mygdt) :
    Leads (Cpu.step (bootS start (table + 24)))
      (fun c₁ => (bootS start (table + 24))[c₁.ip]? = some (true, .call) ∧
        Called (marked table.toNat true true c.memory) start c₁ ∧
        ∃ loaded drive', Ports.bootmain waits fuel ⟨c₁.memory, drive⟩ =
            .ok (.enter (eEntry (kernel drive.disk) 0 % 0x1000000) loaded, drive') ∧
          Loaded (kernel drive.disk) c₁.memory loaded ∧
          ∀ memory', (∀ a, start.toNat ≤ a → memory' a = loaded a) → ∀ n, c₁.controller.busy ≤ n →
            ∀ eax ebp esp zero, Leads (Cpu.step (entryS (mygdt + 24) bootstacktop))
              (fun c₂ => (entryS (mygdt + 24) bootstacktop)[c₂.ip]? = some (true, .call) ∧
                Entered memory' mygdt bootstacktop c₂ ∧ Mapped (kernel drive.disk) mygdt c₂)
              { c₁ with
                eax, ebp, esp, zero
                ip := 0
                memory := memory'
                controller := Controller.tick^[n] c₁.controller }) c := by
  refine (leads_bootmain place real small limit low held).trans fun c₁ ⟨called, last⟩ => ?_
  have idle : Ports.Idle drive.disk waits drive := ⟨rfl, empty, few, later⟩
  obtain ⟨loaded, entered, found⟩ := bootmain_loaded wellFormed harmless enough c₁.memory
  have ports := Ports.bootmain_idle fuel c₁.memory idle
  rw [entered] at ports
  obtain ⟨drive', run, _⟩ := ports
  refine .now ⟨by rw [last]; rfl, called, loaded, drive', run, found, ?_⟩
  intro memory' agree n taken eax ebp esp zero
  have base : elfhdr = 65536 := rfl
  have holds := found.holds.congr wellFormed fun a above => agree a (by omega)
  obtain ⟨space, apart, there⟩ := holds.tables wellFormed tables
  obtain ⟨idle, opens⟩ := called.opens.iterate taken
  have flat : Called memory' esp { c₁ with
      eax, ebp, esp, zero, ip := 0, memory := memory', controller := Controller.tick^[n] c₁.controller } :=
    ⟨rfl, called.quiet, called.forward, called.protect, opens, called.cs, called.data, rfl⟩
  refine (leads_entered flat rfl idle space apart there).trans fun c₂ ⟨inside, last⟩ => ?_
  exact .now ⟨by rw [last]; rfl, inside, inside.mapped holds wellFormed⟩

/-- An image of one segment, which is linked at `0xF010F000` and holds the tables of the kernel. -/
def onlyTables : Memory :=
  writeBlock (fun a => (([(0, 0x7F), (1, 0x45), (2, 0x4C), (3, 0x46), (28, 52), (44, 1),
    (57, 0x10), (61, 0xF0), (62, 0x10), (63, 0xF0), (72, 30)] : List (Nat × UInt8)).lookup a).getD 0)
    0x1000 (Entry.mygdt ++ mygdtdescBytes 0xF010F000)

theorem onlyTables_segment : ePhnum onlyTables 0 = 1 ∧ segment onlyTables 0 = ⟨0x10F000, 30, 0x1000⟩ := by
  have fields : (segment onlyTables 0).start = 0x10F000 ∧ (segment onlyTables 0).size = 30 ∧
      (segment onlyTables 0).offset = 0x1000 := by decide +kernel
  refine ⟨by decide +kernel, ?_⟩
  rw [← fields.1, ← fields.2.1, ← fields.2.2]

/-- One segment has no other one to overlap or to share a sector with. -/
theorem onlyTables_wellFormed : WellFormed onlyTables ∧ Harmless onlyTables := by
  obtain ⟨one, only⟩ := onlyTables_segment
  have first {k : Nat} (within : k < ePhnum onlyTables 0) : k = 0 := by omega
  refine ⟨⟨by decide +kernel, by decide +kernel, by decide +kernel, by decide +kernel, by decide +kernel, ?_, ?_⟩,
    by decide +kernel, ?_⟩
  · intro k within i earlier
    exact absurd (first within ▸ earlier) (Nat.not_lt_zero i)
  · intro k within i earlier
    exact absurd (first within ▸ earlier) (Nat.not_lt_zero i)
  · intro k within j inside i greatest
    obtain ⟨later, before, _⟩ := greatest.1
    exact absurd (first before ▸ later) (Nat.not_lt_zero k)

/-- The firmware starts the boot loader at `0x7C00`, on a slow keyboard controller and a slow drive. -/
theorem powerOn_reaches_tables :
    let slow : Controller := ⟨5, fun _ => ⟨0x02, by decide⟩, ⟨0x1C, by decide⟩, fun _ => 7, 0, false, 0xCD, 0xCD⟩
    let memory : Memory := writeBlock (fun _ => 0) 0x7C4C (gdt ++ gdtdescBytes 0x7C4C)
    let c : Cpu := ⟨0, 0, 0, false, true, true, fun _ => ⟨0, 0, 0xFFFF, false⟩, 0x10, 0, 0, 0, memory, slow⟩
    let drive : Drive := ⟨diskOf onlyTables, fun _ => 0, [⟨0x80, by decide⟩], [], fun _ => [⟨0x80, by decide⟩], 0⟩
    Leads (Cpu.step (bootS 0x7C00 (0x7C4C + 24)))
      (fun c₁ => (bootS 0x7C00 (0x7C4C + 24))[c₁.ip]? = some (true, .call) ∧
        Called (marked 0x7C4C true true memory) 0x7C00 c₁ ∧
        ∃ loaded drive', Ports.bootmain 2 8388608 ⟨c₁.memory, drive⟩ =
            .ok (.enter (eEntry (kernel drive.disk) 0 % 0x1000000) loaded, drive') ∧
          Loaded (kernel drive.disk) c₁.memory loaded ∧
          ∀ memory', (∀ a, (0x7C00 : UInt32).toNat ≤ a → memory' a = loaded a) → ∀ n, c₁.controller.busy ≤ n →
            ∀ eax ebp esp zero, Leads (Cpu.step (entryS (0xF010F000 + 24) 0xF0110000))
              (fun c₂ => (entryS (0xF010F000 + 24) 0xF0110000)[c₂.ip]? = some (true, .call) ∧
                Entered memory' 0xF010F000 0xF0110000 c₂ ∧ Mapped (kernel drive.disk) 0xF010F000 c₂)
              { c₁ with
                eax, ebp, esp, zero
                ip := 0
                memory := memory'
                controller := Controller.tick^[n] c₁.controller }) c := by
  intro slow memory c drive
  obtain ⟨one, only⟩ := onlyTables_segment
  have image : WellFormed (kernel drive.disk) ∧ Harmless (kernel drive.disk) ∧
      TablesIn (kernel drive.disk) 0xF010F000 := by
    dsimp only [drive]
    rw [kernel_diskOf]
    refine ⟨onlyTables_wellFormed.1, onlyTables_wellFormed.2, 0, by omega, 0, ?_⟩
    rw [only]
    exact ⟨Nat.le_refl 30, by decide, readBlock_writeBlock _ _ _⟩
  have limit : 0xFFFF ≤ (c.seg .ds).limit.toNat := Nat.le_of_eq (by decide +kernel)
  exact powerOn_reaches c drive 0x7C00 0x7C4C 0xF010F000 0xF0110000 2 8388608 rfl (by decide) rfl limit
    (by decide) (readBlock_writeBlock _ _ _) (by decide) rfl (by decide) (fun _ => Nat.lt_succ_self 1) (Nat.le_refl _)
    image.1 image.2.1 image.2.2

end JosSmp.Entry
