import JosSmp.Library.Outcome
import JosSmp.Construction.Boot.Ports
import JosSmp.Proof.Boot.Overcopy
import JosSmp.Proof.Boot.Reads

/-!
This file proves that the loader at the ports of the drive does what the loader over the sectors of the disk does,
whatever time the drive takes.
-/

namespace JosSmp.Boot.Ports
open Library Machine

variable {disk : Nat → UInt8} {waits fuel : Nat} {d : Drive} {memory : Memory}

/-- A drive that waits for a command, and that answers fewer than `waits` times before it is ready. -/
structure Idle (disk : Nat → UInt8) (waits : Nat) (d : Drive) : Prop where
  holds : d.disk = disk
  empty : d.data = []
  few : d.busy.length < waits
  later : ∀ n, (d.later n).length < waits

section Status

/-- A drive that is not ready takes its next answer. -/
theorem inb_busy {status : Unready} {rest : List Unready} (busy : d.busy = status :: rest) :
    d.inb 0x1F7 = ((status : UInt8), { d with busy := rest }) := by
  rw [Drive.inb, if_pos rfl, busy]

theorem inb_ready (busy : d.busy = []) : d.inb 0x1F7 = (if d.data = [] then 0x50 else 0x58, d) := by
  rw [Drive.inb, if_pos rfl, busy]

/-- The loop of `waitdisk` reads all answers of a drive that is not ready. -/
theorem vain_busy (d : Drive) :
    Vain (Drive.inb 0x1F7) (fun status => status &&& 0xC0 = 0x40) d (d.busy.map Subtype.val).length := by
  refine vain_of_answers (fun d : Drive => d.busy.map Subtype.val) ?_ ?_ ?_ d
  · intro d status member
    obtain ⟨unready, _, rfl⟩ := List.mem_map.mp member
    exact unready.property
  · intro d status rest answers
    obtain ⟨unready, busy, split, rfl, rfl⟩ := List.map_eq_cons_iff.mp answers
    rw [inb_busy split]
    exact ⟨rfl, rfl⟩
  · intro d answers
    rw [inb_ready (List.map_eq_nil_iff.mp answers)]
    dsimp only
    split <;> decide

/-- The answers that are read are gone. -/
theorem polled_busy (d : Drive) (k : Nat) (within : k ≤ d.busy.length) :
    (polled (Drive.inb 0x1F7))^[k] d = { d with busy := d.busy.drop k } := by
  induction k generalizing d with
  | zero => rfl
  | succ k ih =>
      cases busy : d.busy with
      | nil => rw [busy] at within; exact absurd within (Nat.not_succ_le_zero k)
      | cons status rest =>
          rw [busy] at within
          have here : polled (Drive.inb 0x1F7) d = { d with busy := rest } := by
            rw [polled, inb_busy busy]
          rw [Function.iterate_succ_apply, here, ih _ (Nat.le_of_succ_le_succ within)]
          rfl

/-- A drive that answers seldom enough becomes ready. -/
theorem waitdisk_ready (few : d.busy.length < waits) : waitdisk waits d = .ok { d with busy := [] } := by
  have ends := (vain_busy d).poll waits
  rw [List.length_map, if_pos few, polled_busy d _ (Nat.le_refl _), List.drop_length] at ends
  rw [waitdisk, ends]
  dsimp only
  rw [inb_ready rfl]

end Status

/-- The words of the data register are stored one behind the other, if the addresses do not wrap. -/
theorem insl_data (cnt dst : Nat) (memory : Memory) (ready : d.busy = []) (size : d.data.length = 4 * cnt) :
    ∃ memory', insl dst cnt ⟨memory, d⟩ = .ok ⟨memory', { d with data := [] }⟩ ∧
      (dst + 4 * cnt ≤ 4294967296 → memory' = writeBlock memory dst d.data) := by
  induction cnt generalizing dst d memory with
  | zero =>
      obtain ⟨_, _, _, data, _, _⟩ := d
      obtain rfl : data = [] := List.eq_nil_of_length_eq_zero size
      exact ⟨memory, rfl, fun _ => (writeBlock_nil memory dst).symm⟩
  | succ cnt ih =>
      have word : d.inl = .ok (d.data.take 4, { d with data := d.data.drop 4 }) := if_pos ⟨ready, by omega⟩
      have first : (d.data.take 4).length = 4 := by rw [List.length_take]; omega
      have left : (d.data.drop 4).length = 4 * cnt := by rw [List.length_drop]; omega
      have both : writeBlock memory dst d.data =
          writeBlock (writeBlock memory dst (d.data.take 4)) (dst + 4) (d.data.drop 4) := by
        have joined := writeBlock_append memory dst (d.data.take 4) (d.data.drop 4)
        rw [first, List.take_append_drop] at joined
        exact joined.symm
      obtain ⟨memory', run, stored⟩ := ih (d := { d with data := d.data.drop 4 }) (address (dst + 4))
        (writeBlock memory dst (d.data.take 4)) ready left
      refine ⟨memory', ?_, fun room => ?_⟩
      · rw [insl, word, ok_bind]
        exact run
      · cases cnt with
        | zero =>
            have rest : d.data.drop 4 = [] := List.eq_nil_of_length_eq_zero left
            obtain rfl : writeBlock memory dst (d.data.take 4) = memory' :=
              congrArg Computer.memory (Except.ok.inj run)
            rw [both, rest, writeBlock_nil]
        | succ cnt =>
            have next : address (dst + 4) = dst + 4 := address_eq rfl (by omega)
            rw [next] at stored
            rw [stored (by omega), both]

section Sector

/-- Writes to the registers of a drive that waits for a command. -/
theorem outb_registers (ready : d.busy = []) (empty : d.data = []) (writes : List (Nat × UInt8))
    (registers : ∀ write ∈ writes, write.1 ≠ 0x1F7) :
    writes.foldlM (fun d write => Drive.outb write.1 write.2 d) d =
      .ok { d with registers := writes.foldl (fun r write => Function.update r write.1 write.2) d.registers } := by
  induction writes generalizing d with
  | nil => rfl
  | cons write rest ih =>
      have first : d.outb write.1 write.2 =
          .ok { d with registers := Function.update d.registers write.1 write.2 } := by
        rw [Drive.outb, if_pos ⟨ready, empty⟩, if_neg (registers _ List.mem_cons_self)]
      rw [List.foldlM_cons, first]
      exact ih ready empty fun write member => registers write (List.mem_cons_of_mem _ member)

theorem outb_command (ready : d.busy = []) (empty : d.data = []) (code : UInt8) :
    d.outb 0x1F7 code = d.command code := by
  rw [Drive.outb, if_pos ⟨ready, empty⟩, if_pos rfl]

/-- The registers of the drive when `readsect` has written all but the command. -/
def addressedBy (offset : Nat) (registers : Nat → UInt8) : Nat → UInt8 :=
  (readsectWrites offset).dropLast.foldl (fun r write => Function.update r write.1 write.2) registers

/-- The drive finds the sector in its registers, and reads it. A number of more than 28 bits may select another drive. -/
theorem command_addressed {offset : Nat} {registers : Nat → UInt8}
    (written : d.registers = addressedBy offset registers) :
    d.command 0x20 = .ok { d with
        busy := d.later d.commands
        data := readBlock d.disk (512 * lba (readsectWrites offset)) 512
        commands := d.commands + 1 } ∨
      268435456 ≤ offset ∧ d.command 0x20 = .error .unmodelled := by
  have one : addressedBy offset registers 0x1F2 = 1 := rfl
  have device : addressedBy offset registers 0x1F6 = UInt8.ofNat ((offset >>> 24) ||| 0xE0) := rfl
  have low : ∀ high < 16, UInt8.ofNat (high ||| 0xE0) &&& 0x50 = 0x40 := by decide
  have sector : d.sector = lba (readsectWrites offset) := by
    rw [Drive.sector, written]
    rfl
  rw [Drive.command, sector, written, one, device]
  by_cases selected : UInt8.ofNat ((offset >>> 24) ||| 0xE0) &&& 0x50 = 0x40
  · exact .inl (if_pos ⟨rfl, rfl, selected⟩)
  · refine .inr ⟨?_, if_neg fun all => selected all.2.2⟩
    by_contra named
    refine selected (low _ ?_)
    rw [Nat.shiftRight_eq_div_pow]
    omega

/-- Between the two waits the drive gets its registers and its command. -/
theorem readsect_eq (waits dst offset : Nat) (c : Computer) :
    readsect waits dst offset c = (do
      let drive ← waitdisk waits c.drive
      let drive ← (readsectWrites offset).dropLast.foldlM (fun d write => Drive.outb write.1 write.2 d) drive
      let drive ← drive.outb 0x1F7 0x20
      let drive ← waitdisk waits drive
      insl dst (sectsize / 4) ⟨c.memory, drive⟩) := by
  simp only [readsect, readsectWrites, List.dropLast, List.foldlM_cons, List.foldlM_nil, bind_assoc, bind_pure]

/-- A drive that waits for a command reads the sector that it is asked for, and waits again. -/
theorem readsect_idle (memory : Memory) (idle : Idle disk waits d) (dst offset : Nat) :
    (∃ c, readsect waits dst offset ⟨memory, d⟩ = .ok c ∧ Idle disk waits c.drive ∧
        (dst + 512 ≤ 4294967296 → c.memory = Boot.readsect disk dst offset memory)) ∨
      268435456 ≤ offset ∧ readsect waits dst offset ⟨memory, d⟩ = .error .unmodelled := by
  obtain ⟨rfl, empty, few, later⟩ := idle
  let addressed : Drive := { d with busy := [], registers := addressedBy offset d.registers }
  have written : (readsectWrites offset).dropLast.foldlM (fun d write => Drive.outb write.1 write.2 d)
      { d with busy := [] } = .ok addressed :=
    outb_registers (d := { d with busy := [] }) rfl empty (readsectWrites offset).dropLast (by simp [readsectWrites])
  have select := outb_command (d := addressed) rfl empty 0x20
  have start : readsect waits dst offset ⟨memory, d⟩ = (do
      let drive ← addressed.command 0x20
      let drive ← waitdisk waits drive
      insl dst (sectsize / 4) ⟨memory, drive⟩) := by
    rw [readsect_eq, waitdisk_ready few, ok_bind, written, ok_bind, select]
  have copied : Boot.readsect d.disk dst offset memory =
      writeBlock memory dst (readBlock d.disk (512 * lba (readsectWrites offset)) 512) := by
    rw [Boot.readsect]
    rfl
  have quarter : sectsize / 4 = 128 := rfl
  have size := readBlock_length d.disk (512 * lba (readsectWrites offset)) 512
  have command := command_addressed (d := addressed)
    (show addressed.registers = addressedBy offset d.registers from rfl)
  dsimp only [addressed] at command
  rw [start, copied, quarter]
  generalize readBlock d.disk (512 * lba (readsectWrites offset)) 512 = sector at command size ⊢
  obtain reads | ⟨named, stuck⟩ := command
  · let reading : Drive := { addressed with busy := d.later d.commands, data := sector, commands := d.commands + 1 }
    have starts : addressed.command 0x20 = .ok reading := reads
    have answers : waitdisk waits reading = .ok { reading with busy := [] } := waitdisk_ready (later d.commands)
    obtain ⟨memory', run, stored⟩ := insl_data 128 dst memory (d := { reading with busy := [] }) rfl size
    refine .inl ⟨⟨memory', { reading with busy := [], data := [] }⟩, ?_, ?_, stored⟩
    · rw [starts, ok_bind, answers, ok_bind, run]
    · exact ⟨rfl, rfl, Nat.zero_lt_of_lt few, later⟩
  · exact .inr ⟨named, by rw [stuck, error_bind]⟩

end Sector

/-- The loader at the ports comes to what the loader over the sectors comes to, on a drive that is idle again. Where
that one does not end, neither does this one, and the drive has admitted each access to its ports. -/
def Agrees (disk : Nat → UInt8) (waits : Nat) (sectors : Option Memory) (ports : Except Stop Computer) : Prop :=
  match sectors with
  | none => ∃ stop, ports = .error stop ∧ stop ≠ .refused
  | some loaded => ∃ d, ports = .ok ⟨loaded, d⟩ ∧ Idle disk waits d

section Loops

variable {endVa va offset : Nat}

/-- The reads of the loop that have a place in memory and a number that the drive can take. -/
def Sound (read : Nat × Nat) : Prop := read.1 + 512 ≤ 4294967296 ∧ read.2 < 268435456

/-- A loop whose reads are sound reads them all. -/
theorem readsegLoop_idle (memory : Memory) (idle : Idle disk waits d) {reads : List (Nat × Nat)}
    (run : readsegLoopReads endVa fuel va offset = some reads) (sound : ∀ read ∈ reads, Sound read) :
    Agrees disk waits (some (readAll disk reads memory)) (readsegLoop waits endVa fuel va offset ⟨memory, d⟩) := by
  induction fuel generalizing va offset memory d reads with
  | zero =>
      rw [readsegLoopReads] at run
      split at run
      · cases run
      · rename_i done
        cases run
        exact ⟨d, if_neg done, idle⟩
  | succ fuel ih =>
      rw [readsegLoopReads] at run
      split at run
      · rename_i more
        obtain ⟨rest, later, rfl⟩ := Option.map_eq_some_iff.mp run
        obtain ⟨room, named⟩ := sound _ List.mem_cons_self
        obtain ⟨⟨memory', next⟩, here, waiting, stored⟩ | ⟨unnamed, _⟩ := readsect_idle memory idle va offset
        · obtain rfl : memory' = Boot.readsect disk va offset memory := stored room
          have after := ih (Boot.readsect disk va offset memory) waiting later
            fun read member => sound read (List.mem_cons_of_mem _ member)
          rw [readsegLoop, if_pos more, here, ok_bind]
          exact after
        · exact absurd unnamed (Nat.not_le.mpr named)
      · rename_i done
        cases run
        exact ⟨d, by rw [readsegLoop, if_neg done]; rfl, idle⟩

/-- A loop that does not end over the sectors does not end at the ports. -/
theorem readsegLoop_endless (memory : Memory) (idle : Idle disk waits d)
    (endless : readsegLoopReads endVa fuel va offset = none) :
    Agrees disk waits none (readsegLoop waits endVa fuel va offset ⟨memory, d⟩) := by
  induction fuel generalizing va offset memory d with
  | zero =>
      rw [readsegLoopReads] at endless
      split at endless
      · rename_i more
        exact ⟨.endless, if_pos more, Stop.noConfusion⟩
      · cases endless
  | succ fuel ih =>
      rw [readsegLoopReads] at endless
      split at endless
      · rename_i more
        rw [readsegLoop, if_pos more]
        obtain ⟨⟨memory', next⟩, here, waiting, _⟩ | ⟨_, stuck⟩ := readsect_idle memory idle va offset
        · rw [here, ok_bind]
          exact ih memory' waiting (Option.map_eq_none_iff.mp endless)
        · rw [stuck, error_bind]
          exact ⟨.unmodelled, rfl, Stop.noConfusion⟩
      · cases endless

end Loops

section Loader

theorem readsegLoopReads_first {endVa va offset : Nat} {read : Nat × Nat} {rest : List (Nat × Nat)}
    (run : readsegLoopReads endVa fuel va offset = some (read :: rest)) : read = (va, offset) := by
  cases fuel with
  | zero =>
      rw [readsegLoopReads] at run
      split at run <;> cases run
  | succ fuel =>
      rw [readsegLoopReads] at run
      split at run
      · obtain ⟨later, _, same⟩ := Option.map_eq_some_iff.mp run
        exact (List.cons.inj same).1.symm
      · cases run

/-- Every request of the loader has sound reads only. -/
theorem readsegReads_sound {va count offset : Nat} (small : count < 4294967296) (numbered : offset < 4294967296)
    {reads : List (Nat × Nat)} (run : readsegReads fuel va count offset = some reads) :
    ∀ read ∈ reads, Sound read := by
  intro read member
  by_cases reachable : va % 0x1000000 + count ≤ 4294966784
  · rw [readsegReads_eq fuel reachable numbered] at run
    split at run
    · cases run
      obtain ⟨k, inside, rfl⟩ := mem_sectorReads member
      exact ⟨by dsimp only; omega, by dsimp only; omega⟩
    · cases run
  by_cases wraps : 4294967296 ≤ va % 0x1000000 + count
  · -- The only read is the first one.
    have few := readsegReads_wrapped wraps small numbered run
    obtain ⟨only, rfl⟩ := List.length_eq_one_iff.mp (Nat.le_antisymm few (List.length_pos_of_mem member))
    have first : address (offset / sectsize + 1) = offset / 512 + 1 := address_eq rfl (by omega)
    obtain rfl := List.mem_singleton.mp member
    rw [readsegLoopReads_first run, first]
    exact ⟨by dsimp only; omega, by dsimp only; omega⟩
  · have stop : address ((va % 0x1000000 : Nat) + count) = va % 0x1000000 + count := address_eq rfl (by omega)
    have size : sectsize = 512 := rfl
    rw [readsegReads] at run
    simp only [stop, size] at run
    rw [readsegLoopReads_endless (by omega) (by omega) (by omega)] at run
    cases run

/-- A request reads the same sectors at the ports. -/
theorem readseg_idle (fuel : Nat) (memory : Memory) (idle : Idle disk waits d) (va count offset : Nat)
    (small : count < 4294967296) (numbered : offset < 4294967296) :
    Agrees disk waits (Boot.readseg disk fuel va count offset memory)
      (readseg waits fuel va count offset ⟨memory, d⟩) := by
  rw [readseg_reads]
  cases run : readsegReads fuel va count offset with
  | none => exact readsegLoop_endless memory idle run
  | some reads => exact readsegLoop_idle memory idle run (readsegReads_sound small numbered run)

theorem loadLoop_idle (fuel : Nat) (memory : Memory) (idle : Idle disk waits d) (ph eph : Nat) :
    Agrees disk waits (Boot.loadLoop disk fuel ph eph memory) (loadLoop waits fuel ph eph ⟨memory, d⟩) := by
  induction left : eph - ph using Nat.strongRecOn generalizing ph memory d with
  | _ left ih =>
      rw [Boot.loadLoop, loadLoop]
      by_cases more : ph < eph
      · rw [if_pos more, if_pos more]
        have read := readseg_idle fuel memory idle (pVa memory ph) (pMemsz memory ph) (pOffset memory ph)
          (word32_lt _ _) (word32_lt _ _)
        have size : phsize = 32 := rfl
        cases result : Boot.readseg disk fuel (pVa memory ph) (pMemsz memory ph) (pOffset memory ph) memory with
        | none =>
            rw [result] at read
            obtain ⟨stop, here, admitted⟩ := read
            dsimp only at here ⊢
            rw [here]
            exact ⟨stop, rfl, admitted⟩
        | some loaded =>
            rw [result] at read
            obtain ⟨d', here, waiting⟩ := read
            dsimp only at here ⊢
            rw [here]
            exact ih _ (by omega) loaded waiting (ph + phsize) rfl
      · rw [if_neg more, if_neg more]
        exact ⟨d, rfl, idle⟩

/-- The loader at the ports ends as the loader over the sectors does, on a drive that is idle again. -/
theorem bootmain_idle (fuel : Nat) (memory : Memory) (idle : Idle disk waits d) :
    match Boot.bootmain disk fuel memory with
    | none => ∃ stop, bootmain waits fuel ⟨memory, d⟩ = .error stop ∧ stop ≠ .refused
    | some exit => ∃ d', bootmain waits fuel ⟨memory, d⟩ = .ok (exit, d') ∧ Idle disk waits d' := by
  have page := readseg_idle fuel memory idle elfhdr (sectsize * 8) 0 (by decide) (by decide)
  rw [bootmain, Boot.bootmain]
  cases result : Boot.readseg disk fuel elfhdr (sectsize * 8) 0 memory with
  | none =>
      rw [result] at page
      obtain ⟨stop, here, admitted⟩ := page
      rw [here, error_bind]
      exact ⟨stop, rfl, admitted⟩
  | some loaded =>
      rw [result] at page
      obtain ⟨d₁, here, waiting⟩ := page
      rw [here, ok_bind]
      dsimp only
      by_cases valid : eMagic loaded elfhdr ≠ elfMagic
      · rw [if_pos valid, if_pos valid]
        exact ⟨d₁, rfl, waiting⟩
      · rw [if_neg valid, if_neg valid]
        have loop := loadLoop_idle fuel loaded waiting (address (elfhdr + ePhoff loaded elfhdr))
          (address (address (elfhdr + ePhoff loaded elfhdr) + ePhnum loaded elfhdr * phsize))
        cases final : Boot.loadLoop disk fuel (address (elfhdr + ePhoff loaded elfhdr))
            (address (address (elfhdr + ePhoff loaded elfhdr) + ePhnum loaded elfhdr * phsize)) loaded with
        | none =>
            rw [final] at loop
            obtain ⟨stop, run, admitted⟩ := loop
            rw [run, error_bind]
            exact ⟨stop, rfl, admitted⟩
        | some kernel =>
            rw [final] at loop
            obtain ⟨d₂, run, ends⟩ := loop
            rw [run, ok_bind]
            exact ⟨d₂, rfl, ends⟩

/-- Whatever time the drive takes, as long as it takes fewer reads of its status than the loader may make, the loader at
the ports ends as the loader over its sectors does, and leaves the drive without data. Where that one does not end, the
loader at the ports does not either; it never makes an access that the drive does not admit. -/
theorem bootmain_ports (drive : Drive) (memory : Memory) (waits fuel : Nat) (empty : drive.data = [])
    (few : drive.busy.length < waits) (later : ∀ n, (drive.later n).length < waits) :
    (bootmain waits fuel ⟨memory, drive⟩).toOption.map Prod.fst = Boot.bootmain drive.disk fuel memory ∧
      (∀ out, bootmain waits fuel ⟨memory, drive⟩ = .ok out → out.2.data = [] ∧ out.2.disk = drive.disk) ∧
      bootmain waits fuel ⟨memory, drive⟩ ≠ .error .refused := by
  have idle : Idle drive.disk waits drive := ⟨rfl, empty, few, later⟩
  have both := bootmain_idle fuel memory idle
  cases result : Boot.bootmain drive.disk fuel memory with
  | none =>
      rw [result] at both
      obtain ⟨stop, here, admitted⟩ := both
      rw [here]
      refine ⟨rfl, fun out same => ?_, fun same => admitted (Except.error.inj same)⟩
      cases same
  | some exit =>
      rw [result] at both
      obtain ⟨d, here, ends⟩ := both
      rw [here]
      refine ⟨rfl, fun out same => ?_, fun same => ?_⟩
      · cases same
        exact ⟨ends.empty, ends.holds⟩
      · cases same

/-- A disk with a kernel of two segments, on a drive that is busy for one read at first and for two after each
command. -/
theorem bootmain_ports_twoSegments :
    let drive : Drive := ⟨diskOf (twoSegments 2), fun _ => 0, [⟨0x80, by decide⟩], [],
      fun _ => [⟨0x80, by decide⟩, ⟨0x00, by decide⟩], 0⟩
    (bootmain 3 16 ⟨fun _ => 0, drive⟩).toOption.map Prod.fst = Boot.bootmain drive.disk 16 (fun _ => 0) ∧
      (∀ out, bootmain 3 16 ⟨fun _ => 0, drive⟩ = .ok out → out.2.data = [] ∧ out.2.disk = drive.disk) ∧
      bootmain 3 16 ⟨fun _ => 0, drive⟩ ≠ .error .refused := by
  intro drive
  exact bootmain_ports drive (fun _ => 0) 3 16 rfl (by decide) fun _ => Nat.lt_succ_self 2

end Loader

end JosSmp.Boot.Ports
