import JosSmp.Construction.Machine.CallStack
import JosSmp.Proof.Monitor.Backtrace

/-!
This file proves that `mon_backtrace` prints the calls that are active, whatever calls have been made before.
-/

namespace JosSmp.Monitor
open Library Machine Console Kdebug

/-- A call that is active: its frame pointer, its return address and its arguments. -/
structure Frame where
  base : UInt32
  ret : UInt32
  args : List UInt32

/-- The address behind the saved frame pointer, the return address and the arguments. -/
def Frame.stop (f : Frame) : Nat := f.base.toNat + 8 + 4 * f.args.length

section Frames

variable {word word' : UInt32 → UInt32} {top : Nat} {frames : List Frame} {ebp : UInt32}

/-- The address from which on the stack is not used by the innermost call. -/
def bottom (top : Nat) : List Frame → Nat
  | [] => top
  | f :: _ => f.base.toNat

/-- The frame pointer leads through the active calls, the innermost one first, up to a zero. -/
def Active (top : Nat) (word : UInt32 → UInt32) : UInt32 → List Frame → Prop
  | ebp, [] => ebp = 0
  | ebp, f :: rest =>
      ebp = f.base ∧ 0 < f.base.toNat ∧ f.stop ≤ bottom top rest ∧ word (ebp + 4) = f.ret ∧ ¬ f.ret < ulim ∧
        (∀ i (inside : i < f.args.length), word (ebp + 8 + 4 * UInt32.ofNat i) = f.args[i]) ∧
        Active top word (word ebp) rest

theorem Active.bottom_le (active : Active top word ebp frames) : bottom top frames ≤ top := by
  induction frames generalizing ebp with
  | nil => exact Nat.le_refl _
  | cons f rest ih =>
      obtain ⟨_, _, room, _, _, _, outer⟩ := active
      have above := ih outer
      have size : f.stop = f.base.toNat + 8 + 4 * f.args.length := rfl
      change f.base.toNat ≤ top
      omega

/-- The frames lie between the innermost one and the top of the stack. -/
theorem Active.between (active : Active top word ebp frames) {f : Frame} (member : f ∈ frames) :
    bottom top frames ≤ f.base.toNat ∧ f.stop ≤ top := by
  induction frames generalizing ebp f with
  | nil => cases member
  | cons g rest ih =>
      obtain ⟨_, _, room, _, _, _, outer⟩ := active
      obtain rfl | member := List.mem_cons.mp member
      · exact ⟨Nat.le_refl _, room.trans outer.bottom_le⟩
      · have later := ih outer member
        have size : g.stop = g.base.toNat + 8 + 4 * g.args.length := rfl
        have first : bottom top (g :: rest) = g.base.toNat := rfl
        omega

/-- Words that agree on what the calls have pushed hold the same active calls. -/
theorem Active.congr (active : Active top word ebp frames) (small : top < 4294967296)
    (agree : ∀ f ∈ frames, ∀ a : UInt32, f.base.toNat ≤ a.toNat → a.toNat < f.stop → word' a = word a) :
    Active top word' ebp frames := by
  induction frames generalizing ebp with
  | nil => exact active
  | cons f rest ih =>
      have bound := (active.between List.mem_cons_self).2
      obtain ⟨rfl, positive, room, ret, kernel, args, outer⟩ := active
      obtain ⟨here, others⟩ := List.forall_mem_cons.mp agree
      have size : f.stop = f.base.toNat + 8 + 4 * f.args.length := rfl
      have near (k : Nat) (inside : k < 8 + 4 * f.args.length) :
          word' (f.base + UInt32.ofNat k) = word (f.base + UInt32.ofNat k) := by
        have place : (f.base + UInt32.ofNat k).toNat = f.base.toNat + k := by
          rw [UInt32.toNat_add, UInt32.toNat_ofNat']
          omega
        exact here _ (by omega) (by omega)
      have saved : word' f.base = word f.base := here _ (Nat.le_refl _) (by omega)
      refine ⟨rfl, positive, room, (near 4 (by omega)).trans ret, kernel, fun i inside => ?_, ?_⟩
      · have place : f.base + 8 + 4 * UInt32.ofNat i = f.base + UInt32.ofNat (8 + 4 * i) := by
          rw [UInt32.ofNat_add, UInt32.ofNat_mul, UInt32.add_assoc]
          rfl
        rw [← args i inside, place]
        exact near _ (by omega)
      · rw [saved]
        exact ih outer others

end Frames

section Push

variable {m : CallStack}

/-- What pushing words one after the other leaves, the last one first. -/
theorem push_block (values : List UInt32) (room : 4 * values.length ≤ m.esp.toNat) :
    let m' := values.foldr CallStack.push m
    m'.esp.toNat = m.esp.toNat - 4 * values.length ∧ m'.ebp = m.ebp ∧
      (∀ i (inside : i < values.length), m'.word (m'.esp + 4 * UInt32.ofNat i) = values[i]) ∧
      ∀ a : UInt32, m.esp.toNat ≤ a.toNat → m'.word a = m.word a := by
  induction values with
  | nil => exact ⟨rfl, rfl, fun i inside => absurd inside (Nat.not_lt_zero i), fun _ _ => rfl⟩
  | cons v values ih =>
      rw [List.length_cons] at room
      obtain ⟨esp, ebp, block, kept⟩ := ih (by omega)
      rw [List.foldr_cons]
      generalize values.foldr CallStack.push m = m' at esp ebp block kept
      have small := m.esp.toNat_lt
      have four : (4 : UInt32).toNat = 4 := rfl
      have lower : (m'.esp - 4).toNat = m'.esp.toNat - 4 := by
        rw [UInt32.toNat_sub_of_le]
        · rfl
        · rw [UInt32.le_iff_toNat_le]
          omega
      refine ⟨?_, ebp, fun i inside => ?_, fun a above => ?_⟩
      · change (m'.esp - 4).toNat = _
        rw [List.length_cons]
        omega
      · change Function.update m'.word (m'.esp - 4) v (m'.esp - 4 + 4 * UInt32.ofNat i) = _
        cases i with
        | zero =>
            have first : m'.esp - 4 + 4 * UInt32.ofNat 0 = m'.esp - 4 := by simp
            rw [first, Function.update_self]
            rfl
        | succ i =>
            rw [List.length_cons] at inside
            have next : m'.esp - 4 + 4 * UInt32.ofNat (i + 1) = m'.esp + 4 * UInt32.ofNat i := by
              refine UInt32.toNat_inj.mp ?_
              simp only [UInt32.toNat_add, UInt32.toNat_mul, UInt32.toNat_ofNat', lower, four]
              omega
            have other : m'.esp + 4 * UInt32.ofNat i ≠ m'.esp - 4 := by
              intro same
              have equal := congrArg UInt32.toNat same
              rw [lower, UInt32.toNat_add, UInt32.toNat_mul, UInt32.toNat_ofNat', four] at equal
              omega
            rw [next, Function.update_of_ne other]
            exact block i (by omega)
      · refine (Function.update_of_ne ?_ ..).trans (kept a above)
        rintro rfl
        omega

end Push

section Running

/-- The stack, and the calls that have not returned yet, the innermost one first. -/
structure Running where
  machine : CallStack
  frames : List Frame

/-- A call sets up a frame. -/
def Running.step (s : Running) (action : CallStack.Action) : Running :=
  let machine := s.machine.step action
  match action with
  | .call args ret _ => ⟨machine, ⟨machine.ebp, ret, args⟩ :: s.frames⟩
  | .store .. => ⟨machine, s.frames⟩
  | .leave _ => ⟨machine, s.frames.tail⟩

/-- There is room on the stack for a call, and the kernel makes it. A store spares what the active calls have pushed.
The caller drops as many arguments as it has pushed. -/
def Running.Admits (s : Running) : CallStack.Action → Prop
  | .call args ret locals => 4 * args.length + 8 + 4 * locals < s.machine.esp.toNat ∧ ¬ ret < ulim
  | .store a _ => ∀ f ∈ s.frames, a.toNat + 4 ≤ f.base.toNat ∨ f.stop ≤ a.toNat
  | .leave argc => s.frames.head?.map (·.args.length) = some argc

instance (s : Running) (action : CallStack.Action) : Decidable (s.Admits action) :=
  match action with
  | .call .. => inferInstanceAs (Decidable (_ ∧ _))
  | .store .. => inferInstanceAs (Decidable (∀ f ∈ s.frames, _))
  | .leave _ => inferInstanceAs (Decidable (_ = _))

/-- The stack pointer lies in front of the innermost call, and the frame pointer leads through the active calls. -/
structure Running.Sound (top : UInt32) (s : Running) : Prop where
  inside : s.machine.esp.toNat ≤ bottom top.toNat s.frames
  active : Active top.toNat s.machine.word s.machine.ebp s.frames

variable {top : UInt32} {s : Running}

theorem Running.Sound.call (sound : s.Sound top) {args : List UInt32} {ret : UInt32} {locals : Nat}
    (admits : s.Admits (.call args ret locals)) : (s.step (.call args ret locals)).Sound top := by
  obtain ⟨room, kernel⟩ := admits
  have same : (args.foldr CallStack.push s.machine).ebp = s.machine.ebp := (push_block args (by omega)).2.1
  have pushed : s.machine.call args ret locals =
      let m := (s.machine.ebp :: ret :: args).foldr CallStack.push s.machine
      { m with ebp := m.esp, esp := m.esp - 4 * UInt32.ofNat locals } := by
    rw [List.foldr_cons, List.foldr_cons, ← same]
    rfl
  have length : (s.machine.ebp :: ret :: args).length = args.length + 2 := rfl
  obtain ⟨esp, _, block, kept⟩ :=
    push_block (m := s.machine) (s.machine.ebp :: ret :: args) (by omega)
  have step : s.step (.call args ret locals) =
      ⟨s.machine.call args ret locals, ⟨(s.machine.call args ret locals).ebp, ret, args⟩ :: s.frames⟩ := rfl
  rw [step, pushed]
  dsimp only
  generalize (s.machine.ebp :: ret :: args).foldr CallStack.push s.machine = m at esp block kept
  have small := top.toNat_lt
  have inside := sound.inside
  have bound := sound.active.bottom_le
  have stop : (⟨m.esp, ret, args⟩ : Frame).stop = m.esp.toNat + 8 + 4 * args.length := rfl
  have kept' : ∀ f ∈ s.frames, ∀ a : UInt32, f.base.toNat ≤ a.toNat → a.toNat < f.stop →
      m.word a = s.machine.word a := by
    intro f member a above _
    have between := (sound.active.between member).1
    exact kept a (by omega)
  have outer := sound.active.congr small kept'
  have positive : 0 < m.esp.toNat := by omega
  refine ⟨?_, rfl, positive, by omega, ?_, kernel, fun i less => ?_, ?_⟩
  · have size : (4 * UInt32.ofNat locals).toNat = 4 * locals := by
      simp only [UInt32.toNat_mul, UInt32.toNat_ofNat', UInt32.reduceToNat]
      omega
    have lower : 4 * UInt32.ofNat locals ≤ m.esp := by
      rw [UInt32.le_iff_toNat_le]
      omega
    change (m.esp - 4 * UInt32.ofNat locals).toNat ≤ m.esp.toNat
    rw [UInt32.toNat_sub_of_le _ _ lower]
    exact Nat.sub_le _ _
  · exact block 1 (by omega)
  · have listed : i < args.length := less
    have place : m.esp + 8 + 4 * UInt32.ofNat i = m.esp + 4 * UInt32.ofNat (i + 2) := by
      refine UInt32.toNat_inj.mp ?_
      simp only [UInt32.toNat_add, UInt32.toNat_mul, UInt32.toNat_ofNat', UInt32.reduceToNat]
      omega
    rw [place]
    exact block (i + 2) (by omega)
  · have saved : m.word m.esp = s.machine.ebp := by
      have zero := block 0 (by omega)
      rwa [show m.esp + 4 * UInt32.ofNat 0 = m.esp by simp] at zero
    change Active top.toNat m.word (m.word m.esp) s.frames
    rw [saved]
    exact outer

theorem Running.Sound.store (sound : s.Sound top) {a v : UInt32} (admits : s.Admits (.store a v)) :
    (s.step (.store a v)).Sound top := by
  have spared : ∀ f ∈ s.frames, ∀ b : UInt32, f.base.toNat ≤ b.toNat → b.toNat < f.stop →
      Function.update s.machine.word a v b = s.machine.word b := by
    intro f member b above below
    refine Function.update_of_ne ?_ ..
    rintro rfl
    have outside := admits f member
    omega
  exact ⟨sound.inside, sound.active.congr top.toNat_lt spared⟩

theorem Running.Sound.leave (sound : s.Sound top) {argc : Nat} (admits : s.Admits (.leave argc)) :
    (s.step (.leave argc)).Sound top := by
  obtain ⟨f, first, rfl⟩ := Option.map_eq_some_iff.mp admits
  obtain ⟨rest, frames⟩ := List.head?_eq_some_iff.mp first
  have active := sound.active
  rw [frames] at active
  obtain ⟨base, _, room, _, _, _, outer⟩ := active
  have bound := outer.bottom_le
  have small := top.toNat_lt
  have size : f.stop = f.base.toNat + 8 + 4 * f.args.length := rfl
  have step : s.step (.leave f.args.length) = ⟨s.machine.leave f.args.length, rest⟩ := by
    change (⟨s.machine.leave f.args.length, s.frames.tail⟩ : Running) = _
    rw [frames]
    rfl
  rw [step]
  refine ⟨?_, outer⟩
  change (s.machine.ebp + 8 + 4 * UInt32.ofNat f.args.length).toNat ≤ bottom top.toNat rest
  rw [base]
  simp only [UInt32.toNat_add, UInt32.toNat_mul, UInt32.toNat_ofNat', UInt32.reduceToNat]
  omega

/-- The stack stays sound in every step. -/
theorem Running.Sound.step (sound : s.Sound top) (action : CallStack.Action) (admits : s.Admits action) :
    (s.step action).Sound top := by
  cases action with
  | call args ret locals => exact sound.call admits
  | store a v => exact sound.store admits
  | leave argc => exact sound.leave admits

end Running

section Trace

variable {word : UInt32 → UInt32} {top : Nat} {frames : List Frame} {ebp : UInt32}

/-- The argument words that are printed of a call. Behind the last argument they are what the caller has there. -/
def Frame.argument (word : UInt32 → UInt32) (f : Frame) (i : Nat) : UInt32 :=
  f.args.getD i (word (f.base + 8 + 4 * UInt32.ofNat i))

/-- What `mon_backtrace` prints of a call. -/
def callText (tables : DebugTables) (word : UInt32 → UInt32) (f : Frame) : List Int :=
  text "ebp " ++ hex8 f.base ++ text " eip " ++ hex8 f.ret ++ text " args " ++ hex8 (f.argument word 0) ++ text " " ++
    hex8 (f.argument word 1) ++ text " " ++ hex8 (f.argument word 2) ++ text " " ++ hex8 (f.argument word 3) ++
    text " " ++ hex8 (f.argument word 4) ++ text "\n" ++ placeOf tables f.ret

/-- The chain of saved frame pointers has one frame for each active call. -/
theorem Active.traceText_eq (tables : DebugTables) (active : Active top word ebp frames) :
    Passes word (Walks word) ebp frames.length ∧ word^[frames.length] ebp = 0 ∧
      traceText tables word ebp frames.length = frames.flatMap (callText tables word) := by
  induction frames generalizing ebp with
  | nil =>
      obtain rfl : ebp = 0 := active
      exact ⟨passes_zero.mpr fun walks => walks.1 rfl, rfl, rfl⟩
  | cons f rest ih =>
      obtain ⟨rfl, positive, _, ret, kernel, args, outer⟩ := active
      obtain ⟨passes, last, printed⟩ := ih outer
      have walks : Walks word f.base := by
        refine ⟨?_, ret ▸ kernel⟩
        intro zero
        rw [zero] at positive
        exact absurd positive (by decide)
      have argument (i : Nat) : word (f.base + 8 + 4 * UInt32.ofNat i) = f.argument word i := by
        rw [Frame.argument, List.getD_eq_getElem?_getD]
        by_cases inside : i < f.args.length
        · rw [args i inside, List.getElem?_eq_getElem inside]
          rfl
        · rw [List.getElem?_eq_none (not_lt.mp inside)]
          rfl
      refine ⟨passes_succ.mpr ⟨walks, passes⟩, last, ?_⟩
      have here : frameText word f.base ++ placeOf tables (word (f.base + 4)) = callText tables word f := by
        have next (k : UInt32) (i : Nat) (same : (8 : UInt32) + 4 * UInt32.ofNat i = k) :
            word (f.base + k) = f.argument word i := by
          rw [← same, ← UInt32.add_assoc]
          exact argument i
        rw [frameText, callText, ret, next 8 0 rfl, next 12 1 rfl, next 16 2 rfl, next 20 3 rfl, next 24 4 rfl]
      rw [List.length_cons, traceText_succ, here, printed]
      rfl

end Trace

/-- However the kernel has called functions, returned from them and stored into their variables since `entry.S` cleared
the frame pointer, `mon_backtrace` prints the calls that have not returned, the innermost one first. -/
theorem monBacktrace_active (tables : DebugTables) (top : UInt32) (word : UInt32 → UInt32)
    (actions : List CallStack.Action) (fuel : Nat) (o : Output) (object : tables.stabstr.length < 1073741824)
    (admitted : Guarded Running.step Running.Admits ⟨⟨top, 0, word⟩, []⟩ actions) :
    let s := actions.foldl Running.step ⟨⟨top, 0, word⟩, []⟩
    s.frames.length < fuel →
      monBacktrace tables fuel ⟨s.machine.ebp, s.machine.word⟩ o =
        some (false, put (s.frames.flatMap (callText tables s.machine.word)) o) := by
  intro s enough
  have start : Running.Sound top ⟨⟨top, 0, word⟩, []⟩ := ⟨Nat.le_refl _, rfl⟩
  have sound : s.Sound top := admitted.invariant (fun _ action sound => sound.step action) start
  obtain ⟨passes, last, printed⟩ := Active.traceText_eq tables sound.active
  have run := backtraceLoop_passes object passes enough o
  rw [last, printed] at run
  exact run

/-- A function with two arguments has called a function that has returned, and then another one. -/
theorem monBacktrace_active_nested :
    let actions : List CallStack.Action :=
      [.call [1, 2] 0xF0100040 4, .call [] 0xF0100080 2, .store 0xF010FFC8 7, .leave 0, .call [5] 0xF01000C0 1]
    let tables : DebugTables := ⟨fun _ => ⟨0, 0, 0⟩, 0, [0]⟩
    let o : Output := ⟨0x3D4, 0xF00B8000, 0, ⟨fun _ => 0, []⟩, fun _ _ => 0xFF, 0, []⟩
    let s := actions.foldl Running.step ⟨⟨0xF0110000, 0, fun _ => 0⟩, []⟩
    s.frames.map Frame.args = [[5], [1, 2]] ∧
      monBacktrace tables 3 ⟨s.machine.ebp, s.machine.word⟩ o =
        some (false, put (s.frames.flatMap (callText tables s.machine.word)) o) :=
  ⟨by decide +kernel, monBacktrace_active ⟨fun _ => ⟨0, 0, 0⟩, 0, [0]⟩ 0xF0110000 (fun _ => 0)
    [.call [1, 2] 0xF0100040 4, .call [] 0xF0100080 2, .store 0xF010FFC8 7, .leave 0, .call [5] 0xF01000C0 1] 3
    ⟨0x3D4, 0xF00B8000, 0, ⟨fun _ => 0, []⟩, fun _ _ => 0xFF, 0, []⟩ (by decide +kernel)
    ⟨by decide +kernel, by decide +kernel, by decide +kernel, by decide +kernel, by decide +kernel, trivial⟩
    (by decide +kernel)⟩

end JosSmp.Monitor
