import JosSmp.Construction.Lib.Snprintf
import JosSmp.Proof.Printfmt.Sink
import Mathlib.Data.List.Induction

/-!
This file proves what `vsnprintf` leaves in its buffer.
-/

namespace JosSmp.Printfmt
open Library Machine

/-- The buffer is an object of the address space, and its size is an `int`. -/
structure Buffer (buf : Nat) (n : Int) : Prop where
  nonnull : 0 < buf
  nonempty : 1 ≤ n
  size : n < 2147483648
  within : buf + n ≤ 4294967296

variable {buf : Nat} {n : Int} {memory : Memory} {fmt : List UInt8} {env : Environment} {out : List Int}

/-- The part of an output that fits into a buffer in front of the final zero. -/
def fitting (n : Int) (out : List Int) : List UInt8 := (out.take (n - 1).toNat).map UInt8.ofInt

theorem fitting_length (n : Int) (out : List Int) : (fitting n out).length = min out.length (n - 1).toNat := by
  simp [fitting, Nat.min_comm]

/-- This is the state of the sink after it has received an output. -/
def filled (memory : Memory) (buf : Nat) (n : Int) (out : List Int) : Sprintbuf where
  buf := buf + (fitting n out).length
  ebuf := address (buf + n - 1)
  cnt := wrap32 out.length
  memory := writeBlock memory buf (fitting n out)

/-- Each character is counted, and stored while the buffer has room. -/
theorem sprintputch_filled (buffer : Buffer buf n) (ch : Int) (out : List Int) :
    sprintputch ch (filled memory buf n out) = filled memory buf n (out ++ [ch]) := by
  obtain ⟨nonnull, nonempty, size, within⟩ := buffer
  have limit : address (buf + n - 1) = buf + (n - 1).toNat := address_eq (by omega) (by omega)
  have length := fitting_length n out
  have count : wrap32 (wrap32 out.length + 1) = wrap32 ((out ++ [ch]).length : Nat) := by
    rw [List.length_append, List.length_singleton]
    unfold wrap32
    omega
  simp only [sprintputch, filled, count]
  by_cases room : out.length < (n - 1).toNat
  · have next : address ((buf + (fitting n out).length : Nat) + 1) = buf + (fitting n out).length + 1 :=
      address_eq rfl (by omega)
    have longer : fitting n (out ++ [ch]) = fitting n out ++ [UInt8.ofInt ch] := by
      have all : (out ++ [ch]).length ≤ (n - 1).toNat := by
        rw [List.length_append, List.length_singleton]
        omega
      simp only [fitting]
      rw [List.take_of_length_le all, List.take_of_length_le (Nat.le_of_lt room), List.map_append]
      rfl
    rw [if_pos (by omega), longer, writeBlock_concat]
    simp only [Sprintbuf.mk.injEq, List.length_append, List.length_singleton, and_true]
    omega
  · have same : fitting n (out ++ [ch]) = fitting n out := by
      simp only [fitting]
      rw [List.take_append_of_le_length (by omega)]
    rw [if_neg (by omega), same]

/-- The sink of `vsnprintf` ends in the state that its output describes. -/
theorem foldl_sprintputch (buffer : Buffer buf n) (out : List Int) :
    out.foldl (fun b ch => sprintputch ch b) ⟨buf, address (buf + n - 1), 0, memory⟩ =
      filled memory buf n out := by
  induction out using List.reverseRecOn with
  | nil => simp [filled, fitting, wrap32]
  | append_singleton out ch ih =>
      rw [List.foldl_append, ih, List.foldl_cons, List.foldl_nil, sprintputch_filled buffer]

/-- The whole effect of a call with a usable buffer. -/
theorem vsnprintf_eq (buffer : Buffer buf n) (run : output fmt env = some out) :
    vsnprintf memory buf n fmt env =
      some (wrap32 out.length, writeBlock memory buf (fitting n out ++ [0])) := by
  have usable : ¬ (buf = 0 ∨ n < 1) := by
    have := buffer.nonnull
    have := buffer.nonempty
    omega
  rw [vsnprintf, if_neg usable, vprintfmt_output, run, Option.map_some, Option.map_some,
    foldl_sprintputch buffer, writeBlock_concat]
  rfl

/-- A call with no room for the final zero fails and writes nothing. -/
theorem vsnprintf_invalid (memory : Memory) (fmt : List UInt8) (env : Environment) (unusable : buf = 0 ∨ n < 1) :
    vsnprintf memory buf n fmt env = some (-eInval, memory) := by
  rw [vsnprintf, if_pos unusable]

/-- A call truncates its output exactly: the buffer receives what fits and a final zero, every other byte
stays, and the return value is the full length, so that a smaller buffer holds a prefix of a larger one. -/
theorem vsnprintf_truncates (memory : Memory) (fmt : List UInt8) (env : Environment) :
    (∀ out, output fmt env = some out → out.length < 2147483648 →
      ∀ buf n, Buffer buf n → ∃ memory', vsnprintf memory buf n fmt env = some ((out.length : Int), memory') ∧
        (∀ i, i < min out.length (n - 1).toNat → some (memory' (buf + i)) = out[i]?.map UInt8.ofInt) ∧
        memory' (buf + min out.length (n - 1).toNat) = 0 ∧
        (∀ a, a < buf ∨ buf + min out.length (n - 1).toNat < a → memory' a = memory a) ∧
        ∀ buf₂ n₂, Buffer buf₂ n₂ → n ≤ n₂ → ∃ memory₂,
          vsnprintf memory buf₂ n₂ fmt env = some ((out.length : Int), memory₂) ∧
          ∀ i, i < min out.length (n - 1).toNat → memory' (buf + i) = memory₂ (buf₂ + i)) ∧
    ∀ buf n, buf = 0 ∨ n < 1 → vsnprintf memory buf n fmt env = some (-eInval, memory) := by
  constructor
  · intro out run short buf n buffer
    have count : wrap32 out.length = out.length := wrap32_eq (by omega) (by omega)
    have stored (buf : Nat) (n : Int) (i : Nat) (inside : i < min out.length (n - 1).toNat) :
        some (writeBlock memory buf (fitting n out ++ [0]) (buf + i)) = out[i]?.map UInt8.ofInt := by
      have length := fitting_length n out
      have early : i < (fitting n out).length := by omega
      rw [writeBlock_inside _ _ (by simp; omega), List.getElem_append_left early, ← List.getElem?_eq_getElem early,
        fitting, List.getElem?_map, List.getElem?_take, if_pos (by omega)]
    refine ⟨_, (vsnprintf_eq buffer run).trans (by rw [count]), stored buf n, ?_, ?_, ?_⟩
    · have length := fitting_length n out
      rw [← length, writeBlock_inside _ _ (by simp), List.getElem_concat_length rfl]
    · intro a outside
      apply writeBlock_outside
      rw [List.length_append, List.length_singleton, fitting_length]
      omega
    · intro buf₂ n₂ buffer₂ larger
      refine ⟨_, (vsnprintf_eq buffer₂ run).trans (by rw [count]), fun i inside => ?_⟩
      apply Option.some.inj
      rw [stored buf n i inside, stored buf₂ n₂ i (by omega)]
  · intro buf n unusable
    exact vsnprintf_invalid memory fmt env unusable

/-- Two characters do not fit into a buffer of two bytes. -/
theorem vsnprintf_truncates_two :
    let env : Environment := ⟨fun _ => 0, fun _ => []⟩
    let out : List Int := [104, 105]
    ∃ memory', vsnprintf (fun _ => 170) 4096 2 (Cstring.literal "hi") env = some ((out.length : Int), memory') ∧
      (∀ i, i < min out.length ((2 : Int) - 1).toNat → some (memory' (4096 + i)) = out[i]?.map UInt8.ofInt) ∧
      memory' (4096 + min out.length ((2 : Int) - 1).toNat) = 0 ∧
      (∀ a, a < 4096 ∨ 4096 + min out.length ((2 : Int) - 1).toNat < a → memory' a = 170) ∧
      ∀ buf₂ n₂, Buffer buf₂ n₂ → 2 ≤ n₂ → ∃ memory₂,
        vsnprintf (fun _ => 170) buf₂ n₂ (Cstring.literal "hi") env = some ((out.length : Int), memory₂) ∧
        ∀ i, i < min out.length ((2 : Int) - 1).toNat → memory' (4096 + i) = memory₂ (buf₂ + i) :=
  (vsnprintf_truncates (fun _ => 170) (Cstring.literal "hi") ⟨fun _ => 0, fun _ => []⟩).1 [104, 105]
    (by decide +kernel) (by decide) 4096 2 ⟨by decide, by decide, by decide, by decide⟩

end JosSmp.Printfmt
