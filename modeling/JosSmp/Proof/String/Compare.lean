import JosSmp.Construction.Lib.Compare
import JosSmp.Construction.Lib.String
import Mathlib.Data.List.Basic

/-!
This file proves that the comparison functions follow one order of the strings.
-/

namespace JosSmp.Compare
open Library Machine

/-- A string together with the bytes behind its final zero. -/
structure Terminated where
  text : List UInt8
  noEnd : 0 ∉ text
  tail : List UInt8

def Terminated.bytes (s : Terminated) : List UInt8 := s.text ++ 0 :: s.tail

/-- A string cut to its first bytes. -/
def Terminated.cut (s : Terminated) (n : Nat) : Terminated where
  text := s.text.take n
  noEnd member := s.noEnd (List.mem_of_mem_take member)
  tail := s.tail

section Bytes

variable {b c : UInt8}

/-- The difference of two bytes has the sign of their comparison. -/
theorem compare_difference (b c : UInt8) : compare ((b.toNat : Int) - c.toNat) 0 = compare b c := by
  change compareOfLessAndEq ((b.toNat : Int) - c.toNat) 0 = compareOfLessAndEq b c
  have less : (b.toNat : Int) - c.toNat < 0 ↔ b < c := by
    rw [UInt8.lt_iff_toNat_lt]
    omega
  have same : (b.toNat : Int) - c.toNat = 0 ↔ b = c := by
    rw [← UInt8.toNat_inj]
    omega
  simp only [compareOfLessAndEq, less, same]

/-- The final zero of a string is below each of its bytes. -/
theorem compare_zero (nonzero : c ≠ 0) : compare 0 c = .lt ∧ compare c 0 = .gt := by
  have positive : 0 < c := by
    have other : c.toNat ≠ 0 := fun same => nonzero (UInt8.toNat_inj.mp same)
    rw [UInt8.lt_iff_toNat_lt, UInt8.toNat_zero]
    omega
  have less : compare 0 c = .lt := Std.compare_eq_lt.mpr positive
  exact ⟨less, Std.OrientedCmp.gt_iff_lt.mpr less⟩

end Bytes

section Orders

variable {p q : List UInt8}

theorem strcmp_cons (b c : UInt8) (p q : List UInt8) :
    strcmp (b :: p) (c :: q) = if b ≠ 0 ∧ b = c then strcmp p q else some ((b.toNat : Int) - c.toNat) := by
  simp only [strcmp, ne_eq, signedChar_eq_zero, signedChar_inj]

theorem strcmp_empty (p q : List UInt8) : strcmp (0 :: p) (0 :: q) = some 0 :=
  (strcmp_cons 0 0 p q).trans (if_neg fun more => more.1 rfl)

theorem strncmp_cons (b c : UInt8) (p q : List UInt8) (n : Nat) :
    strncmp (b :: p) (c :: q) (n + 1) =
      if b ≠ 0 ∧ b = c then strncmp p q n else some ((b.toNat : Int) - c.toNat) := by
  simp only [strncmp, ne_eq, signedChar_eq_zero, signedChar_inj]

/-- Where two strings differ first, the bytes there have the order of the strings. -/
theorem differs_compare {b c : UInt8} (other : b ≠ c) (p q : List UInt8) : compare (b :: p) (c :: q) = compare b c := by
  rw [List.compare_cons_cons]
  cases order : compare b c with
  | eq => exact absurd (Std.LawfulEqCmp.eq_of_compare order) other
  | lt => rfl
  | gt => rfl

/-- A result with the sign of a comparison is zero for equal strings only. -/
theorem zero_iff_eq {r : Int} (sign : compare r 0 = compare p q) : r = 0 ↔ p = q := by
  rw [← Std.compare_eq_iff_eq (a := r), sign, Std.compare_eq_iff_eq]

/-- `strcmp` has the sign of the lexicographic order of the bytes. -/
theorem strcmp_compare (noEnd : 0 ∉ p) (noEnd' : 0 ∉ q) (tail tail' : List UInt8) :
    ∃ r, strcmp (p ++ 0 :: tail) (q ++ 0 :: tail') = some r ∧ compare r 0 = compare p q := by
  induction p generalizing q with
  | nil =>
      cases q with
      | nil => exact ⟨0, rfl, rfl⟩
      | cons c q =>
          have nonzero : c ≠ 0 := fun zero => noEnd' (by rw [zero]; exact List.mem_cons_self)
          refine ⟨_, (strcmp_cons 0 c _ _).trans (if_neg fun more => more.1 rfl), ?_⟩
          rw [compare_difference, (compare_zero nonzero).1]
          rfl
  | cons b p ih =>
      have nonzero : b ≠ 0 := fun zero => noEnd (by rw [zero]; exact List.mem_cons_self)
      cases q with
      | nil =>
          refine ⟨_, (strcmp_cons b 0 _ _).trans (if_neg fun more => more.1 more.2), ?_⟩
          rw [compare_difference, (compare_zero nonzero).2]
          rfl
      | cons c q =>
          by_cases same : b = c
          · subst same
            obtain ⟨r, run, order⟩ := ih (fun later => noEnd (List.mem_cons_of_mem _ later))
              fun later => noEnd' (List.mem_cons_of_mem _ later)
            refine ⟨r, (strcmp_cons b b _ _).trans ((if_pos ⟨nonzero, rfl⟩).trans run), ?_⟩
            rw [order, List.compare_cons_cons, show compare b b = .eq from Std.ReflCmp.compare_self]
            rfl
          · refine ⟨_, (strcmp_cons b c _ _).trans (if_neg fun more => same more.2), ?_⟩
            rw [compare_difference, differs_compare same]

/-- `memcmp` on the bytes of the shorter string and one more gives the result of `strcmp`. -/
theorem memcmp_strcmp (noEnd : 0 ∉ p) (noEnd' : 0 ∉ q) (tail tail' : List UInt8) :
    memcmp (p ++ 0 :: tail) (q ++ 0 :: tail') (min p.length q.length + 1) =
      strcmp (p ++ 0 :: tail) (q ++ 0 :: tail') := by
  induction p generalizing q with
  | nil =>
      rw [List.length_nil, Nat.zero_min]
      cases q with
      | nil =>
          rw [List.nil_append, List.nil_append, strcmp_empty, memcmp, if_neg (not_not.mpr rfl), memcmp]
      | cons c q =>
          have nonzero : 0 ≠ c := fun zero => noEnd' (by rw [← zero]; exact List.mem_cons_self)
          exact (if_pos nonzero).trans ((strcmp_cons 0 c _ _).trans (if_neg fun more => more.1 rfl)).symm
  | cons b p ih =>
      have nonzero : b ≠ 0 := fun zero => noEnd (by rw [zero]; exact List.mem_cons_self)
      cases q with
      | nil =>
          rw [List.length_nil, Nat.min_zero]
          exact (if_pos nonzero).trans ((strcmp_cons b 0 _ _).trans (if_neg fun more => more.1 more.2)).symm
      | cons c q =>
          rw [List.length_cons, List.length_cons, Nat.succ_min_succ]
          simp only [List.cons_append, memcmp, strcmp_cons]
          by_cases same : b = c
          · subst same
            rw [if_neg (not_not.mpr rfl), if_pos ⟨nonzero, rfl⟩]
            exact ih (fun later => noEnd (List.mem_cons_of_mem _ later))
              fun later => noEnd' (List.mem_cons_of_mem _ later)
          · rw [if_pos same, if_neg fun more => same more.2]

/-- `strncmp` gives the result of `strcmp` on the strings cut to their first bytes. -/
theorem strncmp_cut (p q tail tail' : List UInt8) (n : Nat) :
    strncmp (p ++ 0 :: tail) (q ++ 0 :: tail') n = strcmp (p.take n ++ 0 :: tail) (q.take n ++ 0 :: tail') := by
  induction n generalizing p q with
  | zero => rw [strncmp, List.take_zero, List.take_zero, List.nil_append, List.nil_append, strcmp_empty]
  | succ n ih =>
      cases p with
      | nil =>
          cases q with
          | nil => rfl
          | cons c q =>
              exact (strncmp_cons 0 c _ _ n).trans ((if_neg fun more => more.1 rfl).trans
                ((strcmp_cons 0 c _ _).trans (if_neg fun more => more.1 rfl)).symm)
      | cons b p =>
          cases q with
          | nil =>
              exact (strncmp_cons b 0 _ _ n).trans ((if_neg fun more => more.1 more.2).trans
                ((strcmp_cons b 0 _ _).trans (if_neg fun more => more.1 more.2)).symm)
          | cons c q =>
              simp only [List.take_succ_cons, List.cons_append, strncmp_cons, strcmp_cons]
              rw [ih]

/-- The bytes from the count on are not read. -/
theorem strncmp_take (p q : List UInt8) (n : Nat) : strncmp (p.take n) (q.take n) n = strncmp p q n := by
  induction n generalizing p q with
  | zero => rw [strncmp, strncmp]
  | succ n ih =>
      cases p with
      | nil => rfl
      | cons b p =>
          cases q with
          | nil => rfl
          | cons c q =>
              rw [List.take_succ_cons, List.take_succ_cons, strncmp_cons, strncmp_cons, ih]

end Orders

/-- A string in memory is compared as its bytes are, and the comparison stays in them. -/
theorem strcmp_ram {ram : Ram} {p size : Nat} {q : List UInt8} {r : Int} (fits : p + size ≤ 4294967296)
    (run : strcmp (readBlock ram.byte p size) q = some r) :
    ∃ ram', Cstring.strcmp ram p q = some (r, ram') ∧ ram'.byte = ram.byte ∧
      ∀ a ∈ ram'.touched, a ∈ ram.touched ∨ p ≤ a ∧ a < p + size := by
  induction q generalizing ram p size with
  | nil => simp [strcmp] at run
  | cons c q ih =>
      cases size with
      | zero => simp [readBlock, strcmp] at run
      | succ size =>
          have first (a : Nat) (accessed : a ∈ (ram.loadByte p).2.touched) : a ∈ ram.touched ∨ a = p :=
            (List.mem_cons.mp accessed).symm
          rw [readBlock_succ, strcmp_cons] at run
          rw [Cstring.strcmp]
          change ∃ ram', (if ram.byte p ≠ 0 ∧ ram.byte p = c then
            Cstring.strcmp (ram.loadByte p).2 (address (p + 1)) q
            else some (((ram.byte p).toNat : Int) - c.toNat, (ram.loadByte p).2)) = some (r, ram') ∧ _
          by_cases more : ram.byte p ≠ 0 ∧ ram.byte p = c
          · rw [if_pos more] at run ⊢
            cases size with
            | zero => simp [readBlock, strcmp] at run
            | succ size =>
                have onward : address ((p : Int) + 1) = p + 1 := address_eq rfl (by omega)
                have kept : (ram.loadByte p).2.byte = ram.byte := rfl
                rw [← kept] at run
                obtain ⟨ram', compared, bytes, near⟩ := ih (by omega) run
                rw [onward]
                refine ⟨ram', compared, bytes, fun a accessed => ?_⟩
                obtain earlier | inside := near a accessed
                · exact (first a earlier).imp_right (by omega)
                · exact .inr (by omega)
          · rw [if_neg more] at run ⊢
            cases run
            exact ⟨_, rfl, rfl, fun a accessed => (first a accessed).imp_right (by omega)⟩

/-- The three functions follow the lexicographic order of unsigned bytes: `strcmp` on whole strings, `strncmp` on
strings cut to their first bytes, and `memcmp` up to the final zero of the shorter string. -/
theorem comparison_order (p q s : Terminated) (n : Nat) :
    (∃ r, strcmp p.bytes q.bytes = some r ∧ compare r 0 = compare p.text q.text ∧
      (r = 0 ↔ p.text = q.text) ∧
      (∃ r', strcmp q.bytes p.bytes = some r' ∧ compare r' 0 = (compare r 0).swap) ∧
      (∃ r' r'', strcmp q.bytes s.bytes = some r' ∧ strcmp p.bytes s.bytes = some r'' ∧ (r ≤ 0 → r' ≤ 0 → r'' ≤ 0)) ∧
      ∃ r', memcmp p.bytes q.bytes (1 + min p.text.length q.text.length) = some r' ∧ compare r' 0 = compare r 0) ∧
    ∃ r r', strncmp p.bytes q.bytes n = some r ∧ strcmp (p.cut n).bytes (q.cut n).bytes = some r' ∧
      compare r 0 = compare r' 0 ∧ strncmp (p.bytes.take n) (q.bytes.take n) n = some r := by
  have run (p q : Terminated) : ∃ r, strcmp p.bytes q.bytes = some r ∧ compare r 0 = compare p.text q.text :=
    strcmp_compare p.noEnd q.noEnd p.tail q.tail
  obtain ⟨r, first, order⟩ := run p q
  obtain ⟨back, reverse, order'⟩ := run q p
  obtain ⟨second, next, order₂⟩ := run q s
  obtain ⟨third, whole, order₃⟩ := run p s
  obtain ⟨cut, short, _⟩ := run (p.cut n) (q.cut n)
  have bounded : strncmp p.bytes q.bytes n = some cut := (strncmp_cut _ _ _ _ n).trans short
  have block : memcmp p.bytes q.bytes (1 + min p.text.length q.text.length) = some r := by
    rw [Nat.add_comm, Terminated.bytes, Terminated.bytes, memcmp_strcmp p.noEnd q.noEnd]
    exact first
  refine ⟨⟨r, first, order, zero_iff_eq order, ⟨back, reverse, ?_⟩, ⟨second, third, next, whole, ?_⟩, r, block, rfl⟩,
    cut, cut, bounded, short, rfl, (strncmp_take _ _ n).trans bounded⟩
  · rw [order', order]
    exact Std.OrientedCmp.eq_swap
  · intro low low'
    rw [← Std.isLE_compare, order] at low
    rw [← Std.isLE_compare, order₂] at low'
    rw [← Std.isLE_compare, order₃]
    exact Std.TransCmp.isLE_trans low low'

end JosSmp.Compare
