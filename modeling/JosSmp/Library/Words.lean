import JosSmp.Library.Longest

/-!
This file gives the words of a text: its maximal runs of characters that are no separators.
-/

namespace JosSmp.Library

variable {α : Type*} {sep : α → Bool} {a : α} {word text : List α}

def words (sep : α → Bool) (text : List α) : List (List α) := (text.splitOnP sep).filter fun word => !word.isEmpty

@[simp] theorem words_nil : words sep [] = [] := by simp [words]

/-- A separator in front of a text adds no word. -/
theorem words_gap (gap : sep a = true) : words sep (a :: text) = words sep text := by
  rw [words, List.splitOnP_cons_eq_if_modifyHead, if_pos gap, List.filter_cons_of_neg (by simp), words]

/-- A run that no further character continues is the first word. -/
theorem words_word (nonempty : word ≠ []) (plain : ∀ b ∈ word, sep b = false)
    (ends : text = [] ∨ ∃ b rest, text = b :: rest ∧ sep b = true) :
    words sep (word ++ text) = word :: words sep text := by
  have kept : (!word.isEmpty) = true := by simpa using nonempty
  obtain rfl | ⟨b, rest, rfl, gap⟩ := ends
  · rw [List.append_nil, words, List.splitOnP_eq_singleton plain, words_nil]
    exact List.filter_cons_of_pos kept
  · rw [words_gap gap, words, List.splitOnP_append_cons_of_forall_mem plain b gap]
    exact List.filter_cons_of_pos kept

/-- The characters of a word are characters of the text. -/
theorem mem_of_mem_words (listed : word ∈ words sep text) (member : a ∈ word) : a ∈ text := by
  have part : word ∈ text.splitOnP sep := (List.mem_filter.mp listed).1
  clear listed
  induction text generalizing word with
  | nil =>
      rw [List.splitOnP_nil, List.mem_singleton] at part
      rwa [part] at member
  | cons b text ih =>
      rw [List.splitOnP_cons_eq_if_modifyHead] at part
      split at part
      · obtain rfl | later := List.mem_cons.mp part
        · cases member
        · exact List.mem_cons_of_mem b (ih member later)
      · cases parts : text.splitOnP sep with
        | nil =>
            rw [parts] at part
            cases part
        | cons first others =>
            rw [parts, List.modifyHead_cons] at part
            obtain rfl | later := List.mem_cons.mp part
            · obtain rfl | inside := List.mem_cons.mp member
              · exact List.mem_cons_self
              · exact List.mem_cons_of_mem b (ih inside (parts ▸ List.mem_cons_self))
            · exact List.mem_cons_of_mem b (ih member (parts ▸ List.mem_cons_of_mem _ later))

/-- A text is some separators, and then nothing or a word and the text behind it. -/
theorem exists_words (sep : α → Bool) (text : List α) :
    ∃ gaps : List α, (∀ b ∈ gaps, sep b = true) ∧ (text = gaps ∨
      ∃ word rest, text = gaps ++ (word ++ rest) ∧ word ≠ [] ∧ (∀ b ∈ word, sep b = false) ∧
        (rest = [] ∨ ∃ b rest', rest = b :: rest' ∧ sep b = true)) := by
  obtain ⟨gaps, text, rfl, all, solid⟩ := exists_longest (fun b => sep b = true) text
  obtain ⟨word, rest, rfl, plain, ends⟩ := exists_longest (fun b => sep b = false) text
  refine ⟨gaps, all, ?_⟩
  cases word with
  | nil =>
      cases rest with
      | nil => exact .inl (List.append_nil gaps)
      | cons b rest =>
          -- The element behind the gaps would be neither a separator nor a part of a word.
          exact absurd (Bool.eq_false_iff.mpr (solid b rfl)) (ends b rfl)
  | cons b word =>
      refine .inr ⟨b :: word, rest, rfl, List.cons_ne_nil b word, plain, ?_⟩
      cases rest with
      | nil => exact .inl rfl
      | cons c rest => exact .inr ⟨c, rest, rfl, eq_true_of_ne_false (ends c rfl)⟩

/-- Separators in front of a text add no word. -/
theorem words_gaps {gaps : List α} (all : ∀ b ∈ gaps, sep b = true) : words sep (gaps ++ text) = words sep text := by
  induction gaps with
  | nil => rfl
  | cons b gaps ih =>
      obtain ⟨gap, all⟩ := List.forall_mem_cons.mp all
      rw [List.cons_append, words_gap gap, ih all]

end JosSmp.Library
