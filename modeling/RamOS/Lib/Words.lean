import Mathlib.Data.List.Basic
import Mathlib.Data.List.Induction
import Mathlib.Data.List.TakeWhile

/-!
# The words of a text

A text is cut at its breaks; the non-empty pieces are its words, the longest
runs of symbols that are no breaks.
-/

namespace Words

variable {α : Type*} {isBreak : α → Bool}

def words (isBreak : α → Bool) (text : List α) : List (List α) :=
  (text.splitOnP isBreak).filter fun word => !word.isEmpty

@[simp]
theorem words_nil : words isBreak [] = [] := by simp [words]

theorem words_append_break {symbol : α} (broken : isBreak symbol) (left right : List α) :
    words isBreak (left ++ symbol :: right) = words isBreak left ++ words isBreak right := by
  rw [words, List.splitOnP_append_cons left right broken, List.filter_append]
  rfl

theorem words_cons_break {symbol : α} (broken : isBreak symbol) (text : List α) :
    words isBreak (symbol :: text) = words isBreak text := by
  simpa using words_append_break broken [] text

theorem words_concat_break {symbol : α} (broken : isBreak symbol) (text : List α) :
    words isBreak (text ++ [symbol]) = words isBreak text := by
  simpa using words_append_break broken text []

theorem words_of_unbroken {word : List α} (nonempty : word ≠ [])
    (unbroken : ∀ symbol ∈ word, isBreak symbol = false) : words isBreak word = [word] := by
  rw [words, List.splitOnP_eq_singleton unbroken]
  simp [nonempty]

theorem words_dropWhile (text : List α) :
    words isBreak (text.dropWhile isBreak) = words isBreak text := by
  induction text with
  | nil => rfl
  | cons symbol text ih =>
    by_cases broken : isBreak symbol
    · rw [List.dropWhile_cons_of_pos broken, ih, words_cons_break broken]
    · rw [List.dropWhile_cons_of_neg broken]

theorem words_eq_cons {symbol : α} {text : List α} (unbroken : isBreak symbol = false) :
    words isBreak (symbol :: text) =
      (symbol :: text.takeWhile (!isBreak ·)) :: words isBreak (text.dropWhile (!isBreak ·)) := by
  have split := @List.takeWhile_append_dropWhile _ (!isBreak ·) text
  have word : words isBreak (symbol :: text.takeWhile (!isBreak ·)) =
      [symbol :: text.takeWhile (!isBreak ·)] := by
    apply words_of_unbroken (List.cons_ne_nil _ _)
    intro next isNext
    rcases List.mem_cons.mp isNext with rfl | taken
    · exact unbroken
    · simpa using List.mem_takeWhile_imp taken
  cases rest : text.dropWhile (!isBreak ·) with
  | nil =>
    rw [rest, List.append_nil] at split
    rw [split] at word ⊢
    rw [word, words_nil]
  | cons next rest' =>
    have broken : isBreak next := by
      have stops := @List.head_dropWhile_not _ (!isBreak ·) text (by simp [rest])
      simpa [rest] using stops
    rw [rest] at split
    calc
      words isBreak (symbol :: text)
          = words isBreak ((symbol :: text.takeWhile (!isBreak ·)) ++ next :: rest') := by
            rw [List.cons_append, split]
      _ = words isBreak (symbol :: text.takeWhile (!isBreak ·)) ++ words isBreak rest' :=
          words_append_break broken _ _
      _ = (symbol :: text.takeWhile (!isBreak ·)) :: words isBreak (next :: rest') := by
          rw [word, words_cons_break broken, List.singleton_append]

theorem words_eq_nil_iff {text : List α} :
    words isBreak text = [] ↔ ∀ symbol ∈ text, isBreak symbol := by
  induction text with
  | nil => simp
  | cons symbol text ih =>
    by_cases broken : isBreak symbol
    · rw [words_cons_break broken, ih]
      simp [broken]
    · rw [words_eq_cons (by simpa using broken)]
      simp [broken]

theorem words_append_word {front word : List α} (boundary : ∀ last ∈ front.getLast?, isBreak last)
    (nonempty : word ≠ []) (unbroken : ∀ symbol ∈ word, isBreak symbol = false) :
    words isBreak (front ++ word) = words isBreak front ++ [word] := by
  rcases List.eq_nil_or_concat' front with rfl | ⟨front, last, rfl⟩
  · simpa using words_of_unbroken nonempty unbroken
  · have broken : isBreak last := boundary last (by simp)
    rw [List.append_assoc, List.singleton_append, words_append_break broken,
      words_concat_break broken, words_of_unbroken nonempty unbroken]

theorem words_append_breaks {text breaks : List α} (broken : ∀ symbol ∈ breaks, isBreak symbol) :
    words isBreak (text ++ breaks) = words isBreak text := by
  induction breaks using List.reverseRecOn with
  | nil => rw [List.append_nil]
  | append_singleton breaks last ih =>
    rw [List.forall_mem_append, List.forall_mem_singleton] at broken
    rw [← List.append_assoc, words_concat_break broken.2, ih broken.1]

theorem exists_last_word {text : List α} (some : words isBreak text ≠ []) :
    ∃ front word breaks, text = front ++ word ++ breaks ∧ word ≠ [] ∧
      (∀ symbol ∈ word, isBreak symbol = false) ∧ (∀ symbol ∈ breaks, isBreak symbol) ∧
      ∀ last ∈ front.getLast?, isBreak last := by
  induction text using List.reverseRecOn with
  | nil => exact absurd words_nil some
  | append_singleton text last ih =>
    by_cases broken : isBreak last
    · rw [words_concat_break broken] at some
      rcases ih some with ⟨front, word, breaks, rfl, nonempty, unbroken, behind, boundary⟩
      refine ⟨front, word, breaks ++ [last], by simp, nonempty, unbroken, ?_, boundary⟩
      rw [List.forall_mem_append, List.forall_mem_singleton]
      exact ⟨behind, broken⟩
    · by_cases boundary : ∀ previous ∈ text.getLast?, isBreak previous
      · exact ⟨text, [last], [], by simp, by simp, by simpa using broken, by simp, boundary⟩
      · -- the last symbol belongs to the word that the text before it ends in
        push Not at boundary
        rcases boundary with ⟨previous, isPrevious, within⟩
        have some : words isBreak text ≠ [] := by
          intro none
          exact within (words_eq_nil_iff.mp none previous (List.mem_of_getLast? isPrevious))
        rcases ih some with ⟨front, word, breaks, rfl, nonempty, unbroken, behind, boundary⟩
        have unended : breaks = [] := by
          by_contra more
          rw [List.getLast?_append_of_ne_nil _ more] at isPrevious
          exact within (behind previous (List.mem_of_getLast? isPrevious))
        refine ⟨front, word ++ [last], [], by simp [unended], by simp, ?_, by simp, boundary⟩
        rw [List.forall_mem_append, List.forall_mem_singleton]
        exact ⟨unbroken, by simpa using broken⟩

end Words
