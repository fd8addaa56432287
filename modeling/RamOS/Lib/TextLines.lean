import Mathlib.Data.List.DropRight

/-!
# Cutting a text into lines and fields

A reader that copies lines into a buffer of a fixed size takes at most `limit` symbols of
a line at a time; a longer line goes on as if it were the next one. A text that consists
of lines that fit is cut into just these lines.

`cut` splits at the first mark, and `strip` removes what may be removed at either end.
-/

namespace TextLines

variable {α : Type*} [DecidableEq α] {newline mark : α} {limit : ℕ} {text : List α}

def line (newline : α) (limit : ℕ) (text : List α) : List α :=
  (text.take limit).takeWhile (· ≠ newline)

def afterLine (newline : α) (limit : ℕ) (text : List α) : List α :=
  let rest := text.drop (line newline limit text).length
  if rest.head? = some newline then rest.tail else rest

def linesFrom (newline : α) (limit : ℕ) : ℕ → List α → List (List α)
  | 0, _ => []
  | _ + 1, [] => []
  | fuel + 1, first :: rest =>
    line newline limit (first :: rest) ::
      linesFrom newline limit fuel (afterLine newline limit (first :: rest))

def lines (newline : α) (limit : ℕ) (text : List α) : List (List α) :=
  linesFrom newline limit text.length text

def join (newline : α) (parts : List (List α)) : List α := parts.flatMap (· ++ [newline])

theorem line_append_drop (newline : α) (limit : ℕ) (text : List α) :
    line newline limit text ++ text.drop (line newline limit text).length = text := by
  have isPrefix : line newline limit text <+: text :=
    (List.takeWhile_prefix _).trans (List.take_prefix limit text)
  exact (List.prefix_iff_eq_append.mp isPrefix)

theorem line_subset (newline : α) (limit : ℕ) (text : List α) :
    line newline limit text ⊆ text :=
  ((List.takeWhile_prefix _).trans (List.take_prefix limit text)).subset

theorem afterLine_subset (newline : α) (limit : ℕ) (text : List α) :
    afterLine newline limit text ⊆ text := by
  intro symbol listed
  apply (List.drop_suffix (line newline limit text).length text).subset
  rw [afterLine] at listed
  split at listed
  next => exact List.mem_of_mem_tail listed
  next => exact listed

theorem subset_of_mem_linesFrom {fuel : ℕ} {part : List α}
    (listed : part ∈ linesFrom newline limit fuel text) : part ⊆ text := by
  induction fuel generalizing text with
  | zero => cases listed
  | succ fuel ih =>
    cases text with
    | nil => cases listed
    | cons first rest =>
      rw [linesFrom, List.mem_cons] at listed
      rcases listed with rfl | later
      · apply line_subset
      · exact List.Subset.trans (ih later) (afterLine_subset newline limit _)

theorem length_line_le (newline : α) (limit : ℕ) (text : List α) :
    (line newline limit text).length ≤ limit :=
  (List.takeWhile_prefix _).length_le.trans (List.length_take_le limit text)

theorem length_afterLine_lt (positive : 0 < limit) (nonempty : text ≠ []) :
    (afterLine newline limit text).length < text.length := by
  rcases List.exists_cons_of_ne_nil nonempty with ⟨first, rest, rfl⟩
  rcases limit with _ | limit
  · omega
  by_cases isNewline : first = newline
  · simp [afterLine, line, isNewline]
  · have shape : line newline (limit + 1) (first :: rest) =
        first :: (rest.take limit).takeWhile (· ≠ newline) := by
      simp [line, isNewline]
    simp only [afterLine, shape, List.length_cons, List.drop_succ_cons]
    split
    next =>
      rw [List.length_tail, List.length_drop]
      omega
    next =>
      rw [List.length_drop]
      omega

theorem linesFrom_eq (positive : 0 < limit) {fuel : ℕ} (enough : text.length ≤ fuel) :
    linesFrom newline limit fuel text = lines newline limit text := by
  have independent (fuel more : ℕ) (text : List α) (one : text.length ≤ fuel)
      (two : text.length ≤ more) :
      linesFrom newline limit fuel text = linesFrom newline limit more text := by
    induction fuel generalizing more text with
    | zero =>
      have empty : text = [] := List.length_eq_zero_iff.mp (Nat.le_zero.mp one)
      cases more <;> simp [linesFrom, empty]
    | succ fuel ih =>
      cases text with
      | nil => cases more <;> simp [linesFrom]
      | cons first rest =>
        rcases Nat.exists_eq_succ_of_ne_zero (Nat.ne_zero_of_lt two) with ⟨more, rfl⟩
        have shorter := @length_afterLine_lt _ _ newline limit (first :: rest) positive
          (List.cons_ne_nil _ _)
        rw [List.length_cons] at one two shorter
        rw [linesFrom, linesFrom, ih more _ (by omega) (by omega)]
  exact independent fuel text.length text enough le_rfl

theorem lines_eq_cons (positive : 0 < limit) (nonempty : text ≠ []) :
    lines newline limit text =
      line newline limit text :: lines newline limit (afterLine newline limit text) := by
  rcases List.exists_cons_of_ne_nil nonempty with ⟨first, rest, rfl⟩
  have shorter := @length_afterLine_lt _ _ newline limit (first :: rest) positive nonempty
  rw [List.length_cons] at shorter
  rw [lines, List.length_cons, linesFrom, linesFrom_eq positive (by omega)]

theorem ne_of_absent (absent : mark ∉ text) : ∀ symbol ∈ text, decide (symbol ≠ mark) = true := by
  intro symbol listed
  rw [decide_eq_true_eq]
  rintro rfl
  exact absent listed

theorem takeWhile_of_absent (absent : mark ∉ text) : text.takeWhile (· ≠ mark) = text :=
  List.takeWhile_eq_self_iff.mpr (ne_of_absent absent)

theorem line_append {part rest : List α} (noNewline : newline ∉ part)
    (fits : part.length ≤ limit) : line newline limit (part ++ newline :: rest) = part := by
  rcases Nat.exists_eq_add_of_le fits with ⟨room, rfl⟩
  rw [line, List.take_length_add_append, List.takeWhile_append_of_pos (ne_of_absent noNewline)]
  cases room with
  | zero => simp
  | succ room => simp

theorem line_last {part : List α} (noNewline : newline ∉ part) (fits : part.length ≤ limit) :
    line newline limit part = part := by
  rw [line, List.take_of_length_le fits, takeWhile_of_absent noNewline]

theorem line_full {part rest : List α} (noNewline : newline ∉ part) (full : part.length = limit) :
    line newline limit (part ++ rest) = part := by
  rw [line, List.take_left' full, takeWhile_of_absent noNewline]

theorem afterLine_full {part rest : List α} (noNewline : newline ∉ part)
    (full : part.length = limit) (goesOn : rest.head? ≠ some newline) :
    afterLine newline limit (part ++ rest) = rest := by
  simp [afterLine, line_full noNewline full, goesOn]

theorem afterLine_append {part rest : List α} (noNewline : newline ∉ part)
    (fits : part.length ≤ limit) : afterLine newline limit (part ++ newline :: rest) = rest := by
  simp [afterLine, line_append noNewline fits]

theorem lines_join (positive : 0 < limit) {parts : List (List α)}
    (proper : ∀ part ∈ parts, newline ∉ part ∧ part.length ≤ limit) :
    lines newline limit (join newline parts) = parts := by
  induction parts with
  | nil => rfl
  | cons part parts ih =>
    have shape : join newline (part :: parts) = part ++ newline :: join newline parts := by
      simp [join]
    have first := proper part List.mem_cons_self
    have rest := ih fun part listed => proper part (List.mem_cons_of_mem _ listed)
    rw [shape, lines_eq_cons positive (by simp), line_append first.1 first.2,
      afterLine_append first.1 first.2, rest]

def cut (mark : α) (text : List α) : Option (List α × List α) :=
  match text.dropWhile (· ≠ mark) with
  | [] => none
  | _ :: rest => some (text.takeWhile (· ≠ mark), rest)

theorem cut_append {left right : List α} (noMark : mark ∉ left) :
    cut mark (left ++ mark :: right) = some (left, right) := by
  have all := ne_of_absent noMark
  have stops : (mark :: right).dropWhile (· ≠ mark) = mark :: right := by simp
  have none : (mark :: right).takeWhile (· ≠ mark) = [] := by simp
  rw [cut, List.dropWhile_append_of_pos all, stops, List.takeWhile_append_of_pos all, none,
    List.append_nil]

theorem cut_eq_none_iff : cut mark text = none ↔ mark ∉ text := by
  by_cases listed : mark ∈ text
  · rcases List.eq_append_cons_of_mem listed with ⟨left, right, rfl, absent⟩
    simp [cut_append absent]
  · refine iff_of_true ?_ listed
    rw [cut, List.dropWhile_eq_nil_iff.mpr (ne_of_absent listed)]

theorem eq_append_of_cut {left right : List α} (isCut : cut mark text = some (left, right)) :
    text = left ++ mark :: right ∧ mark ∉ left := by
  by_cases listed : mark ∈ text
  · rcases List.eq_append_cons_of_mem listed with ⟨before, behind, rfl, absent⟩
    rw [cut_append absent, Option.some.injEq, Prod.mk.injEq] at isCut
    rcases isCut with ⟨rfl, rfl⟩
    exact ⟨rfl, absent⟩
  · rw [cut_eq_none_iff.mpr listed] at isCut
    cases isCut

/-- Remove what may be removed at the front and at the back of a text. -/
def strip (front back : α → Bool) (text : List α) : List α :=
  (text.dropWhile front).rdropWhile back

section Strip

variable {front back : α → Bool}

omit [DecidableEq α] in
theorem strip_concat (text : List α) {symbol : α} (removable : back symbol) :
    strip front back (text ++ [symbol]) = strip front back text := by
  induction text with
  | nil =>
    rw [List.nil_append, strip, List.dropWhile_cons]
    split
    next => rfl
    next => rw [List.rdropWhile_singleton, if_pos removable]; rfl
  | cons first text ih =>
    by_cases skipped : front first = true
    · have shorter (rest : List α) :
          strip front back (first :: rest) = strip front back rest := by
        rw [strip, List.dropWhile_cons_of_pos skipped, strip]
      rw [List.cons_append, shorter, shorter, ih]
    · rw [strip, strip, List.cons_append, List.dropWhile_cons_of_neg skipped,
        List.dropWhile_cons_of_neg skipped, ← List.cons_append,
        List.rdropWhile_concat_pos _ _ _ removable]

omit [DecidableEq α] in
theorem strip_append_right (text : List α) {trail : List α}
    (isTrail : ∀ symbol ∈ trail, back symbol) :
    strip front back (text ++ trail) = strip front back text := by
  induction trail using List.reverseRecOn with
  | nil => rw [List.append_nil]
  | append_singleton trail symbol ih =>
    rw [← List.append_assoc, strip_concat _ (isTrail symbol (by simp))]
    exact ih fun symbol listed => isTrail symbol (List.mem_append_left _ listed)

omit [DecidableEq α] in
theorem strip_append_left (text : List α) {lead : List α} (isLead : ∀ symbol ∈ lead, front symbol) :
    strip front back (lead ++ text) = strip front back text := by
  rw [strip, List.dropWhile_append_of_pos isLead, strip]

omit [DecidableEq α] in
theorem strip_append {lead body trail : List α} (nonempty : body ≠ [])
    (isLead : ∀ symbol ∈ lead, front symbol) (starts : ∀ symbol ∈ body.head?, ¬front symbol)
    (ends : ∀ symbol ∈ body.getLast?, ¬back symbol) (isTrail : ∀ symbol ∈ trail, back symbol) :
    strip front back (lead ++ body ++ trail) = body := by
  have kept : body.dropWhile front = body := by
    rcases List.exists_cons_of_ne_nil nonempty with ⟨first, rest, rfl⟩
    exact List.dropWhile_cons_of_neg (starts first rfl)
  rw [strip_append_right _ isTrail, strip_append_left _ isLead, strip, kept,
    List.rdropWhile_eq_self_iff]
  exact fun some => ends _ (List.getLast?_eq_some_getLast some)

omit [DecidableEq α] in
theorem strip_dropWhile (text : List α) :
    strip front back (text.dropWhile front) = strip front back text := by
  have whole : text.takeWhile front ++ text.dropWhile front = text :=
    List.takeWhile_append_dropWhile
  have skipped := @strip_append_left α front back (text.dropWhile front) (text.takeWhile front)
    fun symbol listed => List.all_eq_true.mp List.all_takeWhile symbol listed
  rwa [whole, eq_comm] at skipped

omit [DecidableEq α] in
theorem strip_rdropWhile (text : List α) :
    strip front back (text.rdropWhile back) = strip front back text := by
  have whole : text.rdropWhile back ++ text.rtakeWhile back = text :=
    List.rdropWhile_append_rtakeWhile
  have skipped := @strip_append_right α front back (text.rdropWhile back) (text.rtakeWhile back)
    fun symbol listed => List.mem_rtakeWhile_imp listed
  rwa [whole, eq_comm] at skipped

omit [DecidableEq α] in
theorem strip_mark {left right : List α} {mark : α} (notFront : ¬front mark)
    (notBack : ¬back mark) :
    strip front back (left ++ mark :: right) =
      left.dropWhile front ++ mark :: right.rdropWhile back := by
  have cutFront : (left ++ mark :: right).dropWhile front =
      left.dropWhile front ++ mark :: right := by
    induction left with
    | nil => exact List.dropWhile_cons_of_neg notFront
    | cons first left ih =>
      rw [List.cons_append]
      by_cases skipped : front first = true
      · rw [List.dropWhile_cons_of_pos skipped, List.dropWhile_cons_of_pos skipped, ih]
      · rw [List.dropWhile_cons_of_neg skipped, List.dropWhile_cons_of_neg skipped,
          List.cons_append]
  rw [strip, cutFront]
  clear cutFront
  generalize left.dropWhile front = before
  induction right using List.reverseRecOn with
  | nil => rw [List.rdropWhile_concat_neg _ _ _ notBack, List.rdropWhile_nil]
  | append_singleton right symbol ih =>
    rw [← List.cons_append, ← List.append_assoc]
    by_cases removable : back symbol = true
    · rw [List.rdropWhile_concat_pos _ _ _ removable, List.rdropWhile_concat_pos _ _ _ removable,
        ih]
    · rw [List.rdropWhile_concat_neg _ _ _ removable, List.rdropWhile_concat_neg _ _ _ removable,
        List.append_assoc, List.cons_append]

end Strip

end TextLines
