import Mathlib.Data.List.Infix

/-!
# Texts cut at a separator

A text is put together from parts that do not contain the separator, each behind
a separator of its own. A prefix of such a text that ends at a boundary is put
together from the first parts.
-/

namespace Separated

variable {α : Type*} {separator : α}

def marked (separator : α) (parts : List (List α)) : List α :=
  parts.flatMap (separator :: ·)

def AtBoundary (separator : α) (text : List α) : Prop :=
  ∀ first ∈ text.head?, first = separator

@[simp]
theorem marked_nil : marked separator [] = [] := rfl

@[simp]
theorem marked_cons (part : List α) (parts : List (List α)) :
    marked separator (part :: parts) = separator :: (part ++ marked separator parts) := by
  simp [marked]

@[simp]
theorem marked_append (front back : List (List α)) :
    marked separator (front ++ back) = marked separator front ++ marked separator back := by
  simp [marked]

theorem marked_eq_cons_intercalate (first : List α) (rest : List (List α)) :
    marked separator (first :: rest) =
      separator :: List.intercalate [separator] (first :: rest) := by
  induction rest generalizing first with
  | nil => simp
  | cons second rest ih =>
    rw [marked_cons, ih, List.intercalate_cons_cons]
    simp

theorem notMem_marked {other : α} {parts : List (List α)} (distinct : other ≠ separator)
    (absent : ∀ part ∈ parts, other ∉ part) : other ∉ marked separator parts := by
  simp only [marked, List.mem_flatMap, List.mem_cons, not_exists, not_and, not_or]
  exact fun part listed => ⟨distinct, absent part listed⟩

theorem length_lt_length_marked {parts : List (List α)} (nonempty : parts ≠ [])
    (filled : ∀ part ∈ parts, part ≠ []) : 1 < (marked separator parts).length := by
  rcases List.exists_cons_of_ne_nil nonempty with ⟨first, rest, rfl⟩
  have positive := List.length_pos_of_ne_nil (filled first (by simp))
  simp only [marked_cons, List.length_cons, List.length_append]
  omega

theorem atBoundary_marked (parts : List (List α)) :
    AtBoundary separator (marked separator parts) := by
  cases parts with
  | nil => simp [AtBoundary]
  | cons part parts => simp [AtBoundary]

theorem append_inj_of_boundary {left right leftRest rightRest : List α}
    (leftFree : separator ∉ left) (rightFree : separator ∉ right)
    (leftBoundary : AtBoundary separator leftRest)
    (rightBoundary : AtBoundary separator rightRest)
    (same : left ++ leftRest = right ++ rightRest) : left = right ∧ leftRest = rightRest := by
  induction left generalizing right with
  | nil =>
    cases right with
    | nil => exact ⟨rfl, same⟩
    | cons first right =>
      rw [List.nil_append] at same
      subst same
      exact absurd (leftBoundary first (by simp)) (fun equal => rightFree (by simp [equal]))
  | cons first left ih =>
    cases right with
    | nil =>
      rw [List.nil_append] at same
      subst same
      exact absurd (rightBoundary first (by simp)) (fun equal => leftFree (by simp [equal]))
    | cons second right =>
      simp only [List.mem_cons, not_or] at leftFree rightFree
      rw [List.cons_append, List.cons_append, List.cons.injEq] at same
      rcases ih leftFree.2 rightFree.2 same.2 with ⟨rfl, rest⟩
      exact ⟨by rw [same.1], rest⟩

theorem prefix_of_marked {parts whole : List (List α)} {rest : List α}
    (partsFree : ∀ part ∈ parts, separator ∉ part) (wholeFree : ∀ part ∈ whole, separator ∉ part)
    (boundary : AtBoundary separator rest)
    (same : marked separator whole = marked separator parts ++ rest) : parts <+: whole := by
  induction parts generalizing whole with
  | nil => exact List.nil_prefix
  | cons part parts ih =>
    cases whole with
    | nil => simp at same
    | cons first whole =>
      simp only [List.forall_mem_cons] at partsFree wholeFree
      rw [marked_cons, marked_cons, List.cons_append, List.cons.injEq,
        List.append_assoc] at same
      have behind : AtBoundary separator (marked separator parts ++ rest) := by
        cases parts with
        | nil => simpa using boundary
        | cons => simp [AtBoundary]
      rcases append_inj_of_boundary wholeFree.1 partsFree.1 (atBoundary_marked whole) behind
        same.2 with ⟨rfl, onward⟩
      exact List.prefix_cons_inj first |>.mpr (ih partsFree.2 wholeFree.2 onward)

theorem length_marked_lt {shorter longer : List (List α)} (isPrefix : shorter <+: longer)
    (fewer : shorter.length < longer.length) :
    (marked separator shorter).length < (marked separator longer).length := by
  rcases isPrefix with ⟨rest, rfl⟩
  cases rest with
  | nil => simp at fewer
  | cons part rest =>
    simp only [marked_append, marked_cons, List.length_append, List.length_cons]
    omega

end Separated
