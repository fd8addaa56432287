import Mathlib.Data.List.Basic

/-!
# Slices of a list

Reading a run of entries of a list and replacing one. The two are related where
the run lies inside the list: what was put in is read back, and runs behind the
replaced one are not affected.
-/

namespace Slice

variable {α : Type}

def slice (entries : List α) (offset count : ℕ) : List α := (entries.drop offset).take count

def splice (entries : List α) (offset : ℕ) (new : List α) : List α :=
  entries.take offset ++ new ++ entries.drop (offset + new.length)

theorem slice_add (entries : List α) (offset left right : ℕ) :
    slice entries offset (left + right) =
      slice entries offset left ++ slice entries (offset + left) right := by
  rw [slice, slice, slice, List.take_add, List.drop_drop]

theorem length_splice {entries new : List α} {offset : ℕ}
    (inside : offset + new.length ≤ entries.length) :
    (splice entries offset new).length = entries.length := by
  simp only [splice, List.length_append, List.length_take, List.length_drop]
  omega

theorem drop_splice {entries new : List α} {offset : ℕ}
    (inside : offset + new.length ≤ entries.length) :
    (splice entries offset new).drop (offset + new.length) =
      entries.drop (offset + new.length) := by
  apply List.drop_left'
  simp only [List.length_append, List.length_take]
  omega

theorem exists_eraseP_eq {matching : α → Bool} {list : List α} {found : α}
    (isFirst : list.find? matching = some found) :
    ∃ front back, list = front ++ found :: back ∧ list.eraseP matching = front ++ back := by
  rcases List.find?_eq_some_iff_append.mp isFirst with ⟨matched, front, back, split, earlier⟩
  refine ⟨front, back, split, ?_⟩
  rw [split, List.eraseP_append_right _ (fun other listed => by simpa using earlier other listed),
    List.eraseP_cons, matched]
  rfl

end Slice
