import Mathlib.Data.List.Basic
import Mathlib.Data.Nat.Notation
import Mathlib.Logic.Function.Basic

/-!
# Lists kept in an array

An array and a count stand for the list of the first elements. Inserting and deleting
move the elements behind the place, one at a time, and the loops that do this are
insertion into the list and deletion from it.
-/

namespace ArrayList

variable {α : Type*} {slots : ℕ → α} {count index : ℕ} {item : α}

def toList (slots : ℕ → α) (count : ℕ) : List α := (List.range count).map slots

/-- The loop `for (i = index + count; i > index; i--) slots[i] = slots[i - 1]`. -/
def shiftDown (slots : ℕ → α) (index : ℕ) : ℕ → ℕ → α
  | 0 => slots
  | count + 1 =>
    shiftDown (Function.update slots (index + count + 1) (slots (index + count))) index count

/-- The loop `for (i = index; i < index + count; i++) slots[i] = slots[i + 1]`. -/
def shiftUp (slots : ℕ → α) (index : ℕ) : ℕ → ℕ → α
  | 0 => slots
  | count + 1 => shiftUp (Function.update slots index (slots (index + 1))) (index + 1) count

theorem length_toList (slots : ℕ → α) (count : ℕ) : (toList slots count).length = count := by
  simp [toList]

theorem getElem?_toList (slots : ℕ → α) (count i : ℕ) :
    (toList slots count)[i]? = if i < count then some (slots i) else none := by
  simp only [toList, List.getElem?_map]
  by_cases inside : i < count
  · rw [if_pos inside, List.getElem?_range inside, Option.map_some]
  · rw [if_neg inside, List.getElem?_eq_none (by simpa using inside), Option.map_none]

theorem toList_congr {left right : ℕ → α} (agree : ∀ i < count, left i = right i) :
    toList left count = toList right count := by
  apply List.map_congr_left
  intro i listed
  exact agree i (List.mem_range.mp listed)

theorem toList_push : toList (Function.update slots count item) (count + 1) =
    toList slots count ++ [item] := by
  have before : toList (Function.update slots count item) count = toList slots count := by
    apply toList_congr
    intro i inside
    exact Function.update_of_ne (by omega) _ _
  rw [toList, List.range_succ, List.map_append, List.map_singleton, Function.update_self, ← toList,
    before]

theorem insertIdx_append (before after : List α) (item : α) :
    (before ++ after).insertIdx before.length item = before ++ item :: after := by
  induction before with
  | nil => rfl
  | cons first before ih => simpa using ih

theorem shiftDown_apply (slots : ℕ → α) (index count i : ℕ) :
    shiftDown slots index count i =
      if index < i ∧ i ≤ index + count then slots (i - 1) else slots i := by
  induction count generalizing slots with
  | zero => rw [shiftDown, if_neg (by omega)]
  | succ count ih =>
    rw [shiftDown, ih]
    by_cases last : i = index + count + 1
    · rw [if_neg (by omega), if_pos (by omega), last, Function.update_self]
      rfl
    · by_cases moved : index < i ∧ i ≤ index + count
      · rw [if_pos moved, if_pos (by omega), Function.update_of_ne (by omega)]
      · rw [if_neg moved, if_neg (by omega), Function.update_of_ne last]

theorem shiftUp_apply (slots : ℕ → α) (index count i : ℕ) :
    shiftUp slots index count i =
      if index ≤ i ∧ i < index + count then slots (i + 1) else slots i := by
  induction count generalizing slots index with
  | zero => rw [shiftUp, if_neg (by omega)]
  | succ count ih =>
    rw [shiftUp, ih]
    by_cases first : i = index
    · rw [if_neg (by omega), if_pos (by omega), first, Function.update_self]
    · by_cases moved : index + 1 ≤ i ∧ i < index + 1 + count
      · rw [if_pos moved, if_pos (by omega), Function.update_of_ne (by omega)]
      · rw [if_neg moved, if_neg (by omega), Function.update_of_ne first]

theorem toList_insert (inside : index ≤ count) :
    toList (Function.update (shiftDown slots index (count - index)) index item) (count + 1) =
      (toList slots count).insertIdx index item := by
  apply List.ext_getElem?
  intro i
  rw [getElem?_toList, List.getElem?_insertIdx, length_toList]
  rcases Nat.lt_trichotomy i index with before | rfl | behind
  · rw [if_pos (by omega), if_pos before, Function.update_of_ne (by omega), shiftDown_apply,
      if_neg (by omega), getElem?_toList, if_pos (by omega)]
  · rw [if_pos (by omega), if_neg (by omega), if_pos rfl, if_pos inside, Function.update_self]
  · rw [if_neg (by omega : ¬ i < index), if_neg (by omega : ¬ i = index), getElem?_toList,
      Function.update_of_ne (by omega), shiftDown_apply]
    by_cases listed : i < count + 1
    · rw [if_pos listed, if_pos (by omega), if_pos (by omega)]
    · rw [if_neg listed, if_neg (by omega)]

theorem toList_erase (inside : index < count) :
    toList (shiftUp slots index (count - 1 - index)) (count - 1) =
      (toList slots count).eraseIdx index := by
  apply List.ext_getElem?
  intro i
  rw [getElem?_toList, List.getElem?_eraseIdx, getElem?_toList, getElem?_toList, shiftUp_apply]
  by_cases before : i < index
  · rw [if_pos (by omega), if_neg (by omega), if_pos before, if_pos (by omega)]
  · by_cases listed : i < count - 1
    · rw [if_pos listed, if_pos (by omega), if_neg before, if_pos (by omega)]
    · rw [if_neg listed, if_neg before, if_neg (by omega)]

end ArrayList
