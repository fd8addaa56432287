import Mathlib.Order.Interval.Finset.Nat

/-!
# Round robin

A rota is a list of items with a cursor that stays within it. A turn moves the cursor to the
next place, from the last one to the first, and selects the item there. Items are added behind
the last one and removed at any place; a cursor that a removal leaves without an item goes back
to the first place.
-/

namespace RoundRobin

structure Rota (α : Type*) where
  items : List α
  cursor : ℕ
  inside : cursor < max items.length 1

namespace Rota

variable {α : Type*}

def next (rota : Rota α) : ℕ := (rota.cursor + 1) % rota.items.length

def selected (rota : Rota α) : Option α := rota.items[rota.next]?

def turn (rota : Rota α) : Rota α where
  items := rota.items
  cursor := if rota.items.length = 0 then rota.cursor else rota.next
  inside := by
    split
    · exact rota.inside
    · exact lt_max_of_lt_left (Nat.mod_lt _ (by omega))

def add (rota : Rota α) (item : α) : Rota α where
  items := rota.items ++ [item]
  cursor := rota.cursor
  inside := by
    have inside := rota.inside
    simp only [List.length_append, List.length_singleton]
    omega

def removeAt (rota : Rota α) (place : ℕ) : Rota α where
  items := rota.items.eraseIdx place
  cursor := if rota.cursor < (rota.items.eraseIdx place).length then rota.cursor else 0
  inside := by
    split <;> omega

@[simp]
theorem items_turn (rota : Rota α) : rota.turn.items = rota.items := rfl

@[simp]
theorem items_removeAt (rota : Rota α) (place : ℕ) :
    (rota.removeAt place).items = rota.items.eraseIdx place := rfl

theorem cursor_removeAt (rota : Rota α) (place : ℕ) : (rota.removeAt place).cursor =
    if rota.cursor < (rota.items.eraseIdx place).length then rota.cursor else 0 := rfl

theorem cursor_turn (rota : Rota α) (occupied : 0 < rota.items.length) :
    rota.turn.cursor = rota.next :=
  if_neg (Nat.ne_of_gt occupied)

theorem items_turns (rota : Rota α) (turns : ℕ) : (turn^[turns] rota).items = rota.items := by
  induction turns with
  | zero => rfl
  | succ turns ih => simp [Function.iterate_succ_apply', ih]

theorem cursor_turns (rota : Rota α) (occupied : 0 < rota.items.length) (turns : ℕ) :
    (turn^[turns] rota).cursor = (rota.cursor + turns) % rota.items.length := by
  induction turns with
  | zero =>
    have inside : rota.cursor < rota.items.length := by
      simpa [Nat.max_eq_left occupied] using rota.inside
    simp [Nat.mod_eq_of_lt inside]
  | succ turns ih =>
    rw [Function.iterate_succ_apply', cursor_turn _ (by rwa [items_turns]), next, items_turns, ih]
    simp [Nat.add_assoc]

theorem window_perm (rota : Rota α) :
    ((List.range rota.items.length).map fun k => (turn^[k + 1] rota).cursor).Perm
      (List.range rota.items.length) := by
  rcases Nat.eq_zero_or_pos rota.items.length with empty | occupied
  · simp [empty]
  · have window := Nat.multiset_Ico_map_mod (rota.cursor + 1) rota.items.length
    rw [Multiset.Ico, Nat.Ico_eq_range', Nat.add_sub_cancel_left] at window
    simp only [cursor_turns rota occupied]
    apply Multiset.coe_eq_coe.mp
    simpa only [Multiset.map_coe, Multiset.range, List.range'_eq_map_range, List.map_map,
      Function.comp_def, Nat.add_assoc, Nat.add_comm 1] using window

theorem succ_mod_eq_ite {cursor length : ℕ} (inside : cursor < length) :
    (cursor + 1) % length = if cursor + 1 = length then 0 else cursor + 1 := by
  split
  case isTrue last => rw [last, Nat.mod_self]
  case isFalse inner => exact Nat.mod_eq_of_lt (by omega)

/-- After the removal of an item that is not the next one, the next turn stays the same only where
the removed place lies behind it, or where nothing else is left. -/
theorem selected_removeAt_iff (rota : Rota α) (distinct : rota.items.Nodup) {place : ℕ}
    (listed : place < rota.items.length) (other : rota.next ≠ place) :
    (rota.removeAt place).selected = rota.selected ↔
      rota.items.length = 2 ∨ rota.cursor + 1 < place := by
  have inside := rota.inside
  have nextListed : rota.next < rota.items.length := Nat.mod_lt _ (by omega)
  have erased : (rota.removeAt place).items.length = rota.items.length - 1 :=
    List.length_eraseIdx_of_lt listed
  have insideAfter := (rota.removeAt place).inside
  have remaining : (rota.removeAt place).next < rota.items.length - 1 := by
    rw [next, erased]
    exact Nat.mod_lt _ (by omega)
  -- the place before the removal of the item that is selected after it
  have selectedAfter : (rota.removeAt place).selected =
      rota.items[if (rota.removeAt place).next < place then (rota.removeAt place).next
        else (rota.removeAt place).next + 1]? := by
    rw [apply_ite (fun i => rota.items[i]?)]
    exact List.getElem?_eraseIdx
  rw [selectedAfter, selected, List.getElem?_eq_getElem (by split <;> omega),
    List.getElem?_eq_getElem nextListed, Option.some_inj, distinct.getElem_inj_iff]
  have nextEq : rota.next = if rota.cursor + 1 = rota.items.length then 0 else rota.cursor + 1 :=
    succ_mod_eq_ite (by omega)
  have nextAfterEq : (rota.removeAt place).next =
      if (rota.removeAt place).cursor + 1 = rota.items.length - 1 then 0
      else (rota.removeAt place).cursor + 1 := by
    rw [next, erased]
    exact succ_mod_eq_ite (by omega)
  have cursorAfter : (rota.removeAt place).cursor =
      if rota.cursor < rota.items.length - 1 then rota.cursor else 0 := by
    rw [cursor_removeAt, ← items_removeAt, erased]
  split_ifs at * <;> omega

end Rota

end RoundRobin
