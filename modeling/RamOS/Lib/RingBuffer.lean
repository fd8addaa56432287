import Mathlib.Algebra.Group.Fin.Basic
import Mathlib.Algebra.GroupWithZero.Nat
import Mathlib.Data.Fin.Basic

/-!
# Ring buffers

A ring of `capacity` cells with a read and a write position, one cell of which
always stays unused: the ring is empty when the positions are equal and full
when the write position is just behind the read position. Its meaning is the
list of the cells from the read position up to the write position.
-/

/-- A ring buffer that drops what it has no room for. -/
structure RingBuffer (α : Type) (capacity : ℕ) where
  cells : Fin capacity → α
  readPos : Fin capacity
  writePos : Fin capacity

namespace RingBuffer

variable {α : Type} {capacity : ℕ} [NeZero capacity]

def HasItem (ring : RingBuffer α capacity) : Prop := ring.readPos ≠ ring.writePos

instance (ring : RingBuffer α capacity) : Decidable ring.HasItem :=
  inferInstanceAs (Decidable (_ ≠ _))

def Full (ring : RingBuffer α capacity) : Prop := ring.writePos + 1 = ring.readPos

instance (ring : RingBuffer α capacity) : Decidable ring.Full := inferInstanceAs (Decidable (_ = _))

def push (ring : RingBuffer α capacity) (item : α) : RingBuffer α capacity :=
  if ring.Full then ring
  else
    { ring with
      cells := Function.update ring.cells ring.writePos item
      writePos := ring.writePos + 1 }

def front (ring : RingBuffer α capacity) : α := ring.cells ring.readPos

def advance (ring : RingBuffer α capacity) : RingBuffer α capacity :=
  { ring with readPos := ring.readPos + 1 }

def window (cells : Fin capacity → α) (start : Fin capacity) : ℕ → List α
  | 0 => []
  | count + 1 => cells start :: window cells (start + 1) count

def contents (ring : RingBuffer α capacity) : List α :=
  window ring.cells ring.readPos (ring.writePos - ring.readPos).val

theorem val_sub_add_one {start stop : Fin capacity} (apart : stop ≠ start) :
    (stop - (start + 1)).val + 1 = (stop - start).val := by
  have nonzero : stop - start ≠ 0 := sub_ne_zero.mpr apart
  have positive : (stop - start).val ≠ 0 := fun zero => nonzero (Fin.ext zero)
  rw [sub_add_eq_sub_sub, Fin.val_sub_one_of_ne_zero nonzero]
  omega

theorem ne_of_val_sub {start stop : Fin capacity} {count : ℕ}
    (inside : count < (stop - start).val) : stop ≠ start := by
  rintro rfl
  rw [sub_self, Fin.val_zero] at inside
  omega

theorem window_congr {left right : Fin capacity → α} {start stop : Fin capacity} {count : ℕ}
    (inside : count ≤ (stop - start).val)
    (agree : ∀ position, stop ≠ position → left position = right position) :
    window left start count = window right start count := by
  induction count generalizing start with
  | zero => rfl
  | succ count ih =>
    have apart := ne_of_val_sub (Nat.lt_of_succ_le inside)
    have rest := val_sub_add_one apart
    rw [window, window, ih (by omega), agree start apart]

theorem window_succ {cells : Fin capacity → α} {start stop : Fin capacity} {count : ℕ}
    (reached : (stop - start).val = count) :
    window cells start (count + 1) = window cells start count ++ [cells stop] := by
  induction count generalizing start with
  | zero =>
    have same : stop = start := sub_eq_zero.mp (Fin.ext reached)
    simp [window, same]
  | succ count ih =>
    have apart : stop ≠ start := @ne_of_val_sub _ _ start stop 0 (by omega)
    have rest := val_sub_add_one apart
    rw [window, ih (by omega), window, List.cons_append]

theorem contents_eq_nil {ring : RingBuffer α capacity} (empty : ¬ ring.HasItem) :
    ring.contents = [] := by
  rw [HasItem, not_not] at empty
  simp [contents, empty, window]

theorem contents_eq_cons {ring : RingBuffer α capacity} (hasItem : ring.HasItem) :
    ring.contents = ring.front :: ring.advance.contents := by
  have rest := val_sub_add_one (Ne.symm hasItem)
  rw [contents, ← rest]
  rfl

theorem length_window (cells : Fin capacity → α) (start : Fin capacity) (count : ℕ) :
    (window cells start count).length = count := by
  induction count generalizing start with
  | zero => rfl
  | succ count ih => rw [window, List.length_cons, ih]

theorem hasItem_iff {ring : RingBuffer α capacity} : ring.HasItem ↔ ring.contents ≠ [] := by
  constructor
  · intro hasItem
    rw [contents_eq_cons hasItem]
    exact List.cons_ne_nil _ _
  · intro nonempty
    by_contra empty
    exact nonempty (contents_eq_nil empty)

theorem front_of_contents {ring : RingBuffer α capacity} {item : α} {rest : List α}
    (isContents : ring.contents = item :: rest) :
    ring.front = item ∧ ring.advance.contents = rest := by
  have hasItem : ring.HasItem := by
    rw [hasItem_iff, isContents]
    exact List.cons_ne_nil _ _
  rwa [contents_eq_cons hasItem, List.cons.injEq] at isContents

theorem full_iff {ring : RingBuffer α capacity} :
    ring.Full ↔ ring.contents.length + 1 = capacity := by
  have capacityPositive : 0 < capacity := Nat.pos_of_neZero capacity
  have length : ring.contents.length = (ring.writePos - ring.readPos).val := length_window _ _ _
  have inside := (ring.writePos - ring.readPos).isLt
  have next : (ring.writePos + 1 - ring.readPos).val =
      ((ring.writePos - ring.readPos).val + 1) % capacity := by
    rw [add_sub_right_comm, Fin.val_add, Fin.val_one', Nat.add_mod_mod]
  rw [Full, ← sub_eq_zero, Fin.ext_iff, next, length, Fin.val_zero]
  constructor
  · intro wrapped
    by_contra notLast
    rw [Nat.mod_eq_of_lt (by omega)] at wrapped
    omega
  · intro last
    rw [last, Nat.mod_self]

theorem contents_push {ring : RingBuffer α capacity} (room : ¬ ring.Full) (item : α) :
    (ring.push item).contents = ring.contents ++ [item] := by
  have shifted : ring.writePos + 1 - ring.readPos = ring.writePos - ring.readPos + 1 := by
    rw [add_sub_right_comm]
  have longer : (ring.writePos + 1 - ring.readPos).val =
      (ring.writePos - ring.readPos).val + 1 := by
    have nonzero : ring.writePos + 1 - ring.readPos ≠ 0 := sub_ne_zero.mpr room
    have positive : (ring.writePos + 1 - ring.readPos).val ≠ 0 := fun zero => nonzero (Fin.ext zero)
    have before := Fin.val_sub_one_of_ne_zero nonzero
    rw [shifted, add_sub_cancel_right] at before
    rw [shifted] at positive ⊢
    omega
  have unchanged : window (Function.update ring.cells ring.writePos item) ring.readPos
      (ring.writePos - ring.readPos).val = ring.contents :=
    window_congr le_rfl (fun position other => Function.update_of_ne (Ne.symm other) _ _)
  rw [push, if_neg room]
  simp only [contents]
  rw [longer, window_succ rfl, unchanged, Function.update_self]
  rfl

end RingBuffer
