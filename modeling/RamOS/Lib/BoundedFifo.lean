import Mathlib.Data.List.Basic

/-!
# Bounded queues

A queue that holds at most `bound` items, together with the items that were taken out of
it. What was put in is what was taken out followed by what is still there, so that the
order of the items and their number are kept by construction. An item for which there is
no room is dropped.
-/

structure BoundedFifo (α : Type*) (bound : ℕ) where
  returned : List α
  pending : List α
  bounded : pending.length ≤ bound

namespace BoundedFifo

variable {α : Type*} {bound : ℕ} (fifo : BoundedFifo α bound)

def empty : BoundedFifo α bound := ⟨[], [], Nat.zero_le _⟩

def accepted : List α := fifo.returned ++ fifo.pending

def put (item : α) : BoundedFifo α bound :=
  if room : fifo.pending.length < bound then
    { returned := fifo.returned
      pending := fifo.pending ++ [item]
      bounded := by
        rw [List.length_append, List.length_singleton]
        exact room }
  else fifo

def get : BoundedFifo α bound where
  returned := fifo.returned ++ fifo.pending.take 1
  pending := fifo.pending.tail
  bounded := Nat.le_trans (by simp) fifo.bounded

theorem accepted_get : fifo.get.accepted = fifo.accepted := by
  cases found : fifo.pending with
  | nil => simp [accepted, get, found]
  | cons item rest => simp [accepted, get, found]

variable {fifo} {item : α} {rest : List α}

theorem returned_get (front : fifo.pending = item :: rest) :
    fifo.get.returned = fifo.returned ++ [item] := by
  simp [get, front]

theorem pending_get (front : fifo.pending = item :: rest) : fifo.get.pending = rest := by
  simp [get, front]

theorem returned_put : (fifo.put item).returned = fifo.returned := by
  rw [put]
  split <;> rfl

theorem pending_put (room : fifo.pending.length < bound) :
    (fifo.put item).pending = fifo.pending ++ [item] := by
  rw [put, dif_pos room]

theorem accepted_put (room : fifo.pending.length < bound) :
    (fifo.put item).accepted = fifo.accepted ++ [item] := by
  rw [accepted, accepted, returned_put, pending_put room, List.append_assoc]

theorem put_of_full (full : fifo.pending.length = bound) : fifo.put item = fifo := by
  rw [put, dif_neg (by omega)]

end BoundedFifo
