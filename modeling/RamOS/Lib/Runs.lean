import Mathlib.Data.List.TakeDrop

/-!
# Runs of a state machine

A run is a list of calls that are made one after the other. The rules here
follow a property through all states of a run.
-/

namespace Runs

variable {State Call : Type*} {step : State → Call → State} {start : State} {calls : List Call}

theorem foldl_take_succ {k : ℕ} (listed : k < calls.length) :
    (calls.take (k + 1)).foldl step start = step ((calls.take k).foldl step start) calls[k] := by
  rw [List.take_succ_eq_append_getElem listed, List.foldl_append]
  rfl

theorem forall_call_cons {property : State → Call → Prop} {call : Call} :
    (∀ k (listed : k < (call :: calls).length),
      property (((call :: calls).take k).foldl step start) (call :: calls)[k]) ↔
      property start call ∧ ∀ k (listed : k < calls.length),
        property ((calls.take k).foldl step (step start call)) calls[k] := by
  constructor
  · intro holds
    exact ⟨holds 0 (Nat.zero_lt_succ _), fun k listed => holds (k + 1) (Nat.succ_lt_succ listed)⟩
  · rintro ⟨first, rest⟩ k listed
    cases k with
    | zero => exact first
    | succ k => exact rest k (Nat.lt_of_succ_lt_succ listed)

theorem forall_take {property : State → Prop} (initially : property start)
    (keeps : ∀ k (listed : k < calls.length), property ((calls.take k).foldl step start) →
      property (step ((calls.take k).foldl step start) calls[k])) (k : ℕ) :
    property ((calls.take k).foldl step start) := by
  induction k with
  | zero => exact initially
  | succ k ih =>
    by_cases listed : k < calls.length
    · rw [foldl_take_succ listed]
      exact keeps k listed ih
    · rw [List.take_of_length_le (by omega)] at ih ⊢
      exact ih

/-- A property that a call keeps exactly under a condition holds in all states exactly if all
calls meet the condition. -/
theorem forall_take_iff {invariant property : State → Prop} {valid condition : State → Call → Prop}
    (initially : invariant start ∧ property start)
    (keeps : ∀ state call, invariant state → valid state call → condition state call →
      invariant (step state call))
    (decides : ∀ state call, invariant state → property state → valid state call →
      (property (step state call) ↔ condition state call))
    (isValid : ∀ k (listed : k < calls.length),
      valid ((calls.take k).foldl step start) calls[k]) :
    (∀ k, property ((calls.take k).foldl step start)) ↔
      ∀ k (listed : k < calls.length),
        condition ((calls.take k).foldl step start) calls[k] := by
  constructor
  · intro holds
    have both (k : ℕ) : invariant ((calls.take k).foldl step start) := by
      refine forall_take initially.1 (fun k listed inv => ?_) k
      have next := holds (k + 1)
      rw [foldl_take_succ listed] at next
      exact keeps _ _ inv (isValid k listed)
        ((decides _ _ inv (holds k) (isValid k listed)).mp next)
    intro k listed
    have next := holds (k + 1)
    rw [foldl_take_succ listed] at next
    exact (decides _ _ (both k) (holds k) (isValid k listed)).mp next
  · intro meets k
    refine (@forall_take _ _ step start calls (fun state => invariant state ∧ property state)
      initially (fun k listed reached => ?_) k).2
    exact ⟨keeps _ _ reached.1 (isValid k listed) (meets k listed),
      (decides _ _ reached.1 reached.2 (isValid k listed)).mpr (meets k listed)⟩

/-- A property of the steps of a run that comes down to a condition which keeps the invariant
holds of all steps exactly if they all meet the condition. -/
theorem forall_step_iff {length : ℕ} {invariant : ℕ → Prop}
    {property condition : ∀ k, k < length → Prop} (initially : invariant 0)
    (keeps : ∀ k listed, invariant k → condition k listed → invariant (k + 1))
    (decides : ∀ k listed, invariant k → (property k listed ↔ condition k listed)) :
    (∀ k listed, property k listed) ↔ ∀ k listed, condition k listed := by
  have reached (meets : ∀ k listed, invariant k → condition k listed) (k : ℕ)
      (atMost : k ≤ length) : invariant k := by
    induction k with
    | zero => exact initially
    | succ k ih => exact keeps k atMost (ih (by omega)) (meets k atMost (ih (by omega)))
  constructor
  · intro holds k listed
    have inv := reached (fun k listed inv => (decides k listed inv).mp (holds k listed)) k
      (Nat.le_of_lt listed)
    exact (decides k listed inv).mp (holds k listed)
  · intro meets k listed
    have inv := reached (fun k listed _ => meets k listed) k (Nat.le_of_lt listed)
    exact (decides k listed inv).mpr (meets k listed)

end Runs
