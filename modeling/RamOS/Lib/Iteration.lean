import Mathlib.Data.Finset.Card
import Mathlib.Data.Finset.Range
import Mathlib.Logic.Relation

/-!
# Loops as chains of iterations

One iteration of a loop that does not leave it is a step of a relation. The loop makes
finitely many iterations when the chains of steps from its start are bounded. A loop
whose states have finitely many keys, and which never comes back to a key, is bounded;
one that comes back to a state is not.
-/

namespace Iteration

open Relation

variable {S K : Type*} {step : S → S → Prop} {start first second third : S} {count more : ℕ}

inductive Steps (step : S → S → Prop) (start : S) : ℕ → S → Prop
  | zero : Steps step start 0 start
  | succ {count : ℕ} {middle last : S} (before : Steps step start count middle)
      (one : step middle last) : Steps step start (count + 1) last

def Bounded (step : S → S → Prop) (start : S) : Prop :=
  ∃ bound, ∀ count last, Steps step start count last → count ≤ bound

theorem Steps.trans (one : Steps step first count second) (two : Steps step second more third) :
    Steps step first (count + more) third := by
  induction two with
  | zero => exact one
  | succ _ last ih => exact ih.succ last

theorem exists_steps (reached : ReflTransGen step first second) :
    ∃ count, Steps step first count second := by
  induction reached with
  | refl => exact ⟨0, .zero⟩
  | tail _ one ih =>
    rcases ih with ⟨count, before⟩
    exact ⟨count + 1, before.succ one⟩

theorem Steps.reflTransGen (chain : Steps step first count second) :
    ReflTransGen step first second := by
  induction chain with
  | zero => exact .refl
  | succ _ one ih => exact ih.tail one

theorem Bounded.induction {motive : S → Prop} (bounded : Bounded step start)
    (each : ∀ state, ReflTransGen step start state → (∀ next, step state next → motive next) →
      motive state) : motive start := by
  rcases bounded with ⟨bound, isBound⟩
  have backwards (room lead : ℕ) (state : S) (before : Steps step start lead state)
      (enough : bound ≤ lead + room) : motive state := by
    induction room generalizing lead state with
    | zero =>
      refine each state before.reflTransGen (fun next one => ?_)
      have tooLong := isBound _ _ (before.succ one)
      omega
    | succ room ih =>
      refine each state before.reflTransGen (fun next one => ?_)
      exact ih (lead + 1) next (before.succ one) (by omega)
  exact backwards bound 0 start .zero (by omega)

theorem Steps.exists_run (chain : Steps step first count second) :
    ∃ run : ℕ → S, run 0 = first ∧ run count = second ∧
      ∀ index < count, step (run index) (run (index + 1)) := by
  induction chain with
  | zero => exact ⟨fun _ => first, rfl, rfl, by simp⟩
  | @succ count middle last _ one ih =>
    rcases ih with ⟨run, starts, ends, each⟩
    refine ⟨Function.update run (count + 1) last, ?_, Function.update_self _ _ _, ?_⟩
    · rw [Function.update_of_ne (by omega), starts]
    · intro index below
      rw [Function.update_of_ne (by omega)]
      rcases Nat.lt_succ_iff_lt_or_eq.mp below with earlier | rfl
      · rw [Function.update_of_ne (by omega)]
        exact each index earlier
      · rwa [ends, Function.update_self]

theorem transGen_run {run : ℕ → S} (each : ∀ index < count, step (run index) (run (index + 1)))
    {left right : ℕ} (ordered : left < right) (inside : right ≤ count) :
    TransGen step (run left) (run right) := by
  induction right, ordered using Nat.le_induction with
  | base => exact .single (each left (by omega))
  | succ right ordered ih => exact (ih (by omega)).tail (each right (by omega))

theorem bounded_of_noReturn (key : S → K) (keys : Finset K)
    (inside : ∀ state, ReflTransGen step start state → key state ∈ keys)
    (noReturn : ∀ state later, ReflTransGen step start state → TransGen step state later →
      key state ≠ key later) : Bounded step start := by
  refine ⟨keys.card, fun count last chain => ?_⟩
  rcases chain.exists_run with ⟨run, starts, _, each⟩
  have reached {index : ℕ} (below : index ≤ count) : ReflTransGen step start (run index) := by
    rcases Nat.eq_zero_or_pos index with rfl | positive
    · rw [starts]
    · have path := transGen_run each positive below
      rw [starts] at path
      exact path.to_reflTransGen
  have injective : Set.InjOn (fun index => key (run index)) (Finset.range (count + 1)) := by
    intro left leftInside right rightInside same
    rw [Finset.mem_coe, Finset.mem_range] at leftInside rightInside
    by_contra different
    rcases Nat.lt_or_gt_of_ne different with below | above
    · exact noReturn _ _ (reached (by omega)) (transGen_run each below (by omega)) same
    · exact noReturn _ _ (reached (by omega)) (transGen_run each above (by omega)) same.symm
  have small := Finset.card_le_card_of_injOn (fun index => key (run index))
    (fun index below => inside _ (reached (by
      rw [Finset.mem_coe, Finset.mem_range] at below
      omega))) injective
  rw [Finset.card_range] at small
  omega

theorem not_bounded_of_cycle {state : S} (reached : ReflTransGen step start state)
    (cycle : TransGen step state state) : ¬Bounded step start := by
  rintro ⟨bound, isBound⟩
  rcases exists_steps reached with ⟨lead, before⟩
  rcases TransGen.tail'_iff.mp cycle with ⟨middle, path, one⟩
  rcases exists_steps path with ⟨count, around⟩
  have rounds (round : ℕ) : Steps step state ((count + 1) * round) state := by
    induction round with
    | zero => exact .zero
    | succ round ih => exact ih.trans (around.succ one)
  have tooLong := isBound _ _ (before.trans (rounds (bound + 1)))
  have atLeast : bound + 1 ≤ (count + 1) * (bound + 1) := Nat.le_mul_of_pos_left _ (by omega)
  omega

end Iteration
