import Mathlib.Data.List.Basic
import RamOS.Lib.Runs
import RamOS.Lib.Word32

/-!
# Allocating blocks

`ext4_alloc_block` does not look for a free block. It counts down the free blocks of the
file system and hands out the next number of a counter that all file systems share and
that starts at 1000. Freeing a block only counts the free blocks up again, so that the
counter is never set back.
-/

namespace RamOS.Ext4

/-- The block counts of the superblock, and the static counter of `ext4_alloc_block`. -/
structure Counters where
  blocksCount : ℕ
  freeBlocksCount : ℕ
  nextBlock : ℕ

def ext4AllocBlock (counters : Counters) : ℕ × Counters :=
  if 0 < counters.freeBlocksCount then
    (counters.nextBlock,
      { counters with
        freeBlocksCount := counters.freeBlocksCount - 1
        nextBlock := Word32.add counters.nextBlock 1 })
  else (0, counters)

def ext4FreeBlock (counters : Counters) (blockNum : ℕ) : Counters :=
  if blockNum = 0 then counters
  else { counters with freeBlocksCount := Word32.add counters.freeBlocksCount 1 }

inductive AllocCall where
  | alloc
  | free (blockNum : ℕ)

/-- The counters, and the blocks in use, which are not part of the code. -/
structure Allocations where
  counters : Counters
  live : List ℕ

namespace Allocations

def run (state : Allocations) : AllocCall → Allocations
  | .alloc =>
    let (blockNum, counters) := ext4AllocBlock state.counters
    { counters := counters
      live := if blockNum = 0 then state.live else blockNum :: state.live }
  | .free blockNum =>
    { counters := ext4FreeBlock state.counters blockNum
      live := state.live.erase blockNum }

def Valid (state : Allocations) : AllocCall → Prop
  | .alloc => True
  | .free blockNum => blockNum ∈ state.live

def OnDevice (state : Allocations) : AllocCall → Prop
  | .alloc =>
    (ext4AllocBlock state.counters).1 ≠ 0 →
      (ext4AllocBlock state.counters).1 < state.counters.blocksCount ∧
        (ext4AllocBlock state.counters).1 ∉ state.live
  | .free _ => True

def served : Allocations → List AllocCall → ℕ
  | _, [] => 0
  | state, .alloc :: calls =>
    (if 0 < state.counters.freeBlocksCount then 1 else 0) + served (state.run .alloc) calls
  | state, .free blockNum :: calls => served (state.run (.free blockNum)) calls

/-- The blocks in use come from the counter, and with the free ones they are no more than the file
system has. -/
structure Counted (state : Allocations) : Prop where
  nextWord : state.counters.nextBlock < 2 ^ 32
  countWord : state.counters.blocksCount < 2 ^ 32
  nonzero : 0 ∉ state.live
  below : ∀ blockNum ∈ state.live, blockNum < state.counters.nextBlock
  enough : state.counters.freeBlocksCount + state.live.length ≤ state.counters.blocksCount

variable {state : Allocations}

theorem run_alloc_of_none (none : state.counters.freeBlocksCount = 0) :
    state.run .alloc = state := by
  simp [run, ext4AllocBlock, none]

theorem run_alloc_of_pos (positive : 0 < state.counters.freeBlocksCount) :
    state.run .alloc =
      { counters :=
          { state.counters with
            freeBlocksCount := state.counters.freeBlocksCount - 1
            nextBlock := Word32.add state.counters.nextBlock 1 }
        live :=
          if state.counters.nextBlock = 0 then state.live
          else state.counters.nextBlock :: state.live } := by
  simp [run, ext4AllocBlock, positive]

theorem onDevice_alloc_iff (counted : Counted state)
    (positive : 0 < state.counters.freeBlocksCount) :
    state.OnDevice .alloc ↔
      state.counters.nextBlock = 0 ∨ state.counters.nextBlock < state.counters.blocksCount := by
  have unused : state.counters.nextBlock ∉ state.live := by
    intro inUse
    exact absurd (counted.below _ inUse) (lt_irrefl _)
  simp only [OnDevice, ext4AllocBlock, if_pos positive]
  constructor
  · intro good
    by_cases zero : state.counters.nextBlock = 0
    · exact .inl zero
    · exact .inr (good zero).1
  · rintro (zero | below) nonzero
    · exact absurd zero nonzero
    · exact ⟨below, unused⟩

namespace Counted

theorem alloc (counted : Counted state) (positive : 0 < state.counters.freeBlocksCount)
    (inside : state.counters.nextBlock = 0 ∨
      state.counters.nextBlock < state.counters.blocksCount) :
    Counted (state.run .alloc) ∧
      (state.run .alloc).counters.nextBlock = state.counters.nextBlock + 1 := by
  have countWord := counted.countWord
  have enough := counted.enough
  have next : Word32.add state.counters.nextBlock 1 = state.counters.nextBlock + 1 :=
    Word32.add_eq (by omega)
  rw [run_alloc_of_pos positive, next]
  refine ⟨⟨?_, counted.countWord, ?_, ?_, ?_⟩, rfl⟩
  · dsimp only
    omega
  · split
    next => exact counted.nonzero
    next nonzero => exact List.not_mem_cons_of_ne_of_not_mem (Ne.symm nonzero) counted.nonzero
  · intro blockNum inUse
    split at inUse
    next => exact Nat.lt_succ_of_lt (counted.below blockNum inUse)
    next =>
      rcases List.mem_cons.mp inUse with rfl | earlier
      · exact Nat.lt_succ_self _
      · exact Nat.lt_succ_of_lt (counted.below blockNum earlier)
  · split
    next =>
      dsimp only
      omega
    next =>
      dsimp only
      rw [List.length_cons]
      omega

theorem free (counted : Counted state) {blockNum : ℕ} (inUse : blockNum ∈ state.live) :
    Counted (state.run (.free blockNum)) ∧
      (state.run (.free blockNum)).counters.nextBlock = state.counters.nextBlock := by
  have nonzero : blockNum ≠ 0 := by
    rintro rfl
    exact counted.nonzero inUse
  have length := List.length_erase_of_mem inUse
  have positive := List.length_pos_of_mem inUse
  have countWord := counted.countWord
  have enough := counted.enough
  have more : Word32.add state.counters.freeBlocksCount 1 = state.counters.freeBlocksCount + 1 :=
    Word32.add_eq (by omega)
  simp only [run, ext4FreeBlock, if_neg nonzero, more]
  refine ⟨⟨counted.nextWord, countWord, ?_, ?_, ?_⟩, trivial⟩
  · exact fun zero => counted.nonzero (List.mem_of_mem_erase zero)
  · exact fun other listed => counted.below other (List.mem_of_mem_erase listed)
  · dsimp only
    omega

end Counted

theorem run_blocksCount (call : AllocCall) :
    (state.run call).counters.blocksCount = state.counters.blocksCount := by
  cases call with
  | alloc =>
    simp only [run, ext4AllocBlock]
    split
    all_goals rfl
  | free blockNum =>
    simp only [run, ext4FreeBlock]
    split
    all_goals rfl

theorem Counted.onDevice_iff (counted : Counted state) {calls : List AllocCall}
    (valid : ∀ k (listed : k < calls.length),
      Valid ((calls.take k).foldl run state) calls[k]) :
    (∀ k (listed : k < calls.length), OnDevice ((calls.take k).foldl run state) calls[k]) ↔
      state.served calls = 0 ∨
        state.counters.nextBlock + state.served calls ≤ state.counters.blocksCount := by
  induction calls generalizing state with
  | nil => simp [served]
  | cons call calls ih =>
    rw [Runs.forall_call_cons] at valid ⊢
    cases call with
    | free blockNum =>
      rcases counted.free valid.1 with ⟨kept, sameNext⟩
      rw [ih kept valid.2, sameNext, run_blocksCount, served]
      exact and_iff_right trivial
    | alloc =>
      by_cases positive : 0 < state.counters.freeBlocksCount
      · rw [onDevice_alloc_iff counted positive, served, if_pos positive]
        by_cases inside : state.counters.nextBlock = 0 ∨
            state.counters.nextBlock < state.counters.blocksCount
        · rcases counted.alloc positive inside with ⟨kept, next⟩
          have enough := counted.enough
          rw [ih kept valid.2, next, run_blocksCount]
          omega
        · refine iff_of_false (fun both => inside both.1) ?_
          omega
      · have none : state.counters.freeBlocksCount = 0 := by omega
        have returned : state.OnDevice .alloc := by
          intro nonzero
          simp [ext4AllocBlock, none] at nonzero
        have same := run_alloc_of_none none
        rw [served, if_neg positive, same, Nat.zero_add]
        rw [same] at valid
        rw [ih counted valid.2]
        exact and_iff_right returned

/-- With no more free blocks than blocks, a run hands out unused blocks of the device exactly if
the counter ends inside the device. -/
theorem allocations_onDevice_iff {counters : Counters} {calls : List AllocCall}
    (countWord : counters.blocksCount < 2 ^ 32) (nextWord : counters.nextBlock < 2 ^ 32)
    (free : counters.freeBlocksCount ≤ counters.blocksCount)
    (valid : ∀ k (listed : k < calls.length),
      Valid ((calls.take k).foldl run ⟨counters, []⟩) calls[k]) :
    (∀ k (listed : k < calls.length),
        OnDevice ((calls.take k).foldl run ⟨counters, []⟩) calls[k]) ↔
      served ⟨counters, []⟩ calls = 0 ∨
        counters.nextBlock + served ⟨counters, []⟩ calls ≤ counters.blocksCount := by
  have counted : Counted ⟨counters, []⟩ := by
    refine ⟨nextWord, countWord, List.not_mem_nil, ?_, free⟩
    exact fun blockNum inUse => absurd inUse List.not_mem_nil
  exact counted.onDevice_iff valid

end Allocations

def testCounters : Counters where
  blocksCount := 65536
  freeBlocksCount := 60000
  nextBlock := 1000

theorem allocations_onDevice_test :
    testCounters.nextBlock + 2 ≤ testCounters.blocksCount ∧
      ∀ k (listed : k < [AllocCall.alloc, .free 1000, .alloc].length),
        Allocations.OnDevice
          (([AllocCall.alloc, .free 1000, .alloc].take k).foldl Allocations.run ⟨testCounters, []⟩)
          [AllocCall.alloc, .free 1000, .alloc][k] := by
  refine ⟨by decide, ?_⟩
  refine (Allocations.allocations_onDevice_iff (by decide) (by decide) (by decide) ?_).mpr
    (.inr (by decide))
  intro k listed
  match k, listed with
  | 0, _ => exact trivial
  | 1, _ => exact List.mem_singleton_self 1000
  | 2, _ => exact trivial

def smallDevice : Counters where
  blocksCount := 500
  freeBlocksCount := 400
  nextBlock := 1000

/-- The first block that is handed out is behind the end of the device. -/
theorem first_block_beyond_device :
    smallDevice.freeBlocksCount ≤ smallDevice.blocksCount ∧
      (ext4AllocBlock smallDevice).1 = 1000 ∧
      ¬ Allocations.OnDevice ⟨smallDevice, []⟩ .alloc := by
  refine ⟨by decide, rfl, fun onDevice => ?_⟩
  exact absurd (onDevice (by decide)).1 (by decide)

end RamOS.Ext4
