import RamOS.Vmm.Unmap

/-!
# Frames have one owner

`alloc_frame` hands out a frame whose bit is clear and sets it, and only giving the frame back
clears it again. The answer `0` can mean failure because the bit of frame 0 is never cleared:
`vmm_unmap_page` gives back page-aligned addresses only, and not the address 0.
-/

namespace RamOS.Vmm

open ByteMemory

/-- The address that `vmm_unmap_page` gives back, or `0`. -/
def unmappedAddress (state : State) (virtual : ℕ) : ℕ :=
  match vmmGetPage state virtual false state.currentPageDirectory with
  | (page, state) => if page = 0 then 0 else physicalAddress (read32 state.memory page)

/-- An allocation, a page-aligned address that is given back, or an unmapping with the page tables
as they are then. -/
inductive FrameCall
  | alloc
  | free (address : ℕ) (nonzero : address ≠ 0) (aligned : pageSize ∣ address)
  | unmapPage (memory : Memory) (directory virtual : ℕ)

namespace FrameCall

def run (state : State) : FrameCall → State
  | .alloc => (allocFrame state).2
  | .free address _ _ => freeFrame state address
  | .unmapPage memory directory virtual =>
    vmmUnmapPage { state with memory := memory, currentPageDirectory := directory } virtual

def freed (state : State) : FrameCall → ℕ
  | .alloc => 0
  | .free address _ _ => address
  | .unmapPage memory directory virtual =>
    unmappedAddress { state with memory := memory, currentPageDirectory := directory } virtual

end FrameCall

variable {state : State} {virtual frame : ℕ}

theorem vmmGetPage_unchanged (directory : ℕ) :
    (vmmGetPage state virtual false directory).2 = state := by
  simp only [vmmGetPage, if_true]
  split
  · rfl
  · split
    · rfl
    · rfl

theorem vmmUnmapPage_allocator :
    (vmmUnmapPage state virtual).frameBitmap =
        (giveBack state (unmappedAddress state virtual)).frameBitmap ∧
      (vmmUnmapPage state virtual).nextFreeFrame = state.nextFreeFrame := by
  have unchanged := @vmmGetPage_unchanged state virtual state.currentPageDirectory
  rcases found : vmmGetPage state virtual false state.currentPageDirectory with ⟨page, after⟩
  rw [found] at unchanged
  subst unchanged
  simp only [vmmUnmapPage, unmappedAddress, found]
  by_cases null : page = 0
  · simp [null, giveBack]
  · simp only [if_neg null, giveBack, freeFrame, true_and]
    split_ifs <;> rfl

theorem pageSize_dvd_unmappedAddress : pageSize ∣ unmappedAddress state virtual := by
  rw [unmappedAddress]
  dsimp only
  split
  · exact Nat.dvd_zero _
  · rw [physicalAddress_eq (read32_lt _ _)]
    exact Nat.dvd_mul_left _ _

namespace FrameCall

variable {call : FrameCall}

theorem exists_freed (state : State) (call : FrameCall) :
    ∃ frame, call.freed state = frame * pageSize := by
  cases call with
  | alloc => exact ⟨0, rfl⟩
  | free address nonzero aligned =>
    rcases aligned with ⟨frame, isAddress⟩
    exact ⟨frame, by rw [freed, isAddress, Nat.mul_comm]⟩
  | unmapPage memory directory virtual =>
    rcases @pageSize_dvd_unmappedAddress
      { state with memory := memory, currentPageDirectory := directory } virtual with
      ⟨frame, isAddress⟩
    exact ⟨frame, by rw [freed, isAddress, Nat.mul_comm]⟩

theorem run_cases (state : State) (call : FrameCall) :
    call = .alloc ∨ (call.run state).frameBitmap = (giveBack state (call.freed state)).frameBitmap ∧
      (call.run state).nextFreeFrame = state.nextFreeFrame := by
  cases call with
  | alloc => exact Or.inl rfl
  | free address nonzero aligned =>
    refine Or.inr ⟨?_, ?_⟩
    · rw [run, freed, giveBack, if_neg nonzero]
    · rw [run, freeFrame]
      split <;> rfl
  | unmapPage memory directory virtual =>
    have allocator := @vmmUnmapPage_allocator
      { state with memory := memory, currentPageDirectory := directory } virtual
    refine Or.inr ⟨allocator.1.trans ?_, allocator.2⟩
    rw [freed, giveBack, giveBack, freeFrame, freeFrame]
    dsimp only
    split_ifs <;> rfl

theorem frameUsed_run (used : frameUsed state frame = true)
    (kept : frame = 0 ∨ call.freed state ≠ frame * pageSize) :
    frameUsed (call.run state) frame = true := by
  rcases call.run_cases state with rfl | ⟨bitmap, -⟩
  · rw [run]
    rcases allocFrame_cases state with ⟨failed, -⟩ | ⟨taken, -, -, found⟩
    · rw [failed]
      exact used
    · simp [found, used]
  · rcases call.exists_freed state with ⟨other, isAddress⟩
    rw [isAddress] at bitmap kept
    rw [frameUsed, bitmap, ← frameUsed, frameUsed_giveBack, used, Bool.true_and,
      Bool.not_eq_true', decide_eq_false_iff_not]
    rintro ⟨rfl, positive, -⟩
    rcases kept with rfl | distinct
    · exact Nat.lt_irrefl 0 positive
    · exact distinct rfl

end FrameCall

structure FramesInOrder (state : State) : Prop where
  zero_used : frameUsed state 0 = true
  next_lt : state.nextFreeFrame < maxFrames

theorem framesInOrder_initialFrames (initial : State) : FramesInOrder (initialFrames initial) where
  zero_used := by simp [frameUsed_initialFrames]
  next_lt := by
    rw [initialFrames_cursor]
    decide

theorem FramesInOrder.run (ordered : FramesInOrder state) (call : FrameCall) :
    FramesInOrder (call.run state) where
  zero_used := FrameCall.frameUsed_run ordered.zero_used (Or.inl rfl)
  next_lt := by
    rcases call.run_cases state with rfl | ⟨-, next⟩
    · rw [FrameCall.run]
      rcases allocFrame_cases state with ⟨failed, -⟩ | ⟨taken, -, -, found⟩
      · rw [failed]
        exact ordered.next_lt
      · rw [found]
        exact Nat.mod_lt _ (by decide)
    · rw [next]
      exact ordered.next_lt

structure Allocates (before : State) (address : ℕ) (after : State) : Prop where
  null_iff : address = 0 ↔ ∀ frame < maxFrames, frameUsed before frame = true
  takes : address ≠ 0 → ∃ frame < maxFrames, frameUsed before frame = false ∧
    address = frame * pageSize ∧
    ∀ other, frameUsed after other = (decide (other = frame) || frameUsed before other)
  next_lt : after.nextFreeFrame < maxFrames

theorem FramesInOrder.allocates (ordered : FramesInOrder state) :
    Allocates state (allocFrame state).1 (allocFrame state).2 := by
  have next := (ordered.run .alloc).next_lt
  rcases allocFrame_cases state with ⟨failed, full⟩ | ⟨frame, inside, clear, found⟩
  · rw [FrameCall.run] at next
    rw [failed] at next ⊢
    exact ⟨iff_of_true rfl full, fun nonzero => absurd rfl nonzero, next⟩
  · have positive : frame ≠ 0 := by
      rintro rfl
      rw [ordered.zero_used] at clear
      cases clear
    rw [FrameCall.run] at next
    rw [found] at next ⊢
    refine ⟨iff_of_false ?_ ?_, fun _ => ⟨frame, inside, clear, rfl, fun _ => frameUsed_takeFrame⟩,
      next⟩
    · exact Nat.mul_ne_zero positive (by decide)
    · intro full
      rw [full frame inside] at clear
      cases clear

def framesBefore (initial : State) (calls : List FrameCall) (k : ℕ) : State :=
  (calls.take k).foldl FrameCall.run (initialFrames initial)

theorem framesInOrder_framesBefore (initial : State) (calls : List FrameCall) (k : ℕ) :
    FramesInOrder (framesBefore initial calls k) :=
  Runs.forall_take (framesInOrder_initialFrames initial)
    (fun k listed ordered => ordered.run calls[k]) k

theorem frameUsed_framesBefore {initial : State} {calls : List FrameCall} {first last : ℕ}
    (used : frameUsed (framesBefore initial calls first) frame = true) (ordered : first ≤ last)
    (kept : ∀ k (listed : k < calls.length), first ≤ k → k < last →
      calls[k].freed (framesBefore initial calls k) ≠ frame * pageSize) :
    frameUsed (framesBefore initial calls last) frame = true := by
  induction last, ordered using Nat.le_induction with
  | base => exact used
  | succ last atLeast ih =>
    have before := ih fun k listed lower upper => kept k listed lower (by omega)
    by_cases listed : last < calls.length
    · rw [framesBefore, Runs.foldl_take_succ listed]
      exact FrameCall.frameUsed_run before (Or.inr (kept last listed atLeast (by omega)))
    · rw [framesBefore, List.take_of_length_le (by omega)] at before ⊢
      exact before

/-- In every reachable state frame 0 is marked and `alloc_frame` fails exactly if all frames are;
otherwise it takes a frame that was not marked and marks this one only. So a frame is handed out
twice only if it was given back between. -/
theorem frames_have_one_owner (initial : State) (calls : List FrameCall) :
    (∀ k, frameUsed (framesBefore initial calls k) 0 = true ∧
      (framesBefore initial calls k).nextFreeFrame < 32768 ∧
      Allocates (framesBefore initial calls k) (allocFrame (framesBefore initial calls k)).1
        (allocFrame (framesBefore initial calls k)).2) ∧
      ∀ first last, first < last → calls[first]? = some .alloc → calls[last]? = some .alloc →
        (allocFrame (framesBefore initial calls first)).1 ≠ 0 →
        (∀ k (listed : k < calls.length), first < k → k < last →
          calls[k].freed (framesBefore initial calls k) ≠
            (allocFrame (framesBefore initial calls first)).1) →
        (allocFrame (framesBefore initial calls last)).1 ≠
          (allocFrame (framesBefore initial calls first)).1 := by
  have ordered := framesInOrder_framesBefore initial calls
  refine ⟨fun k => ⟨(ordered k).zero_used, (ordered k).next_lt, (ordered k).allocates⟩, ?_⟩
  intro first last before isFirst isLast succeeded kept same
  rcases (ordered first).allocates.takes succeeded with ⟨frame, -, -, isFrame, marks⟩
  rw [isFrame] at kept same succeeded
  rcases List.getElem?_eq_some_iff.mp isFirst with ⟨listed, isAlloc⟩
  have taken : frameUsed (framesBefore initial calls (first + 1)) frame = true := by
    rw [framesBefore, Runs.foldl_take_succ listed, isAlloc]
    exact (marks frame).trans (by simp)
  have stillTaken := frameUsed_framesBefore taken before kept
  rw [← same] at succeeded
  rcases (ordered last).allocates.takes succeeded with ⟨other, -, clear, isOther, -⟩
  have equal : other = frame := by
    rw [same] at isOther
    exact (Nat.eq_of_mul_eq_mul_right (by decide) isOther).symm
  rw [equal, stillTaken] at clear
  cases clear

end RamOS.Vmm
