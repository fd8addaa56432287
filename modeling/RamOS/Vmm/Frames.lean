import RamOS.Vmm.Model

/-!
# The frame allocator

`alloc_frame` scans the bitmap once around from `next_free_frame`. It fails only
when every frame is marked, and otherwise marks one frame that was not. As long as
no frame is given back, the frames are handed out in order.
-/

namespace RamOS.Vmm

open ByteMemory

variable {state : State} {frame other remaining i count : ℕ}

def takeFrame (state : State) (frame : ℕ) : State :=
  { markFrame state frame with nextFreeFrame := (frame + 1) % maxFrames }

@[simp]
theorem takeFrame_memory : (takeFrame state frame).memory = state.memory := rfl

@[simp]
theorem takeFrame_currentPageDirectory :
    (takeFrame state frame).currentPageDirectory = state.currentPageDirectory := rfl

@[simp]
theorem frameUsed_markFrame :
    frameUsed (markFrame state frame) other = (decide (other = frame) || frameUsed state other) :=
  Bitmap.test_set

@[simp]
theorem frameUsed_takeFrame :
    frameUsed (takeFrame state frame) other = (decide (other = frame) || frameUsed state other) :=
  Bitmap.test_set

theorem allocFrameLoop_cases (state : State) (remaining i : ℕ) :
    (allocFrameLoop state remaining i = (0, state) ∧
      ∀ offset < remaining,
        frameUsed state ((state.nextFreeFrame + i + offset) % maxFrames) = true) ∨
    ∃ frame < maxFrames, frameUsed state frame = false ∧
      allocFrameLoop state remaining i = (frame * pageSize, takeFrame state frame) := by
  induction remaining generalizing i with
  | zero => exact Or.inl ⟨rfl, by simp⟩
  | succ remaining ih =>
    have inside : (state.nextFreeFrame + i) % maxFrames < maxFrames :=
      Nat.mod_lt _ (by decide)
    by_cases clear : frameUsed state ((state.nextFreeFrame + i) % maxFrames) = false
    · right
      refine ⟨_, inside, clear, ?_⟩
      simp only [allocFrameLoop, Bitmap.masked_eq_zero_iff.mpr clear, if_true]
      rfl
    · have set := fun masked => clear (Bitmap.masked_eq_zero_iff.mp masked)
      simp only [allocFrameLoop, if_neg set]
      rcases ih (i + 1) with ⟨result, used⟩ | found
      · left
        refine ⟨result, ?_⟩
        intro offset bound
        rcases offset with _ | offset
        · simpa using clear
        · have shifted := used offset (by omega)
          rwa [show state.nextFreeFrame + (i + 1) + offset =
            state.nextFreeFrame + i + (offset + 1) by omega] at shifted
      · exact Or.inr found

theorem allocFrame_cases (state : State) :
    (allocFrame state = (0, state) ∧ ∀ frame < maxFrames, frameUsed state frame = true) ∨
    ∃ frame < maxFrames, frameUsed state frame = false ∧
      allocFrame state = (frame * pageSize, takeFrame state frame) := by
  rcases allocFrameLoop_cases state maxFrames 0 with ⟨result, used⟩ | found
  · left
    refine ⟨result, ?_⟩
    intro frame inside
    have offsetInside : (frame + maxFrames - state.nextFreeFrame % maxFrames) % maxFrames <
        maxFrames := Nat.mod_lt _ (by decide)
    have marked := used _ offsetInside
    have same : (state.nextFreeFrame + 0 +
        (frame + maxFrames - state.nextFreeFrame % maxFrames) % maxFrames) % maxFrames = frame := by
      simp only [maxFrames] at inside ⊢
      omega
    rwa [same] at marked
  · exact Or.inr found

/-- The frames below `count`, and no others, have been handed out. -/
structure HandedOut (count : ℕ) (state : State) : Prop where
  cursor : count < maxFrames → state.nextFreeFrame = count
  used : ∀ frame < maxFrames, frameUsed state frame = decide (frame < count)

section HandedOut

variable (handed : HandedOut count state)

include handed

theorem HandedOut.congr {other : State} (sameBitmap : other.frameBitmap = state.frameBitmap)
    (sameCursor : other.nextFreeFrame = state.nextFreeFrame) : HandedOut count other := by
  refine ⟨fun inside => sameCursor.trans (handed.cursor inside), ?_⟩
  intro frame inside
  rw [frameUsed, sameBitmap]
  exact handed.used frame inside

theorem HandedOut.allocFrame_eq (inside : count < maxFrames) :
    allocFrame state = (count * pageSize, takeFrame state count) := by
  have free : frameUsed state count = false := by simp [handed.used count inside]
  have position : (state.nextFreeFrame + 0) % maxFrames = count := by
    rw [handed.cursor inside]
    exact Nat.mod_eq_of_lt inside
  rw [allocFrame, show maxFrames = (maxFrames - 1) + 1 from rfl, allocFrameLoop, position]
  rw [if_pos (Bitmap.masked_eq_zero_iff.mpr free)]
  rfl

theorem HandedOut.allocFrame_exhausted
    (exhausted : maxFrames ≤ count) : allocFrame state = (0, state) := by
  rcases allocFrame_cases state with ⟨none, _⟩ | ⟨frame, inside, free, _⟩
  · exact none
  · have below : frame < count := by omega
    simp [handed.used frame inside, below] at free

theorem HandedOut.takeFrame : HandedOut (count + 1) (takeFrame state count) := by
  constructor
  · intro inside
    exact Nat.mod_eq_of_lt inside
  · intro frame inside
    rw [frameUsed_takeFrame, handed.used frame inside]
    grind

theorem HandedOut.exhausted_succ (exhausted : maxFrames ≤ count) : HandedOut (count + 1) state := by
  constructor
  · intro inside
    omega
  · intro frame inside
    rw [handed.used frame inside, decide_eq_decide]
    omega

end HandedOut

end RamOS.Vmm
