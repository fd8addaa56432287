import RamOS.Proc.Copies

/-!
# Cloning with frames

`vmm_clone_page_directory` is the other function that clones a page directory. Its page
tables and pages come from the frame allocator, and it copies the slots from 512 on; the
lower ones are the kernel's. The results are those about `clone_page_directory_deep`, with
the frame allocator in the place of the heap.
-/

namespace RamOS.Proc

open ByteMemory
open Vmm (physicalAddress pagePresent pageSize vmmClonePage vmmClonePages vmmCloneTable
  vmmCloneTables vmmClonePageDirectory)

def HasFrame (state : Vmm.State) : Prop := (Vmm.allocFrame state).1 ≠ 0

def frameSlotState (source directory : ℕ) (state : Vmm.State) (slot : ℕ) : Vmm.State :=
  Nat.fold (slot - 512) (fun index _ state => vmmCloneTable source directory (512 + index) state)
    state

def frameEntryState (sourceTable : ℕ) (state : Vmm.State) (index : ℕ) : Vmm.State :=
  match Vmm.allocFrame state with
  | (table, state) =>
    Nat.fold index (fun index _ state => vmmClonePage sourceTable table index state) state

variable {original : Memory} {state : Vmm.State} {owned kept : Set ℕ}
  {index entry slot source directory table : ℕ}

theorem vmmClonePage_step (guards : Guards state owned)
    (sourceOwned : range (source + 4 * index) 4 ⊆ owned)
    (inSource : read32 state.memory (source + 4 * index) = entry)
    (pageOwned : entry &&& pagePresent ≠ 0 → range (physicalAddress entry) pageSize ⊆ owned) :
    EntryStep Vmm.allocFrame entry (table + 4 * index) state
      (vmmClonePage source table index state) := by
  simp only [vmmClonePage, inSource]
  split
  next absent => exact .absent absent
  next present =>
    split
    next isNull => exact .refused present isNull
    next notNull =>
      rcases servesPages_guards state owned guards with ⟨isNull, _⟩ | ⟨_, granted⟩
      · exact absurd isNull notNull
      have apart := apart_of_disjoint_range
        (granted.fresh.symm.mono_right (pageOwned present)) (by decide) (by decide)
      have entryAfter : read32 (Vmm.allocFrame state).2.memory (source + 4 * index) = entry := by
        rw [read32_congr (granted.frame.mono sourceOwned), inSource]
      have entryCopied : read32 (copyWords (Vmm.allocFrame state).2.memory (Vmm.allocFrame state).1
          (physicalAddress entry) 1024) (source + 4 * index) = entry := by
        rw [read32_congr ((copyWords_eqOn _ _ _ 1024).mono fun location inWord =>
          Set.disjoint_left.mp granted.fresh (sourceOwned inWord)), entryAfter]
      rw [entryAfter, entryCopied]
      exact .copied present notNull _ (copyWords_eqOn _ _ _ 1024) fun offset inside =>
        copyWords_apply inside apart

theorem vmmCloneTable_step (keeps : Keeps Guards original kept state owned)
    (held : HoldsSlot original kept source slot)
    (clear : read32 state.memory (directory + 4 * slot) = 0) :
    SlotStep Guards original Vmm.allocFrame
      (fun index => (Vmm.allocFrame (frameEntryState
        (physicalAddress (read32 original (source + 4 * slot))) state index)).1)
      (read32 original (source + 4 * slot)) (directory + 4 * slot) state owned
      (vmmCloneTable source directory slot state) := by
  have slotRead := read32_congr (keeps.same.mono held.entry)
  have tableHeld := held.table
  have pageHeld := held.page
  generalize wordEq : read32 original (source + 4 * slot) = word at slotRead tableHeld pageHeld ⊢
  simp only [vmmCloneTable, vmmClonePages, slotRead]
  split
  next absent => exact .absent absent (Ownership.Extends.refl keeps.safe) clear
  next present =>
    rcases servesPages_guards state owned keeps.safe with ⟨isNull, _⟩ | ⟨_, granted⟩
    · rw [if_pos isNull]
      exact .refused present isNull
    have notNull : (Vmm.allocFrame state).1 ≠ 0 := granted.positive.ne'
    rcases granted.keeps keeps with ⟨keepsNow, apart⟩
    -- the function reports no failure, so nothing is said of the allocations
    rcases copyEntries (fun state => state) (fun _ => False)
      (fun index state => vmmClonePage _ _ index state) allowsStores_guards servesPages_guards
      keepsNow Set.subset_union_right apart (tableHeld present) (pageHeld present)
      (fun _ _ _ _ _ guards sourceOwned inSource pageOwned =>
        ⟨vmmClonePage_step guards sourceOwned inSource pageOwned, iff_of_false id And.left⟩) with
      ⟨ownedPages, part, entries, _⟩
    have wordAfter := read32_congr ((keepsNow.extends entries.extension apart).same.mono held.entry)
    rw [wordEq] at wordAfter
    rw [if_neg notNull, wordAfter]
    exact .copied present notNull entries

def FrameOutcome (original : Memory) (source directory : ℕ) (start : Vmm.State) (slot : ℕ)
    (memory : Memory) (fresh : Set ℕ) (copied : ℕ) : Prop :=
  SlotOutcome original memory fresh 0 (HasFrame (frameSlotState source directory start slot))
    (fun index => (Vmm.allocFrame (frameEntryState
      (physicalAddress (read32 original (source + 4 * slot)))
      (frameSlotState source directory start slot) index)).1)
    (read32 original (source + 4 * slot)) copied

/-- The new tables and pages of each slot lie in a part of their own of the memory that was not in
use. -/
abbrev ClonedFrames (original : Memory) (source directory : ℕ) (start after : Vmm.State)
    (owned ownedAfter : Set ℕ) (part : ℕ → Set ℕ) : Prop :=
  Ownership.Fills (fun state : Vmm.State => state.memory) Guards
    (FrameOutcome original source directory start) directory 512 512 start owned after ownedAfter
    part

theorem vmmClonePageDirectory_outcome (guards : Guards state owned) (keptSubset : kept ⊆ owned)
    (same : Set.EqOn state.memory original kept)
    (held : ∀ slot, 512 ≤ slot → slot < 1024 → HoldsSlot original kept source slot)
    (hasSource : source ≠ 0) (hasFrame : (Vmm.vmmCreatePageDirectory state).1 ≠ 0) :
    (vmmClonePageDirectory state source).1 = (Vmm.vmmCreatePageDirectory state).1 ∧
    ∃ ownedAfter part,
      ClonedFrames original source (Vmm.vmmCreatePageDirectory state).1
        (Vmm.vmmCreatePageDirectory state).2 (vmmClonePageDirectory state source).2
        (owned ∪ range (Vmm.vmmCreatePageDirectory state).1 pageSize) ownedAfter part := by
  have granted := guards.vmmCreatePageDirectory hasFrame
  have clear (slot : ℕ) (lower : 512 ≤ slot) (upper : slot < 1024) :=
    createPageDirectory_clear hasFrame upper (Or.inl lower)
  simp only [vmmClonePageDirectory, if_neg hasSource, if_neg hasFrame]
  generalize (Vmm.vmmCreatePageDirectory state).1 = directory at granted clear ⊢
  generalize (Vmm.vmmCreatePageDirectory state).2 = after at granted clear ⊢
  have high : Ownership.words directory 512 512 ⊆ range directory pageSize :=
    range_subset_range (by omega) (by simp only [pageSize]; omega)
  rcases granted.keeps ⟨guards, keptSubset, same⟩ with ⟨keeps, apart⟩
  rcases copySlots (fun state => state) (fun _ => False) (vmmCloneTable source directory)
    allowsStores_guards servesPages_guards keeps (high.trans Set.subset_union_right)
    (apart.mono_right high) clear (fun slot above below _ _ keepsNow _ clearNow =>
      ⟨vmmCloneTable_step keepsNow (held slot above below) clearNow,
        (iff_of_false id And.left : False ↔ False ∧ True)⟩) with
    ⟨ownedAfter, part, cloned, _⟩
  exact ⟨trivial, ownedAfter, part, cloned⟩

end RamOS.Proc
