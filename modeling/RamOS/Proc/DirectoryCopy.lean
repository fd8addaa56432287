import RamOS.Proc.Completeness

/-!
# A cloned directory is an isolated copy

If the frames that a directory refers to are marked in the bitmap and no allocation fails,
`vmm_clone_page_directory` returns a directory that maps the same pages from `0x80000000` on
through frames of their own.

Nothing is assumed of the kernel's directory, whose frame the allocator may even hand out.
-/

namespace RamOS.Proc

open ByteMemory
open Vmm (physicalAddress pagePresent pageSize maxFrames frameUsed vmmClonePageDirectory)

inductive Place
  | table (slot : ℕ)
  | page (slot index : ℕ)

def Place.slot : Place → ℕ
  | .table slot => slot
  | .page slot _ => slot

def Place.From (lower : ℕ) : Place → Prop
  | .table slot => lower ≤ slot ∧ slot < 1024
  | .page slot index => (lower ≤ slot ∧ slot < 1024) ∧ index < 1024

def frameAt (memory : Memory) (directory : ℕ) : Place → Option ℕ
  | .table slot =>
    if read32 memory (directory + 4 * slot) &&& pagePresent = 0 then none
    else some (physicalAddress (read32 memory (directory + 4 * slot)))
  | .page slot index =>
    (slotEntry memory (read32 memory (directory + 4 * slot)) index).map physicalAddress

/-- The bitmap marks the frame at an address; those beyond it are never handed out. -/
def MarkedUsed (state : Vmm.State) (address : ℕ) : Prop :=
  address / pageSize < maxFrames → frameUsed state (address / pageSize) = true

/-- All frames that a directory refers to, and its own, are marked. -/
structure SourceMarked (state : Vmm.State) (source : ℕ) : Prop where
  aligned : source % pageSize = 0
  directory : MarkedUsed state source
  frames : ∀ place : Place, place.From 0 → ∀ address,
    frameAt state.memory source place = some address → MarkedUsed state address

/-- No call of `alloc_frame` fails while `vmm_clone_page_directory` runs. -/
def FramesSuffice (state : Vmm.State) (source : ℕ) : Prop :=
  (Vmm.vmmCreatePageDirectory state).1 ≠ 0 ∧
    ∀ slot, 512 ≤ slot → slot < 1024 →
      AllGranted state.memory
        (HasFrame (frameSlotState source (Vmm.vmmCreatePageDirectory state).1
          (Vmm.vmmCreatePageDirectory state).2 slot))
        (fun index => HasFrame (frameEntryState
          (physicalAddress (read32 state.memory (source + 4 * slot)))
          (frameSlotState source (Vmm.vmmCreatePageDirectory state).1
            (Vmm.vmmCreatePageDirectory state).2 slot) index))
        (read32 state.memory (source + 4 * slot))

/-- `clone` is a copy of `source` from slot 512 on, in frames of its own, with the kernel's slots
below. -/
structure IsolatedCopy (state after : Vmm.State) (source clone : ℕ) : Prop where
  mapped : ∀ page, 512 * 1024 ≤ page → page < 1024 * 1024 →
    ((pageEntry after.memory clone page).isSome ↔ (pageEntry state.memory source page).isSome)
  copied : ∀ page, 512 * 1024 ≤ page → page < 1024 * 1024 → ∀ entry copy,
    pageEntry state.memory source page = some entry →
    pageEntry after.memory clone page = some copy →
      copy &&& 0xFFF = entry &&& 0xFFF ∧
        ∀ offset < pageSize,
          after.memory (physicalAddress copy + offset) =
            state.memory (physicalAddress entry + offset)
  framesApart : ∀ left right : Place, left.From 512 → right.From 512 → left ≠ right →
    ∀ address, frameAt after.memory clone left = some address →
      frameAt after.memory clone right ≠ some address
  sourceApart : ∀ place : Place, place.From 512 → ∀ address,
    frameAt after.memory clone place = some address →
      address ≠ source ∧
        ∀ other : Place, other.From 0 → frameAt state.memory source other ≠ some address
  directoryApart : clone ≠ source ∧
    ∀ other : Place, other.From 0 → frameAt state.memory source other ≠ some clone
  sourceKept : Set.EqOn after.memory state.memory (bytesFrom 0 state.memory source)
  kernelSlots : state.kernelPageDirectory % pageSize = 0 → clone ≠ state.kernelPageDirectory →
    ∀ slot < 512, read32 after.memory (clone + 4 * slot) =
      if state.kernelPageDirectory = 0 then 0
      else read32 state.memory (state.kernelPageDirectory + 4 * slot)
  kernelKept : state.kernelPageDirectory % pageSize = 0 →
    MarkedUsed state state.kernelPageDirectory →
      clone ≠ state.kernelPageDirectory ∧
        Set.EqOn after.memory state.memory (range state.kernelPageDirectory pageSize)

variable {state start after : Vmm.State} {memory original : Memory} {owned ownedAfter : Set ℕ}
  {part : ℕ → Set ℕ} {source directory address frame : ℕ} {place : Place}

theorem Place.From.slot_bounds {lower : ℕ} (inside : place.From lower) :
    lower ≤ place.slot ∧ place.slot < 1024 := by
  cases place with
  | table slot => exact inside
  | page slot index => exact inside.1

theorem frameAt_table_eq_some {slot : ℕ} :
    frameAt memory directory (.table slot) = some address ↔
      read32 memory (directory + 4 * slot) &&& pagePresent ≠ 0 ∧
        physicalAddress (read32 memory (directory + 4 * slot)) = address := by
  rw [frameAt]
  split
  next absent => simp [absent]
  next present => simp [present]

theorem frameAt_page_eq_some {slot index : ℕ} :
    frameAt memory directory (.page slot index) = some address ↔
      read32 memory (directory + 4 * slot) &&& pagePresent ≠ 0 ∧
      read32 memory (physicalAddress (read32 memory (directory + 4 * slot)) + 4 * index) &&&
        pagePresent ≠ 0 ∧
      physicalAddress (read32 memory
        (physicalAddress (read32 memory (directory + 4 * slot)) + 4 * index)) = address := by
  rw [frameAt, Option.map_eq_some_iff]
  constructor
  · rintro ⟨entry, found, isAddress⟩
    rcases slotEntry_eq_some.mp found with ⟨present, isPage, rfl⟩
    exact ⟨present, isPage, isAddress⟩
  · rintro ⟨present, isPage, isAddress⟩
    exact ⟨_, slotEntry_eq_some.mpr ⟨present, isPage, rfl⟩, isAddress⟩

theorem physicalAddress_aligned {word : ℕ} (small : word < 2 ^ 32) :
    physicalAddress word % pageSize = 0 := by
  rw [Vmm.physicalAddress_eq small]
  exact Nat.mul_mod_left _ _

theorem frameAt_aligned (refers : frameAt memory directory place = some address) :
    address % pageSize = 0 := by
  cases place with
  | table slot =>
    rcases frameAt_table_eq_some.mp refers with ⟨_, rfl⟩
    exact physicalAddress_aligned (read32_lt _ _)
  | page slot index =>
    rcases frameAt_page_eq_some.mp refers with ⟨_, _, rfl⟩
    exact physicalAddress_aligned (read32_lt _ _)

theorem MarkedUsed.disjoint (marked : MarkedUsed state address) (aligned : address % pageSize = 0)
    (inside : frame < maxFrames) (free : frameUsed state frame = false) :
    Disjoint (range address pageSize) (range (frame * pageSize) pageSize) := by
  have different : address / pageSize ≠ frame := by
    rintro rfl
    rw [marked inside] at free
    cases free
  rw [Set.disjoint_left]
  intro location inBlock inFrame
  simp only [mem_range, pageSize] at aligned different inBlock inFrame
  omega

theorem mem_bytesFrom_iff {lower location : ℕ} :
    location ∈ bytesFrom lower memory directory ↔
      location ∈ range directory pageSize ∨
        ∃ place : Place, place.From lower ∧ ∃ address,
          frameAt memory directory place = some address ∧ location ∈ range address pageSize := by
  constructor
  · rintro (inDirectory | ⟨slot, above, below, present, inTable | ⟨index, inside, isPage, inPage⟩⟩)
    · exact Or.inl inDirectory
    · exact Or.inr ⟨.table slot, ⟨above, below⟩, _, frameAt_table_eq_some.mpr ⟨present, rfl⟩,
        inTable⟩
    · exact Or.inr ⟨.page slot index, ⟨⟨above, below⟩, inside⟩, _,
        frameAt_page_eq_some.mpr ⟨present, isPage, rfl⟩, inPage⟩
  · rintro (inDirectory | ⟨place, inside, address, refers, inFrame⟩)
    · exact Or.inl inDirectory
    · cases place with
      | table slot =>
        rcases frameAt_table_eq_some.mp refers with ⟨present, rfl⟩
        exact Or.inr ⟨slot, inside.1, inside.2, present, Or.inl inFrame⟩
      | page slot index =>
        rcases frameAt_page_eq_some.mp refers with ⟨present, isPage, rfl⟩
        exact Or.inr ⟨slot, inside.1.1, inside.1.2, present,
          Or.inr ⟨index, inside.2, isPage, inFrame⟩⟩

theorem notReferred_of_disjoint
    (apart : Disjoint (bytesFrom 0 memory source) (range address pageSize)) :
    address ≠ source ∧
      ∀ other : Place, other.From 0 → frameAt memory source other ≠ some address := by
  have inFrame : address ∈ range address pageSize :=
    ⟨le_rfl, Nat.lt_add_of_pos_right (by decide)⟩
  constructor
  · rintro rfl
    exact Set.disjoint_left.mp apart (mem_bytesFrom_iff.mpr (Or.inl inFrame)) inFrame
  · intro other inside refers
    exact Set.disjoint_left.mp apart
      (mem_bytesFrom_iff.mpr (Or.inr ⟨other, inside, address, refers, inFrame⟩)) inFrame

theorem SourceMarked.guards (marked : SourceMarked state source) :
    Guards state (bytesFrom 0 state.memory source) := by
  intro frame inside free
  rw [Set.disjoint_left]
  intro location inBytes inFrame
  rcases mem_bytesFrom_iff.mp inBytes with inDirectory | ⟨place, isPlace, address, refers, inPlace⟩
  · exact Set.disjoint_left.mp (marked.directory.disjoint marked.aligned inside free) inDirectory
      inFrame
  · have isMarked := marked.frames place isPlace address refers
    exact Set.disjoint_left.mp (isMarked.disjoint (frameAt_aligned refers) inside free) inPlace
      inFrame

theorem ClonedFrames.frameAt_subset
    (cloned : ClonedFrames original source directory start after owned ownedAfter part)
    (inside : place.From 512) (refers : frameAt after.memory directory place = some address) :
    range address pageSize ⊆ part place.slot := by
  have isSlot := cloned.filled place.slot inside.slot_bounds.1 inside.slot_bounds.2
  cases place with
  | table slot =>
    rcases frameAt_table_eq_some.mp refers with ⟨present, rfl⟩
    exact (SlotOutcome.copiedTable_of_present isSlot present).inFresh
  | page slot index =>
    rcases frameAt_page_eq_some.mp refers with ⟨present, isPage, rfl⟩
    have table := SlotOutcome.copiedTable_of_present isSlot present
    exact ((table.entries index inside.2).copiedPage_of_present isPage).fresh

theorem frameAt_ne_of_pagesApart {slot : ℕ}
    (isApart : read32 memory (directory + 4 * slot) &&& pagePresent ≠ 0 →
      PagesApart memory (read32 memory (directory + 4 * slot)))
    {left right : Place} (ofLeft : left.slot = slot) (ofRight : right.slot = slot)
    (leftInside : left.From 512) (rightInside : right.From 512) (different : left ≠ right)
    (leftRefers : frameAt memory directory left = some address) :
    frameAt memory directory right ≠ some address := by
  intro rightRefers
  cases left with
  | table leftSlot =>
    cases ofLeft
    rcases frameAt_table_eq_some.mp leftRefers with ⟨present, isTable⟩
    cases right with
    | table rightSlot =>
      cases ofRight
      exact different rfl
    | page rightSlot index =>
      cases ofRight
      rcases frameAt_page_eq_some.mp rightRefers with ⟨_, isPage, isAddress⟩
      exact (isApart present).table index rightInside.2 isPage (isAddress.trans isTable.symm)
  | page leftSlot index =>
    cases ofLeft
    rcases frameAt_page_eq_some.mp leftRefers with ⟨present, leftPage, leftAddress⟩
    cases right with
    | table rightSlot =>
      cases ofRight
      rcases frameAt_table_eq_some.mp rightRefers with ⟨_, isTable⟩
      exact (isApart present).table index leftInside.2 leftPage
        (leftAddress.trans isTable.symm)
    | page rightSlot otherIndex =>
      cases ofRight
      rcases frameAt_page_eq_some.mp rightRefers with ⟨_, rightPage, rightAddress⟩
      rcases lt_trichotomy index otherIndex with lower | equal | higher
      · exact (isApart present).pages otherIndex rightInside.2 index lower leftPage rightPage
          (leftAddress.trans rightAddress.symm)
      · exact different (by rw [equal])
      · exact (isApart present).pages index leftInside.2 otherIndex higher rightPage leftPage
          (rightAddress.trans leftAddress.symm)

theorem ClonedFrames.framesApart
    (cloned : ClonedFrames original source directory start after owned ownedAfter part)
    {left right : Place} (leftInside : left.From 512) (rightInside : right.From 512)
    (different : left ≠ right) (leftRefers : frameAt after.memory directory left = some address) :
    frameAt after.memory directory right ≠ some address := by
  intro rightRefers
  have leftPart := cloned.frameAt_subset leftInside leftRefers
  have rightPart := cloned.frameAt_subset rightInside rightRefers
  have leftBounds := leftInside.slot_bounds
  have rightBounds := rightInside.slot_bounds
  rcases lt_trichotomy left.slot right.slot with below | same | above
  · exact ne_of_disjoint_parts (cloned.partsApart _ _ leftBounds.1 below rightBounds.2) leftPart
      rightPart rfl
  · have isSlot := cloned.filled left.slot leftBounds.1 leftBounds.2
    exact frameAt_ne_of_pagesApart
      (fun present => (SlotOutcome.copiedTable_of_present isSlot present).apart) rfl same.symm
      leftInside rightInside different leftRefers rightRefers
  · exact ne_of_disjoint_parts (cloned.partsApart _ _ rightBounds.1 above leftBounds.2) rightPart
      leftPart rfl

theorem ClonedFrames.pageEntry_copied {page copy : ℕ}
    (cloned : ClonedFrames original source directory start after owned ownedAfter part)
    (lower : 512 * 1024 ≤ page) (upper : page < 1024 * 1024)
    (mapped : pageEntry after.memory directory page = some copy) :
    ∃ entry fresh place, pageEntry original source page = some entry ∧
      CopiedPage original after.memory fresh place entry copy := by
  have isSlot := cloned.filled (page / 1024) (by omega) (by omega)
  rcases pageEntry_eq_some_iff.mp mapped with ⟨present, isPage, rfl⟩
  have table := SlotOutcome.copiedTable_of_present isSlot present
  have isCopy := (table.entries (page % 1024) (Nat.mod_lt _ (by decide))).copiedPage_of_present
    isPage
  refine ⟨_, _, _, pageEntry_eq_some_iff.mpr ⟨?_, ?_, rfl⟩, isCopy⟩
  · rwa [← present_of_flags table.flags]
  · rwa [← present_of_flags isCopy.flags]

theorem ClonedFrames.pageEntry_isSome {page entry : ℕ}
    (cloned : ClonedFrames original source directory start after owned ownedAfter part)
    (lower : 512 * 1024 ≤ page) (upper : page < 1024 * 1024)
    (granted : AllGranted original (HasFrame (frameSlotState source directory start (page / 1024)))
      (fun index => HasFrame (frameEntryState
        (physicalAddress (read32 original (source + 4 * (page / 1024))))
        (frameSlotState source directory start (page / 1024)) index))
      (read32 original (source + 4 * (page / 1024))))
    (mapped : pageEntry original source page = some entry) :
    (pageEntry after.memory directory page).isSome := by
  have isSlot := cloned.filled (page / 1024) (by omega) (by omega)
  have isCopied := SlotOutcome.copiedSlot isSlot granted
  rcases pageEntry_eq_some_iff.mp mapped with ⟨present, isPage, isEntry⟩
  rw [CopiedSlot, if_neg present] at isCopied
  rcases isCopied with ⟨slotFlags, _, entries⟩
  have isCopy := entries (page % 1024) (Nat.mod_lt _ (by decide))
  rw [isEntry, CopiedEntry, if_neg isPage] at isCopy
  refine Option.isSome_iff_exists.mpr ⟨_, pageEntry_eq_some_iff.mpr ⟨?_, ?_, rfl⟩⟩
  · rwa [present_of_flags slotFlags]
  · rwa [present_of_flags isCopy.flags]

theorem ClonedFrames.kept
    (cloned : ClonedFrames original source directory start after
      (owned ∪ range directory pageSize) ownedAfter part)
    (granted : GrantedBy Guards state owned directory pageSize start) :
    Set.EqOn after.memory state.memory owned := by
  refine (cloned.extension.frame.mono ?_).trans granted.frame
  intro location isOwned
  refine ⟨Or.inl isOwned, fun inHigh => Set.disjoint_left.mp granted.fresh isOwned ?_⟩
  simp only [Ownership.words, mem_range, pageSize] at inHigh ⊢
  omega

theorem createPageDirectory_aligned (state : Vmm.State) :
    (Vmm.vmmCreatePageDirectory state).1 % pageSize = 0 := by
  rcases Vmm.createPageDirectory_cases state with none | ⟨frame, _, _, place, _⟩
  · rw [none]
    rfl
  · rw [place]
    exact Nat.mul_mod_left _ _

theorem ClonedFrames.kernelSlots
    (cloned : ClonedFrames original source (Vmm.vmmCreatePageDirectory state).1
      (Vmm.vmmCreatePageDirectory state).2 after
      (owned ∪ range (Vmm.vmmCreatePageDirectory state).1 pageSize) ownedAfter part)
    (hasFrame : (Vmm.vmmCreatePageDirectory state).1 ≠ 0)
    (aligned : state.kernelPageDirectory % pageSize = 0)
    (different : (Vmm.vmmCreatePageDirectory state).1 ≠ state.kernelPageDirectory) {slot : ℕ}
    (low : slot < 512) :
    read32 after.memory ((Vmm.vmmCreatePageDirectory state).1 + 4 * slot) =
      if state.kernelPageDirectory = 0 then 0
      else read32 state.memory (state.kernelPageDirectory + 4 * slot) := by
  have unchanged : read32 after.memory ((Vmm.vmmCreatePageDirectory state).1 + 4 * slot) =
      read32 (Vmm.vmmCreatePageDirectory state).2.memory
        ((Vmm.vmmCreatePageDirectory state).1 + 4 * slot) := by
    refine read32_congr (cloned.extension.frame.mono ?_)
    intro location inWord
    refine ⟨Or.inr (Vmm.word_subset_frame (by omega) inWord), ?_⟩
    simp only [Ownership.words, mem_range] at inWord ⊢
    omega
  rw [unchanged]
  split
  next noKernel => exact createPageDirectory_clear hasFrame (by omega) (Or.inr noKernel)
  next hasKernel =>
    have place := createPageDirectory_aligned state
    rw [createPageDirectory_memory hasFrame, Vmm.read32_newDirectory_kernel hasKernel low]
    generalize (Vmm.vmmCreatePageDirectory state).1 = directory at different place ⊢
    simp only [pageSize] at aligned place ⊢
    omega

/-- `vmm_clone_page_directory` returns an isolated copy, if the source's frames are marked
and no allocation fails. -/
theorem vmmClonePageDirectory_isolatedCopy (hasSource : source ≠ 0)
    (marked : SourceMarked state source) (frames : FramesSuffice state source) :
    IsolatedCopy state (vmmClonePageDirectory state source).2 source
      (vmmClonePageDirectory state source).1 := by
  rcases frames with ⟨hasFrame, granted⟩
  have guards := marked.guards
  have created := guards.vmmCreatePageDirectory hasFrame
  rcases vmmClonePageDirectory_outcome guards subset_rfl (fun _ _ => rfl)
    (fun slot _ upper => holdsSlot_bytesFrom (Nat.zero_le slot) upper) hasSource hasFrame with
    ⟨place, ownedAfter, part, cloned⟩
  have sourceKept := cloned.kept created
  rw [place]
  constructor
  · intro page lower upper
    constructor
    · intro isMapped
      rcases Option.isSome_iff_exists.mp isMapped with ⟨copy, isCopy⟩
      rcases cloned.pageEntry_copied lower upper isCopy with ⟨entry, _, _, isEntry, _⟩
      exact Option.isSome_iff_exists.mpr ⟨entry, isEntry⟩
    · intro isMapped
      rcases Option.isSome_iff_exists.mp isMapped with ⟨entry, isEntry⟩
      exact cloned.pageEntry_isSome lower upper
        (granted (page / 1024) (by omega) (by omega)) isEntry
  · intro page lower upper entry copy isEntry isCopy
    rcases cloned.pageEntry_copied lower upper isCopy with ⟨found, _, _, isFound, copied⟩
    cases Option.some.inj (isEntry.symm.trans isFound)
    exact ⟨copied.flags, copied.contents⟩
  · exact fun left right leftInside rightInside different address leftRefers =>
      cloned.framesApart leftInside rightInside different leftRefers
  · intro place inside address refers
    have inPart := cloned.frameAt_subset inside refers
    have bounds := inside.slot_bounds
    apply notReferred_of_disjoint
    refine Set.disjoint_left.mpr fun location inBytes inFrame => ?_
    exact (cloned.isPart _ bounds.1 bounds.2 (inPart inFrame)).2 (Or.inl inBytes)
  · exact notReferred_of_disjoint created.fresh
  · exact sourceKept
  · intro aligned different slot low
    exact cloned.kernelSlots hasFrame aligned different low
  · intro aligned isMarked
    have bothGuarded : Guards state (bytesFrom 0 state.memory source ∪
        range state.kernelPageDirectory pageSize) := fun frame inside free =>
      Set.disjoint_union_left.mpr ⟨guards frame inside free, isMarked.disjoint aligned inside free⟩
    have apart := bothGuarded.vmmCreatePageDirectory hasFrame
    rcases vmmClonePageDirectory_outcome bothGuarded Set.subset_union_left (fun _ _ => rfl)
      (fun slot _ upper => holdsSlot_bytesFrom (Nat.zero_le slot) upper) hasSource hasFrame with
      ⟨_, _, _, keeps⟩
    refine ⟨?_, (keeps.kept apart).mono Set.subset_union_right⟩
    exact ne_of_disjoint_parts apart.fresh.symm subset_rfl Set.subset_union_right

theorem linkedState_sourceMarked : SourceMarked (linkedState 512) 0x401000 := by
  have marked {address : ℕ} (below : address < 0x404000) :
      MarkedUsed (linkedState 512) address := by
    intro inside
    rw [linkedState_handedOut.used _ inside, decide_eq_true_eq]
    simp only [pageSize]
    omega
  have tableFrame : physicalAddress 0x402007 = 0x402000 := by decide
  refine ⟨rfl, marked (by decide), ?_⟩
  intro place inside address refers
  cases place with
  | table slot =>
    rcases frameAt_table_eq_some.mp refers with ⟨present, rfl⟩
    rw [read32_linkedState_slot inside.2] at present ⊢
    split at present
    next isSlot =>
      rw [if_pos isSlot, tableFrame]
      exact marked (by decide)
    · contradiction
  | page slot index =>
    rcases frameAt_page_eq_some.mp refers with ⟨present, isPage, rfl⟩
    rw [read32_linkedState_slot inside.1.2] at present isPage ⊢
    split at present
    next isSlot =>
      rw [if_pos isSlot, tableFrame, read32_linkedState_entry (by decide) inside.2] at isPage ⊢
      split at isPage
      next isFirst =>
        rw [if_pos isFirst]
        exact marked (by decide)
      · contradiction
    · contradiction

theorem linkedState_framesSuffice : FramesSuffice (linkedState 512) 0x401000 := by
  refine ⟨linkedState_hasDirectory, fun slot lower upper => ?_⟩
  rw [read32_linkedState_slot upper]
  intro present
  by_cases isSlot : slot = 512
  · subst isSlot
    rw [if_pos rfl, show physicalAddress 0x402007 = 0x402000 by decide]
    rcases linkedState_frames with ⟨table, page⟩
    refine ⟨table, fun index inside isPage => ?_⟩
    rw [read32_linkedState_entry (by decide) inside] at isPage
    by_cases isFirst : index = 0
    · subst isFirst
      exact page
    · rw [if_neg isFirst] at isPage
      exact absurd rfl isPage
  · rw [if_neg isSlot] at present
    exact absurd rfl present

/-- A directory with one page, in the first slot that is copied. -/
theorem linkedState_isolatedCopy :
    IsolatedCopy (linkedState 512) (vmmClonePageDirectory (linkedState 512) 0x401000).2 0x401000
      (vmmClonePageDirectory (linkedState 512) 0x401000).1 :=
  vmmClonePageDirectory_isolatedCopy (by decide) linkedState_sourceMarked linkedState_framesSuffice

end RamOS.Proc
