import RamOS.Proc.CloneFrames
import RamOS.Proc.Isolation
import RamOS.Vmm.Window

/-!
# When a clone is complete

Both functions that clone a page directory go on after a failed allocation and return the
directory. A page is mapped with its contents exactly when its page table and the page itself
could be allocated, or when its table could not and the new directory inherited a mapping of it
from the kernel's.
-/

namespace RamOS.Proc

open ByteMemory
open Vmm (physicalAddress pagePresent pageSize vmmClonePageDirectory)

def MapsCopy (original memory : Memory) (mapped : Option ℕ) (entry : ℕ) : Prop :=
  ∃ copied, mapped = some copied ∧ ∀ offset < pageSize,
    memory (physicalAddress copied + offset) = original (physicalAddress entry + offset)

/-- Every page that the source maps from slot `lower` on is mapped with the same contents. -/
def Complete (lower : ℕ) (original memory : Memory) (source directory : ℕ) : Prop :=
  ∀ page, lower * 1024 ≤ page → page < 1024 * 1024 → ∀ entry,
    pageEntry original source page = some entry →
      MapsCopy original memory (pageEntry memory directory page) entry

variable {region : Heap.Region} {state : Vmm.State} {owned fresh : Set ℕ}
  {original memory : Memory} {source directory slot index entry copied inherited page : ℕ}
  {granted : Prop} {places : ℕ → ℕ}

theorem slotEntry_zero : slotEntry memory 0 index = none := by
  rw [slotEntry, if_pos (by decide)]

/-- A page is mapped with its contents exactly when table and page were allocated, or the table was
refused and the inherited one maps it. -/
theorem SlotOutcome.mapsCopy_iff
    (outcome : SlotOutcome original memory fresh inherited granted places slot copied)
    (inside : index < 1024) (mapped : slotEntry original slot index = some entry) :
    MapsCopy original memory (slotEntry memory copied index) entry ↔
      granted ∧ places index ≠ 0 ∨
        ¬ granted ∧ MapsCopy original memory (slotEntry memory inherited index) entry := by
  rcases slotEntry_eq_some.mp mapped with ⟨present, pageIsPresent, isEntry⟩
  rw [SlotOutcome, if_neg present] at outcome
  by_cases isGranted : granted
  · have table := outcome.1 isGranted
    have entryOutcome := table.entries index inside
    have tableIsPresent : copied &&& pagePresent ≠ 0 := by
      rwa [present_of_flags table.flags]
    rw [isEntry, EntryOutcome, if_neg pageIsPresent] at entryOutcome
    simp only [isGranted, true_and, not_true_eq_false, false_and, or_false]
    constructor
    · rintro ⟨copy, isCopy, _⟩
      intro refused
      rcases slotEntry_eq_some.mp isCopy with ⟨_, copyIsPresent, isWord⟩
      rw [entryOutcome.2 refused] at isWord
      rw [← isWord] at copyIsPresent
      exact copyIsPresent rfl
    · intro pageIsGranted
      have page := entryOutcome.1 pageIsGranted
      refine ⟨_, slotEntry_eq_some.mpr ⟨tableIsPresent, ?_, rfl⟩, page.contents⟩
      rwa [present_of_flags page.flags]
  · rw [outcome.2 isGranted]
    simp only [isGranted, false_and, not_false_eq_true, true_and, false_or]

theorem mapsCopy_congr {kept : Set ℕ} (held : HoldsSlot original kept directory slot)
    (same : Set.EqOn memory original kept) (inside : index < 1024) :
    MapsCopy original memory
        (slotEntry memory (read32 original (directory + 4 * slot)) index) entry ↔
      MapsCopy original original
        (slotEntry original (read32 original (directory + 4 * slot)) index) entry := by
  have tableHeld := held.table
  have pageHeld := held.page
  generalize read32 original (directory + 4 * slot) = word at tableHeld pageHeld ⊢
  have sameEntry : slotEntry memory word index = slotEntry original word index := by
    simp only [slotEntry]
    split
    · rfl
    next present =>
      rw [read32_congr (same.mono ((Vmm.word_subset_frame inside).trans (tableHeld present)))]
  rw [sameEntry]
  have sameContents (copy : ℕ) (isCopy : slotEntry original word index = some copy) (offset : ℕ)
      (below : offset < pageSize) :
      memory (physicalAddress copy + offset) = original (physicalAddress copy + offset) := by
    rcases slotEntry_eq_some.mp isCopy with ⟨present, pageIsPresent, rfl⟩
    refine same (pageHeld present index inside pageIsPresent ?_)
    rw [mem_range]
    omega
  constructor
  · rintro ⟨copy, isCopy, contents⟩
    refine ⟨copy, isCopy, fun offset below => ?_⟩
    rw [← sameContents copy isCopy offset below, contents offset below]
  · rintro ⟨copy, isCopy, contents⟩
    refine ⟨copy, isCopy, fun offset below => ?_⟩
    rw [sameContents copy isCopy offset below, contents offset below]

/-- `clone_page_directory_deep` gets a page table for the slot of a page. -/
def DeepTable (region : Heap.Region) (state : Vmm.State) (source page : ℕ) : Prop :=
  HasPage region (deepSlotRun region state source (page / 1024)).1

/-- `clone_page_directory_deep` gets memory for a page, once its slot has a table. -/
def DeepPage (region : Heap.Region) (state : Vmm.State) (source page : ℕ) : Prop :=
  deepPlace region state.memory state source (page / 1024) (page % 1024) ≠ 0

/-- The kernel's directory, whose lower half is inherited, maps a page with the contents that
`entry` refers to. -/
def KernelMaps (state : Vmm.State) (page entry : ℕ) : Prop :=
  state.kernelPageDirectory ≠ 0 ∧ page < 512 * 1024 ∧
    MapsCopy state.memory state.memory (pageEntry state.memory state.kernelPageDirectory page) entry

def frameSlot (state : Vmm.State) (source page : ℕ) : Vmm.State :=
  frameSlotState source (Vmm.vmmCreatePageDirectory state).1 (Vmm.vmmCreatePageDirectory state).2
    (page / 1024)

/-- `vmm_clone_page_directory` gets a frame for the page table of a page. -/
def FrameTable (state : Vmm.State) (source page : ℕ) : Prop :=
  HasFrame (frameSlot state source page)

/-- `vmm_clone_page_directory` gets a frame for a page, once its slot has a table. -/
def FramePage (state : Vmm.State) (source page : ℕ) : Prop :=
  HasFrame (frameEntryState (physicalAddress (read32 state.memory (source + 4 * (page / 1024))))
    (frameSlot state source page) (page % 1024))

/-- What `clone_page_directory_deep` returns maps every page of the range that it copies. -/
def DeepComplete (region : Heap.Region) (state : Vmm.State) (source : ℕ) : Prop :=
  Complete 256 state.memory (clonePageDirectoryDeep region state source).2.1.memory source
    (clonePageDirectoryDeep region state source).1

def FramesComplete (state : Vmm.State) (source : ℕ) : Prop :=
  Complete 512 state.memory (vmmClonePageDirectory state source).2.memory source
    (vmmClonePageDirectory state source).1

theorem read32_deepStart (lower : 256 ≤ slot) :
    read32 (deepStart state source).1.memory ((Vmm.vmmCreatePageDirectory state).1 + 4 * slot) =
      read32 (Vmm.vmmCreatePageDirectory state).2.memory
        ((Vmm.vmmCreatePageDirectory state).1 + 4 * slot) := by
  simp only [deepStart]
  exact read32_copyWords_of_disjoint (by omega)

theorem inherited_iff (inUse : InUse region state owned)
    (kernelHeld : state.kernelPageDirectory ≠ 0 →
      bytesFrom 256 state.memory state.kernelPageDirectory ⊆ owned)
    (hasFrame : (Vmm.vmmCreatePageDirectory state).1 ≠ 0)
    (same : Set.EqOn memory state.memory owned) (lower : 256 * 1024 ≤ page)
    (upper : page < 1024 * 1024) :
    MapsCopy state.memory memory
        (slotEntry memory (read32 (Vmm.vmmCreatePageDirectory state).2.memory
          ((Vmm.vmmCreatePageDirectory state).1 + 4 * (page / 1024))) (page % 1024)) entry ↔
      KernelMaps state page entry := by
  have granted := inUse.vmmCreatePageDirectory hasFrame
  by_cases inherits : state.kernelPageDirectory ≠ 0 ∧ page < 512 * 1024
  · rcases inherits with ⟨hasKernel, low⟩
    have held := @holdsSlot_bytesFrom state.memory (page / 1024) 256 state.kernelPageDirectory
      (by omega) (by omega)
    have directoryHeld : range state.kernelPageDirectory pageSize ⊆ owned :=
      fun location inDirectory => kernelHeld hasKernel (Or.inl inDirectory)
    have apart := apart_of_disjoint_range (granted.fresh.symm.mono_right directoryHeld)
      (by decide) (by decide)
    rw [createPageDirectory_memory hasFrame,
      Vmm.read32_newDirectory_kernel hasKernel (by omega) apart,
      mapsCopy_congr held (same.mono (kernelHeld hasKernel)) (Nat.mod_lt _ (by decide)),
      ← pageEntry]
    exact ⟨fun copies => ⟨hasKernel, low, copies⟩, fun maps => maps.2.2⟩
  · rw [createPageDirectory_clear hasFrame (by omega) (by omega), slotEntry_zero]
    constructor
    · rintro ⟨copy, isCopy, _⟩
      cases isCopy
    · exact fun maps => absurd ⟨maps.1, maps.2.1⟩ inherits

theorem deep_complete_iff (inUse : InUse region state owned)
    (sourceHeld : source ≠ 0 → bytesFrom 256 state.memory source ⊆ owned)
    (kernelHeld : state.kernelPageDirectory ≠ 0 →
      bytesFrom 256 state.memory state.kernelPageDirectory ⊆ owned)
    (hasSource : source ≠ 0) (hasFrame : (Vmm.vmmCreatePageDirectory state).1 ≠ 0) :
    DeepComplete region state source ↔
      ∀ page, 256 * 1024 ≤ page → page < 1024 * 1024 → ∀ entry,
        pageEntry state.memory source page = some entry →
          DeepTable region state source page ∧ DeepPage region state source page ∨
            ¬ DeepTable region state source page ∧ KernelMaps state page entry := by
  rcases @clonePageDirectoryDeep_outcome state.memory region state owned
    (bytesFrom 256 state.memory source) _ source _ inUse (sourceHeld hasSource) (fun _ _ => rfl)
    (fun slot lower upper => holdsSlot_bytesFrom lower upper)
    (fun _ inDirectory => Or.inl inDirectory) hasSource hasFrame Prod.mk.eta.symm with
    ⟨place, _, ownedAfter, _, _, same, _, _, outcomes⟩
  refine forall_congr' fun page => forall₂_congr fun lower upper => ?_
  refine forall₂_congr fun entry mapped => ?_
  rw [pageEntry] at mapped ⊢
  have outcome := outcomes (page / 1024) (by omega) (by omega)
  rw [DeepOutcome, place, read32_deepStart (by omega)] at outcome
  rw [place, outcome.mapsCopy_iff (Nat.mod_lt _ (by decide)) mapped,
    inherited_iff inUse kernelHeld hasFrame same lower upper]
  rfl

theorem frames_complete_iff (inUse : InUse region state owned)
    (sourceHeld : source ≠ 0 → bytesFrom 256 state.memory source ⊆ owned)
    (hasSource : source ≠ 0) (hasFrame : (Vmm.vmmCreatePageDirectory state).1 ≠ 0) :
    FramesComplete state source ↔
      ∀ page, 512 * 1024 ≤ page → page < 1024 * 1024 → ∀ entry,
        pageEntry state.memory source page = some entry →
          FrameTable state source page ∧ FramePage state source page := by
  rcases @vmmClonePageDirectory_outcome state.memory state owned
    (bytesFrom 256 state.memory source) source inUse.frames (sourceHeld hasSource) (fun _ _ => rfl)
    (fun slot lower upper => holdsSlot_bytesFrom (by omega) upper) hasSource hasFrame with
    ⟨place, _, _, cloned⟩
  refine forall_congr' fun page => forall₂_congr fun lower upper => ?_
  refine forall₂_congr fun entry mapped => ?_
  rw [pageEntry] at mapped ⊢
  have outcome := cloned.filled (page / 1024) (by omega) (by omega)
  rw [FrameOutcome] at outcome
  rw [place, outcome.mapsCopy_iff (Nat.mod_lt _ (by decide)) mapped, slotEntry_zero]
  constructor
  · rintro (both | ⟨_, _, isCopy, _⟩)
    · exact both
    · cases isCopy
  · exact Or.inl

theorem createPageDirectory_eq_zero_iff :
    (Vmm.vmmCreatePageDirectory state).1 = 0 ↔ ¬ HasFrame state := by
  rw [HasFrame, not_not, Vmm.vmmCreatePageDirectory]
  split
  next directory after found =>
    rw [found]
    split
    next null => simp [null]
    next notNull => exact Iff.rfl

theorem clonePageDirectoryDeep_eq_zero_iff :
    (clonePageDirectoryDeep region state source).1 = 0 ↔ source = 0 ∨ ¬ HasFrame state := by
  rw [← createPageDirectory_eq_zero_iff, clonePageDirectoryDeep]
  split
  next noSource => simp [noSource]
  next hasSource =>
    dsimp only
    split
    next null => simp [null]
    next notNull => simp [hasSource]

theorem vmmClonePageDirectory_eq_zero_iff :
    (vmmClonePageDirectory state source).1 = 0 ↔ source = 0 ∨ ¬ HasFrame state := by
  rw [← createPageDirectory_eq_zero_iff, vmmClonePageDirectory]
  split
  next noSource => simp [noSource]
  next hasSource =>
    dsimp only
    split
    next null => simp [null]
    next notNull => simp [hasSource]

/-- A clone returns null or a complete directory exactly when there is no source or no frame for
the directory, or each page of the copied range and its table could be allocated, or the table could
not and the page comes with the kernel's half. -/
theorem clone_complete_iff (inUse : InUse region state owned)
    (sourceHeld : source ≠ 0 → bytesFrom 256 state.memory source ⊆ owned)
    (kernelHeld : state.kernelPageDirectory ≠ 0 →
      bytesFrom 256 state.memory state.kernelPageDirectory ⊆ owned) :
    ((clonePageDirectoryDeep region state source).1 = 0 ∨ DeepComplete region state source ↔
      (source = 0 ∨ ¬ HasFrame state) ∨
        ∀ page, 256 * 1024 ≤ page → page < 1024 * 1024 → ∀ entry,
          pageEntry state.memory source page = some entry →
            DeepTable region state source page ∧ DeepPage region state source page ∨
              ¬ DeepTable region state source page ∧ KernelMaps state page entry) ∧
    ((vmmClonePageDirectory state source).1 = 0 ∨ FramesComplete state source ↔
      (source = 0 ∨ ¬ HasFrame state) ∨
        ∀ page, 512 * 1024 ≤ page → page < 1024 * 1024 → ∀ entry,
          pageEntry state.memory source page = some entry →
            FrameTable state source page ∧ FramePage state source page) := by
  rw [clonePageDirectoryDeep_eq_zero_iff, vmmClonePageDirectory_eq_zero_iff]
  constructor
  · refine or_congr_right' fun possible => ?_
    rw [← createPageDirectory_eq_zero_iff, not_or] at possible
    exact deep_complete_iff inUse sourceHeld kernelHeld possible.1 possible.2
  · refine or_congr_right' fun possible => ?_
    rw [← createPageDirectory_eq_zero_iff, not_or] at possible
    exact frames_complete_iff inUse sourceHeld possible.1 possible.2

section Linked

variable {linked : ℕ}

theorem hasFrame_of_handedOut {count : ℕ} (handed : Vmm.HandedOut count state)
    (positive : 0 < count) (inside : count < Vmm.maxFrames) : HasFrame state := by
  rw [HasFrame, handed.allocFrame_eq inside]
  exact mul_ne_zero positive.ne' (by decide)

theorem linkedState_hasDirectory : (Vmm.vmmCreatePageDirectory (linkedState linked)).1 ≠ 0 := by
  rw [Ne, createPageDirectory_eq_zero_iff, not_not]
  exact hasFrame_of_handedOut linkedState_handedOut (by decide) (by decide)

theorem deepSlotRun_first : deepSlotRun region state source 256 = deepStart state source := rfl

theorem deepPlace_first : deepPlace region original state source 256 0 =
    pagePlace region (kmallocAligned region (deepStart state source).1 4096 4096).2 := rfl

theorem linkedState_pages :
    DeepTable lowHeap (linkedState 256) 0x401000 (256 * 1024) ∧
      DeepPage lowHeap (linkedState 256) 0x401000 (256 * 1024) := by
  rw [DeepTable, DeepPage, Nat.mul_div_cancel _ (by decide : 0 < 1024), Nat.mul_mod_left,
    deepPlace_first, deepSlotRun_first, HasPage, pagePlace, pagePlace]
  decide +kernel

theorem linkedState_frames :
    FrameTable (linkedState 512) 0x401000 (512 * 1024) ∧
      FramePage (linkedState 512) 0x401000 (512 * 1024) := by
  simp only [FrameTable, FramePage, HasFrame]
  decide +kernel

/-- A page in the first slot that `clone_page_directory_deep` copies, and one in the first slot that
`vmm_clone_page_directory` copies. -/
theorem clone_complete_linked :
    ((clonePageDirectoryDeep lowHeap (linkedState 256) 0x401000).1 ≠ 0 ∧
      DeepComplete lowHeap (linkedState 256) 0x401000) ∧
      (vmmClonePageDirectory (linkedState 512) 0x401000).1 ≠ 0 ∧
      FramesComplete (linkedState 512) 0x401000 := by
  have possible (linked : ℕ) : ¬ ((0x401000 : ℕ) = 0 ∨ ¬ HasFrame (linkedState linked)) := by
    rw [← createPageDirectory_eq_zero_iff]
    exact not_or.mpr ⟨by decide, linkedState_hasDirectory⟩
  have deep := possible 256
  have frames := possible 512
  rw [← @clonePageDirectoryDeep_eq_zero_iff lowHeap] at deep
  rw [← vmmClonePageDirectory_eq_zero_iff] at frames
  have held (linked : ℕ) (below : linked < 1024) := @clone_complete_iff lowHeap
    (linkedState linked) _ 0x401000 linkedState_inUse
    (fun _ => (bytesFrom_linkedState below).trans (frames_linkedState (by decide) (by decide)))
    (fun _ => kernelBytes_linkedState.trans (frames_linkedState (by decide) (by decide)))
  refine ⟨⟨deep, ((held 256 (by decide)).1.mpr (Or.inr ?_)).resolve_left deep⟩, frames,
    ((held 512 (by decide)).2.mpr (Or.inr ?_)).resolve_left frames⟩
  · intro page lower upper entry mapped
    rw [pageEntry_linkedState (by decide) upper] at mapped
    split at mapped
    next here =>
      rw [here]
      exact Or.inl linkedState_pages
    next => cases mapped
  · intro page lower upper entry mapped
    rw [pageEntry_linkedState (by decide) upper] at mapped
    split at mapped
    next here =>
      rw [here]
      exact linkedState_frames
    next => cases mapped

end Linked

/-- Nearly all of the heap has been allocated, and one frame is left. -/
def scarceState (linked : ℕ) : Vmm.State :=
  { (kmalloc lowHeap (linkedState linked) 0xFE000).2 with
    frameBitmap := Bitmap.clear (fun _ => 0xFFFFFFFF) 1028
    kernelPageDirectory := 0 }

theorem scarceState_free {linked frame : ℕ}
    (free : Vmm.frameUsed (scarceState linked) frame = false) : frame = 1028 := by
  by_contra other
  simp [Vmm.frameUsed, scarceState, Bitmap.test_clear, other] at free

theorem scarceState_inUse (linked : ℕ) :
    InUse lowHeap (scarceState linked) (insert 0x100000 (range 0x400000 0x4000)) ∧
      Set.EqOn (scarceState linked).memory (linkedState linked).memory
        (insert 0x100000 (range 0x400000 0x4000)) := by
  have inUse := @linkedState_inUse linked
  have guards {owned : Set ℕ} (guarded : Guards (linkedState linked) owned) :
      Guards (scarceState linked) owned := by
    intro frame inside free
    cases scarceState_free free
    exact guarded 1028 inside (by rw [linkedState_handedOut.used 1028 inside]; rfl)
  rcases @InUse.kmalloc _ _ _ inUse 0xFE000 (by decide) (by decide) with
    failed | ⟨pointer, after, run, granted⟩
  · refine ⟨⟨?_, guards inUse.frames, guards inUse.apart⟩, ?_⟩ <;> rw [scarceState, failed]
    · exact inUse.heap
    · exact fun _ _ => rfl
  · refine ⟨⟨?_, guards inUse.frames, guards inUse.apart⟩, ?_⟩ <;> rw [scarceState, run]
    · exact (granted.inUse.mono Set.subset_union_left).heap
    · exact granted.frame

theorem scarceState_held (below : slot < 1024) :
    bytesFrom 256 (scarceState slot).memory 0x401000 ⊆
      insert 0x100000 (range 0x400000 0x4000) := by
  have held := (@bytesFrom_linkedState slot below 256).trans
    (frames_linkedState (by decide) (by decide))
  exact (bytesFrom_subset ((scarceState_inUse slot).2.mono held)).trans held

theorem scarceState_page :
    pageEntry (scarceState 256).memory 0x401000 (256 * 1024) = some 0x403007 ∧
      HasFrame (scarceState 256) ∧ ¬ DeepTable lowHeap (scarceState 256) 0x401000 (256 * 1024) := by
  rw [DeepTable, Nat.mul_div_cancel _ (by decide : 0 < 1024), deepSlotRun_first, HasPage, pagePlace,
    HasFrame]
  decide +kernel

theorem scarceState_frame :
    pageEntry (scarceState 512).memory 0x401000 (512 * 1024) = some 0x403007 ∧
      HasFrame (scarceState 512) ∧ ¬ FrameTable (scarceState 512) 0x401000 (512 * 1024) := by
  have hasFrame : HasFrame (scarceState 512) := by
    rw [HasFrame]
    decide +kernel
  refine ⟨by decide +kernel, hasFrame, fun hasTable => ?_⟩
  rcases Vmm.allocFrame_cases (Vmm.vmmCreatePageDirectory (scarceState 512)).2 with
    ⟨refused, _⟩ | ⟨other, _, unused, _⟩
  · exact hasTable (congrArg Prod.fst refused)
  rcases Vmm.createPageDirectory_cases (scarceState 512) with none | ⟨frame, _, free, _, _, used, _⟩
  · exact createPageDirectory_eq_zero_iff.mp (congrArg Prod.fst none) hasFrame
  · rw [used other, Bool.or_eq_false_iff, decide_eq_false_iff_not] at unused
    exact unused.1 ((scarceState_free unused.2).trans (scarceState_free free).symm)

/-- With one frame left and hardly any of the heap, both functions return a directory without the
page that the source maps. -/
theorem clones_lose_page :
    ((clonePageDirectoryDeep lowHeap (scarceState 256) 0x401000).1 ≠ 0 ∧
      ¬ DeepComplete lowHeap (scarceState 256) 0x401000) ∧
      (vmmClonePageDirectory (scarceState 512) 0x401000).1 ≠ 0 ∧
      ¬ FramesComplete (scarceState 512) 0x401000 := by
  have possible {linked : ℕ} (hasFrame : HasFrame (scarceState linked)) :
      ¬ ((0x401000 : ℕ) = 0 ∨ ¬ HasFrame (scarceState linked)) :=
    not_or.mpr ⟨by decide, not_not_intro hasFrame⟩
  have directory {linked : ℕ} (hasFrame : HasFrame (scarceState linked)) :
      (Vmm.vmmCreatePageDirectory (scarceState linked)).1 ≠ 0 :=
    fun isNull => createPageDirectory_eq_zero_iff.mp isNull hasFrame
  rcases scarceState_page with ⟨page, hasFrame, noTable⟩
  rcases scarceState_frame with ⟨framePage, hasNextFrame, noFrame⟩
  refine ⟨⟨mt clonePageDirectoryDeep_eq_zero_iff.mp (possible hasFrame), fun complete => ?_⟩,
    mt vmmClonePageDirectory_eq_zero_iff.mp (possible hasNextFrame), fun complete => ?_⟩
  · rw [deep_complete_iff (scarceState_inUse 256).1 (fun _ => scarceState_held (by decide))
      (fun hasKernel => absurd rfl hasKernel) (by decide) (directory hasFrame)] at complete
    rcases complete _ le_rfl (by decide) _ page with ⟨table, _⟩ | ⟨_, hasKernel, _⟩
    · exact noTable table
    · exact hasKernel rfl
  · rw [frames_complete_iff (scarceState_inUse 512).1 (fun _ => scarceState_held (by decide))
      (by decide) (directory hasNextFrame)] at complete
    exact noFrame (complete _ le_rfl (by decide) _ framePage).1

end RamOS.Proc
