import RamOS.Proc.Copies

/-!
# What a clone of a page directory holds

`clone_page_directory_deep` shares the first 256 directory slots and copies page tables and
pages of the others into memory that was not in use before. Its loops are those of `copyEntries`
and `copySlots`, with the heap as the allocator.
-/

namespace RamOS.Proc

open ByteMemory
open Vmm (physicalAddress pagePresent pageSize)

/-- The block that `kmalloc_aligned` returns for a page, if any. -/
def pagePlace (region : Heap.Region) (state : Vmm.State) : ℕ :=
  (kmallocAligned region state 4096 4096).1

def HasPage (region : Heap.Region) (state : Vmm.State) : Prop := pagePlace region state ≠ 0

def slotRun (region : Heap.Region) (source directory : ℕ) (run : Vmm.State × Bool) (slot : ℕ) :
    Vmm.State × Bool :=
  Nat.fold (slot - 256)
    (fun index _ run => cloneTable region source directory (256 + index) run) run

def entryRun (region : Heap.Region) (sourceTable : ℕ) (run : Vmm.State × Bool) (index : ℕ) :
    Vmm.State × Bool :=
  match kmallocAligned region run.1 4096 4096 with
  | (table, state) =>
    Nat.fold index (fun index _ run => clonePage region sourceTable table index run) (state, run.2)

variable {original : Memory} {region : Heap.Region} {state : Vmm.State} {owned kept : Set ℕ}
  {run : Vmm.State × Bool} {index entry slot source directory table : ℕ}

theorem clonePage_step (inUse : InUse region run.1 owned)
    (inSource : read32 run.1.memory (source + 4 * index) = entry)
    (pageOwned : entry &&& pagePresent ≠ 0 → range (physicalAddress entry) pageSize ⊆ owned) :
    EntryStep (fun state => kmallocAligned region state 4096 4096) entry (table + 4 * index) run.1
        (clonePage region source table index run).1 ∧
      ((clonePage region source table index run).2 = true ↔
        run.2 = true ∧ (entry &&& pagePresent ≠ 0 → HasPage region run.1)) := by
  rcases run with ⟨state, succeeded⟩
  simp only at inUse inSource
  simp only [clonePage, inSource]
  split
  next absent => exact ⟨.absent absent, by simp [absent]⟩
  next present =>
    rcases servesPages_kmallocAligned region state owned inUse with
      ⟨isNull, _⟩ | ⟨aligned, granted⟩
    · rw [if_pos isNull]
      exact ⟨.refused present isNull, by simp [present, HasPage, pagePlace, isNull]⟩
    have notNull := granted.positive.ne'
    have bound := granted.bound
    have apart := apart_of_disjoint_range
      (granted.fresh.symm.mono_right (pageOwned present)) (by decide) (by decide)
    rw [if_neg notNull, and_not_0xFFF_of_aligned aligned (by omega)]
    exact ⟨.copied present notNull _ (copy_eqOn _ _ _ _) fun offset inside =>
      copy_apply apart inside, (and_iff_left fun _ => notNull).symm⟩

theorem cloneTable_step (keeps : Keeps (InUse region) original kept run.1 owned)
    (held : HoldsSlot original kept source slot)
    (inDirectory : range (directory + 4 * slot) 4 ⊆ owned) :
    SlotStep (InUse region) original (fun state => kmallocAligned region state 4096 4096)
        (fun index => pagePlace region (entryRun region
          (physicalAddress (read32 original (source + 4 * slot))) run index).1)
        (read32 original (source + 4 * slot)) (directory + 4 * slot) run.1 owned
        (cloneTable region source directory slot run).1 ∧
      ((cloneTable region source directory slot run).2 = true ↔
        run.2 = true ∧ AllGranted original (HasPage region run.1)
          (fun index => HasPage region (entryRun region
            (physicalAddress (read32 original (source + 4 * slot))) run index).1)
          (read32 original (source + 4 * slot))) := by
  rcases run with ⟨state, succeeded⟩
  have slotRead := read32_congr (keeps.same.mono held.entry)
  simp only at slotRead
  simp only [cloneTable, clonePages, entryRun, slotRead]
  split
  next absent =>
    exact ⟨.absent absent (spreads_store allowsStores_inUse keeps.safe inDirectory
      (write32_eqOn _ _ _)) (read32_write32_same _ _ _), by simp [AllGranted, absent]⟩
  next present =>
    rcases servesPages_kmallocAligned region state owned keeps.safe with
      ⟨isNull, _⟩ | ⟨aligned, granted⟩
    · rw [if_pos isNull]
      exact ⟨.refused present isNull, by simp [AllGranted, present, HasPage, pagePlace, isNull]⟩
    have notNull := granted.positive.ne'
    have bound := granted.bound
    rcases granted.keeps keeps with ⟨keepsNow, apart⟩
    rcases @copyEntries _ _ _ _ _ _ _ _ Prod.fst (fun run => run.2 = true)
      (fun index run => clonePage region _ _ index run)
      ((kmallocAligned region state 4096 4096).2, succeeded) allowsStores_inUse
      (servesPages_kmallocAligned region) keepsNow Set.subset_union_right apart
      (held.table present) (held.page present)
      (fun _ _ _ _ _ inUse _ inSource pageOwned => clonePage_step inUse inSource pageOwned) with
      ⟨ownedPages, part, entries, flag⟩
    rw [if_neg notNull, and_not_0xFFF_of_aligned aligned (by omega)]
    refine ⟨.copied present notNull entries, ?_⟩
    dsimp only at flag ⊢
    rw [flag]
    exact and_congr_right fun _ => ⟨fun pages _ => ⟨notNull, pages⟩, fun all => (all present).2⟩

def DeepOutcome (region : Heap.Region) (original : Memory) (source directory : ℕ)
    (start : Vmm.State × Bool) (slot : ℕ) (memory : Memory) (fresh : Set ℕ) (copied : ℕ) : Prop :=
  SlotOutcome original memory fresh (read32 start.1.memory (directory + 4 * slot))
    (HasPage region (slotRun region source directory start slot).1)
    (fun index => pagePlace region (entryRun region
      (physicalAddress (read32 original (source + 4 * slot)))
      (slotRun region source directory start slot) index).1)
    (read32 original (source + 4 * slot)) copied

def DeepGranted (region : Heap.Region) (original : Memory) (source directory : ℕ)
    (start : Vmm.State × Bool) (slot : ℕ) : Prop :=
  AllGranted original (HasPage region (slotRun region source directory start slot).1)
    (fun index => HasPage region (entryRun region
      (physicalAddress (read32 original (source + 4 * slot)))
      (slotRun region source directory start slot) index).1)
    (read32 original (source + 4 * slot))

theorem cloneTables_fills (keeps : Keeps (InUse region) original kept run.1 owned)
    (inDirectory : Ownership.words directory 256 768 ⊆ owned)
    (apart : Disjoint kept (Ownership.words directory 256 768))
    (held : ∀ slot, 256 ≤ slot → slot < 1024 → HoldsSlot original kept source slot) :
    ∃ ownedAfter part,
      Ownership.Fills (fun state : Vmm.State => state.memory) (InUse region)
        (DeepOutcome region original source directory run) directory 256 768 run.1 owned
        (cloneTables region source directory run).1 ownedAfter part ∧
      ((cloneTables region source directory run).2 = true ↔
        run.2 = true ∧ ∀ slot, 256 ≤ slot → slot < 1024 →
          DeepGranted region original source directory run slot) :=
  copySlots Prod.fst (fun run => run.2 = true) (cloneTable region source directory)
    allowsStores_inUse (servesPages_kmallocAligned region) keeps inDirectory apart
    (fun _ _ _ => rfl) fun slot above below _ _ keepsNow cell _ =>
      cloneTable_step keepsNow (held slot above below) cell

/-- A directory cloned into new memory: the first slots are those of the source, and the pages of
the others are copied to `places`. -/
structure Cloned (original memory : Memory) (fresh : Set ℕ) (places : ℕ → ℕ → ℕ)
    (source directory : ℕ) : Prop where
  directory_fresh : range directory pageSize ⊆ fresh
  shared : ∀ slot < 256,
    read32 memory (directory + 4 * slot) = read32 original (source + 4 * slot)
  copied : ∀ slot, 256 ≤ slot → slot < 1024 →
    CopiedSlot original memory fresh (places slot) (read32 original (source + 4 * slot))
      (read32 memory (directory + 4 * slot))

section

def deepStart (state : Vmm.State) (source : ℕ) : Vmm.State × Bool :=
  match Vmm.vmmCreatePageDirectory state with
  | (directory, state) =>
    ({ state with memory := copyWords state.memory directory source 256 }, true)

def deepSlotRun (region : Heap.Region) (state : Vmm.State) (source slot : ℕ) : Vmm.State × Bool :=
  slotRun region source (Vmm.vmmCreatePageDirectory state).1 (deepStart state source) slot

/-- The block that `clone_page_directory_deep` gets for a page when its loops come to it. -/
def deepPlace (region : Heap.Region) (original : Memory) (state : Vmm.State)
    (source slot index : ℕ) : ℕ :=
  pagePlace region (entryRun region (physicalAddress (read32 original (source + 4 * slot)))
    (deepSlotRun region state source slot) index).1

variable (inUse : InUse region state owned) (keptSubset : kept ⊆ owned)
  (same : Set.EqOn state.memory original kept)
  (held : ∀ slot, 256 ≤ slot → slot < 1024 → HoldsSlot original kept source slot)

include inUse keptSubset same held

theorem clonePageDirectoryDeep_outcome (inKept : range source pageSize ⊆ kept)
    (hasSource : source ≠ 0) (hasFrame : (Vmm.vmmCreatePageDirectory state).1 ≠ 0)
    (ran : clonePageDirectoryDeep region state source = (directory, run)) :
    directory = (Vmm.vmmCreatePageDirectory state).1 ∧
    (run.2 = true ↔ ∀ slot, 256 ≤ slot → slot < 1024 →
      DeepGranted region original source directory (deepStart state source) slot) ∧
    ∃ ownedAfter,
      InUse region run.1 ownedAfter ∧ owned ⊆ ownedAfter ∧
      Set.EqOn run.1.memory state.memory owned ∧
      range directory pageSize ⊆ ownedAfter \ owned ∧
      (∀ slot < 256,
        read32 run.1.memory (directory + 4 * slot) = read32 original (source + 4 * slot)) ∧
      ∀ slot, 256 ≤ slot → slot < 1024 →
        DeepOutcome region original source directory (deepStart state source) slot run.1.memory
          (ownedAfter \ owned) (read32 run.1.memory (directory + 4 * slot)) := by
  have granted := inUse.vmmCreatePageDirectory hasFrame
  simp only [clonePageDirectoryDeep, if_neg hasSource, if_neg hasFrame, Prod.mk.injEq] at ran
  rcases ran with ⟨rfl, rfl⟩
  refine ⟨rfl, ?_⟩
  simp only [deepStart]
  generalize (Vmm.vmmCreatePageDirectory state).1 = directory at granted hasFrame ⊢
  generalize (Vmm.vmmCreatePageDirectory state).2 = after at granted ⊢
  have low : range directory (4 * 256) ⊆ range directory pageSize :=
    range_subset_range le_rfl (by simp only [pageSize]; omega)
  have high : Ownership.words directory 256 768 ⊆ range directory pageSize :=
    range_subset_range (by omega) (by simp only [pageSize]; omega)
  have shared := granted.overwrite allowsStores_inUse
    ((copyWords_eqOn after.memory directory source 256).mono (Set.compl_subset_compl.mpr low))
  rcases shared.keeps ⟨inUse, keptSubset, same⟩ with ⟨keeps, apart⟩
  rcases @cloneTables_fills original region _ kept
    ({ after with memory := copyWords after.memory directory source 256 }, true) source directory
    keeps (high.trans Set.subset_union_right) (apart.mono_right high) held with
    ⟨ownedAfter, part, fills, flag⟩
  generalize cloneTables region source directory
    ({ after with memory := copyWords after.memory directory source 256 }, true) = run
    at fills flag ⊢
  have extension := fills.extension
  have fixed : owned ⊆ (owned ∪ range directory pageSize) \ Ownership.words directory 256 768 :=
    Set.subset_sdiff.mpr ⟨Set.subset_union_left, granted.fresh.mono_right high⟩
  refine ⟨flag.trans (and_iff_right rfl), ownedAfter, extension.safe,
    Set.subset_union_left.trans extension.subset, (extension.frame.mono fixed).trans shared.frame,
    Set.subset_sdiff.mpr ⟨Set.subset_union_right.trans extension.subset, granted.fresh.symm⟩,
    ?_, ?_⟩
  · intro slot inside
    have lowFixed : range (directory + 4 * slot) 4 ⊆
        (owned ∪ range directory pageSize) \ Ownership.words directory 256 768 := by
      intro location inWord
      refine ⟨Or.inr (Vmm.word_subset_frame (by omega) inWord), ?_⟩
      rw [Ownership.words, mem_range]
      rw [mem_range] at inWord
      omega
    have separate : directory + 4 * 256 ≤ source ∨ source + 4 * 256 ≤ directory := by
      have disjoint := granted.fresh.symm.mono_right (inKept.trans keptSubset)
      have separate := apart_of_disjoint_range disjoint (by decide) (by decide)
      simp only [pageSize] at separate
      omega
    have inSource : range (source + 4 * slot) 4 ⊆ kept :=
      (Vmm.word_subset_frame (by omega)).trans inKept
    rw [read32_congr (extension.frame.mono lowFixed), read32_copyWords inside separate]
    exact read32_congr (((granted.frame.mono keptSubset).trans same).mono inSource)
  · intro slot lower upper
    refine SlotOutcome.congr ?_ (fun _ _ => rfl) (fills.filled slot lower upper)
    exact (fills.isPart slot lower upper).trans (Set.sdiff_subset_sdiff_right Set.subset_union_left)

theorem clonePageDirectoryDeep_spec (inKept : range source pageSize ⊆ kept)
    (ran : clonePageDirectoryDeep region state source = (directory, run)) (fine : run.2 = true) :
    source ≠ 0 ∧ directory ≠ 0 ∧
    ∃ ownedAfter,
      InUse region run.1 ownedAfter ∧ owned ⊆ ownedAfter ∧
      Set.EqOn run.1.memory state.memory owned ∧
      Cloned original run.1.memory (ownedAfter \ owned) (deepPlace region original state source)
        source directory := by
  by_cases noSource : source = 0
  · rw [clonePageDirectoryDeep, if_pos noSource, Prod.mk.injEq] at ran
    rw [← ran.2] at fine
    cases fine
  by_cases failed : (Vmm.vmmCreatePageDirectory state).1 = 0
  · simp only [clonePageDirectoryDeep, if_neg noSource, if_pos failed, Prod.mk.injEq] at ran
    rw [← ran.2] at fine
    cases fine
  rcases clonePageDirectoryDeep_outcome inUse keptSubset same held inKept noSource failed ran with
    ⟨place, flag, ownedAfter, safe, subset, frame, directoryFresh, shared, slots⟩
  refine ⟨noSource, by rwa [place], ownedAfter, safe, subset, frame, directoryFresh, shared, ?_⟩
  intro slot lower upper
  have outcome := slots slot lower upper
  have granted := flag.mp fine slot lower upper
  rw [place] at outcome granted ⊢
  exact SlotOutcome.copiedSlot outcome granted

theorem clonePageDirectoryDeep_succeeded (inKept : range source pageSize ⊆ kept)
    (absent : ∀ slot, 256 ≤ slot → slot < 1024 →
      read32 original (source + 4 * slot) &&& pagePresent = 0)
    (hasSource : source ≠ 0) (hasFrame : (Vmm.vmmCreatePageDirectory state).1 ≠ 0) :
    (clonePageDirectoryDeep region state source).1 ≠ 0 ∧
      (clonePageDirectoryDeep region state source).2.2 = true := by
  rcases clonePageDirectoryDeep_outcome inUse keptSubset same held inKept hasSource hasFrame
    Prod.mk.eta.symm with ⟨place, flag, _⟩
  exact ⟨by rwa [place], flag.mpr fun slot lower upper present =>
    absurd (absent slot lower upper) present⟩

end

end RamOS.Proc
