import RamOS.Proc.MemoryInUse

/-!
# Copies of page tables and pages

Both functions that clone a page directory go on when an allocation fails: an entry whose page
could not be allocated is cleared, and a slot whose table could not be allocated keeps the word
that the new directory had. This file says what one step of either loop leaves, whatever the
allocator of pages is.
-/

namespace RamOS.Proc

open ByteMemory
open Vmm (physicalAddress pagePresent pageSize)

/-- A page that was copied into new memory, to the block at `place`. -/
structure CopiedPage (original memory : Memory) (fresh : Set ℕ) (place entry copied : ℕ) :
    Prop where
  flags : copied &&& 0xFFF = entry &&& 0xFFF
  address : physicalAddress copied = place
  fresh : range (physicalAddress copied) pageSize ⊆ fresh
  contents : ∀ offset < pageSize,
    memory (physicalAddress copied + offset) = original (physicalAddress entry + offset)

/-- A page table entry after the inner loop, if the page could be allocated. -/
def CopiedEntry (original memory : Memory) (fresh : Set ℕ) (place entry copied : ℕ) : Prop :=
  if entry &&& pagePresent = 0 then copied = 0
  else CopiedPage original memory fresh place entry copied

/-- A directory entry after the outer loop, if table and pages could be allocated. -/
def CopiedSlot (original memory : Memory) (fresh : Set ℕ) (places : ℕ → ℕ) (slot copied : ℕ) :
    Prop :=
  if slot &&& pagePresent = 0 then copied = 0
  else
    copied &&& 0xFFF = slot &&& 0xFFF ∧ range (physicalAddress copied) pageSize ⊆ fresh ∧
      ∀ index < 1024,
        CopiedEntry original memory fresh (places index)
          (read32 original (physicalAddress slot + 4 * index))
          (read32 memory (physicalAddress copied + 4 * index))

/-- A page table entry after the inner loop, for which the allocator returned `place`. -/
def EntryOutcome (original memory : Memory) (fresh : Set ℕ) (place entry copied : ℕ) : Prop :=
  if entry &&& pagePresent = 0 then copied = 0
  else (place ≠ 0 → CopiedPage original memory fresh place entry copied) ∧ (place = 0 → copied = 0)

/-- The page table of a directory entry and its pages lie in different frames. -/
structure PagesApart (memory : Memory) (slot : ℕ) : Prop where
  table : ∀ index < 1024,
    read32 memory (physicalAddress slot + 4 * index) &&& pagePresent ≠ 0 →
      physicalAddress (read32 memory (physicalAddress slot + 4 * index)) ≠ physicalAddress slot
  pages : ∀ right < 1024, ∀ left < right,
    read32 memory (physicalAddress slot + 4 * left) &&& pagePresent ≠ 0 →
    read32 memory (physicalAddress slot + 4 * right) &&& pagePresent ≠ 0 →
      physicalAddress (read32 memory (physicalAddress slot + 4 * left)) ≠
        physicalAddress (read32 memory (physicalAddress slot + 4 * right))

/-- The new table of a slot, for whose pages the allocator returned `places`. -/
structure CopiedTable (original memory : Memory) (fresh : Set ℕ) (places : ℕ → ℕ)
    (slot copied : ℕ) : Prop where
  flags : copied &&& 0xFFF = slot &&& 0xFFF
  inFresh : range (physicalAddress copied) pageSize ⊆ fresh
  entries : ∀ index < 1024,
    EntryOutcome original memory fresh (places index)
      (read32 original (physicalAddress slot + 4 * index))
      (read32 memory (physicalAddress copied + 4 * index))
  apart : PagesApart memory copied

/-- A directory entry after the outer loop; the new directory had the word `inherited` there. -/
def SlotOutcome (original memory : Memory) (fresh : Set ℕ) (inherited : ℕ) (granted : Prop)
    (places : ℕ → ℕ) (slot copied : ℕ) : Prop :=
  if slot &&& pagePresent = 0 then copied = 0
  else
    (granted → CopiedTable original memory fresh places slot copied) ∧
      (¬ granted → copied = inherited)

/-- What a clone reads for one slot lies within `kept`. -/
structure HoldsSlot (original : Memory) (kept : Set ℕ) (source slot : ℕ) : Prop where
  entry : range (source + 4 * slot) 4 ⊆ kept
  table : read32 original (source + 4 * slot) &&& pagePresent ≠ 0 →
    range (physicalAddress (read32 original (source + 4 * slot))) pageSize ⊆ kept
  page : read32 original (source + 4 * slot) &&& pagePresent ≠ 0 → ∀ index < 1024,
    read32 original (physicalAddress (read32 original (source + 4 * slot)) + 4 * index) &&&
      pagePresent ≠ 0 →
    range (physicalAddress (read32 original
      (physicalAddress (read32 original (source + 4 * slot)) + 4 * index))) pageSize ⊆ kept

def bytesFrom (lower : ℕ) (memory : Memory) (directory : ℕ) : Set ℕ :=
  fun address => address ∈ range directory pageSize ∨
    ∃ slot, lower ≤ slot ∧ slot < 1024 ∧
      read32 memory (directory + 4 * slot) &&& pagePresent ≠ 0 ∧
      (address ∈ range (physicalAddress (read32 memory (directory + 4 * slot))) pageSize ∨
        ∃ index < 1024,
          read32 memory (physicalAddress (read32 memory (directory + 4 * slot)) + 4 * index) &&&
            pagePresent ≠ 0 ∧
          address ∈ range (physicalAddress (read32 memory
            (physicalAddress (read32 memory (directory + 4 * slot)) + 4 * index))) pageSize)

variable {original memory updated : Memory} {fresh fresher : Set ℕ}
  {entry copied slot inherited place : ℕ} {granted : Prop} {places : ℕ → ℕ}

theorem holdsSlot_bytesFrom {lower directory : ℕ} (isLower : lower ≤ slot) (upper : slot < 1024) :
    HoldsSlot memory (bytesFrom lower memory directory) directory slot := by
  refine ⟨?_, ?_, ?_⟩
  · exact fun address inWord => Or.inl (Vmm.word_subset_frame upper inWord)
  · exact fun present address inTable => Or.inr ⟨slot, isLower, upper, present, Or.inl inTable⟩
  · exact fun present index inside mapped address inPage =>
      Or.inr ⟨slot, isLower, upper, present, Or.inr ⟨index, inside, mapped, inPage⟩⟩

theorem bytesFrom_subset {lower directory : ℕ}
    (same : Set.EqOn memory original (bytesFrom lower original directory)) :
    bytesFrom lower memory directory ⊆ bytesFrom lower original directory := by
  rintro address (inDirectory | ⟨slot, above, below, present, inTable⟩)
  · exact Or.inl inDirectory
  · have held := @holdsSlot_bytesFrom original slot lower directory above below
    rw [read32_congr (same.mono held.entry)] at present inTable
    refine Or.inr ⟨slot, above, below, present, inTable.imp_right ?_⟩
    rintro ⟨index, inside, mapped, inPage⟩
    rw [read32_congr (same.mono ((Vmm.word_subset_frame inside).trans (held.table present)))]
      at mapped inPage
    exact ⟨index, inside, mapped, inPage⟩

theorem CopiedPage.congr (subset : fresh ⊆ fresher) (agree : Set.EqOn updated memory fresh)
    (isCopied : CopiedPage original memory fresh place entry copied) :
    CopiedPage original updated fresher place entry copied := by
  refine ⟨isCopied.flags, isCopied.address, isCopied.fresh.trans subset, ?_⟩
  intro offset inside
  rw [← isCopied.contents offset inside]
  apply agree (isCopied.fresh _)
  rw [mem_range]
  omega

theorem EntryOutcome.congr (subset : fresh ⊆ fresher) (agree : Set.EqOn updated memory fresh)
    (outcome : EntryOutcome original memory fresh place entry copied) :
    EntryOutcome original updated fresher place entry copied := by
  unfold EntryOutcome at outcome ⊢
  split
  next absent => rwa [if_pos absent] at outcome
  next present =>
    rw [if_neg present] at outcome
    exact ⟨fun isGranted => (outcome.1 isGranted).congr subset agree, outcome.2⟩

theorem PagesApart.congr (isApart : PagesApart memory slot)
    (agree : Set.EqOn updated memory (range (physicalAddress slot) pageSize)) :
    PagesApart updated slot := by
  have entries {index : ℕ} (inside : index < 1024) :
      read32 updated (physicalAddress slot + 4 * index) =
        read32 memory (physicalAddress slot + 4 * index) :=
    read32_congr (agree.mono (Vmm.word_subset_frame inside))
  constructor
  · intro index inside present
    rw [entries inside] at present ⊢
    exact isApart.table index inside present
  · intro right inside left ordered leftPresent rightPresent
    have leftInside : left < 1024 := by omega
    rw [entries leftInside] at leftPresent ⊢
    rw [entries inside] at rightPresent ⊢
    exact isApart.pages right inside left ordered leftPresent rightPresent

theorem CopiedTable.congr (subset : fresh ⊆ fresher) (agree : Set.EqOn updated memory fresh)
    (isCopied : CopiedTable original memory fresh places slot copied) :
    CopiedTable original updated fresher places slot copied := by
  refine ⟨isCopied.flags, isCopied.inFresh.trans subset, ?_,
    isCopied.apart.congr (agree.mono isCopied.inFresh)⟩
  intro index inside
  rw [read32_congr (agree.mono ((Vmm.word_subset_frame inside).trans isCopied.inFresh))]
  exact (isCopied.entries index inside).congr subset agree

theorem SlotOutcome.congr (subset : fresh ⊆ fresher) (agree : Set.EqOn updated memory fresh)
    (outcome : SlotOutcome original memory fresh inherited granted places slot copied) :
    SlotOutcome original updated fresher inherited granted places slot copied := by
  unfold SlotOutcome at outcome ⊢
  split
  next absent => rwa [if_pos absent] at outcome
  next present =>
    rw [if_neg present] at outcome
    exact ⟨fun isGranted => (outcome.1 isGranted).congr subset agree, outcome.2⟩

theorem EntryOutcome.copiedEntry
    (outcome : EntryOutcome original memory fresh place entry copied)
    (isGranted : entry &&& pagePresent ≠ 0 → place ≠ 0) :
    CopiedEntry original memory fresh place entry copied := by
  unfold EntryOutcome at outcome
  unfold CopiedEntry
  split
  next absent => rwa [if_pos absent] at outcome
  next present =>
    rw [if_neg present] at outcome
    exact outcome.1 (isGranted present)

/-- Everything that a slot with a table needs was granted. -/
def AllGranted (original : Memory) (granted : Prop) (pageGranted : ℕ → Prop) (slot : ℕ) : Prop :=
  slot &&& pagePresent ≠ 0 → granted ∧
    ∀ index < 1024,
      read32 original (physicalAddress slot + 4 * index) &&& pagePresent ≠ 0 → pageGranted index

theorem SlotOutcome.copiedSlot
    (outcome : SlotOutcome original memory fresh inherited granted places slot copied)
    (allGranted : AllGranted original granted (fun index => places index ≠ 0) slot) :
    CopiedSlot original memory fresh places slot copied := by
  unfold SlotOutcome at outcome
  unfold CopiedSlot
  split
  next absent => rwa [if_pos absent] at outcome
  next present =>
    rw [if_neg present] at outcome
    rcases allGranted present with ⟨isGranted, pagesGranted⟩
    have table := outcome.1 isGranted
    exact ⟨table.flags, table.inFresh, fun index inside =>
      (table.entries index inside).copiedEntry (pagesGranted index inside)⟩

theorem and_0xFFF (word : ℕ) : word &&& 0xFFF = word % pageSize :=
  Nat.and_two_pow_sub_one_eq_mod word 12

theorem flaggedWord {page : ℕ} (aligned : 2 ^ 12 ∣ page) (small : page < 2 ^ 32) (entry : ℕ) :
    page ||| (entry &&& 0xFFF) < 2 ^ 32 ∧ physicalAddress (page ||| (entry &&& 0xFFF)) = page ∧
      (page ||| (entry &&& 0xFFF)) &&& 0xFFF = entry &&& 0xFFF := by
  rcases aligned with ⟨quotient, rfl⟩
  have low : entry % pageSize < 2 ^ 12 := Nat.mod_lt _ (by decide)
  have combined : 2 ^ 12 * quotient ||| (entry &&& 0xFFF) =
      2 ^ 12 * quotient + entry % pageSize := by
    rw [and_0xFFF]
    exact Word32.mul_or_eq_add low
  have word : 2 ^ 12 * quotient + entry % pageSize < 2 ^ 32 := by omega
  rw [combined, Vmm.physicalAddress_eq word, and_0xFFF, and_0xFFF]
  simp only [pageSize] at low ⊢
  omega

theorem and_not_0xFFF_of_aligned {page : ℕ} (aligned : 2 ^ 12 ∣ page) (small : page < 2 ^ 32) :
    page &&& Word32.not 0xFFF = page := by
  rcases aligned with ⟨quotient, rfl⟩
  rw [Vmm.and_not_0xFFF, pageSize]
  omega

theorem EntryOutcome.of_stored {page cell : ℕ} {filled : Memory} (aligned : 2 ^ 12 ∣ page)
    (small : page < 2 ^ 32) (isGranted : page ≠ 0) (present : entry &&& pagePresent ≠ 0)
    (pageFresh : range page pageSize ⊆ fresh) (apart : Disjoint (range cell 4) fresh)
    (contents : ∀ offset < pageSize,
      filled (page + offset) = original (physicalAddress entry + offset)) :
    EntryOutcome original (write32 filled cell (page ||| (entry &&& 0xFFF))) fresh page entry
      (read32 (write32 filled cell (page ||| (entry &&& 0xFFF))) cell) := by
  rcases flaggedWord aligned small entry with ⟨word, address, flags⟩
  rw [read32_write32_same, Nat.mod_eq_of_lt word, EntryOutcome, if_neg present]
  refine ⟨fun _ => ?_, fun refused => absurd refused isGranted⟩
  have copied : CopiedPage original filled fresh page entry (page ||| (entry &&& 0xFFF)) :=
    ⟨flags, address, by rwa [address], by rwa [address]⟩
  exact copied.congr subset_rfl ((write32_eqOn _ _ _).mono (Set.disjoint_right.mp apart))

theorem EntryOutcome.of_cleared {cell : ℕ}
    (cleared : entry &&& pagePresent ≠ 0 → place = 0) :
    EntryOutcome original (write32 memory cell 0) fresh place entry
      (read32 (write32 memory cell 0) cell) := by
  rw [read32_write32_same, EntryOutcome]
  split
  · rfl
  next present => exact ⟨fun isGranted => absurd (cleared present) isGranted, fun _ => rfl⟩

theorem EntryOutcome.copiedPage_of_present
    (outcome : EntryOutcome original memory fresh place entry copied)
    (present : copied &&& pagePresent ≠ 0) :
    CopiedPage original memory fresh place entry copied := by
  have notZero : copied ≠ 0 := by
    rintro rfl
    exact present rfl
  unfold EntryOutcome at outcome
  split at outcome
  · exact absurd outcome notZero
  · by_cases refused : place = 0
    · exact absurd (outcome.2 refused) notZero
    · exact outcome.1 refused

theorem SlotOutcome.copiedTable_of_present
    (outcome : SlotOutcome original memory fresh 0 granted places slot copied)
    (present : copied &&& pagePresent ≠ 0) :
    CopiedTable original memory fresh places slot copied := by
  have notZero : copied ≠ 0 := by
    rintro rfl
    exact present rfl
  unfold SlotOutcome at outcome
  split at outcome
  · exact absurd outcome notZero
  · by_cases isGranted : granted
    · exact outcome.1 isGranted
    · exact absurd (outcome.2 isGranted) notZero

theorem SlotOutcome.of_stored {cell word : ℕ} (small : word < 2 ^ 32) (isGranted : granted)
    (present : slot &&& pagePresent ≠ 0) (apart : Disjoint (range cell 4) fresh)
    (table : CopiedTable original memory fresh places slot word) :
    SlotOutcome original (write32 memory cell word) fresh inherited granted places slot
      (read32 (write32 memory cell word) cell) := by
  rw [read32_write32_same, Nat.mod_eq_of_lt small, SlotOutcome, if_neg present]
  exact ⟨fun _ => table.congr subset_rfl ((write32_eqOn _ _ _).mono (Set.disjoint_right.mp apart)),
    fun refused => absurd isGranted refused⟩

theorem SlotOutcome.of_refused (refused : ¬ granted) (present : slot &&& pagePresent ≠ 0) :
    SlotOutcome original memory fresh inherited granted places slot inherited := by
  rw [SlotOutcome, if_neg present]
  exact ⟨fun isGranted => absurd isGranted refused, fun _ => rfl⟩

theorem servesPages_kmallocAligned (region : Heap.Region) :
    ServesPages (InUse region) fun state => kmallocAligned region state 4096 4096 := by
  intro state owned inUse
  rcases @InUse.kmallocAligned region state owned inUse 4096 12 (by decide) with
    failed | ⟨page, after, run, aligned, granted⟩
  · have failed : kmallocAligned region state 4096 4096 = (0, state) := failed
    simp only [failed]
    exact Or.inl ⟨trivial, inUse, trivial⟩
  · have run : kmallocAligned region state 4096 4096 = (page, after) := run
    simp only [run]
    exact Or.inr ⟨aligned, granted⟩

theorem ne_of_disjoint_parts {left right : Set ℕ} {first second : ℕ} (apart : Disjoint left right)
    (inLeft : range first pageSize ⊆ left) (inRight : range second pageSize ⊆ right) :
    first ≠ second := by
  rintro rfl
  have inside : first ∈ range first pageSize := ⟨le_rfl, Nat.lt_add_of_pos_right (by decide)⟩
  exact Set.disjoint_left.mp apart (inLeft inside) (inRight inside)

/-- A page table after the inner loop, which copied the entries of the one at `source`. -/
abbrev CopiedEntries (safe : Vmm.State → Set ℕ → Prop) (original : Memory) (source table : ℕ)
    (places : ℕ → ℕ) (before : Vmm.State) (owned : Set ℕ) (after : Vmm.State)
    (ownedAfter : Set ℕ) (part : ℕ → Set ℕ) : Prop :=
  Ownership.Fills (fun state : Vmm.State => state.memory) safe
    (fun index memory fresh word => EntryOutcome original memory fresh (places index)
      (read32 original (source + 4 * index)) word) table 0 1024 before owned after ownedAfter part

section

variable {safe : Vmm.State → Set ℕ → Prop} {alloc : Vmm.State → ℕ × Vmm.State}
  {state after : Vmm.State} {owned ownedAfter kept : Set ℕ} {cell source table : ℕ}
  {part : ℕ → Set ℕ}

theorem CopiedEntries.copiedTable
    (copied : CopiedEntries safe original (physicalAddress slot) table places state
      (owned ∪ range table pageSize) after ownedAfter part)
    (aligned : 2 ^ 12 ∣ table) (small : table < 2 ^ 32)
    (apart : Disjoint owned (range table pageSize)) :
    CopiedTable original after.memory (ownedAfter \ owned) places slot
      (table ||| (slot &&& 0xFFF)) := by
  rcases flaggedWord aligned small slot with ⟨_, address, flags⟩
  have isPart {index : ℕ} (inside : index < 1024) :=
    copied.isPart index (Nat.zero_le index) (by omega)
  have entries {index : ℕ} (inside : index < 1024) :=
    copied.filled index (Nat.zero_le index) (by omega)
  refine ⟨flags, ?_, fun index inside => ?_, ?_, ?_⟩
  · rw [address, Set.subset_sdiff]
    exact ⟨Set.subset_union_right.trans copied.extension.subset, apart.symm⟩
  · rw [address]
    exact (entries inside).congr ((isPart inside).trans
      (Set.sdiff_subset_sdiff_right Set.subset_union_left)) fun _ _ => rfl
  · intro index inside isPage
    rw [address] at isPage ⊢
    have page := (entries inside).copiedPage_of_present isPage
    refine ne_of_disjoint_parts ?_ (page.fresh.trans (isPart inside)) subset_rfl
    exact Set.disjoint_sdiff_left.mono_right Set.subset_union_right
  · intro right inside left ordered leftPage rightPage
    rw [address] at leftPage rightPage ⊢
    exact ne_of_disjoint_parts (copied.partsApart left right (Nat.zero_le left) ordered (by omega))
      ((entries (by omega)).copiedPage_of_present leftPage).fresh
      ((entries inside).copiedPage_of_present rightPage).fresh

/-- An entry is cleared, or a page is allocated, filled and entered. -/
inductive EntryStep (alloc : Vmm.State → ℕ × Vmm.State) (entry cell : ℕ) (state : Vmm.State) :
    Vmm.State → Prop
  | absent (isAbsent : entry &&& pagePresent = 0) :
      EntryStep alloc entry cell state
        { state with memory := write32 state.memory cell 0 }
  | refused (present : entry &&& pagePresent ≠ 0) (isNull : (alloc state).1 = 0) :
      EntryStep alloc entry cell state
        { (alloc state).2 with memory := write32 (alloc state).2.memory cell 0 }
  | copied (present : entry &&& pagePresent ≠ 0) (notNull : (alloc state).1 ≠ 0) (filled : Memory)
      (outside : Set.EqOn filled (alloc state).2.memory (range (alloc state).1 pageSize)ᶜ)
      (contents : ∀ offset < pageSize, filled ((alloc state).1 + offset) =
        (alloc state).2.memory (physicalAddress entry + offset)) :
      EntryStep alloc entry cell state
        { (alloc state).2 with
          memory := write32 filled cell ((alloc state).1 ||| (entry &&& 0xFFF)) }

theorem EntryStep.spreads (step : EntryStep alloc entry cell state after)
    (stores : AllowsStores safe) (serves : ServesPages safe alloc)
    (keeps : Keeps safe original kept state owned) (inCell : range cell 4 ⊆ owned)
    (pageHeld : entry &&& pagePresent ≠ 0 → range (physicalAddress entry) pageSize ⊆ kept) :
    ∃ ownedAfter, Spreads safe (range cell 4) state owned after ownedAfter ∧
      EntryOutcome original after.memory (ownedAfter \ owned) (alloc state).1 entry
        (read32 after.memory cell) := by
  cases step with
  | absent isAbsent =>
    exact ⟨owned, spreads_store stores keeps.safe inCell (write32_eqOn _ _ _),
      EntryOutcome.of_cleared fun present => absurd isAbsent present⟩
  | refused present isNull =>
    rcases serves state owned keeps.safe with ⟨_, stillInUse, sameMemory⟩ | ⟨_, isGranted⟩
    · have spreads := spreads_store stores stillInUse inCell
        (write32_eqOn (alloc state).2.memory cell 0)
      refine ⟨owned, ⟨spreads.subset, spreads.safe, ?_⟩,
        EntryOutcome.of_cleared fun _ => isNull⟩
      rw [← sameMemory]
      exact spreads.frame
    · exact absurd isNull isGranted.positive.ne'
  | copied present notNull filled outside contents =>
    rcases serves state owned keeps.safe with ⟨isNull, _⟩ | ⟨aligned, isGranted⟩
    · exact absurd isNull notNull
    have bound := isGranted.bound
    rcases isGranted.store stores inCell outside
      ((alloc state).1 ||| (entry &&& 0xFFF)) with ⟨stillSafe, fixed⟩
    refine ⟨_, ⟨Set.subset_union_left, stillSafe, fixed⟩,
      EntryOutcome.of_stored aligned (by omega) notNull present
        (Set.subset_sdiff.mpr ⟨Set.subset_union_right, isGranted.fresh.symm⟩)
        (Set.disjoint_sdiff_right.mono_left inCell) ?_⟩
    intro offset inside
    have inSource : physicalAddress entry + offset ∈ range (physicalAddress entry) pageSize := by
      rw [mem_range]
      omega
    have isKept := pageHeld present inSource
    rw [contents offset inside, isGranted.frame (keeps.subset isKept), keeps.same isKept]

/-- A slot is left clear, or a page table is allocated, filled and entered. -/
inductive SlotStep (safe : Vmm.State → Set ℕ → Prop) (original : Memory)
    (alloc : Vmm.State → ℕ × Vmm.State) (places : ℕ → ℕ) (slot cell : ℕ)
    (state : Vmm.State) (owned : Set ℕ) :
    Vmm.State → Prop
  | absent (isAbsent : slot &&& pagePresent = 0) {after : Vmm.State}
      (spreads : Spreads safe (range cell 4) state owned after owned)
      (clear : read32 after.memory cell = 0) :
      SlotStep safe original alloc places slot cell state owned after
  | refused (present : slot &&& pagePresent ≠ 0) (isNull : (alloc state).1 = 0) :
      SlotStep safe original alloc places slot cell state owned (alloc state).2
  | copied (present : slot &&& pagePresent ≠ 0) (notNull : (alloc state).1 ≠ 0)
      {filled : Vmm.State} {ownedFilled : Set ℕ} {part : ℕ → Set ℕ}
      (entries : CopiedEntries safe original (physicalAddress slot) (alloc state).1 places
        (alloc state).2 (owned ∪ range (alloc state).1 pageSize) filled ownedFilled part) :
      SlotStep safe original alloc places slot cell state owned
        { filled with
          memory := write32 filled.memory cell ((alloc state).1 ||| (slot &&& 0xFFF)) }

theorem SlotStep.spreads
    (step : SlotStep safe original alloc places slot cell state owned after)
    (stores : AllowsStores safe) (serves : ServesPages safe alloc) (isSafe : safe state owned)
    (inCell : range cell 4 ⊆ owned) :
    ∃ ownedAfter, Spreads safe (range cell 4) state owned after ownedAfter ∧
      SlotOutcome original after.memory (ownedAfter \ owned) (read32 state.memory cell)
        ((alloc state).1 ≠ 0) places slot (read32 after.memory cell) := by
  cases step with
  | absent isAbsent spreads clear =>
    refine ⟨owned, spreads, ?_⟩
    rw [SlotOutcome, if_pos isAbsent, clear]
  | refused present isNull =>
    rcases serves state owned isSafe with ⟨_, stillInUse, sameMemory⟩ | ⟨_, isGranted⟩
    · rw [sameMemory]
      refine ⟨owned, ⟨subset_rfl, stillInUse, ?_⟩,
        SlotOutcome.of_refused (not_not_intro isNull) present⟩
      exact fun _ _ => by rw [sameMemory]
    · exact absurd isNull isGranted.positive.ne'
  | @copied present notNull filled ownedFilled part entries =>
    rcases serves state owned isSafe with ⟨isNull, _⟩ | ⟨aligned, isGranted⟩
    · exact absurd isNull notNull
    have bound := isGranted.bound
    have small : (alloc state).1 < 2 ^ 32 := by omega
    have allocated : Spreads safe ∅ state owned (alloc state).2
        (owned ∪ range (alloc state).1 pageSize) :=
      ⟨Set.subset_union_left, isGranted.inUse, isGranted.frame.mono Set.sdiff_subset⟩
    have unstored : Spreads safe ∅ state owned filled ownedFilled := by
      refine allocated.trans entries.extension (by simp) ?_
      rintro location ⟨inTable, isOwned⟩
      exact absurd inTable (Set.disjoint_left.mp isGranted.fresh isOwned)
    have stored := spreads_store stores unstored.safe (inCell.trans unstored.subset)
      (write32_eqOn filled.memory cell ((alloc state).1 ||| (slot &&& 0xFFF)))
    exact ⟨ownedFilled, unstored.trans stored (by simp) Set.inter_subset_left,
      SlotOutcome.of_stored (flaggedWord aligned small slot).1 notNull present
        (Set.disjoint_sdiff_right.mono_left inCell)
        (entries.copiedTable aligned small isGranted.fresh)⟩

section Loops

variable {S : Type} (view : S → Vmm.State) (good : S → Prop) (step : ℕ → S → S) {first : S}
  (stores : AllowsStores safe) (serves : ServesPages safe alloc)
  (keeps : Keeps safe original kept (view first) owned)

include stores serves keeps

/-- The inner loop copies the entries of a page table and the pages that they refer to. -/
theorem copyEntries (inTable : range table pageSize ⊆ owned)
    (apart : Disjoint kept (range table pageSize)) (tableHeld : range source pageSize ⊆ kept)
    (pageHeld : ∀ index < 1024, read32 original (source + 4 * index) &&& pagePresent ≠ 0 →
      range (physicalAddress (read32 original (source + 4 * index))) pageSize ⊆ kept)
    (steps : ∀ index < 1024, ∀ state owned entry, safe (view state) owned →
      range (source + 4 * index) 4 ⊆ owned →
      read32 (view state).memory (source + 4 * index) = entry →
      (entry &&& pagePresent ≠ 0 → range (physicalAddress entry) pageSize ⊆ owned) →
      EntryStep alloc entry (table + 4 * index) (view state) (view (step index state)) ∧
        (good (step index state) ↔
          good state ∧ (entry &&& pagePresent ≠ 0 → (alloc (view state)).1 ≠ 0))) :
    ∃ ownedAfter part,
      CopiedEntries safe original source table
        (fun index => (alloc (view (Nat.fold index (fun index _ state => step index state)
          first))).1) (view first) owned
        (view (Nat.fold 1024 (fun index _ state => step index state) first)) ownedAfter part ∧
      (good (Nat.fold 1024 (fun index _ state => step index state) first) ↔
        good first ∧ ∀ index < 1024, read32 original (source + 4 * index) &&& pagePresent ≠ 0 →
          (alloc (view (Nat.fold index (fun index _ state => step index state) first))).1 ≠ 0) := by
  simp only [← Ownership.runFrom_zero]
  have loop := @Ownership.Keeps.fold_words _ _ _ _ _ _
    (fun index memory fresh word => EntryOutcome original memory fresh
      (alloc (view (Ownership.runFrom step 0 first index))).1
      (read32 original (source + 4 * index)) word) table 0 1024 1024 _ step first view good
    (fun index => read32 original (source + 4 * index) &&& pagePresent ≠ 0 →
      (alloc (view (Ownership.runFrom step 0 first index))).1 ≠ 0)
    keeps inTable apart
    (fun _ _ _ _ _ agree outcome => outcome.congr subset_rfl agree) ?_ le_rfl
  · simpa only [Nat.zero_le, true_implies, Nat.zero_add] using loop
  · intro index _ below state ownedNow here keepsNow cell _
    have inside : index < 1024 := by omega
    have entryHeld := (Vmm.word_subset_frame inside).trans tableHeld
    rcases steps index inside state ownedNow _ keepsNow.safe (entryHeld.trans keepsNow.subset)
      (read32_congr (keepsNow.same.mono entryHeld))
      (fun present => (pageHeld index inside present).trans keepsNow.subset) with ⟨one, isGood⟩
    rcases one.spreads stores serves keepsNow cell (pageHeld index inside) with
      ⟨ownedAfter, spreads, outcome⟩
    rw [Nat.sub_zero] at here
    rw [here]
    exact ⟨ownedAfter, spreads, outcome, isGood⟩

/-- The outer loop copies slots of a directory, with the page tables that they refer to. -/
theorem copySlots {directory lower count : ℕ} {inherits : ℕ → ℕ} {places : ℕ → S → ℕ → ℕ}
    {Good : ℕ → S → Prop} (inDirectory : Ownership.words directory lower count ⊆ owned)
    (apart : Disjoint kept (Ownership.words directory lower count))
    (start : ∀ slot, lower ≤ slot → slot < lower + count →
      read32 (view first).memory (directory + 4 * slot) = inherits slot)
    (steps : ∀ slot, lower ≤ slot → slot < lower + count → ∀ state owned,
      Keeps safe original kept (view state) owned → range (directory + 4 * slot) 4 ⊆ owned →
      read32 (view state).memory (directory + 4 * slot) = inherits slot →
      SlotStep safe original alloc (places slot state) (read32 original (source + 4 * slot))
          (directory + 4 * slot) (view state) owned (view (step slot state)) ∧
        (good (step slot state) ↔ good state ∧ Good slot state)) :
    ∃ ownedAfter part,
      Ownership.Fills (fun state : Vmm.State => state.memory) safe
        (fun slot memory fresh copied => SlotOutcome original memory fresh (inherits slot)
          ((alloc (view (Ownership.runFrom step lower first (slot - lower)))).1 ≠ 0)
          (places slot (Ownership.runFrom step lower first (slot - lower)))
          (read32 original (source + 4 * slot)) copied)
        directory lower count (view first) owned
        (view (Ownership.runFrom step lower first count)) ownedAfter part ∧
      (good (Ownership.runFrom step lower first count) ↔
        good first ∧ ∀ slot, lower ≤ slot → slot < lower + count →
          Good slot (Ownership.runFrom step lower first (slot - lower))) := by
  refine keeps.fold_words inDirectory apart
    (fun _ _ _ _ _ agree outcome => outcome.congr subset_rfl agree) ?_ le_rfl
  intro slot above below state ownedNow here keepsNow cell same
  rw [start slot above below] at same
  rcases steps slot above below state ownedNow keepsNow cell same with ⟨one, isGood⟩
  rcases one.spreads stores serves keepsNow.safe cell with ⟨ownedAfter, spreads, outcome⟩
  rw [same] at outcome
  rw [here]
  exact ⟨ownedAfter, spreads, outcome, isGood⟩

end Loops

end

end RamOS.Proc
