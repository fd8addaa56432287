import RamOS.Vmm.Frames

/-!
# Address translation is a map

The page directory and the page tables lie in frames of the bitmap allocator and
are reached by physical addresses. `Paging` says that these frames are in use and
pairwise distinct, so that a store to one entry is seen through that entry only.
Under it, `vmm_map_page` updates the translation at one page, and a page table
that is added maps nothing.
-/

namespace RamOS.Vmm

open ByteMemory

variable {state updated : State} {slot index page frame entry virtual physical flags address : ℕ}

def directoryEntry (state : State) (slot : ℕ) : ℕ :=
  read32 state.memory (state.currentPageDirectory + 4 * slot)

def tableFrame (state : State) (slot : ℕ) : ℕ := directoryEntry state slot / pageSize

def HasTable (state : State) (slot : ℕ) : Prop := directoryEntry state slot &&& pagePresent ≠ 0

def tableEntry (state : State) (slot index : ℕ) : ℕ :=
  read32 state.memory (tableFrame state slot * pageSize + 4 * index)

def lookup (state : State) (page : ℕ) : Option ℕ :=
  if directoryEntry state (page / 1024) &&& pagePresent = 0 then none
  else
    let entry := tableEntry state (page / 1024) (page % 1024)
    if entry &&& pagePresent = 0 then none else some (physicalAddress entry)

instance (state : State) (slot : ℕ) : Decidable (HasTable state slot) :=
  inferInstanceAs (Decidable (_ ≠ _))

/-- The frame holds the current directory or one of its page tables. -/
def HoldsPaging (state : State) (frame : ℕ) : Prop :=
  frame = state.currentPageDirectory / pageSize ∨
    ∃ slot < 1024, HasTable state slot ∧ tableFrame state slot = frame

/-- Directory and page tables occupy distinct frames of the bitmap that are in use. -/
structure Paging (state : State) : Prop where
  zero_used : frameUsed state 0 = true
  directory_aligned : state.currentPageDirectory % pageSize = 0
  frames : ∀ frame, HoldsPaging state frame →
    frame ≠ 0 ∧ frame < maxFrames ∧ frameUsed state frame = true
  table_ne_directory : ∀ slot < 1024, HasTable state slot →
    tableFrame state slot ≠ state.currentPageDirectory / pageSize
  table_injective : ∀ left < 1024, ∀ right < 1024, HasTable state left → HasTable state right →
    tableFrame state left = tableFrame state right → left = right

theorem Paging.directory (paging : Paging state) :
    state.currentPageDirectory / pageSize ≠ 0 ∧
      state.currentPageDirectory / pageSize < maxFrames ∧
      frameUsed state (state.currentPageDirectory / pageSize) = true :=
  paging.frames _ (Or.inl rfl)

theorem Paging.directory_pos (paging : Paging state) : 0 < state.currentPageDirectory :=
  Nat.pos_of_ne_zero fun zero => paging.directory.1 (by rw [zero, Nat.zero_div])

theorem Paging.table (paging : Paging state) (inside : slot < 1024)
    (present : HasTable state slot) :
    tableFrame state slot ≠ 0 ∧ tableFrame state slot < maxFrames ∧
      frameUsed state (tableFrame state slot) = true :=
  paging.frames _ (Or.inr ⟨slot, inside, present, rfl⟩)

theorem physicalAddress_eq (word : entry < 2 ^ 32) :
    physicalAddress entry = entry / pageSize * pageSize := by
  have masked := @Word32.and_not_low 12 entry (by omega) word
  rw [physicalAddress, Nat.mul_comm]
  exact masked

theorem and_pagePresent (entry : ℕ) : entry &&& pagePresent = entry % 2 :=
  Nat.and_two_pow_sub_one_eq_mod entry 1

theorem pageTableIndex_eq (address : ℕ) : pageTableIndex address = address / pageSize % 1024 := by
  rw [pageTableIndex, Nat.shiftRight_eq_div_pow]
  exact Nat.and_two_pow_sub_one_eq_mod _ 10

theorem pageDirectoryIndex_eq (address : ℕ) :
    pageDirectoryIndex address = address / pageSize / 1024 := by
  rw [pageDirectoryIndex, Nat.shiftRight_eq_div_pow, Nat.div_div_eq_div_mul]
  rfl

theorem pageDirectoryIndex_lt (word : virtual < 2 ^ 32) : pageDirectoryIndex virtual < 1024 := by
  rw [pageDirectoryIndex_eq, pageSize]
  omega

theorem pageTableIndex_lt (virtual : ℕ) : pageTableIndex virtual < 1024 := by
  rw [pageTableIndex_eq]
  omega

theorem hasTable_iff : HasTable state slot ↔ directoryEntry state slot % 2 = 1 := by
  rw [HasTable, and_pagePresent]
  omega

theorem physicalAddress_directoryEntry :
    physicalAddress (directoryEntry state slot) = tableFrame state slot * pageSize :=
  physicalAddress_eq (read32_lt _ _)

theorem newTableEntry_eq (frame : ℕ) :
    frame * pageSize ||| pagePresent ||| pageWrite = frame * pageSize + 3 := by
  have combined := @Word32.mul_or_eq_add 12 frame 3 (by decide)
  rw [Nat.mul_comm frame, Nat.or_assoc]
  exact combined

def mappedEntry (physical flags : ℕ) : ℕ :=
  (physical &&& Word32.not 0xFFF) ||| (flags &&& 0xFFF) ||| pagePresent

theorem and_not_0xFFF (physical : ℕ) :
    physical &&& Word32.not 0xFFF = physical % 2 ^ 32 / pageSize * pageSize := by
  have masked := @Word32.and_not_low 12 (physical % 2 ^ 32) (by omega) (Nat.mod_lt _ (by decide))
  rw [Nat.mul_comm]
  refine Eq.trans ?_ masked
  rw [← Nat.and_two_pow_sub_one_eq_mod physical 32, Nat.and_assoc]
  rfl

theorem flagBits_lt (flags : ℕ) : flags % pageSize ||| 1 < 2 ^ 12 :=
  Nat.or_lt_two_pow (Nat.mod_lt _ (by decide)) (by decide)

theorem mappedEntry_eq (physical flags : ℕ) :
    mappedEntry physical flags =
      physical % 2 ^ 32 / pageSize * pageSize + (flags % pageSize ||| 1) := by
  have low : flags &&& 0xFFF = flags % pageSize := Nat.and_two_pow_sub_one_eq_mod flags 12
  have combined := @Word32.mul_or_eq_add 12 (physical % 2 ^ 32 / pageSize) _ (flagBits_lt flags)
  rw [mappedEntry, low, and_not_0xFFF, Nat.or_assoc, Nat.mul_comm]
  exact combined

theorem mappedEntry_lt (physical flags : ℕ) : mappedEntry physical flags < 2 ^ 32 := by
  have small := flagBits_lt flags
  rw [mappedEntry_eq]
  simp only [pageSize] at small ⊢
  omega

theorem mappedEntry_present (physical flags : ℕ) :
    mappedEntry physical flags &&& pagePresent ≠ 0 := by
  have odd : mappedEntry physical flags % 2 = 1 := Nat.or_mod_two_eq_one.mpr (Or.inr rfl)
  rw [and_pagePresent, odd]
  decide

theorem physicalAddress_mappedEntry (physical flags : ℕ) :
    physicalAddress (mappedEntry physical flags) = physical &&& Word32.not 0xFFF := by
  have small := flagBits_lt flags
  rw [physicalAddress_eq (mappedEntry_lt physical flags), mappedEntry_eq, and_not_0xFFF]
  simp only [pageSize] at small ⊢
  omega

theorem vmmMapPage_eq {page : ℕ}
    (found : vmmGetPage state virtual true state.currentPageDirectory = (page, updated)) :
    vmmMapPage state virtual physical flags =
      if page = 0 then updated
      else { updated with
        memory := write32 updated.memory page (mappedEntry physical flags) } := by
  simp only [vmmMapPage, found]
  rfl

/-- Bytes that translation reads: the directory and the page tables it refers to. -/
def pagingBytes (state : State) : Set ℕ :=
  {address | address ∈ range state.currentPageDirectory pageSize ∨
    ∃ slot < 1024, HasTable state slot ∧
      address ∈ range (tableFrame state slot * pageSize) pageSize}

theorem word_subset_frame {base : ℕ} (inside : index < 1024) :
    range (base + 4 * index) 4 ⊆ range base pageSize :=
  range_subset_range (by omega) (by simp only [pageSize]; omega)

theorem directoryEntry_congr (inside : slot < 1024)
    (same : updated.currentPageDirectory = state.currentPageDirectory)
    (agree : Set.EqOn updated.memory state.memory (range state.currentPageDirectory pageSize)) :
    directoryEntry updated slot = directoryEntry state slot := by
  rw [directoryEntry, directoryEntry, same]
  exact read32_congr (agree.mono (word_subset_frame inside))

theorem lookup_eq
    (directory : directoryEntry updated (page / 1024) = directoryEntry state (page / 1024))
    (table : HasTable state (page / 1024) → tableEntry updated (page / 1024) (page % 1024) =
      tableEntry state (page / 1024) (page % 1024)) : lookup updated page = lookup state page := by
  by_cases hasTable : HasTable state (page / 1024)
  · rw [lookup, lookup, directory, table hasTable]
  · have absent := not_ne_iff.mp hasTable
    rw [lookup, lookup, directory, if_pos absent, if_pos absent]

theorem lookup_congr (inside : page < 1024 * 1024)
    (same : updated.currentPageDirectory = state.currentPageDirectory)
    (agree : Set.EqOn updated.memory state.memory (pagingBytes state)) :
    lookup updated page = lookup state page := by
  have slotInside : page / 1024 < 1024 := by omega
  have directory := directoryEntry_congr slotInside same
    (agree.mono fun _ locationMem => Or.inl locationMem)
  refine lookup_eq directory fun hasTable => ?_
  rw [tableEntry, tableEntry, tableFrame, tableFrame, directory]
  refine read32_congr (agree.mono fun location locationMem => ?_)
  refine Or.inr ⟨page / 1024, slotInside, hasTable, ?_⟩
  exact word_subset_frame (Nat.mod_lt page (by decide)) locationMem

theorem Paging.congr_of_holdsPaging (paging : Paging state)
    (same : updated.currentPageDirectory = state.currentPageDirectory)
    (agree : Set.EqOn updated.memory state.memory (range state.currentPageDirectory pageSize))
    (used : ∀ frame, frame = 0 ∨ HoldsPaging state frame → frameUsed state frame = true →
      frameUsed updated frame = true) :
    Paging updated := by
  have directory {slot : ℕ} (inside : slot < 1024) :
      directoryEntry updated slot = directoryEntry state slot :=
    directoryEntry_congr inside same agree
  have hasTable {slot : ℕ} (inside : slot < 1024) (present : HasTable updated slot) :
      HasTable state slot := by
    rwa [HasTable, directory inside] at present
  have table {slot : ℕ} (inside : slot < 1024) :
      tableFrame updated slot = tableFrame state slot := by
    rw [tableFrame, tableFrame, directory inside]
  constructor
  · exact used 0 (Or.inl rfl) paging.zero_used
  · rw [same]
    exact paging.directory_aligned
  · intro frame holds
    have before : HoldsPaging state frame := by
      rcases holds with rfl | ⟨slot, inside, present, rfl⟩
      · exact Or.inl (by rw [same])
      · exact Or.inr ⟨slot, inside, hasTable inside present, (table inside).symm⟩
    rcases paging.frames frame before with ⟨positive, inside, isUsed⟩
    exact ⟨positive, inside, used frame (Or.inr before) isUsed⟩
  · intro slot inside present
    rw [table inside, same]
    exact paging.table_ne_directory slot inside (hasTable inside present)
  · intro left leftInside right rightInside leftPresent rightPresent equal
    rw [table leftInside, table rightInside] at equal
    exact paging.table_injective left leftInside right rightInside
      (hasTable leftInside leftPresent) (hasTable rightInside rightPresent) equal

theorem Paging.congr (paging : Paging state)
    (same : updated.currentPageDirectory = state.currentPageDirectory)
    (agree : Set.EqOn updated.memory state.memory (range state.currentPageDirectory pageSize))
    (used : ∀ frame, frameUsed state frame = true → frameUsed updated frame = true) :
    Paging updated :=
  paging.congr_of_holdsPaging same agree fun frame _ => used frame

theorem holdsPaging_congr
    (same : updated.currentPageDirectory = state.currentPageDirectory)
    (entries : ∀ slot < 1024, directoryEntry updated slot = directoryEntry state slot) :
    HoldsPaging updated frame ↔ HoldsPaging state frame := by
  rw [HoldsPaging, HoldsPaging, same]
  refine or_congr_right (exists_congr fun slot => and_congr_right fun inside => ?_)
  rw [HasTable, HasTable, tableFrame, tableFrame, entries slot inside]

def addTable (state : State) (slot frame : ℕ) : State :=
  { takeFrame state frame with
    memory := write32 (fillWords state.memory (frame * pageSize) 0 1024)
      (state.currentPageDirectory + 4 * slot) (frame * pageSize ||| pagePresent ||| pageWrite) }

theorem Paging.directory_eq (paging : Paging state) :
    state.currentPageDirectory = state.currentPageDirectory / pageSize * pageSize :=
  (Nat.div_mul_cancel (Nat.dvd_of_mod_eq_zero paging.directory_aligned)).symm

theorem addTable_memory_of_outside {location : ℕ}
    (notTable : location ∉ range (frame * pageSize) pageSize)
    (notSlot : location ∉ range (state.currentPageDirectory + 4 * slot) 4) :
    (addTable state slot frame).memory location = state.memory location := by
  simp only [addTable]
  rw [write32_eqOn _ _ _ notSlot]
  exact fillWords_eqOn _ _ _ _ notTable

theorem directoryEntry_addTable_self (inside : frame < maxFrames) :
    directoryEntry (addTable state slot frame) slot = frame * pageSize + 3 := by
  simp only [directoryEntry, addTable, takeFrame_currentPageDirectory]
  rw [read32_write32_same, newTableEntry_eq]
  apply Nat.mod_eq_of_lt
  simp only [maxFrames, pageSize] at inside ⊢
  omega

theorem hasTable_addTable_self (inside : frame < maxFrames) :
    HasTable (addTable state slot frame) slot := by
  rw [hasTable_iff, directoryEntry_addTable_self inside]
  simp only [pageSize]
  omega

theorem tableFrame_addTable_self (inside : frame < maxFrames) :
    tableFrame (addTable state slot frame) slot = frame := by
  rw [tableFrame, directoryEntry_addTable_self inside]
  simp only [pageSize]
  omega

theorem frameUsed_addTable {other : ℕ} : frameUsed (addTable state slot frame) other =
    (decide (other = frame) || frameUsed state other) :=
  frameUsed_takeFrame

theorem Paging.table_apart_directory {location : ℕ} (paging : Paging state) (inside : slot < 1024)
    (present : HasTable state slot)
    (inTable : location ∈ range (tableFrame state slot * pageSize) pageSize) :
    location ∉ range state.currentPageDirectory pageSize := by
  have apart := paging.table_ne_directory slot inside present
  have place := paging.directory_eq
  simp only [mem_range, pageSize] at inTable place apart ⊢
  omega

section NewTable

variable (paging : Paging state) (free : frameUsed state frame = false)

include paging free

theorem Paging.tableFrame_ne_of_free {other : ℕ} (otherInside : other < 1024)
    (present : HasTable state other) : tableFrame state other ≠ frame := by
  intro same
  have used := (paging.table otherInside present).2.2
  simp [same, free] at used

theorem Paging.notMem_pagingBytes (inside : address ∈ range (frame * pageSize) pageSize) :
    address ∉ pagingBytes state := by
  rintro (inDirectory | ⟨slot, slotInside, present, inTable⟩)
  · have same : state.currentPageDirectory / pageSize = frame := by
      have aligned := paging.directory_aligned
      simp only [mem_range, pageSize] at inside inDirectory aligned ⊢
      omega
    have used := paging.directory.2.2
    simp [same, free] at used
  · refine paging.tableFrame_ne_of_free free slotInside present ?_
    simp only [mem_range, pageSize] at inside inTable
    omega

theorem Paging.ne_directory : frame ≠ state.currentPageDirectory / pageSize := by
  rintro rfl
  simp [paging.directory.2.2] at free

theorem directoryEntry_addTable_of_ne {other : ℕ} (inside : other < 1024)
    (distinct : other ≠ slot) :
    directoryEntry (addTable state slot frame) other = directoryEntry state other := by
  have apart := paging.ne_directory free
  have place := paging.directory_eq
  simp only [directoryEntry, addTable, takeFrame_currentPageDirectory]
  rw [read32_write32_of_disjoint (by omega)]
  apply read32_congr
  intro location locationMem
  apply fillWords_eqOn
  have inDirectory := word_subset_frame inside locationMem
  simp only [mem_compl_range, mem_range, pageSize] at inDirectory place apart ⊢
  omega

theorem tableEntry_addTable_self (inside : frame < maxFrames) (slotInside : slot < 1024)
    (indexInside : index < 1024) : tableEntry (addTable state slot frame) slot index = 0 := by
  have apart := paging.ne_directory free
  have place := paging.directory_eq
  rw [tableEntry, tableFrame_addTable_self inside]
  simp only [addTable]
  rw [read32_write32_of_disjoint (by simp only [pageSize] at place apart ⊢; omega),
    read32_fillWords indexInside, Nat.zero_mod]

theorem Paging.tableFrame_addTable_cases {other : ℕ} (inside : frame < maxFrames)
    (otherInside : other < 1024) (present : HasTable (addTable state slot frame) other) :
    other = slot ∧ tableFrame (addTable state slot frame) other = frame ∨
      other ≠ slot ∧ HasTable state other ∧
        tableFrame (addTable state slot frame) other = tableFrame state other := by
  by_cases same : other = slot
  · rw [same]
    exact Or.inl ⟨rfl, tableFrame_addTable_self inside⟩
  · have entry := directoryEntry_addTable_of_ne paging free otherInside same
    rw [HasTable, entry] at present
    exact Or.inr ⟨same, present, by rw [tableFrame, tableFrame, entry]⟩

theorem Paging.nonzero_of_free : frame ≠ 0 := by
  rintro rfl
  simp [paging.zero_used] at free

theorem Paging.address_ne_zero : frame * pageSize ≠ 0 :=
  mul_ne_zero (paging.nonzero_of_free free) (by decide)

theorem Paging.addTable (inside : frame < maxFrames) : Paging (addTable state slot frame) := by
  have keeps {other : ℕ} (used : frameUsed state other = true) :
      frameUsed (Vmm.addTable state slot frame) other = true := by
    rw [frameUsed_addTable, used, Bool.or_true]
  have tables {other : ℕ} (otherInside : other < 1024)
      (present : HasTable (Vmm.addTable state slot frame) other) :=
    paging.tableFrame_addTable_cases free inside otherInside present
  constructor
  · exact keeps paging.zero_used
  · exact paging.directory_aligned
  · rintro other (rfl | ⟨position, otherInside, present, rfl⟩)
    · have directory := paging.directory
      exact ⟨directory.1, directory.2.1, keeps directory.2.2⟩
    · rcases tables otherInside present with ⟨_, added⟩ | ⟨_, before, table⟩
      · rw [added, frameUsed_addTable, decide_eq_true rfl, Bool.true_or]
        exact ⟨paging.nonzero_of_free free, inside, rfl⟩
      · have known := paging.table otherInside before
        rw [table]
        exact ⟨known.1, known.2.1, keeps known.2.2⟩
  · intro other otherInside present
    rcases tables otherInside present with ⟨_, added⟩ | ⟨_, before, table⟩
    · rw [added]
      exact paging.ne_directory free
    · rw [table]
      exact paging.table_ne_directory other otherInside before
  · intro left leftInside right rightInside leftPresent rightPresent equal
    rcases tables leftInside leftPresent with ⟨leftSame, leftAdded⟩ | ⟨_, leftBefore, leftTable⟩
    · rcases tables rightInside rightPresent with ⟨rightSame, _⟩ | ⟨_, rightBefore, rightTable⟩
      · rw [leftSame, rightSame]
      · rw [leftAdded, rightTable] at equal
        exact absurd equal.symm (paging.tableFrame_ne_of_free free rightInside rightBefore)
    · rcases tables rightInside rightPresent with ⟨_, rightAdded⟩ | ⟨_, rightBefore, rightTable⟩
      · rw [leftTable, rightAdded] at equal
        exact absurd equal (paging.tableFrame_ne_of_free free leftInside leftBefore)
      · rw [leftTable, rightTable] at equal
        exact paging.table_injective left leftInside right rightInside leftBefore rightBefore equal

theorem tableEntry_addTable_of_ne {other : ℕ} (newInside : slot < 1024) (inside : other < 1024)
    (distinct : other ≠ slot) (present : HasTable state other) (indexInside : index < 1024) :
    tableEntry (addTable state slot frame) other index = tableEntry state other index := by
  have directory := directoryEntry_addTable_of_ne paging free inside distinct
  rw [tableEntry, tableEntry, tableFrame, tableFrame, directory]
  apply read32_congr
  intro location locationMem
  have inTable := word_subset_frame indexInside locationMem
  apply addTable_memory_of_outside
  · intro inFrame
    exact paging.notMem_pagingBytes free inFrame (Or.inr ⟨other, inside, present, inTable⟩)
  · intro inSlot
    exact paging.table_apart_directory inside present inTable (word_subset_frame newInside inSlot)

theorem lookup_addTable (inside : frame < maxFrames) (newInside : slot < 1024)
    (absent : ¬HasTable state slot) (pageInside : page < 1024 * 1024) :
    lookup (addTable state slot frame) page = lookup state page := by
  have slotInside : page / 1024 < 1024 := by omega
  by_cases same : page / 1024 = slot
  · subst slot
    have unmapped := not_ne_iff.mp absent
    have present : directoryEntry (addTable state (page / 1024) frame) (page / 1024) &&&
        pagePresent ≠ 0 := hasTable_addTable_self inside
    have zero := tableEntry_addTable_self paging free inside slotInside
      (Nat.mod_lt page (by decide : 0 < 1024))
    rw [lookup, lookup, if_pos unmapped, if_neg present, zero]
    rfl
  · exact lookup_eq (directoryEntry_addTable_of_ne paging free slotInside same) fun present =>
      tableEntry_addTable_of_ne paging free newInside slotInside same present
        (Nat.mod_lt page (by decide))

end NewTable

def setEntry (state : State) (slot index entry : ℕ) : State :=
  { state with
    memory := write32 state.memory (tableFrame state slot * pageSize + 4 * index) entry }

@[simp]
theorem frameUsed_setEntry :
    frameUsed (setEntry state slot index entry) frame = frameUsed state frame := rfl

section Entry

variable (paging : Paging state) (inside : slot < 1024) (present : HasTable state slot)
  (indexInside : index < 1024)

include paging inside present indexInside

theorem setEntry_eqOn_directory :
    Set.EqOn (setEntry state slot index entry).memory state.memory
      (range state.currentPageDirectory pageSize) := by
  intro location inDirectory
  apply write32_eqOn
  intro inWord
  exact paging.table_apart_directory inside present (word_subset_frame indexInside inWord)
    inDirectory

theorem Paging.setEntry :
    Paging (setEntry state slot index entry) :=
  paging.congr rfl (setEntry_eqOn_directory paging inside present indexInside) fun _ used => used

theorem directoryEntry_setEntry {other : ℕ} (otherInside : other < 1024) :
    directoryEntry (setEntry state slot index entry) other = directoryEntry state other :=
  directoryEntry_congr otherInside rfl (setEntry_eqOn_directory paging inside present indexInside)

theorem holdsPaging_setEntry :
    HoldsPaging (setEntry state slot index entry) frame ↔ HoldsPaging state frame :=
  holdsPaging_congr rfl fun _ otherInside =>
    directoryEntry_setEntry paging inside present indexInside otherInside

theorem tableEntry_setEntry {other position : ℕ} (word : entry < 2 ^ 32)
    (otherInside : other < 1024) (otherPresent : HasTable state other)
    (positionInside : position < 1024) :
    tableEntry (setEntry state slot index entry) other position =
      if other = slot ∧ position = index then entry else tableEntry state other position := by
  have directory := @directoryEntry_setEntry _ _ _ entry paging inside present indexInside other
    otherInside
  have place : tableEntry (Vmm.setEntry state slot index entry) other position =
      read32 (write32 state.memory (tableFrame state slot * pageSize + 4 * index) entry)
        (tableFrame state other * pageSize + 4 * position) := by
    rw [tableEntry, tableFrame, directory]
    rfl
  rw [place]
  by_cases same : other = slot ∧ position = index
  · rw [if_pos same, same.1, same.2, read32_write32_same, Nat.mod_eq_of_lt word]
  · rw [if_neg same, tableEntry]
    apply read32_write32_of_disjoint
    have injective := paging.table_injective other otherInside slot inside otherPresent present
    generalize tableFrame state other = left at injective ⊢
    generalize tableFrame state slot = right at injective ⊢
    simp only [pageSize]
    omega

theorem lookup_setEntry (word : entry < 2 ^ 32)
    (pageInside : page < 1024 * 1024) :
    lookup (setEntry state slot index entry) page =
      if page = slot * 1024 + index then
        if entry &&& pagePresent = 0 then none else some (physicalAddress entry)
      else lookup state page := by
  have slotInside : page / 1024 < 1024 := by omega
  have directory := @directoryEntry_setEntry _ _ _ entry paging inside present indexInside _
    slotInside
  have place : page = slot * 1024 + index ↔ page / 1024 = slot ∧ page % 1024 = index := by omega
  have table (hasTable) := tableEntry_setEntry paging inside present indexInside word slotInside
    hasTable (Nat.mod_lt page (by decide : 0 < 1024))
  by_cases same : page / 1024 = slot ∧ page % 1024 = index
  · have hasTable : HasTable state (page / 1024) := same.1.symm ▸ present
    rw [lookup, directory, if_neg hasTable, table hasTable]
    simp only [if_pos same, if_pos (place.mpr same)]
  · rw [if_neg (mt place.mp same)]
    exact lookup_eq directory fun hasTable => (table hasTable).trans (if_neg same)

end Entry

theorem vmmGetPage_of_hasTable {create : Bool} (paging : Paging state)
    (present : HasTable state (pageDirectoryIndex virtual)) :
    vmmGetPage state virtual create state.currentPageDirectory =
      (tableFrame state (pageDirectoryIndex virtual) * pageSize + 4 * pageTableIndex virtual,
        state) := by
  have notNull : state.currentPageDirectory ≠ 0 := paging.directory_pos.ne'
  have table := @physicalAddress_directoryEntry state (pageDirectoryIndex virtual)
  rw [HasTable] at present
  rw [directoryEntry] at present table
  simp only [vmmGetPage, if_neg notNull, if_neg present, table]

theorem Paging.place_ne_zero (paging : Paging state) (word : virtual < 2 ^ 32)
    (present : HasTable state (pageDirectoryIndex virtual)) :
    tableFrame state (pageDirectoryIndex virtual) * pageSize + 4 * pageTableIndex virtual ≠ 0 := by
  have positive := (paging.table (pageDirectoryIndex_lt word) present).1
  simp only [pageSize]
  omega

theorem vmmGetPage_of_absent (paging : Paging state)
    (absent : ¬HasTable state (pageDirectoryIndex virtual)) :
    vmmGetPage state virtual false state.currentPageDirectory = (0, state) := by
  have notNull : state.currentPageDirectory ≠ 0 := paging.directory_pos.ne'
  rw [HasTable, directoryEntry, not_ne_iff] at absent
  simp only [vmmGetPage, if_neg notNull, if_pos absent, if_true]

theorem vmmGetPage_of_exhausted
    (absent : ¬HasTable state (pageDirectoryIndex virtual)) (none : allocFrame state = (0, state)) :
    vmmGetPage state virtual true state.currentPageDirectory = (0, state) := by
  rw [HasTable, directoryEntry, not_ne_iff] at absent
  simp [vmmGetPage, if_pos absent, none]

theorem vmmGetPage_of_alloc (paging : Paging state)
    (absent : ¬HasTable state (pageDirectoryIndex virtual))
    (free : frameUsed state frame = false) (inside : frame < maxFrames)
    (found : allocFrame state = (frame * pageSize, takeFrame state frame)) :
    vmmGetPage state virtual true state.currentPageDirectory =
      (frame * pageSize + 4 * pageTableIndex virtual,
        addTable state (pageDirectoryIndex virtual) frame) := by
  have notNull : state.currentPageDirectory ≠ 0 := paging.directory_pos.ne'
  have framePos := paging.address_ne_zero free
  have table := @physicalAddress_directoryEntry (addTable state (pageDirectoryIndex virtual) frame)
    (pageDirectoryIndex virtual)
  rw [tableFrame_addTable_self inside] at table
  simp only [directoryEntry, addTable, takeFrame_currentPageDirectory] at table
  rw [HasTable, directoryEntry, not_ne_iff] at absent
  simp only [vmmGetPage, if_neg notNull, if_pos absent, Bool.true_eq_false, if_false, found,
    if_neg framePos, takeFrame_memory, table, addTable]

/-- The call finds a page table or can allocate one. -/
def Served (state : State) (virtual : ℕ) : Prop :=
  HasTable state (pageDirectoryIndex virtual) ∨ (allocFrame state).1 ≠ 0

instance : Decidable (Served state virtual) :=
  inferInstanceAs (Decidable ((_ ≠ _) ∨ (_ ≠ _)))

theorem vmmMapPage_of_not_served (paging : Paging state) (refused : ¬Served state virtual) :
    vmmMapPage state virtual physical flags = state := by
  rw [Served, not_or, not_ne_iff] at refused
  rcases allocFrame_cases state with ⟨none, _⟩ | ⟨frame, inside, free, found⟩
  · rw [vmmMapPage_eq (vmmGetPage_of_exhausted refused.1 none), if_pos rfl]
  · rw [found] at refused
    exact absurd refused.2 (paging.address_ne_zero free)

theorem vmmMapPage_of_hasTable (paging : Paging state) (word : virtual < 2 ^ 32)
    (present : HasTable state (pageDirectoryIndex virtual)) :
    vmmMapPage state virtual physical flags =
      setEntry state (pageDirectoryIndex virtual) (pageTableIndex virtual)
        (mappedEntry physical flags) := by
  rw [vmmMapPage_eq (vmmGetPage_of_hasTable paging present),
    if_neg (paging.place_ne_zero word present)]
  rfl

theorem vmmMapPage_of_alloc (paging : Paging state)
    (absent : ¬HasTable state (pageDirectoryIndex virtual))
    (free : frameUsed state frame = false) (inside : frame < maxFrames)
    (found : allocFrame state = (frame * pageSize, takeFrame state frame)) :
    vmmMapPage state virtual physical flags =
      setEntry (addTable state (pageDirectoryIndex virtual) frame) (pageDirectoryIndex virtual)
        (pageTableIndex virtual) (mappedEntry physical flags) := by
  have nonzero := paging.nonzero_of_free free
  rw [vmmMapPage_eq (vmmGetPage_of_alloc paging absent free inside found), if_neg]
  · rw [setEntry, tableFrame_addTable_self inside]
  · simp only [pageSize]
    omega

/-- A served call maps its page, keeps every other translation, and keeps the tables
in order. -/
theorem vmmMapPage_of_served (paging : Paging state) (word : virtual < 2 ^ 32)
    (served : Served state virtual) :
    Paging (vmmMapPage state virtual physical flags) ∧
      ∀ page < 1024 * 1024, lookup (vmmMapPage state virtual physical flags) page =
        if page = virtual / pageSize then some (physical &&& Word32.not 0xFFF)
        else lookup state page := by
  have slotInside := pageDirectoryIndex_lt word
  have indexInside := pageTableIndex_lt virtual
  have place : pageDirectoryIndex virtual * 1024 + pageTableIndex virtual = virtual / pageSize := by
    rw [pageDirectoryIndex_eq, pageTableIndex_eq]
    omega
  by_cases present : HasTable state (pageDirectoryIndex virtual)
  · rw [vmmMapPage_of_hasTable paging word present]
    refine ⟨paging.setEntry slotInside present indexInside, ?_⟩
    intro page pageInside
    rw [lookup_setEntry paging slotInside present indexInside (mappedEntry_lt _ _) pageInside,
      if_neg (mappedEntry_present _ _), place, physicalAddress_mappedEntry]
  · rcases allocFrame_cases state with ⟨none, _⟩ | ⟨frame, inside, free, found⟩
    · rw [Served, none] at served
      exact absurd rfl (served.resolve_left present)
    · rw [vmmMapPage_of_alloc paging present free inside found]
      have extended : Paging (addTable state (pageDirectoryIndex virtual) frame) :=
        paging.addTable free inside
      have added : HasTable (addTable state (pageDirectoryIndex virtual) frame)
          (pageDirectoryIndex virtual) := hasTable_addTable_self inside
      refine ⟨extended.setEntry slotInside added indexInside, ?_⟩
      intro page pageInside
      rw [lookup_setEntry extended slotInside added indexInside (mappedEntry_lt _ _) pageInside,
        if_neg (mappedEntry_present _ _), place, physicalAddress_mappedEntry,
        lookup_addTable paging free inside slotInside present pageInside]

theorem Paging.vmmMapPage (paging : Paging state) (word : virtual < 2 ^ 32) :
    Paging (vmmMapPage state virtual physical flags) := by
  by_cases served : Served state virtual
  · exact (vmmMapPage_of_served paging word served).1
  · rwa [vmmMapPage_of_not_served paging served]

theorem vmmMapPage_directories (paging : Paging state) (word : virtual < 2 ^ 32) :
    (vmmMapPage state virtual physical flags).currentPageDirectory =
        state.currentPageDirectory ∧
      (vmmMapPage state virtual physical flags).kernelPageDirectory =
        state.kernelPageDirectory := by
  by_cases present : HasTable state (pageDirectoryIndex virtual)
  · rw [vmmMapPage_of_hasTable paging word present]
    exact ⟨rfl, rfl⟩
  · rcases allocFrame_cases state with ⟨none, _⟩ | ⟨frame, inside, free, found⟩
    · rw [vmmMapPage_of_not_served paging (by simp [Served, present, none])]
      exact ⟨rfl, rfl⟩
    · rw [vmmMapPage_of_alloc paging present free inside found]
      exact ⟨rfl, rfl⟩

theorem vmmGetPhysical_eq (paging : Paging state) (word : address < 2 ^ 32) :
    vmmGetPhysical state address =
      match lookup state (address / pageSize) with
      | none => 0
      | some base => base ||| (address &&& 0xFFF) := by
  by_cases present : HasTable state (pageDirectoryIndex address)
  · simp only [vmmGetPhysical, vmmGetPage_of_hasTable paging present,
      paging.place_ne_zero word present, false_or]
    rw [HasTable, pageDirectoryIndex_eq] at present
    rw [pageDirectoryIndex_eq, pageTableIndex_eq, lookup, if_neg present]
    simp only [tableEntry]
    split <;> simp_all
  · simp only [vmmGetPhysical, vmmGetPage_of_absent paging present, true_or, if_true]
    rw [HasTable, pageDirectoryIndex_eq, not_ne_iff] at present
    rw [lookup, if_pos present]

end RamOS.Vmm
