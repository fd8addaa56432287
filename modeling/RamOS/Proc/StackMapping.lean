import RamOS.Proc.Exec
import RamOS.Proc.Isolation

/-!
# Where the user stack is mapped

`process_exec` maps the stack of its process through the current page directory, which may be
any one. So this file follows `vmm_map_page` on memory in use: it writes to the directory, to
the page table of one slot and to memory that was not in use. The pages of the stack are such
memory.
-/

namespace RamOS.Proc

open ByteMemory
open Vmm (physicalAddress pagePresent pageSize pageUser pageWrite mappedEntry)

def slotBytes (memory : Memory) (directory slot : ℕ) : Set ℕ :=
  fun address => directory ≠ 0 ∧ (address ∈ range directory pageSize ∨
    read32 memory (directory + 4 * slot) &&& pagePresent ≠ 0 ∧
      address ∈ range (physicalAddress (read32 memory (directory + 4 * slot))) pageSize)

/-- A store to the page table of a slot is not a store to the slot itself. -/
def TableApart (memory : Memory) (directory slot : ℕ) : Prop :=
  directory ≠ 0 → read32 memory (directory + 4 * slot) &&& pagePresent ≠ 0 →
    Disjoint (range (physicalAddress (read32 memory (directory + 4 * slot))) pageSize)
      (range (directory + 4 * slot) 4)

/-- A phase that keeps the current directory and, but for new memory, its page table of a slot. -/
structure Remaps (region : Heap.Region) (slot : ℕ) (writable : Set ℕ) (before : Vmm.State)
    (owned : Set ℕ) (after : Vmm.State) (ownedAfter : Set ℕ) : Prop where
  spreads : Spreads (InUse region) writable before owned after ownedAfter
  directory : after.currentPageDirectory = before.currentPageDirectory
  held : slotBytes after.memory after.currentPageDirectory slot ⊆
    slotBytes before.memory before.currentPageDirectory slot ∪ (ownedAfter \ owned)
  apart : TableApart before.memory before.currentPageDirectory slot →
    TableApart after.memory after.currentPageDirectory slot

variable {region : Heap.Region} {state before after last : Vmm.State}
  {owned ownedAfter ownedLast writable left right : Set ℕ} {memory updated : Memory}
  {directory slot index page table cell entry virtual physical flags : ℕ}

theorem slot_subset_slotBytes (notNull : directory ≠ 0) (inside : slot < 1024) :
    range (directory + 4 * slot) 4 ⊆ slotBytes memory directory slot :=
  fun _ inWord => ⟨notNull, Or.inl (Vmm.word_subset_frame inside inWord)⟩

theorem table_subset_slotBytes (notNull : directory ≠ 0)
    (present : read32 memory (directory + 4 * slot) &&& pagePresent ≠ 0) :
    range (physicalAddress (read32 memory (directory + 4 * slot))) pageSize ⊆
      slotBytes memory directory slot :=
  fun _ inTable => ⟨notNull, Or.inr ⟨present, inTable⟩⟩

theorem read32_slot_congr (inside : slot < 1024) (notNull : directory ≠ 0)
    (same : Set.EqOn updated memory (slotBytes memory directory slot)) :
    read32 updated (directory + 4 * slot) = read32 memory (directory + 4 * slot) :=
  read32_congr (same.mono (slot_subset_slotBytes notNull inside))

theorem slotBytes_of_slot (sameSlot : directory ≠ 0 → read32 updated (directory + 4 * slot) =
      read32 memory (directory + 4 * slot)) :
    slotBytes updated directory slot = slotBytes memory directory slot := by
  ext address
  constructor
  · rintro ⟨notNull, inSlot⟩
    rw [sameSlot notNull] at inSlot
    exact ⟨notNull, inSlot⟩
  · rintro ⟨notNull, inSlot⟩
    rw [← sameSlot notNull] at inSlot
    exact ⟨notNull, inSlot⟩

theorem slotBytes_congr (inside : slot < 1024)
    (same : Set.EqOn updated memory (slotBytes memory directory slot)) :
    slotBytes updated directory slot = slotBytes memory directory slot :=
  slotBytes_of_slot fun notNull => read32_slot_congr inside notNull same

theorem TableApart.congr (apart : TableApart memory directory slot) (inside : slot < 1024)
    (same : Set.EqOn updated memory (slotBytes memory directory slot)) :
    TableApart updated directory slot := by
  intro notNull
  rw [read32_slot_congr inside notNull same]
  exact apart notNull

theorem pageEntry_congr_of_slotBytes (inside : page / 1024 < 1024) (notNull : directory ≠ 0)
    (same : Set.EqOn updated memory (slotBytes memory directory (page / 1024))) :
    pageEntry updated directory page = pageEntry memory directory page := by
  simp only [pageEntry, slotEntry]
  rw [read32_slot_congr inside notNull same]
  split
  · rfl
  next present =>
    have inTable := (Vmm.word_subset_frame (Nat.mod_lt page (by decide))).trans
      (table_subset_slotBytes notNull present)
    rw [read32_congr (same.mono inTable)]

theorem Remaps.of_spreads (inside : slot < 1024)
    (spreads : Spreads (InUse region) writable before owned after ownedAfter)
    (directory : after.currentPageDirectory = before.currentPageDirectory)
    (held : slotBytes before.memory before.currentPageDirectory slot ⊆ owned \ writable) :
    Remaps region slot writable before owned after ownedAfter := by
  have same := spreads.frame.mono held
  refine ⟨spreads, directory, ?_, ?_⟩
  · rw [directory, slotBytes_congr inside same]
    exact Set.subset_union_left
  · rw [directory]
    exact fun apart => apart.congr inside same

theorem Remaps.owned_held (remaps : Remaps region slot writable before owned after ownedAfter)
    (held : slotBytes before.memory before.currentPageDirectory slot ⊆ owned) :
    slotBytes after.memory after.currentPageDirectory slot ⊆ ownedAfter := by
  refine remaps.held.trans (Set.union_subset ?_ Set.sdiff_subset)
  exact held.trans remaps.spreads.subset

theorem Remaps.trans (one : Remaps region slot left before owned after ownedAfter)
    (two : Remaps region slot right after ownedAfter last ownedLast)
    (leftSubset : left ∩ owned ⊆ writable) (rightSubset : right ∩ owned ⊆ writable) :
    Remaps region slot writable before owned last ownedLast := by
  refine ⟨one.spreads.trans two.spreads leftSubset rightSubset,
    two.directory.trans one.directory, ?_, fun apart => two.apart (one.apart apart)⟩
  intro address inSlot
  rcases two.held inSlot with earlier | ⟨isOwned, isNew⟩
  · rcases one.held earlier with first | ⟨isOwned, isNew⟩
    · exact Or.inl first
    · exact Or.inr ⟨two.spreads.subset isOwned, isNew⟩
  · exact Or.inr ⟨isOwned, fun wasOwned => isNew (one.spreads.subset wasOwned)⟩

theorem Remaps.refl (inUse : InUse region state owned) :
    Remaps region slot writable state owned state owned :=
  ⟨Ownership.Extends.refl inUse, rfl, Set.subset_union_left, id⟩

theorem newTable_word (aligned : 2 ^ 12 ∣ table) (small : table < 2 ^ 32)
    (stored : write32 memory cell (table ||| pagePresent ||| pageWrite) = updated) :
    read32 updated cell &&& pagePresent ≠ 0 ∧ physicalAddress (read32 updated cell) = table := by
  rcases flaggedWord aligned small 3 with ⟨word, address, flags⟩
  have shape : table ||| pagePresent ||| pageWrite = table ||| (3 &&& 0xFFF) := Nat.or_assoc _ _ _
  rw [← stored, read32_write32_same, shape, Nat.mod_eq_of_lt word, present_of_flags flags, address]
  exact ⟨by decide, rfl⟩

theorem remaps_addTable (inside : slot < 1024) (notNull : state.currentPageDirectory ≠ 0)
    (held : slotBytes state.memory state.currentPageDirectory slot ⊆ owned)
    (aligned : 2 ^ 12 ∣ table) (granted : Granted region state owned table pageSize after)
    (directory : after.currentPageDirectory = state.currentPageDirectory)
    (stored : write32 (fillWords after.memory table 0 1024)
      (state.currentPageDirectory + 4 * slot) (table ||| pagePresent ||| pageWrite) = updated) :
    Remaps region slot (range (state.currentPageDirectory + 4 * slot) 4) state owned
        { after with memory := updated } (owned ∪ range table pageSize) ∧
      read32 updated (state.currentPageDirectory + 4 * slot) &&& pagePresent ≠ 0 := by
  have bound := granted.bound
  have slotOwned := (slot_subset_slotBytes notNull inside).trans held
  rcases newTable_word aligned (by omega) stored with ⟨present, place⟩
  rcases granted.store allowsStores_inUse slotOwned (fillWords_eqOn after.memory table 0 1024)
    (table ||| pagePresent ||| pageWrite) with ⟨safe, fixed⟩
  rw [stored] at safe fixed
  refine ⟨⟨⟨Set.subset_union_left, safe, fixed⟩, directory, ?_, ?_⟩, present⟩
  · rintro location ⟨_, inDirectory | ⟨_, inTable⟩⟩
    · rw [directory] at inDirectory
      exact Or.inl ⟨notNull, Or.inl inDirectory⟩
    · rw [directory, place] at inTable
      exact Or.inr ⟨Or.inr inTable, fun isOwned =>
        Set.disjoint_left.mp granted.fresh isOwned inTable⟩
  · intro _ _ _
    simp only [directory]
    rw [place]
    exact (granted.fresh.mono_left slotOwned).symm

theorem remaps_storeEntry (inUse : InUse region state owned)
    (current : state.currentPageDirectory = directory) (notNull : directory ≠ 0)
    (held : slotBytes state.memory directory slot ⊆ owned)
    (apart : TableApart state.memory directory slot)
    (present : read32 state.memory (directory + 4 * slot) &&& pagePresent ≠ 0)
    (indexInside : index < 1024)
    (stored : write32 state.memory
      (physicalAddress (read32 state.memory (directory + 4 * slot)) + 4 * index) entry = updated) :
    Remaps region slot (slotBytes state.memory directory slot) state owned
        { state with memory := updated } owned ∧
      read32 updated (directory + 4 * slot) = read32 state.memory (directory + 4 * slot) := by
  subst current
  have cell := (@Vmm.word_subset_frame index
    (physicalAddress (read32 state.memory (state.currentPageDirectory + 4 * slot))) indexInside)
  have inSlot := cell.trans (table_subset_slotBytes notNull present)
  have slotWord : read32 updated (state.currentPageDirectory + 4 * slot) =
      read32 state.memory (state.currentPageDirectory + 4 * slot) := by
    rw [← stored]
    apply read32_congr
    apply (write32_eqOn _ _ _).mono
    exact fun address inWord inCell =>
      Set.disjoint_left.mp (apart notNull present) (cell inCell) inWord
  have outside : Set.EqOn updated state.memory
      (slotBytes state.memory state.currentPageDirectory slot)ᶜ := by
    rw [← stored]
    exact (write32_eqOn _ _ _).mono (Set.compl_subset_compl.mpr inSlot)
  refine ⟨⟨spreads_store allowsStores_inUse inUse held outside, rfl, ?_, ?_⟩, slotWord⟩
  · rw [slotBytes_of_slot fun _ => slotWord]
    exact Set.subset_union_left
  · intro _ notNull
    simp only [slotWord]
    exact apart notNull

theorem pageEntry_store_same (present : read32 memory (directory + 4 * (page / 1024)) &&&
      pagePresent ≠ 0)
    (sameSlot : read32 updated (directory + 4 * (page / 1024)) =
      read32 memory (directory + 4 * (page / 1024)))
    (stored : write32 memory
      (physicalAddress (read32 memory (directory + 4 * (page / 1024))) + 4 * (page % 1024))
      entry = updated)
    (word : entry < 2 ^ 32) (valid : entry &&& pagePresent ≠ 0) :
    pageEntry updated directory page = some entry := by
  rw [pageEntry_eq_some_iff, sameSlot]
  refine ⟨present, valid, ?_⟩
  rw [← stored, read32_write32_same, Nat.mod_eq_of_lt word]

theorem pageEntry_store_other (sameSlot : read32 updated (directory + 4 * (page / 1024)) =
      read32 memory (directory + 4 * (page / 1024)))
    (stored : write32 memory
      (physicalAddress (read32 memory (directory + 4 * (page / 1024))) + 4 * index) entry = updated)
    (different : page % 1024 ≠ index) :
    pageEntry updated directory page = pageEntry memory directory page := by
  simp only [pageEntry, slotEntry, sameSlot]
  rw [← stored, read32_write32_of_disjoint (by omega)]

theorem allocFrame_currentPageDirectory :
    (Vmm.allocFrame state).2.currentPageDirectory = state.currentPageDirectory := by
  rcases Vmm.allocFrame_cases state with ⟨none, _⟩ | ⟨frame, _, _, found⟩
  · rw [none]
  · rw [found]
    rfl

/-- `vmm_get_page` finds the page table of a slot, or enters a new one. -/
theorem vmmGetPage_remaps (inUse : InUse region state owned)
    (notNull : state.currentPageDirectory ≠ 0) (inside : slot < 1024)
    (isSlot : virtual / pageSize / 1024 = slot)
    (held : slotBytes state.memory state.currentPageDirectory slot ⊆ owned)
    (found : (Vmm.vmmGetPage state virtual true state.currentPageDirectory).1 ≠ 0) :
    ∃ ownedAfter after,
      Vmm.vmmGetPage state virtual true state.currentPageDirectory =
        (physicalAddress (read32 after.memory (state.currentPageDirectory + 4 * slot)) +
          4 * (virtual / pageSize % 1024), after) ∧
      Remaps region slot (range (state.currentPageDirectory + 4 * slot) 4) state owned after
        ownedAfter ∧
      read32 after.memory (state.currentPageDirectory + 4 * slot) &&& pagePresent ≠ 0 ∧
      (read32 state.memory (state.currentPageDirectory + 4 * slot) &&& pagePresent ≠ 0 →
        after = state) := by
  have served := @servesPages_inUse region state owned inUse
  have directory := @allocFrame_currentPageDirectory state
  simp only [Vmm.vmmGetPage, if_neg notNull, Vmm.pageDirectoryIndex_eq, Vmm.pageTableIndex_eq,
    isSlot] at found ⊢
  split at found
  next absent =>
    rw [if_pos absent]
    simp only [Bool.true_eq_false, if_false] at found ⊢
    cases allocated : Vmm.allocFrame state with
    | mk table created =>
      simp only [allocated] at served directory found ⊢
      have hasTable : table ≠ 0 := by
        rintro rfl
        exact found rfl
      rcases served with ⟨isNull, _⟩ | ⟨aligned, granted⟩
      · exact absurd isNull hasTable
      rcases remaps_addTable inside notNull held aligned granted directory rfl with
        ⟨added, present⟩
      rw [if_neg hasTable]
      refine ⟨_, _, ?_, added, present, fun wasPresent => absurd absent wasPresent⟩
      rfl
  next present =>
    rw [if_neg present]
    exact ⟨owned, state, rfl, Remaps.refl inUse, present, fun _ => rfl⟩

/-- `vmm_map_page` maps its page, and keeps the other pages of its slot. -/
theorem vmmMapPage_remaps (inUse : InUse region state owned) (inside : slot < 1024)
    (isSlot : virtual / pageSize / 1024 = slot)
    (held : slotBytes state.memory state.currentPageDirectory slot ⊆ owned)
    (apart : TableApart state.memory state.currentPageDirectory slot)
    (served : servesTable state virtual = true) :
    ∃ ownedAfter,
      Remaps region slot (slotBytes state.memory state.currentPageDirectory slot) state owned
        (Vmm.vmmMapPage state virtual physical flags) ownedAfter ∧
      (state.currentPageDirectory ≠ 0 →
        pageEntry (Vmm.vmmMapPage state virtual physical flags).memory state.currentPageDirectory
          (virtual / pageSize) = some (mappedEntry physical flags) ∧
        ∀ page entry, page / 1024 = slot → page ≠ virtual / pageSize →
          pageEntry state.memory state.currentPageDirectory page = some entry →
          pageEntry (Vmm.vmmMapPage state virtual physical flags).memory
            state.currentPageDirectory page = some entry) := by
  by_cases null : state.currentPageDirectory = 0
  · have unchanged : Vmm.vmmMapPage state virtual physical flags = state := by
      simp [Vmm.vmmMapPage, Vmm.vmmGetPage, null]
    rw [unchanged]
    exact ⟨owned, Remaps.refl inUse, fun notNull => absurd null notNull⟩
  have found : (Vmm.vmmGetPage state virtual true state.currentPageDirectory).1 ≠ 0 := by
    simpa [servesTable, null] using served
  rcases vmmGetPage_remaps inUse null inside isSlot held found with
    ⟨ownedTable, ready, run, remaps, present, unchanged⟩
  rw [run] at found
  rw [Vmm.vmmMapPage_eq run, if_neg found]
  have heldReady := remaps.owned_held held
  have apartReady := remaps.apart apart
  rw [remaps.directory] at heldReady apartReady
  rcases remaps_storeEntry remaps.spreads.safe remaps.directory null heldReady apartReady present
    (Nat.mod_lt (virtual / pageSize) (by decide)) rfl with ⟨stores, sameSlot⟩
  refine ⟨ownedTable, remaps.trans stores ?_ ?_, fun _ => ⟨?_, ?_⟩⟩
  · exact Set.inter_subset_left.trans (slot_subset_slotBytes null inside)
  · rintro address ⟨inSlot, isOwned⟩
    rw [← remaps.directory] at inSlot
    rcases remaps.held inSlot with before | ⟨_, isNew⟩
    · exact before
    · exact absurd isOwned isNew
  · rw [← isSlot] at present sameSlot ⊢
    exact pageEntry_store_same present sameSlot rfl (Vmm.mappedEntry_lt _ _)
      (Vmm.mappedEntry_present _ _)
  · intro page entry samePage different mapped
    have wasPresent := (pageEntry_eq_some_iff.mp mapped).1
    rw [samePage] at wasPresent
    cases unchanged wasPresent
    rw [← mapped]
    rw [← samePage] at sameSlot ⊢
    exact pageEntry_store_other sameSlot rfl (by omega)

theorem kmallocAligned_currentPageDirectory {request alignment : ℕ} :
    (kmallocAligned region state request alignment).2.currentPageDirectory =
      state.currentPageDirectory := by
  simp only [kmallocAligned]
  split <;> rfl

theorem mapStackPage_succeeded {run : Vmm.State × Bool}
    (fine : (mapStackPage region virtual run).2 = true) : run.2 = true := by
  simp only [mapStackPage] at fine
  split at fine
  · cases fine
  · exact (Bool.and_eq_true _ _ ▸ fine).1

theorem Granted.remaps {frame : ℕ} (granted : Granted region state owned frame pageSize after)
    (sameDirectory : after.currentPageDirectory = state.currentPageDirectory) (inside : slot < 1024)
    (held : slotBytes state.memory state.currentPageDirectory slot ⊆ owned) :
    Remaps region slot ∅ state owned after (owned ∪ range frame pageSize) := by
  refine Remaps.of_spreads inside ?_ sameDirectory (by simpa using held)
  exact ⟨Set.subset_union_left, granted.inUse, granted.frame.mono Set.sdiff_subset⟩

theorem Remaps.slotBytes_apart {frame size : ℕ}
    (maps : Remaps region slot writable before (owned ∪ range frame size) after ownedAfter)
    (held : slotBytes before.memory before.currentPageDirectory slot ⊆ owned)
    (fresh : Disjoint owned (range frame size)) :
    slotBytes after.memory after.currentPageDirectory slot ⊆ ownedAfter \ range frame size := by
  intro address inSlot
  rcases maps.held inSlot with earlier | ⟨isOwned, isNew⟩
  · exact ⟨maps.spreads.subset (Or.inl (held earlier)),
      Set.disjoint_left.mp fresh (held earlier)⟩
  · exact ⟨isOwned, fun inFrame => isNew (Or.inr inFrame)⟩

theorem mapStackPage_remaps {succeeded : Bool} (inUse : InUse region state owned)
    (inside : slot < 1024) (isSlot : virtual / pageSize / 1024 = slot)
    (held : slotBytes state.memory state.currentPageDirectory slot ⊆ owned)
    (apart : TableApart state.memory state.currentPageDirectory slot)
    (run : mapStackPage region virtual (state, succeeded) = (after, true)) :
    ∃ ownedAfter,
      Remaps region slot (slotBytes state.memory state.currentPageDirectory slot) state owned
        after ownedAfter ∧
      (state.currentPageDirectory ≠ 0 →
        (∃ entry, pageEntry after.memory state.currentPageDirectory (virtual / pageSize) =
            some entry ∧ Disjoint owned (range (physicalAddress entry) pageSize)) ∧
        ∀ page entry, page / 1024 = slot → page ≠ virtual / pageSize →
          pageEntry state.memory state.currentPageDirectory page = some entry →
          pageEntry after.memory state.currentPageDirectory page = some entry) := by
  have serves := servesPages_kmallocAligned region state owned inUse
  have directory := @kmallocAligned_currentPageDirectory region state 4096 4096
  cases allocation : kmallocAligned region state 4096 4096 with
  | mk frame allocated =>
    simp only [allocation] at serves directory
    rcases serves with ⟨null, _⟩ | ⟨aligned, granted⟩
    · simp [mapStackPage, allocation, null] at run
    have notNull : frame ≠ 0 := granted.positive.ne'
    have bound := granted.bound
    simp only [mapStackPage, allocation, if_neg notNull, Prod.mk.injEq, Bool.and_eq_true] at run
    rcases run with ⟨rfl, _, served⟩
    have sameSlot := granted.frame.mono held
    have allocates := Granted.remaps granted directory inside held
    have slotSame := slotBytes_congr inside sameSlot
    rcases @vmmMapPage_remaps region allocated _ slot virtual frame
      (pagePresent ||| pageWrite ||| pageUser) granted.inUse inside isSlot
      (allocates.owned_held held) (allocates.apart apart) served with
      ⟨ownedMapped, maps, entries⟩
    generalize Vmm.vmmMapPage allocated virtual frame (pagePresent ||| pageWrite ||| pageUser) =
      mapped at maps entries ⊢
    have outside := maps.slotBytes_apart (by rwa [directory, slotSame]) granted.fresh
    have fills := Remaps.of_spreads inside
      (spreads_store allowsStores_inUse maps.spreads.safe
        (Set.subset_union_right.trans maps.spreads.subset)
        (fill_eqOn mapped.memory frame 0 4096)) rfl outside
    generalize fill mapped.memory frame 0 4096 = cleared at fills ⊢
    have allocatesAndMaps : Remaps region slot
        (slotBytes state.memory state.currentPageDirectory slot) state owned mapped
        ownedMapped := by
      refine allocates.trans maps (by simp) ?_
      rw [directory, slotSame]
      exact Set.inter_subset_left
    refine ⟨ownedMapped, allocatesAndMaps.trans fills Set.inter_subset_left ?_, ?_⟩
    · rintro address ⟨inFrame, isOwned⟩
      exact absurd inFrame (Set.disjoint_left.mp granted.fresh isOwned)
    · intro hasDirectory
      have current := maps.directory.trans directory
      rw [directory] at entries
      rcases entries hasDirectory with ⟨here, elsewhere⟩
      have filled := fills.spreads.frame.mono outside
      rw [current] at filled
      have unfilled {page : ℕ} (samePage : page / 1024 = slot) :
          pageEntry cleared state.currentPageDirectory page =
            pageEntry mapped.memory state.currentPageDirectory page := by
        rw [← samePage] at filled inside
        exact pageEntry_congr_of_slotBytes inside hasDirectory filled
      refine ⟨⟨_, (unfilled isSlot).trans here, ?_⟩, ?_⟩
      · rw [Vmm.physicalAddress_mappedEntry, and_not_0xFFF_of_aligned aligned (by omega)]
        exact granted.fresh
      · intro page entry samePage different wasMapped
        rw [unfilled samePage]
        refine elsewhere page entry samePage different ?_
        rw [← samePage] at sameSlot inside
        rw [pageEntry_congr_of_slotBytes inside hasDirectory sameSlot, wasMapped]

def stackPage (index : ℕ) : ℕ := (userStackTop - userStackSize) / pageSize + index

def stackSlot : ℕ := stackPage 0 / 1024

structure StackRun (region : Heap.Region) (start : Vmm.State) (owned : Set ℕ) (count : ℕ)
    (state : Vmm.State) (taken : Set ℕ) : Prop where
  remaps : Remaps region stackSlot
    (slotBytes start.memory start.currentPageDirectory stackSlot) start owned state taken
  mapped : start.currentPageDirectory ≠ 0 → ∀ index < count, ∃ entry,
    pageEntry state.memory start.currentPageDirectory (stackPage index) = some entry ∧
      Disjoint owned (range (physicalAddress entry) pageSize)

theorem stackPage_eq : (userStackTop - userStackSize + pageSize * index) / pageSize =
    stackPage index := by
  simp only [userStackTop, userStackSize, pageSize, stackPage]
  omega

theorem stackPage_slot (inside : index < userStackSize / pageSize) :
    stackPage index / 1024 = stackSlot := by
  simp only [userStackTop, userStackSize, pageSize, stackPage, stackSlot] at inside ⊢
  omega

variable {start : Vmm.State} {taken : Set ℕ} {count : ℕ}

theorem StackRun.mapStackPage {succeeded : Bool}
    (isRun : StackRun region start owned count state taken)
    (inside : count < userStackSize / pageSize)
    (held : slotBytes start.memory start.currentPageDirectory stackSlot ⊆ owned)
    (apart : TableApart start.memory start.currentPageDirectory stackSlot)
    (run : mapStackPage region (userStackTop - userStackSize + pageSize * count)
      (state, succeeded) = (after, true)) :
    ∃ takenAfter, StackRun region start owned (count + 1) after takenAfter := by
  rcases mapStackPage_remaps isRun.remaps.spreads.safe (by decide)
    (by rw [stackPage_eq, stackPage_slot inside]) (isRun.remaps.owned_held held)
    (isRun.remaps.apart apart) run with ⟨takenAfter, remaps, entries⟩
  rw [stackPage_eq] at entries
  refine ⟨takenAfter, isRun.remaps.trans remaps Set.inter_subset_left ?_, ?_⟩
  · rintro address ⟨inSlot, isOwned⟩
    rcases isRun.remaps.held inSlot with before | ⟨_, isNew⟩
    · exact before
    · exact absurd isOwned isNew
  · intro hasDirectory index below
    have current := isRun.remaps.directory
    rw [current] at entries
    rcases entries hasDirectory with ⟨⟨entry, isEntry, fresh⟩, elsewhere⟩
    rcases Nat.lt_succ_iff_lt_or_eq.mp below with earlier | rfl
    · rcases isRun.mapped hasDirectory index earlier with ⟨old, wasMapped, wasFresh⟩
      refine ⟨old, elsewhere _ _ (stackPage_slot (by omega)) ?_ wasMapped, wasFresh⟩
      simp only [stackPage]
      omega
    · exact ⟨entry, isEntry, fresh.mono_left isRun.remaps.spreads.subset⟩

theorem stackRun_fold (inUse : InUse region start owned)
    (held : slotBytes start.memory start.currentPageDirectory stackSlot ⊆ owned)
    (apart : TableApart start.memory start.currentPageDirectory stackSlot)
    (bound : count ≤ userStackSize / pageSize)
    (run : Nat.fold count (fun index _ run => mapStackPage region
      (userStackTop - userStackSize + pageSize * index) run) (start, true) = (after, true)) :
    ∃ taken, StackRun region start owned count after taken := by
  induction count generalizing after with
  | zero =>
    cases run
    exact ⟨owned, Remaps.refl inUse, fun _ index below => absurd below (Nat.not_lt_zero index)⟩
  | succ count ih =>
    rw [Nat.fold_succ] at run
    cases earlier : Nat.fold count (fun index _ run => mapStackPage region
        (userStackTop - userStackSize + pageSize * index) run) (start, true) with
    | mk state succeeded =>
      rw [earlier] at run
      have fine : succeeded = true :=
        @mapStackPage_succeeded region _ (state, succeeded) (by rw [run])
      rw [fine] at earlier
      rcases ih (by omega) earlier with ⟨taken, isRun⟩
      exact isRun.mapStackPage (by omega) held apart run

theorem pushStrings_eqOn (pointers index : ℕ) (arguments : List Bytes) (memory : Memory) :
    Set.EqOn (pushStrings pointers index arguments memory).1 memory
      (range (pointers + 4 * index) (4 * arguments.length))ᶜ := by
  induction arguments generalizing index with
  | nil => exact fun _ _ => rfl
  | cons text rest ih =>
    intro address outside
    simp only [mem_compl_range, List.length_cons] at outside
    simp only [pushStrings]
    rw [write32_apply_of_outside (by omega)]
    apply ih
    rw [mem_compl_range]
    omega

/-- The argument pointers get a block, or the stores to them at the null address miss the memory
in use. -/
def ArgumentsFit (region : Heap.Region) (state : Vmm.State) (used : Set ℕ)
    (arguments : List Bytes) : Prop :=
  arguments.length + 1 < 2 ^ 30 ∧
    ((kmalloc region state (4 * (arguments.length + 1) % 2 ^ 32)).1 = 0 →
      Disjoint used (range 0 (4 * arguments.length)))

theorem storeArguments_eqOn {arguments : List Bytes} (inUse : InUse region state owned)
    (fit : ArgumentsFit region state owned arguments) :
    Set.EqOn (storeArguments region state arguments).memory state.memory owned := by
  rcases fit with ⟨short, nullStores⟩
  rcases inUse.heap with ⟨live, blocks, invariant, apart⟩
  have request : 4 * (arguments.length + 1) % 2 ^ 32 = 4 * (arguments.length + 1) :=
    Nat.mod_eq_of_lt (by omega)
  have refined := Heap.kmalloc_refines invariant (le_refl searchFuel)
    (by omega : 4 * (arguments.length + 1) ≠ 0)
  simp only [storeArguments, request] at nullStores ⊢
  cases found : BlockList.firstFit Heap.headerSize 16
      (Word32.add (4 * (arguments.length + 1)) 3 &&& Word32.not 3) region.start blocks with
  | none =>
    simp only [found] at refined
    simp only [kmalloc, refined] at nullStores ⊢
    have outside := pushStrings_eqOn 0 0 arguments state.memory
    simp only [kfree, Heap.kfree, if_true]
    exact outside.mono fun address isOwned => Set.disjoint_left.mp (nullStores trivial) isOwned
  | some pair =>
    rcases pair with ⟨pointer, result⟩
    simp only [found] at refined
    rcases refined with ⟨allocated, place, run, _, takes⟩
    cases takes.pointer_eq
    simp only [kmalloc, run]
    have outside := pushStrings_eqOn (place.1 + Heap.headerSize) 0 arguments allocated
    generalize (pushStrings (place.1 + Heap.headerSize) 0 arguments allocated).1 = stored
      at outside ⊢
    have rounded := Heap.roundUp_eq (by omega : 4 * (arguments.length + 1) + 3 < 2 ^ 32)
    have enough := takes.fits
    have bounds := BlockList.placed_bounds takes.listed
    have fits := invariant.fits
    have freed := Heap.kfree_eqOn stored (Nat.le_add_left Heap.headerSize place.1) (by omega)
    rw [Nat.add_sub_cancel] at freed
    -- The block was free, so none of its bytes is owned.
    have notOwned {address length : ℕ} (behind : place.1 ≤ address)
        (inside : address + length ≤ place.1 + Heap.headerSize + place.2.size) :
        owned ⊆ (range address length)ᶜ := by
      intro location isOwned inRange
      refine Set.disjoint_left.mp apart isOwned
        (Heap.range_subset_managed takes.listed takes.free ?_)
      exact range_subset_range behind (by omega) inRange
    exact (freed.mono (notOwned le_rfl (by omega))).trans
      ((outside.mono (notOwned (by omega) (by omega))).trans
        (takes.frame.mono (notOwned le_rfl (by omega))))

end RamOS.Proc
