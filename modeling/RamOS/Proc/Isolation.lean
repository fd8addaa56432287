import RamOS.Proc.Clone
import RamOS.Proc.Lifecycle

/-!
# Isolation of parent and child

Applications are linked at `0x10000000`, inside the first gigabyte, whose directory
slots a fork shares between parent and child. The copies of the other pages lie in
the heap, which the kernel's pages below may show. This file shows that parent and
child are isolated from each other at and above `0x10000000` exactly when the parent
maps nothing from there to `0x40000000`, and below it none of the blocks that the
heap hands out for the copies.
-/

namespace RamOS.Proc

open ByteMemory
open Vmm (physicalAddress pagePresent pageSize)

def slotEntry (memory : Memory) (slot index : ℕ) : Option ℕ :=
  if slot &&& pagePresent = 0 then none
  else
    let entry := read32 memory (physicalAddress slot + 4 * index)
    if entry &&& pagePresent = 0 then none else some entry

def pageEntry (memory : Memory) (directory page : ℕ) : Option ℕ :=
  slotEntry memory (read32 memory (directory + 4 * (page / 1024))) (page % 1024)

/-- The byte that a process with this directory reads in a page. -/
def loadByte (memory : Memory) (directory page offset : ℕ) : Option UInt8 :=
  (pageEntry memory directory page).map fun entry => memory (physicalAddress entry + offset)

/-- The pages at and above the address at which applications are linked. -/
def applicationPages : Set ℕ := Set.Ico (0x10000000 / pageSize) (1024 * 1024)

/-- The child has its own copy of every application page, in a frame that the parent does not map,
and neither can change what the other reads in these pages. -/
structure Isolated (memory : Memory) (parent child : ℕ) : Prop where
  copied : ∀ page ∈ applicationPages, ∀ entry, pageEntry memory parent page = some entry →
    ∃ copied, pageEntry memory child page = some copied ∧
      copied &&& 0xFFF = entry &&& 0xFFF ∧
      (∀ offset < pageSize,
        memory (physicalAddress copied + offset) = memory (physicalAddress entry + offset)) ∧
      ∀ other < 1024 * 1024, ∀ otherEntry, pageEntry memory parent other = some otherEntry →
        physicalAddress otherEntry ≠ physicalAddress copied
  childWrites : ∀ page ∈ applicationPages, (pageEntry memory parent page).isSome →
    ∀ copied, pageEntry memory child page = some copied → ∀ offset < pageSize, ∀ value,
    ∀ other ∈ applicationPages, (pageEntry memory parent other).isSome →
    ∀ otherOffset < pageSize,
      loadByte (write8 memory (physicalAddress copied + offset) value) parent other otherOffset =
        loadByte memory parent other otherOffset
  parentWrites : ∀ page ∈ applicationPages,
    ∀ entry, pageEntry memory parent page = some entry → ∀ offset < pageSize, ∀ value,
    ∀ other ∈ applicationPages, (pageEntry memory parent other).isSome →
    ∀ otherOffset < pageSize,
      loadByte (write8 memory (physicalAddress entry + offset) value) child other otherOffset =
        loadByte memory child other otherOffset

/-- The directory maps nothing in the application pages that a fork shares. -/
def Unshared (memory : Memory) (directory : ℕ) : Prop :=
  ∀ page, 0x10000000 / pageSize ≤ page → page < 0x40000000 / pageSize →
    pageEntry memory directory page = none

/-- The parent maps none of the blocks for the copies below the applications. -/
def CopiesUnseen (memory : Memory) (directory : ℕ) (places : ℕ → ℕ → ℕ) : Prop :=
  ∀ page ∈ applicationPages, (pageEntry memory directory page).isSome →
    ∀ other < 0x10000000 / pageSize, ∀ entry, pageEntry memory directory other = some entry →
      physicalAddress entry ≠ places (page / 1024) (page % 1024)

/-- The block that the heap hands out when the loops of a fork come to a page. -/
def forkPlace (region : Heap.Region) (state : Vmm.State) (source : ℕ) : ℕ → ℕ → ℕ :=
  deepPlace region state.memory (allocBlocks region state).2 source

/-- A directory with its tables, and the pages from slot 64 on. -/
def parentBytes (memory : Memory) (directory : ℕ) : Set ℕ :=
  bytesFrom 64 memory directory ∪ {address | ∃ slot < 64,
    read32 memory (directory + 4 * slot) &&& pagePresent ≠ 0 ∧
    address ∈ range (physicalAddress (read32 memory (directory + 4 * slot))) pageSize}

variable {region : Heap.Region} {state : Vmm.State} {owned kept : Set ℕ} {memory original : Memory}
  {directory page : ℕ}

theorem allocBlocks_spec (inUse : InUse region state owned) {blocks : Allocation}
    (allocated : (allocBlocks region state).1 = some blocks) :
    blocks.process ∉ owned ∧
    ∃ ownedAfter, InUse region (allocBlocks region state).2 ownedAfter ∧ owned ⊆ ownedAfter ∧
      Set.EqOn (allocBlocks region state).2.memory state.memory owned := by
  rcases @InUse.kmalloc region state owned inUse processSize (by decide) (by decide) with
    failed | ⟨process, first, firstRun, firstGranted⟩
  · simp [allocBlocks, failed] at allocated
  have processNotNull : process ≠ 0 := firstGranted.positive.ne'
  have firstCleared := firstGranted.overwrite allowsStores_inUse
    (fill_eqOn first.memory process 0 processSize)
  rcases @InUse.kmalloc region _ _ firstCleared.inUse (4 * maxFdPerProcess) (by decide)
    (by decide) with failed | ⟨fdTable, second, secondRun, secondGranted⟩
  · simp [allocBlocks, firstRun, processNotNull, failed] at allocated
  have fdTableNotNull : fdTable ≠ 0 := secondGranted.positive.ne'
  have secondCleared := secondGranted.overwrite allowsStores_inUse
    (fill_eqOn second.memory fdTable 0 (4 * maxFdPerProcess))
  simp only [allocBlocks, firstRun, if_neg processNotNull, secondRun, if_neg fdTableNotNull,
    Option.some.injEq] at allocated ⊢
  subst allocated
  refine ⟨?_, _, secondCleared.inUse, Set.subset_union_left.trans Set.subset_union_left,
    (secondCleared.frame.mono Set.subset_union_left).trans firstCleared.frame⟩
  intro isOwned
  refine Set.disjoint_left.mp firstGranted.fresh isOwned ?_
  rw [mem_range]
  exact ⟨le_rfl, Nat.lt_add_of_pos_right (by decide)⟩

/-- A fork without a failed allocation clones the directory into memory that was not in use, and
leaves alone what was. -/
theorem forkOnMachine_spec {table : Table} {parent ticks : ℕ}
    (inUse : InUse region state owned) (parentOwned : parent ∈ owned)
    (bytesOwned : parentBytes state.memory (table.record parent).pageDirectory ⊆ owned)
    (succeeded : (forkOnMachine region state table parent ticks).succeeded = true) :
    ∃ child fresh, (forkOnMachine region state table parent ticks).child = some child ∧
      Disjoint owned fresh ∧
      Set.EqOn (forkOnMachine region state table parent ticks).state.memory state.memory owned ∧
      Cloned state.memory (forkOnMachine region state table parent ticks).state.memory fresh
        (forkPlace region state (table.record parent).pageDirectory)
        (table.record parent).pageDirectory
        ((forkOnMachine region state table parent ticks).table.record child).pageDirectory := by
  have allocated := @allocBlocks_spec region state owned inUse
  rw [forkPlace]
  cases allocation : allocBlocks region state with
  | mk blocks first =>
    cases blocks with
    | none => simp [forkOnMachine, allocation, processFork, allocProcess] at succeeded
    | some blocks =>
      rw [allocation] at allocated
      rcases allocated rfl with ⟨notOwned, ownedFirst, firstInUse, firstSubset, firstFrame⟩
      have different : parent ≠ blocks.process := by
        rintro rfl
        exact notOwned parentOwned
      cases clone : clonePageDirectoryDeep region first (table.record parent).pageDirectory with
      | mk directory run =>
        rcases run with ⟨second, fine⟩
        cases fine with
        | false =>
          simp only [forkOnMachine, allocation, clone] at succeeded
          split at succeeded <;> simp at succeeded
        | true =>
          have kept := Set.subset_union_left.trans bytesOwned
          rcases clonePageDirectoryDeep_spec firstInUse (kept.trans firstSubset)
            (firstFrame.mono kept)
            (fun slot lower upper => holdsSlot_bytesFrom (by omega) upper)
            (fun address inDirectory => Or.inl inDirectory) clone rfl with
            ⟨hasSource, hasDirectory, ownedSecond, _, secondSubset, secondFrame, isClone⟩
          rcases @processFork_created table parent directory ticks blocks hasSource
            hasDirectory different with ⟨created, _, _, childDirectory⟩
          cases forked : processFork table parent (some blocks) directory ticks with
          | mk child after =>
            rw [forked] at created childDirectory
            simp only at created childDirectory
            subst created
            simp only [forkOnMachine, allocation, clone, forked, Option.some.injEq]
            refine ⟨blocks.process, ownedSecond \ ownedFirst, rfl,
              Set.disjoint_sdiff_right.mono_left firstSubset,
              (secondFrame.mono firstSubset).trans firstFrame, ?_⟩
            rwa [childDirectory]

variable {fresh : Set ℕ} {places : ℕ → ℕ → ℕ} {parent child : ℕ}

theorem Cloned.pageEntry_shared (isClone : Cloned original memory fresh places parent child)
    (same : Set.EqOn memory original (parentBytes original parent)) (upper : page < 256 * 1024) :
    pageEntry memory child page = pageEntry memory parent page := by
  have slotInside : page / 1024 < 256 := by omega
  have inDirectory : range (parent + 4 * (page / 1024)) 4 ⊆ parentBytes original parent :=
    fun address inWord => Or.inl (Or.inl (Vmm.word_subset_frame (by omega) inWord))
  simp only [pageEntry]
  rw [isClone.shared _ slotInside, read32_congr (same.mono inDirectory)]

theorem slot_bounds (inside : page ∈ applicationPages) : 64 ≤ page / 1024 ∧ page / 1024 < 1024 := by
  have lower : 0x10000000 / pageSize ≤ page := inside.1
  have upper : page < 1024 * 1024 := inside.2
  simp only [pageSize] at lower
  omega

theorem slotEntry_eq_some {slot index entry : ℕ} :
    slotEntry memory slot index = some entry ↔
      slot &&& pagePresent ≠ 0 ∧ entry &&& pagePresent ≠ 0 ∧
        read32 memory (physicalAddress slot + 4 * index) = entry := by
  simp only [slotEntry]
  split
  next absent => simp [absent]
  next present =>
    split
    next missing =>
      simp only [reduceCtorEq, false_iff]
      rintro ⟨_, mapped, rfl⟩
      contradiction
    next mapped =>
      simp only [Option.some.injEq]
      constructor
      · rintro rfl
        exact ⟨present, mapped, rfl⟩
      · exact fun all => all.2.2

theorem pageEntry_eq_some_iff {entry : ℕ} :
    pageEntry memory directory page = some entry ↔
      read32 memory (directory + 4 * (page / 1024)) &&& pagePresent ≠ 0 ∧
      entry &&& pagePresent ≠ 0 ∧
      read32 memory (physicalAddress (read32 memory (directory + 4 * (page / 1024))) +
        4 * (page % 1024)) = entry := by
  rw [pageEntry, slotEntry_eq_some]

theorem table_subset_parentBytes {slot : ℕ} (inside : slot < 1024)
    (present : read32 memory (parent + 4 * slot) &&& pagePresent ≠ 0) :
    range (physicalAddress (read32 memory (parent + 4 * slot))) pageSize ⊆
      parentBytes memory parent := by
  by_cases low : slot < 64
  · exact fun address inTable => Or.inr ⟨slot, low, present, inTable⟩
  · exact ((holdsSlot_bytesFrom (not_lt.mp low) inside).table present).trans
      Set.subset_union_left

theorem pageEntry_congr {updated : Memory}
    (same : Set.EqOn updated memory (parentBytes memory parent)) (inside : page < 1024 * 1024) :
    pageEntry updated parent page = pageEntry memory parent page := by
  have slotInside : page / 1024 < 1024 := by omega
  have inDirectory : range (parent + 4 * (page / 1024)) 4 ⊆ parentBytes memory parent :=
    fun address inWord => Or.inl (Or.inl (Vmm.word_subset_frame slotInside inWord))
  simp only [pageEntry, slotEntry]
  rw [read32_congr (same.mono inDirectory)]
  split
  · rfl
  next present =>
    have inTable := (Vmm.word_subset_frame (Nat.mod_lt page (by decide))).trans
      (table_subset_parentBytes slotInside present)
    rw [read32_congr (same.mono inTable)]

theorem pageEntry_subset {entry : ℕ} (inside : page ∈ applicationPages)
    (mapped : pageEntry memory parent page = some entry) :
    range (physicalAddress entry) pageSize ⊆ parentBytes memory parent := by
  rcases slot_bounds inside with ⟨slotLower, slotUpper⟩
  have held := @holdsSlot_bytesFrom memory (page / 1024) 64 parent slotLower slotUpper
  rcases pageEntry_eq_some_iff.mp mapped with ⟨present, pageIsPresent, rfl⟩
  exact (held.page present (page % 1024) (Nat.mod_lt _ (by decide)) pageIsPresent).trans
    Set.subset_union_left

theorem present_of_flags {left right : ℕ} (flags : left &&& 0xFFF = right &&& 0xFFF) :
    left &&& pagePresent = right &&& pagePresent := by
  rw [and_0xFFF, and_0xFFF, pageSize] at flags
  rw [Vmm.and_pagePresent, Vmm.and_pagePresent]
  omega

theorem Cloned.pageEntry_copied (isClone : Cloned original memory fresh places parent child)
    (lower : 256 * 1024 ≤ page) (upper : page < 1024 * 1024) {entry : ℕ}
    (mapped : pageEntry original parent page = some entry) :
    ∃ copied, CopiedPage original memory fresh (places (page / 1024) (page % 1024)) entry copied ∧
      ∀ updated, Set.EqOn updated memory fresh → pageEntry updated child page = some copied := by
  have isCopied := isClone.copied (page / 1024) (by omega) (by omega)
  have inDirectory := (Vmm.word_subset_frame (by omega : page / 1024 < 1024)).trans
    isClone.directory_fresh
  have indexInside : page % 1024 < 1024 := Nat.mod_lt _ (by decide)
  rcases pageEntry_eq_some_iff.mp mapped with ⟨present, pageIsPresent, isEntry⟩
  rw [CopiedSlot, if_neg present] at isCopied
  rcases isCopied with ⟨slotFlags, tableFresh, entries⟩
  have copiedEntry := entries (page % 1024) indexInside
  rw [isEntry, CopiedEntry, if_neg pageIsPresent] at copiedEntry
  refine ⟨_, copiedEntry, ?_⟩
  intro updated agree
  rw [pageEntry_eq_some_iff, read32_congr (agree.mono inDirectory),
    read32_congr (agree.mono ((Vmm.word_subset_frame indexInside).trans tableFresh)),
    present_of_flags slotFlags, present_of_flags copiedEntry.flags]
  exact ⟨present, pageIsPresent, rfl⟩

theorem loadByte_eq {entry offset : ℕ} (mapped : pageEntry memory directory page = some entry) :
    loadByte memory directory page offset = some (memory (physicalAddress entry + offset)) := by
  rw [loadByte, mapped, Option.map_some]

section Isolation

variable (isClone : Cloned original memory fresh places parent child)
  (same : Set.EqOn memory original (parentBytes original parent))

include isClone same

theorem Cloned.unshared_of_isolated (isolated : Isolated memory parent child) :
    Unshared original parent := by
  intro page lower upper
  simp only [pageSize] at lower upper
  have inside : page ∈ applicationPages := ⟨by simpa only [pageSize] using lower, by omega⟩
  by_contra mapped
  rcases Option.ne_none_iff_exists'.mp mapped with ⟨entry, isEntry⟩
  rw [← pageEntry_congr same inside.2] at isEntry
  rcases isolated.copied page inside entry isEntry with ⟨copied, isCopied, _, _, different⟩
  rw [isClone.pageEntry_shared same (by omega), isEntry, Option.some.injEq] at isCopied
  exact different page inside.2 entry isEntry (by rw [isCopied])

omit isClone same in
theorem Unshared.high {entry : ℕ} (unshared : Unshared original parent)
    (inside : page ∈ applicationPages) (mapped : pageEntry original parent page = some entry) :
    256 * 1024 ≤ page := by
  by_contra below
  have none := unshared page inside.1 (by simp only [pageSize]; omega)
  rw [mapped] at none
  cases none

theorem Cloned.unseen_of_isolated (isolated : Isolated memory parent child) :
    CopiesUnseen original parent places := by
  intro page inside mapped other low entry isEntry
  rcases Option.isSome_iff_exists.mp mapped with ⟨word, isWord⟩
  have high := (isClone.unshared_of_isolated same isolated).high inside isWord
  rcases isClone.pageEntry_copied high inside.2 isWord with ⟨copy, isCopy, mapsTo⟩
  have otherInside : other < 1024 * 1024 := low.trans (by decide)
  rw [← pageEntry_congr same inside.2] at isWord
  rw [← pageEntry_congr same otherInside] at isEntry
  rcases isolated.copied page inside word isWord with ⟨copied, isCopied, _, _, different⟩
  rw [mapsTo memory fun _ _ => rfl, Option.some.injEq] at isCopied
  rw [← isCopy.address, isCopied]
  exact different other otherInside entry isEntry

theorem Cloned.isolated (apart : Disjoint (parentBytes original parent) fresh)
    (unshared : Unshared original parent) (unseen : CopiesUnseen original parent places) :
    Isolated memory parent child := by
  have inFrame {address offset : ℕ} (below : offset < pageSize) :
      address + offset ∈ range address pageSize :=
    ⟨Nat.le_add_right _ _, Nat.add_lt_add_left below _⟩
  constructor
  · intro page inside entry mapped
    rw [pageEntry_congr same inside.2] at mapped
    rcases isClone.pageEntry_copied (unshared.high inside mapped) inside.2 mapped with
      ⟨copied, isCopy, mapsTo⟩
    refine ⟨copied, mapsTo memory fun _ _ => rfl, isCopy.flags, ?_, ?_⟩
    · intro offset below
      rw [isCopy.contents offset below,
        same (pageEntry_subset inside mapped (inFrame below))]
    · intro other otherInside otherEntry otherMapped equal
      rw [pageEntry_congr same otherInside] at otherMapped
      by_cases low : other < 0x10000000 / pageSize
      · rw [isCopy.address] at equal
        exact unseen page inside (by rw [mapped]; rfl) other low otherEntry otherMapped equal
      · have inParent := pageEntry_subset ⟨not_lt.mp low, otherInside⟩ otherMapped
          (@inFrame _ 0 (by decide))
        have inChild := isCopy.fresh (@inFrame _ 0 (by decide))
        rw [equal] at inParent
        exact Set.disjoint_left.mp apart inParent inChild
  · intro page inside mapped copied isCopied offset below value other otherInside otherMapped
      otherOffset otherBelow
    rw [pageEntry_congr same inside.2] at mapped
    rcases Option.isSome_iff_exists.mp mapped with ⟨entry, isEntry⟩
    rcases isClone.pageEntry_copied (unshared.high inside isEntry) inside.2 isEntry with
      ⟨copy, isCopy, mapsTo⟩
    rw [mapsTo memory fun _ _ => rfl, Option.some.injEq] at isCopied
    subst isCopied
    rcases Option.isSome_iff_exists.mp otherMapped with ⟨otherEntry, isOther⟩
    have unchanged : Set.EqOn (write8 memory (physicalAddress copy + offset) value) memory
        (parentBytes original parent) :=
      write8_eqOn (Set.disjoint_right.mp apart (isCopy.fresh (inFrame below)))
    have otherOriginal := isOther
    rw [pageEntry_congr same otherInside.2] at otherOriginal
    have otherAfter := pageEntry_congr (unchanged.trans same) otherInside.2
    rw [otherOriginal] at otherAfter
    rw [loadByte_eq otherAfter, loadByte_eq isOther,
      unchanged (pageEntry_subset otherInside otherOriginal (inFrame otherBelow))]
  · intro page inside entry mapped offset below value other otherInside otherMapped
      otherOffset otherBelow
    rw [pageEntry_congr same inside.2] at mapped
    rw [pageEntry_congr same otherInside.2] at otherMapped
    rcases Option.isSome_iff_exists.mp otherMapped with ⟨otherEntry, isOther⟩
    rcases isClone.pageEntry_copied (unshared.high otherInside isOther) otherInside.2 isOther with
      ⟨copy, isCopy, mapsTo⟩
    have unchanged : Set.EqOn (write8 memory (physicalAddress entry + offset) value) memory
        fresh :=
      write8_eqOn (Set.disjoint_left.mp apart (pageEntry_subset inside mapped (inFrame below)))
    rw [loadByte_eq (mapsTo _ unchanged), loadByte_eq (mapsTo memory fun _ _ => rfl),
      unchanged (isCopy.fresh (inFrame otherBelow))]

end Isolation

/-- After a fork without a failed allocation, parent and child are isolated at and above
`0x10000000` exactly when the parent maps nothing from there up to `0x40000000`, and below none of
the blocks that the heap hands out for the copies. -/
theorem fork_isolated_iff {table : Table} {ticks : ℕ} {forked : Forked}
    (inUse : InUse region state
      (insert parent (parentBytes state.memory (table.record parent).pageDirectory)))
    (run : forkOnMachine region state table parent ticks = forked)
    (succeeded : forked.succeeded = true) :
    ∃ child, forked.child = some child ∧
      (Isolated forked.state.memory (table.record parent).pageDirectory
          (forked.table.record child).pageDirectory ↔
        Unshared state.memory (table.record parent).pageDirectory ∧
          CopiesUnseen state.memory (table.record parent).pageDirectory
            (forkPlace region state (table.record parent).pageDirectory)) := by
  subst run
  rcases forkOnMachine_spec inUse (Set.mem_insert _ _) (Set.subset_insert _ _) succeeded with
    ⟨child, fresh, created, apart, frame, isClone⟩
  have same := frame.mono (Set.subset_insert _ _)
  refine ⟨child, created, fun isolated => ?_, fun ⟨unshared, unseen⟩ => ?_⟩
  · exact ⟨isClone.unshared_of_isolated same isolated, isClone.unseen_of_isolated same isolated⟩
  · exact isClone.isolated same (apart.mono_left (Set.subset_insert _ _)) unshared unseen

/-- A directory with one page, the first of a slot. -/
def linkedMemory (slot : ℕ) : Memory :=
  write32 (write32 (fun _ => 0) (0x401000 + 4 * slot) 0x402007) 0x402000 0x403007

def lowHeap : Heap.Region := ⟨0x200000, by decide, by decide⟩

/-- The first frames hold the kernel's directory, this one, its table and its page. -/
def linkedState (slot : ℕ) : Vmm.State where
  memory := Heap.heapInit lowHeap (linkedMemory slot)
  frameBitmap := fun word => if word < 32 then 0xFFFFFFFF else if word = 32 then 0xF else 0
  nextFreeFrame := 1028
  currentPageDirectory := 0x401000
  kernelPageDirectory := 0x400000

def linkedTable : Table where
  record := fun _ => { clearedProcess 0 with pageDirectory := 0x401000 }
  processList := [0x100000]
  currentProcess := some 0x100000
  nextPid := 2

section Linked

variable {linked slot index frame : ℕ}

theorem linkedState_handedOut : Vmm.HandedOut 1028 (linkedState linked) := by
  refine ⟨fun _ => rfl, fun frame _ => ?_⟩
  simp only [Vmm.frameUsed, Bitmap.test, linkedState]
  split
  next low =>
    rw [Bitmap.testBit_full, eq_comm, decide_eq_true_eq]
    omega
  next high =>
    split
    next word =>
      rw [show (0xF : ℕ) = 2 ^ 4 - 1 from rfl, Nat.testBit_two_pow_sub_one, decide_eq_decide]
      omega
    next otherWord =>
      rw [Nat.zero_testBit, eq_comm, decide_eq_false_iff_not]
      omega

theorem read32_linkedState {address : ℕ} (above : 0x300000 ≤ address) :
    read32 (linkedState linked).memory address = read32 (linkedMemory linked) address := by
  apply read32_congr
  apply (Heap.putFreeBlock_eqOn (linkedMemory linked) lowHeap.start _ 0).mono
  intro location inWord inHeader
  simp only [mem_range, lowHeap, Heap.headerSize] at inWord inHeader
  omega

theorem read32_linkedState_slot (inside : slot < 1024) :
    read32 (linkedState linked).memory (0x401000 + 4 * slot) =
      if slot = linked then 0x402007 else 0 := by
  rw [read32_linkedState (by omega), linkedMemory, read32_write32_of_disjoint (by omega)]
  split
  next same =>
    rw [same, read32_write32_same]
    rfl
  next different =>
    rw [read32_write32_of_disjoint (by omega)]
    rfl

variable (below : linked < 1024)

include below

theorem read32_linkedState_entry (inside : index < 1024) :
    read32 (linkedState linked).memory (0x402000 + 4 * index) =
      if index = 0 then 0x403007 else 0 := by
  rw [read32_linkedState (by omega), linkedMemory]
  split
  next same =>
    rw [same, read32_write32_same]
    rfl
  next different =>
    rw [read32_write32_of_disjoint (by omega), read32_write32_of_disjoint (by omega)]
    rfl

theorem pageEntry_linkedState (inside : page < 1024 * 1024) :
    pageEntry (linkedState linked).memory 0x401000 page =
      if page = linked * 1024 then some 0x403007 else none := by
  have slotInside : page / 1024 < 1024 := by omega
  have place : page = linked * 1024 ↔ page / 1024 = linked ∧ page % 1024 = 0 := by omega
  rw [pageEntry, read32_linkedState_slot slotInside]
  by_cases here : page / 1024 = linked
  · rw [if_pos here, slotEntry, if_neg (by decide),
      show physicalAddress 0x402007 = 0x402000 from rfl,
      read32_linkedState_entry below (Nat.mod_lt _ (by decide))]
    by_cases first : page % 1024 = 0
    · simp [first, here, place, pagePresent]
    · simp [first, place]
  · simp [here, place, slotEntry]

theorem bytesFrom_linkedState {lower : ℕ} :
    bytesFrom lower (linkedState linked).memory 0x401000 ⊆ range 0x401000 0x3000 := by
  rintro address (inDirectory |
    ⟨slot, _, upper, present, inTable | ⟨index, inside, mapped, inPage⟩⟩)
  · simp only [mem_range, pageSize] at inDirectory ⊢
    omega
  · rw [read32_linkedState_slot upper] at present inTable
    split at present
    next same =>
      rw [if_pos same, show physicalAddress 0x402007 = 0x402000 from rfl] at inTable
      simp only [mem_range, pageSize] at inTable ⊢
      omega
    next => simp at present
  · rw [read32_linkedState_slot upper] at present mapped inPage
    split at present
    next same =>
      rw [if_pos same, show physicalAddress 0x402007 = 0x402000 from rfl,
        read32_linkedState_entry below inside] at mapped inPage
      split at mapped
      next first =>
        rw [if_pos first, show physicalAddress 0x403007 = 0x403000 from rfl] at inPage
        simp only [mem_range, pageSize] at inPage ⊢
        omega
      next => simp at mapped
    next => simp at present

omit below in
theorem kernelBytes_linkedState {lower : ℕ} :
    bytesFrom lower (linkedState linked).memory 0x400000 ⊆ range 0x400000 0x1000 := by
  rintro address (inDirectory | ⟨slot, _, upper, present, _⟩)
  · exact inDirectory
  · rw [read32_linkedState (by omega), linkedMemory, read32_write32_of_disjoint (by omega),
      read32_write32_of_disjoint (by omega)] at present
    exact absurd (show (0 : ℕ) &&& pagePresent = 0 from rfl) present

omit below in
theorem linkedState_invariant : Heap.Invariant lowHeap ⟨(linkedState linked).memory, ∅⟩
    [⟨Heap.heapSize - Heap.headerSize, true⟩] :=
  Heap.invariant_heapInit lowHeap (linkedMemory linked)

omit below in
theorem linkedState_free (inside : frame < Vmm.maxFrames)
    (free : Vmm.frameUsed (linkedState linked) frame = false) : 1028 ≤ frame := by
  rw [linkedState_handedOut.used frame inside, decide_eq_false_iff_not] at free
  exact not_lt.mp free

omit below in
theorem linkedState_inUse :
    InUse lowHeap (linkedState linked) (insert 0x100000 (range 0x400000 0x4000)) := by
  refine ⟨⟨∅, _, linkedState_invariant, ?_⟩, fun frame inside unused => ?_,
    fun frame inside unused => ?_⟩
  · refine Disjoint.mono_right (managed_subset_heap (@linkedState_invariant linked)) ?_
    rw [Set.disjoint_left]
    intro address isOwned inHeap
    simp only [lowHeap, Heap.heapSize, mem_range] at inHeap
    rw [Set.mem_insert_iff, mem_range] at isOwned
    omega
  · have behind := linkedState_free inside unused
    rw [Set.disjoint_left]
    intro address isOwned inFrame
    rw [Set.mem_insert_iff, mem_range] at isOwned
    simp only [mem_range, pageSize] at inFrame
    omega
  · have behind := linkedState_free inside unused
    rw [Set.disjoint_left]
    intro address inHeap inFrame
    simp only [lowHeap, Heap.heapSize, mem_range] at inHeap
    simp only [mem_range, pageSize] at inFrame
    omega

end Linked

theorem frames_linkedState {base length : ℕ} (above : 0x400000 ≤ base)
    (below : base + length ≤ 0x404000) :
    range base length ⊆ insert 0x100000 (range 0x400000 0x4000) :=
  (range_subset_range above below).trans (Set.subset_insert _ _)

theorem parentBytes_linkedState :
    parentBytes (linkedState 64).memory 0x401000 ⊆
      insert 0x100000 (range 0x400000 0x4000) := by
  rintro address (inPages | ⟨slot, low, present, _⟩)
  · exact frames_linkedState (by decide) (by decide) (bytesFrom_linkedState (by decide) inPages)
  · rw [read32_linkedState_slot (by omega), if_neg (by omega)] at present
    exact absurd rfl present

theorem linkedState_parentInUse : InUse lowHeap (linkedState 64)
    (insert 0x100000 (parentBytes (linkedState 64).memory 0x401000)) :=
  linkedState_inUse.mono (Set.insert_subset (Set.mem_insert _ _) parentBytes_linkedState)

theorem linkedState_succeeded :
    (forkOnMachine lowHeap (linkedState 64) linkedTable 0x100000 0).succeeded = true := by
  have allocation : (allocBlocks lowHeap (linkedState 64)).1 = some ⟨0x200010, 0x200190⟩ := by
    decide +kernel
  have hasFrame : (Vmm.vmmCreatePageDirectory (allocBlocks lowHeap (linkedState 64)).2).1 ≠ 0 := by
    decide +kernel
  rcases allocBlocks_spec linkedState_inUse allocation with ⟨_, owned, inUse, subset, frame⟩
  have held := (@bytesFrom_linkedState 64 (by decide) 64).trans
    (frames_linkedState (by decide) (by decide))
  have absent (slot : ℕ) (lower : 256 ≤ slot) (upper : slot < 1024) :
      read32 (linkedState 64).memory (0x401000 + 4 * slot) &&& pagePresent = 0 := by
    rw [read32_linkedState_slot upper, if_neg (by omega)]
    rfl
  have cloned := clonePageDirectoryDeep_succeeded inUse (held.trans subset) (frame.mono held)
    (fun slot lower upper => holdsSlot_bytesFrom (by omega) upper)
    (fun _ inDirectory => Or.inl inDirectory) absent (by decide) hasFrame
  rw [forkOnMachine, show (linkedTable.record 0x100000).pageDirectory = 0x401000 from rfl]
  generalize allocBlocks lowHeap (linkedState 64) = first at allocation cloned ⊢
  rcases first with ⟨blocks, first⟩
  cases allocation
  dsimp only at cloned ⊢
  generalize clonePageDirectoryDeep lowHeap first 0x401000 = clone at cloned ⊢
  rcases clone with ⟨directory, second, fine⟩
  rcases @processFork_created linkedTable 0x100000 directory 0 ⟨0x200010, 0x200190⟩ (by decide)
    cloned.1 (by decide) with ⟨created, _⟩
  dsimp only
  generalize processFork linkedTable 0x100000 (some ⟨0x200010, 0x200190⟩) directory 0 = outcome
    at created ⊢
  rcases outcome with ⟨child, after⟩
  cases created
  exact cloned.2

theorem fork_isolated_iff_linked :
    ∃ child, (forkOnMachine lowHeap (linkedState 64) linkedTable 0x100000 0).child = some child ∧
      (Isolated (forkOnMachine lowHeap (linkedState 64) linkedTable 0x100000 0).state.memory
          0x401000
          ((forkOnMachine lowHeap (linkedState 64) linkedTable 0x100000 0).table.record
            child).pageDirectory ↔
        Unshared (linkedState 64).memory 0x401000 ∧
          CopiesUnseen (linkedState 64).memory 0x401000
            (forkPlace lowHeap (linkedState 64) 0x401000)) :=
  fork_isolated_iff linkedState_parentInUse rfl linkedState_succeeded

/-- A process whose only page is where applications are linked is forked, and its child shares
this page. -/
theorem fork_shares_linked_page :
    (forkOnMachine lowHeap (linkedState 64) linkedTable 0x100000 0).succeeded = true ∧
      ∃ child,
        (forkOnMachine lowHeap (linkedState 64) linkedTable 0x100000 0).child = some child ∧
        ¬Isolated (forkOnMachine lowHeap (linkedState 64) linkedTable 0x100000 0).state.memory
          0x401000
          ((forkOnMachine lowHeap (linkedState 64) linkedTable 0x100000 0).table.record
            child).pageDirectory := by
  rcases forkOnMachine_spec linkedState_parentInUse (Set.mem_insert _ _) (Set.subset_insert _ _)
    linkedState_succeeded with ⟨child, fresh, created, _, frame, isClone⟩
  refine ⟨linkedState_succeeded, child, created, fun isolated => ?_⟩
  have none := isClone.unshared_of_isolated (frame.mono (Set.subset_insert _ _)) isolated
    (0x10000000 / pageSize) le_rfl (by decide)
  have mapped := @pageEntry_linkedState (0x10000000 / pageSize) 64 (by decide) (by decide)
  rw [if_pos (by decide)] at mapped
  rw [show (linkedTable.record 0x100000).pageDirectory = 0x401000 from rfl, mapped] at none
  cases none

end RamOS.Proc
