import RamOS.Proc.ElfImage
import RamOS.Proc.StackMapping

/-!
# The address space of a new program

A program that `process_exec` starts in a process should find its stack in the directory
of this process, and no other process should see a difference. Since the stack is mapped
through the current directory, this depends on which directory is current. This file
gives the exact condition.
-/

namespace RamOS.Proc

open ByteMemory
open Vmm (physicalAddress pagePresent pageSize)

/-- The physical address of a virtual one, in a directory that may be null. -/
def translate (memory : Memory) (directory address : ℕ) : Option ℕ :=
  if directory = 0 then none
  else (pageEntry memory directory (address / pageSize)).map fun entry =>
    physicalAddress entry + address % pageSize

def stackAddresses : Set ℕ := Set.Ico (userStackTop - userStackSize) userStackTop

def tableBytes (memory : Memory) (directory : ℕ) : Set ℕ :=
  fun address => ∃ slot < 1024, address ∈ slotBytes memory directory slot

/-- The stack is mapped in the directory of the process, and those of all others translate as
before. -/
structure Confined (table : Table) (memory : Memory) (executed : Executed) (process : ℕ) :
    Prop where
  stack : ∀ address ∈ stackAddresses,
    (translate executed.state.memory (executed.table.record process).pageDirectory address).isSome
  others : ∀ other ∈ table.processList, other ≠ process → ∀ address < 2 ^ 32,
    translate executed.state.memory (executed.table.record other).pageDirectory address =
      translate memory (table.record other).pageDirectory address

/-- The current directory is that of the process, unless its stack is mapped already, and of no
other process; and the loader has spared the page tables of the others. -/
structure KeepsToTarget (table : Table) (state : Vmm.State) (loaded : Memory) (process : ℕ) :
    Prop where
  target : state.currentPageDirectory ≠ 0 ∧
      (table.record process).pageDirectory = state.currentPageDirectory ∨
    ∀ address ∈ stackAddresses,
      (translate loaded (table.record process).pageDirectory address).isSome
  alone : ∀ other ∈ table.processList, other ≠ process →
    (table.record other).pageDirectory = state.currentPageDirectory →
    state.currentPageDirectory = 0
  loads : ∀ other ∈ table.processList, other ≠ process → ∀ address < 2 ^ 32,
    translate loaded (table.record other).pageDirectory address =
      translate state.memory (table.record other).pageDirectory address

def stackMapped (region : Heap.Region) (state : Vmm.State) (loaded : Memory) : Vmm.State :=
  (mapStack region ({ state with memory := loaded }, true)).1

/-- After loading, the allocators spare page directories and tables, and the current directory
shares neither itself nor the table of the stack with that of a process, unless it is the same.
What was mapped at the stack's address is in use too, and the argument pointers do no harm. -/
structure ExecReady (region : Heap.Region) (table : Table) (state : Vmm.State) (process : ℕ)
    (loaded : Memory) (argv : Option (List Bytes)) (owned : Set ℕ) : Prop where
  inUse : InUse region { state with memory := loaded } owned
  held : ∀ other ∈ process :: table.processList,
    tableBytes loaded (table.record other).pageDirectory ⊆ owned
  currentHeld : slotBytes loaded state.currentPageDirectory stackSlot ⊆ owned
  tableApart : TableApart loaded state.currentPageDirectory stackSlot
  unshared : ∀ other ∈ process :: table.processList,
    (table.record other).pageDirectory ≠ state.currentPageDirectory →
    Disjoint (slotBytes loaded state.currentPageDirectory stackSlot)
      (tableBytes loaded (table.record other).pageDirectory)
  stackHeld : state.currentPageDirectory ≠ 0 → ∀ entry,
    pageEntry state.memory state.currentPageDirectory (stackPage 0) = some entry →
    range (physicalAddress entry) pageSize ⊆ owned
  arguments : ∀ list ∈ argv,
    ArgumentsFit region (stackMapped region state loaded)
      (owned ∪ slotBytes (stackMapped region state loaded).memory state.currentPageDirectory
        stackSlot) list

variable {region : Heap.Region} {table : Table} {state : Vmm.State} {owned : Set ℕ}
  {memory updated loaded : Memory} {process entry directory address : ℕ}
  {argv : Option (List Bytes)} {executed : Executed}

theorem translate_eq (notNull : directory ≠ 0) :
    translate memory directory address =
      (pageEntry memory directory (address / pageSize)).map fun entry =>
        physicalAddress entry + address % pageSize :=
  if_neg notNull

theorem isSome_translate (notNull : directory ≠ 0) :
    (translate memory directory address).isSome ↔
      (pageEntry memory directory (address / pageSize)).isSome := by
  rw [translate_eq notNull, Option.isSome_map]

theorem translate_congr (word : address < 2 ^ 32)
    (same : Set.EqOn updated memory (tableBytes memory directory)) :
    translate updated directory address = translate memory directory address := by
  by_cases null : directory = 0
  · rw [translate, translate, if_pos null, if_pos null]
  have inside : address / pageSize / 1024 < 1024 := by
    simp only [pageSize]
    omega
  have subset : slotBytes memory directory (address / pageSize / 1024) ⊆
      tableBytes memory directory := fun _ inSlot => ⟨_, inside, inSlot⟩
  rw [translate_eq null, translate_eq null,
    pageEntry_congr_of_slotBytes inside null (same.mono subset)]

theorem stackAddresses_page (inside : address ∈ stackAddresses) :
    ∃ index < userStackSize / pageSize, address / pageSize = stackPage index := by
  simp only [stackAddresses, Set.mem_Ico, userStackTop, userStackSize] at inside
  refine ⟨address / pageSize - stackPage 0, ?_, ?_⟩ <;>
    simp only [stackPage, userStackTop, userStackSize, pageSize] <;> omega

theorem processExec_pageDirectory (other : ℕ) :
    ((processExec table process entry argv).2.record other).pageDirectory =
      (table.record other).pageDirectory := by
  simp only [processExec]
  split
  · rfl
  · simp only [Table.modify, Function.update_apply]
    split
    next same => rw [same]
    next => rfl

/-- What a run of `process_exec` that has succeeded does to the directories. -/
structure Execution (state : Vmm.State) (table : Table) (loaded : Memory) (owned : Set ℕ)
    (executed : Executed) : Prop where
  directories : ∀ other,
    (executed.table.record other).pageDirectory = (table.record other).pageDirectory
  apart : ∀ directory, tableBytes loaded directory ⊆ owned →
    Disjoint (slotBytes loaded state.currentPageDirectory stackSlot)
      (tableBytes loaded directory) →
    ∀ address < 2 ^ 32,
      translate executed.state.memory directory address = translate loaded directory address
  current : state.currentPageDirectory ≠ 0 → ∀ index < userStackSize / pageSize, ∃ entry,
    pageEntry executed.state.memory state.currentPageDirectory (stackPage index) = some entry ∧
      Disjoint owned (range (physicalAddress entry) pageSize)

theorem execOnMachine_of_loaded (loads : entry ≠ 0) :
    (execOnMachine region state table process entry loaded argv).result = 0 ∧
      (execOnMachine region state table process entry loaded argv).succeeded =
        (mapStack region ({ state with memory := loaded }, true)).2 := by
  cases argv <;> simp [execOnMachine, processExec, loads]

theorem execOnMachine_cases (run : execOnMachine region state table process entry loaded argv =
      executed)
    (returned : executed.result = 0) :
    executed.succeeded = (mapStack region ({ state with memory := loaded }, true)).2 ∧
      executed.table = (processExec table process entry argv).2 ∧
      (argv = none ∧ executed.state = stackMapped region state loaded ∨
        ∃ list, argv = some list ∧
          executed.state = storeArguments region (stackMapped region state loaded) list) := by
  have loads : entry ≠ 0 := by
    rintro rfl
    subst run
    simp [execOnMachine, processExec] at returned
  subst run
  cases argv with
  | none => simp [execOnMachine, loads, stackMapped]
  | some list => simp [execOnMachine, loads, stackMapped]

theorem ExecReady.execution (ready : ExecReady region table state process loaded argv owned)
    (run : execOnMachine region state table process entry loaded argv = executed)
    (returned : executed.result = 0) (succeeded : executed.succeeded = true) :
    Execution state table loaded owned executed := by
  rcases execOnMachine_cases run returned with ⟨fine, isTable, outcome⟩
  have mapped : mapStack region ({ state with memory := loaded }, true) =
      (stackMapped region state loaded, true) := by
    rw [succeeded] at fine
    exact Prod.ext rfl fine.symm
  rcases stackRun_fold ready.inUse ready.currentHeld ready.tableApart le_rfl mapped with
    ⟨taken, isRun⟩
  have slotTaken := isRun.remaps.owned_held ready.currentHeld
  have directory : (stackMapped region state loaded).currentPageDirectory =
      state.currentPageDirectory := isRun.remaps.directory
  rw [directory] at slotTaken
  have kept : Set.EqOn executed.state.memory (stackMapped region state loaded).memory
      (owned ∪ slotBytes (stackMapped region state loaded).memory state.currentPageDirectory
        stackSlot) := by
    rcases outcome with ⟨_, isState⟩ | ⟨list, isVector, isState⟩
    · rw [isState]
      exact fun _ _ => rfl
    · rw [isState]
      refine storeArguments_eqOn ?_ (ready.arguments list isVector)
      exact isRun.remaps.spreads.safe.mono (Set.union_subset isRun.remaps.spreads.subset slotTaken)
  refine ⟨?_, ?_, ?_⟩
  · intro other
    rw [isTable, processExec_pageDirectory]
  · intro directory held apart address word
    refine translate_congr word fun location inTables => ?_
    have isOwned := held inTables
    rw [kept (Or.inl isOwned)]
    exact isRun.remaps.spreads.frame
      ⟨isOwned, fun inSlot => Set.disjoint_left.mp apart inSlot inTables⟩
  · intro hasDirectory index inside
    rcases isRun.mapped hasDirectory index inside with ⟨entry, isEntry, fresh⟩
    refine ⟨entry, ?_, fresh⟩
    have sameSlot := kept.mono Set.subset_union_right
    rw [← stackPage_slot inside] at sameSlot
    rw [pageEntry_congr_of_slotBytes ?_ hasDirectory sameSlot]
    · exact isEntry
    · rw [stackPage_slot inside]
      decide

theorem Execution.translate_changed (execution : Execution state table loaded owned executed)
    (ready : ExecReady region table state process loaded argv owned)
    (hasDirectory : state.currentPageDirectory ≠ 0) :
    translate executed.state.memory state.currentPageDirectory (userStackTop - userStackSize) ≠
      translate state.memory state.currentPageDirectory (userStackTop - userStackSize) := by
  rcases execution.current hasDirectory 0 (by decide) with ⟨entry, isEntry, fresh⟩
  rw [translate_eq hasDirectory, translate_eq hasDirectory]
  change (pageEntry _ _ (stackPage 0)).map _ ≠ (pageEntry _ _ (stackPage 0)).map _
  rw [isEntry]
  intro same
  rcases Option.map_eq_some_iff.mp same.symm with ⟨old, wasEntry, samePlace⟩
  have place : physicalAddress old = physicalAddress entry := Nat.add_right_cancel samePlace
  have held := ready.stackHeld hasDirectory old wasEntry
  rw [place] at held
  have first : physicalAddress entry ∈ range (physicalAddress entry) pageSize := by
    rw [mem_range]
    exact ⟨le_rfl, Nat.lt_add_of_pos_right (by decide)⟩
  exact Set.disjoint_left.mp fresh (held first) first

theorem Execution.translate_unchanged (execution : Execution state table loaded owned executed)
    (ready : ExecReady region table state process loaded argv owned) {other : ℕ}
    (listed : other ∈ process :: table.processList)
    (spared : (table.record other).pageDirectory = state.currentPageDirectory →
      state.currentPageDirectory = 0)
    (word : address < 2 ^ 32) :
    translate executed.state.memory (table.record other).pageDirectory address =
      translate loaded (table.record other).pageDirectory address := by
  by_cases same : (table.record other).pageDirectory = state.currentPageDirectory
  · have null : (table.record other).pageDirectory = 0 := same.trans (spared same)
    rw [translate, translate, if_pos null, if_pos null]
  · exact execution.apart _ (ready.held other listed) (ready.unshared other listed same) _ word

theorem stackAddresses_lt (inside : address ∈ stackAddresses) : address < 2 ^ 32 :=
  inside.2.trans (by decide)

theorem Execution.stack_iff (execution : Execution state table loaded owned executed)
    (ready : ExecReady region table state process loaded argv owned) :
    (∀ address ∈ stackAddresses,
        (translate executed.state.memory (table.record process).pageDirectory address).isSome) ↔
      state.currentPageDirectory ≠ 0 ∧
          (table.record process).pageDirectory = state.currentPageDirectory ∨
        ∀ address ∈ stackAddresses,
          (translate loaded (table.record process).pageDirectory address).isSome := by
  by_cases own : state.currentPageDirectory ≠ 0 ∧
      (table.record process).pageDirectory = state.currentPageDirectory
  · refine ⟨fun _ => Or.inl own, fun _ address inside => ?_⟩
    rcases own with ⟨hasDirectory, isCurrent⟩
    rcases stackAddresses_page inside with ⟨index, indexInside, isPage⟩
    rcases execution.current hasDirectory index indexInside with ⟨entry, isEntry, _⟩
    rw [isCurrent, isSome_translate hasDirectory, isPage, isEntry]
    rfl
  · have spared (isCurrent : (table.record process).pageDirectory = state.currentPageDirectory) :
        state.currentPageDirectory = 0 := by
      by_contra hasDirectory
      exact own ⟨hasDirectory, isCurrent⟩
    rw [or_iff_right own]
    refine forall₂_congr fun address inside => ?_
    rw [execution.translate_unchanged ready List.mem_cons_self spared (stackAddresses_lt inside)]

/-- `process_exec`, when it returns `0` and its allocations succeed, confines its effects to its
process exactly when it keeps to the target: the stack is mapped in the directory of this process,
no other process has the current one, and the loader has spared the tables of the others. -/
theorem exec_confined_iff (ready : ExecReady region table state process loaded argv owned)
    (run : execOnMachine region state table process entry loaded argv = executed)
    (returned : executed.result = 0) (succeeded : executed.succeeded = true) :
    Confined table state.memory executed process ↔
      KeepsToTarget table state loaded process := by
  have execution := ready.execution run returned succeeded
  have stack := execution.stack_iff ready
  constructor
  · intro confined
    have alone : ∀ other ∈ table.processList, other ≠ process →
        (table.record other).pageDirectory = state.currentPageDirectory →
        state.currentPageDirectory = 0 := by
      intro other listed different isCurrent
      by_contra hasDirectory
      have same := confined.others other listed different (userStackTop - userStackSize) (by decide)
      rw [execution.directories, isCurrent] at same
      exact execution.translate_changed ready hasDirectory same
    refine ⟨stack.mp ?_, alone, ?_⟩
    · intro address inside
      rw [← execution.directories]
      exact confined.stack address inside
    · intro other listed different address word
      rw [← confined.others other listed different address word, execution.directories]
      exact (execution.translate_unchanged ready (List.mem_cons_of_mem _ listed)
        (alone other listed different) word).symm
  · intro keeps
    constructor
    · intro address inside
      rw [execution.directories]
      exact stack.mpr keeps.target address inside
    · intro other listed different address word
      rw [execution.directories, execution.translate_unchanged ready
        (List.mem_cons_of_mem _ listed) (keeps.alone other listed different) word]
      exact keeps.loads other listed different address word

section Program

open Initrd (Disk IsFileNode contents fileAddresses initrdInterface)
open Vfs (Files Machine vfsOpen)

/-- What `elf_load` writes for a program: its two variables and the segments. -/
def loadedBytes (frame : Frame) (text : Bytes) : Set ℕ :=
  fun address => address ∈ range frame.header headerBytes ∨
    ¬Untouched frame text (headerOf text).phnum address

/-- For a program of the initrd, the loader spares the tables of the other processes if none of its
segments lies over them. -/
theorem keepsToTarget_program {files opened : Files (Machine Disk)} {path text : Bytes}
    {fd : ℤ} {index : ℕ} {frame : Frame} {kernel : Set ℕ}
    (sameMemory : files.env.memory = state.memory)
    (isNode : IsFileNode files.env.rest.initrd (files.env.rest.resolve path) index)
    (isText : contents files.env.memory (files.env.rest.initrd.files index) = text)
    (short : text.length < 2 ^ 31)
    (ran : vfsOpen initrdInterface files (some path) 0 = (fd, opened)) (succeeded : 0 ≤ fd)
    (locals : range frame.header headerBytes ∪ range frame.phdr programHeaderBytes ⊆ kernel)
    (kernelApart : Disjoint kernel (files.env.rest.initrd.files index).bytes)
    (loadable : Loadable kernel (files.env.rest.initrd.files index).bytes text)
    (hasDirectory : state.currentPageDirectory ≠ 0)
    (target : (table.record process).pageDirectory = state.currentPageDirectory)
    (alone : ∀ other ∈ table.processList, other ≠ process →
      (table.record other).pageDirectory ≠ state.currentPageDirectory)
    (apart : ∀ other ∈ table.processList, other ≠ process →
      Disjoint (tableBytes state.memory (table.record other).pageDirectory)
        (loadedBytes frame text)) :
    KeepsToTarget table state (elfLoad initrdInterface frame files (some path)).2.env.memory
      process := by
  refine ⟨Or.inl ⟨hasDirectory, target⟩,
    fun other listed different isCurrent => absurd isCurrent (alone other listed different), ?_⟩
  intro other listed different address word
  apply translate_congr word
  intro location inTable
  have outside := Set.disjoint_left.mp (apart other listed different) inTable
  rw [← sameMemory]
  exact (elfLoad_loadable isNode isText short ran succeeded locals kernelApart loadable).2.2.2
    location (fun inHeader => outside (Or.inl inHeader))
    (not_not.mp fun touched => outside (Or.inr touched))

end Program

/-- The shell runs in the kernel's directory, and has created a process for a program. -/
def shellState : Vmm.State := { linkedState 64 with currentPageDirectory := 0x400000 }

def shellTable : Table where
  record := fun process =>
    { clearedProcess 0 with pageDirectory := if process = 0x100000 then 0x400000 else 0x401000 }
  processList := [0x100200, 0x100000]
  currentProcess := some 0x100000
  nextPid := 2

theorem tableBytes_subset : tableBytes memory directory ⊆ bytesFrom 0 memory directory := by
  rintro location ⟨slot, inside, _, inDirectory | ⟨present, inTable⟩⟩
  · exact Or.inl inDirectory
  · exact Or.inr ⟨slot, Nat.zero_le _, inside, present, Or.inl inTable⟩

theorem shellTable_directory (other : ℕ) :
    (shellTable.record other).pageDirectory = 0x400000 ∨
      (shellTable.record other).pageDirectory = 0x401000 := by
  simp only [shellTable]
  split
  · exact Or.inl rfl
  · exact Or.inr rfl

theorem shell_ready (process : ℕ) :
    ExecReady lowHeap shellTable shellState process shellState.memory (some [])
      (insert 0x100000 (range 0x400000 0x4000)) := by
  have linked := @linkedState_inUse 64
  have kernelTables : tableBytes shellState.memory 0x400000 ⊆ range 0x400000 0x1000 :=
    tableBytes_subset.trans kernelBytes_linkedState
  have tables : tableBytes shellState.memory 0x401000 ⊆ range 0x401000 0x3000 :=
    tableBytes_subset.trans (bytesFrom_linkedState (by decide))
  have stackTable : slotBytes shellState.memory 0x400000 stackSlot ⊆ range 0x400000 0x1000 :=
    fun _ inSlot => kernelTables ⟨stackSlot, by decide, inSlot⟩
  have current : shellState.currentPageDirectory = 0x400000 := rfl
  refine ⟨⟨linked.heap, linked.frames, linked.apart⟩, ?_,
    stackTable.trans (frames_linkedState (by decide) (by decide)), ?_, ?_, ?_, ?_⟩
  · intro other _
    rcases shellTable_directory other with isKernel | isOther
    · rw [isKernel]
      exact kernelTables.trans (frames_linkedState (by decide) (by decide))
    · rw [isOther]
      exact tables.trans (frames_linkedState (by decide) (by decide))
  · exact fun _ present => absurd present (by decide)
  · intro other _ different
    rw [(shellTable_directory other).resolve_left different]
    exact (disjoint_range (by decide)).mono stackTable tables
  · intro _ entry mapped
    rw [pageEntry_eq_some_iff] at mapped
    exact absurd mapped.1 (by decide)
  · rintro list isList
    cases isList
    refine ⟨by decide, fun _ => ?_⟩
    rw [Set.disjoint_left]
    intro location _ inEmpty
    simp only [mem_range, List.length_nil] at inEmpty
    omega

theorem mapStackPage_eq {virtual page : ℕ} {allocated : Vmm.State} {fine : Bool}
    (run : kmallocAligned region state 4096 4096 = (page, allocated)) (notNull : page ≠ 0) :
    mapStackPage region virtual (state, fine) =
      ({ Vmm.vmmMapPage allocated virtual page
            (pagePresent ||| Vmm.pageWrite ||| Vmm.pageUser) with
          memory := fill (Vmm.vmmMapPage allocated virtual page
            (pagePresent ||| Vmm.pageWrite ||| Vmm.pageUser)).memory page 0 4096 },
        fine && servesTable allocated virtual) := by
  simp only [mapStackPage, run, if_neg notNull]

theorem mapStack_eq (run : Vmm.State × Bool) :
    mapStack region run =
      mapStackPage region 0xBFFFF000 (mapStackPage region 0xBFFFE000 run) := rfl

theorem shell_mapStack : (mapStack lowHeap (shellState, true)).2 = true := by
  have firstPage : kmallocAligned lowHeap shellState 4096 4096 =
      (0x201000,
        { shellState with memory := Heap.takeBlock shellState.memory 0x200000 8192 }) := rfl
  rw [mapStack_eq, mapStackPage_eq firstPage (by decide), fill_eq_transfer]
  decide +kernel

theorem shell_succeeded (process : ℕ) :
    (execOnMachine lowHeap shellState shellTable process 0x10000000 shellState.memory
        (some [])).result = 0 ∧
      (execOnMachine lowHeap shellState shellTable process 0x10000000 shellState.memory
        (some [])).succeeded = true := by
  have mapped := shell_mapStack
  have runs := @execOnMachine_of_loaded lowHeap shellTable shellState shellState.memory process
    0x10000000 (some []) (by decide)
  exact ⟨runs.1, runs.2.trans mapped⟩

/-- The shell itself may execute a program: its directory is the current one. -/
theorem exec_confined_shell :
    Confined shellTable shellState.memory
      (execOnMachine lowHeap shellState shellTable 0x100000 0x10000000 shellState.memory
        (some [])) 0x100000 := by
  refine (exec_confined_iff (shell_ready 0x100000) rfl (shell_succeeded _).1
    (shell_succeeded _).2).mpr ⟨Or.inl ⟨by decide, rfl⟩, ?_, fun _ _ _ _ _ => rfl⟩
  intro other _ different isCurrent
  simp only [shellTable, if_neg different] at isCurrent
  exact absurd isCurrent (by decide)

/-- A program that the shell executes in the process it has created gets no stack there; the stack
is mapped in the directory of the shell. -/
theorem exec_maps_elsewhere :
    (execOnMachine lowHeap shellState shellTable 0x100200 0x10000000 shellState.memory
        (some [])).result = 0 ∧
      (execOnMachine lowHeap shellState shellTable 0x100200 0x10000000 shellState.memory
        (some [])).succeeded = true ∧
      translate (execOnMachine lowHeap shellState shellTable 0x100200 0x10000000
        shellState.memory (some [])).state.memory 0x401000 0xBFFFE000 = none ∧
      translate shellState.memory 0x400000 0xBFFFE000 = none ∧
      (translate (execOnMachine lowHeap shellState shellTable 0x100200 0x10000000
        shellState.memory (some [])).state.memory 0x400000 0xBFFFE000).isSome ∧
      ¬ Confined shellTable shellState.memory
        (execOnMachine lowHeap shellState shellTable 0x100200 0x10000000 shellState.memory
          (some [])) 0x100200 := by
  have ready := shell_ready 0x100200
  have hasDirectory : shellState.currentPageDirectory ≠ 0 := by decide
  refine ⟨(shell_succeeded _).1, (shell_succeeded _).2, ?_⟩
  have execution := ready.execution rfl (shell_succeeded _).1 (shell_succeeded _).2
  generalize execOnMachine lowHeap shellState shellTable 0x100200 0x10000000 shellState.memory
    (some []) = executed at execution ⊢
  have lost : translate executed.state.memory 0x401000 0xBFFFE000 = none := by
    have unchanged := @Execution.translate_unchanged lowHeap shellTable shellState _ _ 0x100200
      0xBFFFE000 _ executed execution ready 0x100200 List.mem_cons_self
      (fun isCurrent => absurd isCurrent (by decide)) (by decide)
    exact unchanged.trans (by decide)
  refine ⟨lost, by decide, ?_, ?_⟩
  · rcases execution.current hasDirectory 0 (by decide) with ⟨entry, isEntry, _⟩
    refine (isSome_translate hasDirectory).mpr ?_
    exact Option.isSome_of_eq_some isEntry
  · intro confined
    have mapped := confined.stack 0xBFFFE000 ⟨by decide, by decide⟩
    rw [execution.directories] at mapped
    have contradiction := mapped
    rw [show (shellTable.record 0x100200).pageDirectory = 0x401000 from rfl, lost] at contradiction
    cases contradiction

end RamOS.Proc
