import RamOS.Heap.Refinement
import RamOS.Lib.LinkedList
import RamOS.Proc.Lifecycle
import RamOS.Proc.Fork

/-!
# Reaping a child in memory

`process_wait` walks over the process structures in memory and keeps the address of the cell
through which it came. It takes the first zombie child out of the list with a store into this
cell, and gives the blocks of the child back to the heap. This file compares it with the wait on
the list of processes.
-/

namespace RamOS.Proc

def ProcessState.number : ProcessState → ℕ
  | ready => 0
  | running => 1
  | blocked => 2
  | zombie => 3
  | dead => 4

theorem ProcessState.number_eq_zombie {state : ProcessState} :
    state.number = zombie.number ↔ state = zombie := by
  cases state
  all_goals decide

namespace Reaping

open ByteMemory LinkedList
open Word32 (toInt)

def pidField : ℕ := 0

def parentPidField : ℕ := 4

def stateField : ℕ := 8

def pageDirectoryField : ℕ := 12

def exitCodeField : ℕ := 348

def fdTableField : ℕ := 356

def nextField : ℕ := 364

structure ListState where
  memory : Memory
  processList : ℕ

def zombieChild (memory : Memory) (process p : ℕ) : Bool :=
  read32 memory (p + parentPidField) = read32 memory (process + pidField) ∧
    read32 memory (p + stateField) = ProcessState.zombie.number

/-- The first loop of `process_wait`, which takes a zombie child out of the list; `prevPtr` is the
cell that holds `p`. -/
def unlinkZombie (kernel : ListState) (process : ℕ) : ℕ → ℕ → Option ℕ → Option (ℕ × ListState)
  | 0, _, _ => none
  | fuel + 1, p, prevPtr =>
    if p = 0 then some (0, kernel)
    else if zombieChild kernel.memory process p then
      let stored := storeCell kernel.memory kernel.processList
        (read32 kernel.memory (p + nextField)) prevPtr
      some (p, { memory := stored.1, processList := stored.2 })
    else
      unlinkZombie kernel process fuel (read32 kernel.memory (p + nextField))
        (some (p + nextField))

def hasChildren (memory : Memory) (process : ℕ) : ℕ → ℕ → Option Bool
  | 0, _ => none
  | fuel + 1, p =>
    if p = 0 then some false
    else if read32 memory (p + parentPidField) = read32 memory (process + pidField) then some true
    else hasChildren memory process fuel (read32 memory (p + nextField))

def freeProcess (memory : Memory) (process : ℕ) : Memory :=
  if process = 0 then memory
  else
    let fdTable := read32 memory (process + fdTableField)
    let memory := if fdTable = 0 then memory else Heap.kfree memory fdTable
    let pageDirectory := read32 memory (process + pageDirectoryField)
    let memory := if pageDirectory = 0 then memory else Heap.kfree memory pageDirectory
    Heap.kfree memory process

def reap (kernel : ListState) (child status : ℕ) : ℤ × ListState :=
  let memory :=
    if status = 0 then kernel.memory
    else write32 kernel.memory status (read32 kernel.memory (child + exitCodeField))
  (toInt (read32 memory (child + pidField)), { kernel with memory := freeProcess memory child })

def block (kernel : ListState) (process : ℕ) : ListState :=
  { kernel with
    memory := write32 kernel.memory (process + stateField) ProcessState.blocked.number }

def processWait (fuel : ℕ) (kernel : ListState) (process status : ℕ) : Option (ℤ × ListState) :=
  if process = 0 then some (-1, kernel)
  else
    match unlinkZombie kernel process fuel kernel.processList none with
    | none => none
    | some (child, kernel) =>
      if child ≠ 0 then some (reap kernel child status)
      else
        match hasChildren kernel.memory process fuel kernel.processList with
        | none => none
        | some false => some (-1, kernel)
        | some true => some (0, block kernel process)

structure RecordAt (memory : Memory) (address : ℕ) (record : Process) : Prop where
  pid : read32 memory (address + pidField) = record.pid
  parentPid : read32 memory (address + parentPidField) = record.parentPid
  state : read32 memory (address + stateField) = record.state.number
  pageDirectory : read32 memory (address + pageDirectoryField) = record.pageDirectory
  exitCode : read32 memory (address + exitCodeField) = Word32.ofInt record.exitCode
  fdTable : read32 memory (address + fdTableField) = record.fdTable

/-- The bytes in front of a pointer, where `kfree` expects the header of a block. -/
def headerBytes (pointer : ℕ) : Set ℕ := range (pointer - Heap.headerSize) Heap.headerSize

def freedPointers (record : Process) (address : ℕ) : List ℕ :=
  [record.fdTable, record.pageDirectory, address]

/-- A pointer that may be given to `kfree` while the bytes in a set are in use. -/
structure Freeable (pointer : ℕ) (used : Set ℕ) : Prop where
  behind : Heap.headerSize ≤ pointer
  fits : pointer < 2 ^ 32
  apart : Disjoint (headerBytes pointer) used

/-- The memory holds the list of a process table: the structures are blocks of their own, and none
reaches into the headers of the blocks of a process. -/
structure Holds (kernel : ListState) (table : Table) : Prop where
  chain : Segment nextField kernel.memory kernel.processList table.processList 0
  apart : Apart processSize table.processList
  fields : ∀ address ∈ table.processList, RecordAt kernel.memory address (table.record address)
  headers : ∀ address ∈ table.processList,
    ∀ pointer ∈ freedPointers (table.record address) address, pointer ≠ 0 →
      Freeable pointer (bytes processSize table.processList)

/-- A word for the status: null, or apart from the structures and from the headers of their
blocks. -/
structure StatusApart (table : Table) (status : ℕ) : Prop where
  structures : status ≠ 0 → Disjoint (range status 4) (bytes processSize table.processList)
  headers : status ≠ 0 → ∀ address ∈ table.processList,
    ∀ pointer ∈ freedPointers (table.record address) address,
      Disjoint (headerBytes pointer) (range status 4)

/-- A wait that takes the first zombie child of the caller out of the list. -/
structure Reaps (kernel : ListState) (table : Table) (process status : ℕ) (result : ℤ)
    (after : ListState) (before : List ℕ) (child : ℕ) (behind : List ℕ) : Prop where
  split : table.processList = before ++ child :: behind
  zombie : Proc.zombieChild table (table.record process).pid child
  first : ∀ earlier ∈ before, ¬ Proc.zombieChild table (table.record process).pid earlier
  result : result = toInt (table.record child).pid
  status : status ≠ 0 →
    read32 after.memory status = Word32.ofInt (table.record child).exitCode
  holds : Holds after { table with processList := before ++ behind }
  kept : ∀ other ∈ before ++ behind,
    Set.EqOn after.memory kernel.memory (range other nextField)

/-- A wait that finds no zombie child, and may block the caller. -/
structure FindsNone (kernel : ListState) (table : Table) (process : ℕ) (result : ℤ)
    (after : ListState) : Prop where
  noZombie : ∀ address ∈ table.processList,
    ¬ Proc.zombieChild table (table.record process).pid address
  result : result = -1 ∨ result = 0
  processList : after.processList = kernel.processList
  chain : Segment nextField after.memory after.processList table.processList 0
  kept : Set.EqOn after.memory kernel.memory (range (process + stateField) 4)ᶜ

section Fields

variable {memory changed : Memory} {address : ℕ} {record : Process}

theorem RecordAt.congr (fields : RecordAt memory address record)
    (agree : Set.EqOn changed memory (range address nextField)) :
    RecordAt changed address record where
  pid := (read32_eq_of_eqOn agree (by decide)).trans fields.pid
  parentPid := (read32_eq_of_eqOn agree (by decide)).trans fields.parentPid
  state := (read32_eq_of_eqOn agree (by decide)).trans fields.state
  pageDirectory := (read32_eq_of_eqOn agree (by decide)).trans fields.pageDirectory
  exitCode := (read32_eq_of_eqOn agree (by decide)).trans fields.exitCode
  fdTable := (read32_eq_of_eqOn agree (by decide)).trans fields.fdTable

theorem range_nextField_subset (address : ℕ) :
    range address nextField ⊆ range address processSize :=
  range_subset_range le_rfl (Nat.add_le_add_left (by decide) address)

end Fields

section Freeing

variable {memory : Memory} {pointer : ℕ} {used : Set ℕ}

theorem Freeable.kfree_eqOn (freeable : Freeable pointer used) :
    Set.EqOn (Heap.kfree memory pointer) memory used := by
  refine (Heap.kfree_eqOn memory freeable.behind freeable.fits).mono ?_
  exact Set.subset_compl_iff_disjoint_left.mpr freeable.apart

theorem freeProcess_eqOn {child : ℕ} {record : Process} (fields : RecordAt memory child record)
    (owned : range child nextField ⊆ used)
    (freeable : ∀ pointer ∈ freedPointers record child, pointer ≠ 0 → Freeable pointer used) :
    Set.EqOn (freeProcess memory child) memory used := by
  have freed {memory : Memory} {pointer : ℕ} (listed : pointer ∈ freedPointers record child) :
      Set.EqOn (if pointer = 0 then memory else Heap.kfree memory pointer) memory used := by
    split
    next => exact fun _ _ => rfl
    next notNull => exact (freeable pointer listed notNull).kfree_eqOn
  rw [freeProcess]
  split
  next => exact fun _ _ => rfl
  next notNull =>
    have tableFreed := @freed memory record.fdTable (by simp [freedPointers])
    dsimp only
    rw [fields.fdTable]
    generalize (if record.fdTable = 0 then memory else Heap.kfree memory record.fdTable) = first
      at tableFreed ⊢
    have directoryFreed := @freed first record.pageDirectory (by simp [freedPointers])
    rw [(fields.congr (tableFreed.mono owned)).pageDirectory]
    refine ((freeable child (by simp [freedPointers]) notNull).kfree_eqOn.trans ?_)
    exact directoryFreed.trans tableFreed

end Freeing

section Loops

variable {kernel : ListState} {memory : Memory} {process pointer fuel : ℕ}
  {left before behind : List ℕ}

theorem unlinkZombie_none {blocks : List ℕ} {cell : Option ℕ}
    (segment : Segment nextField kernel.memory pointer blocks 0)
    (noZombie : ∀ p ∈ blocks, ¬ zombieChild kernel.memory process p)
    (enough : blocks.length < fuel) :
    unlinkZombie kernel process fuel pointer cell = some (0, kernel) := by
  induction blocks generalizing pointer fuel cell with
  | nil =>
    rcases fuel with _ | fuel
    · omega
    exact if_pos segment
  | cons p blocks ih =>
    rcases fuel with _ | fuel
    · omega
    rcases segment with ⟨rfl, nonnull, rest⟩
    rw [unlinkZombie, if_neg nonnull, if_neg (noZombie pointer List.mem_cons_self)]
    refine ih rest (fun p listed => noZombie p (List.mem_cons_of_mem _ listed)) ?_
    exact Nat.lt_of_succ_lt_succ enough

theorem unlinkZombie_some {child : ℕ}
    (segment : Segment nextField kernel.memory pointer (before ++ child :: behind) 0)
    (first : ∀ p ∈ before, ¬ zombieChild kernel.memory process p)
    (zombie : zombieChild kernel.memory process child) (enough : before.length < fuel)
    {changed : Memory} {head : ℕ}
    (stored : storeCell kernel.memory kernel.processList
      (read32 kernel.memory (child + nextField)) (lastCell nextField (left ++ before)) =
        (changed, head)) :
    unlinkZombie kernel process fuel pointer (lastCell nextField left) =
      some (child, { memory := changed, processList := head }) := by
  induction before generalizing pointer fuel left with
  | nil =>
    rcases fuel with _ | fuel
    · omega
    rcases segment with ⟨rfl, nonnull, _⟩
    rw [List.append_nil] at stored
    rw [unlinkZombie, if_neg nonnull, if_pos zombie, stored]
  | cons p before ih =>
    rcases fuel with _ | fuel
    · omega
    rcases segment with ⟨rfl, nonnull, rest⟩
    have shape : left ++ pointer :: before = left ++ [pointer] ++ before := by simp
    rw [shape] at stored
    rw [unlinkZombie, if_neg nonnull, if_neg (first pointer List.mem_cons_self),
      ← lastCell_concat]
    refine ih rest (fun p listed => first p (List.mem_cons_of_mem _ listed)) ?_ stored
    exact Nat.lt_of_succ_lt_succ enough

theorem exists_hasChildren {blocks : List ℕ} (segment : Segment nextField memory pointer blocks 0) :
    ∃ answer, ∀ fuel, blocks.length < fuel →
      hasChildren memory process fuel pointer = some answer := by
  induction blocks generalizing pointer with
  | nil =>
    refine ⟨false, fun fuel enough => ?_⟩
    rcases fuel with _ | fuel
    · omega
    exact if_pos segment
  | cons p blocks ih =>
    rcases segment with ⟨rfl, nonnull, rest⟩
    rcases ih rest with ⟨later, run⟩
    refine ⟨if read32 memory (pointer + parentPidField) = read32 memory (process + pidField) then
      true else later, fun fuel enough => ?_⟩
    rcases fuel with _ | fuel
    · omega
    rw [hasChildren, if_neg nonnull, run fuel (Nat.lt_of_succ_lt_succ enough)]
    split
    all_goals rfl

end Loops

section Waiting

variable {kernel : ListState} {table : Table} {process status : ℕ}

theorem Holds.zombieChild_eq (holds : Holds kernel table) (caller : process ∈ table.processList)
    {address : ℕ} (listed : address ∈ table.processList) :
    zombieChild kernel.memory process address =
      Proc.zombieChild table (table.record process).pid address := by
  have fields := holds.fields address listed
  simp only [zombieChild, Proc.zombieChild, fields.parentPid, fields.state,
    (holds.fields process caller).pid, ProcessState.number_eq_zombie]

theorem mem_of_mem_remaining {before behind : List ℕ} {child other : ℕ}
    (listed : other ∈ before ++ behind) : other ∈ before ++ child :: behind := by
  rw [List.mem_append] at listed ⊢
  exact listed.imp_right (List.mem_cons_of_mem _)

theorem Holds.remove {before behind : List ℕ} {child head : ℕ} {changed : Memory}
    (holds : Holds kernel table) (split : table.processList = before ++ child :: behind)
    (stored : storeCell kernel.memory kernel.processList
      (read32 kernel.memory (child + nextField)) (lastCell nextField before) = (changed, head)) :
    Segment nextField changed head (before ++ behind) 0 ∧
      (∀ listed ∈ table.processList,
        Set.EqOn changed kernel.memory (range listed nextField)) ∧
      ∀ listed ∈ table.processList, RecordAt changed listed (table.record listed) := by
  have chain := holds.chain
  have apart := holds.apart
  rw [split] at chain apart
  rcases chain.remove apart (by decide) stored with ⟨removed, front⟩
  rw [← split] at front
  exact ⟨removed, front, fun listed member =>
    (holds.fields listed member).congr (front listed member)⟩

def usedBytes (table : Table) (status : ℕ) : Set ℕ :=
  bytes processSize table.processList ∪ { location | status ≠ 0 ∧ location ∈ range status 4 }

theorem Holds.freeable (holds : Holds kernel table) (apart : StatusApart table status) {child : ℕ}
    (listed : child ∈ table.processList) {pointer : ℕ}
    (freed : pointer ∈ freedPointers (table.record child) child) (notNull : pointer ≠ 0) :
    Freeable pointer (usedBytes table status) := by
  have header := holds.headers child listed pointer freed notNull
  refine ⟨header.behind, header.fits, Set.disjoint_union_right.mpr ⟨header.apart, ?_⟩⟩
  rw [Set.disjoint_left]
  rintro location inHeader ⟨present, inStatus⟩
  exact Set.disjoint_left.mp (apart.headers present child listed pointer freed) inHeader inStatus

theorem Holds.reap {before behind : List ℕ} {child head : ℕ} {changed : Memory}
    (holds : Holds kernel table) (apart : StatusApart table status)
    (split : table.processList = before ++ child :: behind)
    (zombie : Proc.zombieChild table (table.record process).pid child)
    (first : ∀ earlier ∈ before, ¬ Proc.zombieChild table (table.record process).pid earlier)
    (stored : storeCell kernel.memory kernel.processList
      (read32 kernel.memory (child + nextField)) (lastCell nextField before) = (changed, head)) :
    Reaps kernel table process status (reap ⟨changed, head⟩ child status).1
      (reap ⟨changed, head⟩ child status).2 before child behind := by
  rcases holds.remove split stored with ⟨removed, front, fields⟩
  have childListed : child ∈ table.processList := by simp [split]
  simp only [Reaping.reap, (fields child childListed).exitCode]
  -- The store of the status reaches no structure.
  have written : Set.EqOn (if status = 0 then changed else
      write32 changed status (Word32.ofInt (table.record child).exitCode)) changed
      (bytes processSize table.processList) := by
    split
    next => exact fun _ _ => rfl
    next present =>
      refine (write32_eqOn _ _ _).mono ?_
      exact Set.subset_compl_iff_disjoint_left.mpr (apart.structures present)
  have statusWord (present : status ≠ 0) : read32 (if status = 0 then changed else
      write32 changed status (Word32.ofInt (table.record child).exitCode)) status =
      Word32.ofInt (table.record child).exitCode := by
    rw [if_neg present, read32_write32_same, Nat.mod_eq_of_lt (Word32.ofInt_lt _)]
  generalize (if status = 0 then changed else
    write32 changed status (Word32.ofInt (table.record child).exitCode)) = memory
    at written statusWord ⊢
  have inBytes {listed : ℕ} (member : listed ∈ table.processList) :
      range listed nextField ⊆ bytes processSize table.processList :=
    (range_nextField_subset listed).trans (range_subset_bytes member)
  have writtenFields (listed : ℕ) (member : listed ∈ table.processList) :
      RecordAt memory listed (table.record listed) :=
    (fields listed member).congr (written.mono (inBytes member))
  have freed : Set.EqOn (freeProcess memory child) memory (usedBytes table status) := by
    refine freeProcess_eqOn (writtenFields child childListed)
      ((inBytes childListed).trans Set.subset_union_left) ?_
    exact fun pointer => holds.freeable apart childListed
  have freedStructures := freed.mono (@Set.subset_union_left _ _ _)
  have remains {other : ℕ} (listed : other ∈ before ++ behind) : other ∈ table.processList := by
    rw [split]
    exact mem_of_mem_remaining listed
  refine ⟨split, zombie, first, ?_, ?_, ⟨?_, ?_, ?_, ?_⟩, ?_⟩
  · rw [(writtenFields child childListed).pid]
  · intro present
    have kept : Set.EqOn (freeProcess memory child) memory (range status 4) :=
      freed.mono fun location inside => Or.inr ⟨present, inside⟩
    exact (read32_congr kept).trans (statusWord present)
  · refine removed.congr fun other listed => ?_
    have structureKept : Set.EqOn (freeProcess memory child) changed (range other processSize) :=
      (freedStructures.trans written).mono (range_subset_bytes (remains listed))
    exact read32_eq_of_eqOn structureKept (by decide)
  · have allApart := holds.apart
    rw [split] at allApart
    exact allApart.remove
  · intro other listed
    refine (writtenFields other (remains listed)).congr ?_
    exact freedStructures.mono (inBytes (remains listed))
  · intro other listed pointer isFreed notNull
    have header := holds.headers other (remains listed) pointer isFreed notNull
    refine ⟨header.behind, header.fits, header.apart.mono_right ?_⟩
    rintro location ⟨block, member, inside⟩
    exact ⟨block, remains member, inside⟩
  · intro other listed
    have structureKept := (freedStructures.trans written).mono (inBytes (remains listed))
    exact structureKept.trans (front other (remains listed))

theorem Holds.leaves (holds : Holds kernel table) (caller : process ∈ table.processList)
    (noZombie : ∀ address ∈ table.processList,
      ¬ Proc.zombieChild table (table.record process).pid address) :
    ∃ result after, (∀ fuel, table.processList.length < fuel →
        processWait fuel kernel process status = some (result, after)) ∧
      FindsNone kernel table process result after := by
  have notNull : process ≠ 0 := holds.chain.ne_zero caller
  have searched (fuel : ℕ) (enough : table.processList.length < fuel) :
      unlinkZombie kernel process fuel kernel.processList none = some (0, kernel) := by
    refine unlinkZombie_none holds.chain (fun address listed => ?_) enough
    rw [holds.zombieChild_eq caller listed]
    exact noZombie address listed
  rcases @exists_hasChildren kernel.memory process _ _ holds.chain with ⟨answer, counted⟩
  cases answer with
  | false =>
    refine ⟨-1, kernel, fun fuel enough => ?_, noZombie, Or.inl rfl, rfl, holds.chain,
      fun _ _ => rfl⟩
    simp only [processWait, if_neg notNull, searched fuel enough, counted fuel enough]
    rfl
  | true =>
    refine ⟨0, block kernel process, fun fuel enough => ?_, noZombie, Or.inr rfl, rfl, ?_, ?_⟩
    · simp only [processWait, if_neg notNull, searched fuel enough, counted fuel enough]
      rfl
    · refine holds.chain.congr fun address listed => ?_
      exact read32_write32_of_disjoint (holds.apart.words_apart listed caller (by decide)
        (by decide) (by decide))
    · exact write32_eqOn _ _ _

theorem Holds.exists_processWait (holds : Holds kernel table)
    (caller : process ∈ table.processList) (apart : StatusApart table status) :
    ∃ result after, (∀ fuel, table.processList.length < fuel →
        processWait fuel kernel process status = some (result, after)) ∧
      ((∃ before child behind,
          Reaps kernel table process status result after before child behind) ∨
        FindsNone kernel table process result after) := by
  cases found : table.processList.find?
      (Proc.zombieChild table (table.record process).pid) with
  | none =>
    rcases @Holds.leaves kernel table process status holds caller
      (fun address listed => List.find?_eq_none.mp found address listed) with
      ⟨result, after, run, leaves⟩
    exact ⟨result, after, run, Or.inr leaves⟩
  | some child =>
    rcases List.find?_eq_some_iff_append.mp found with ⟨zombie, before, behind, split, passed⟩
    have first (earlier : ℕ) (listed : earlier ∈ before) :
        ¬ Proc.zombieChild table (table.record process).pid earlier := by
      simpa using passed earlier listed
    have childListed : child ∈ table.processList := by simp [split]
    cases stored : storeCell kernel.memory kernel.processList
      (read32 kernel.memory (child + nextField)) (lastCell nextField before) with
    | mk changed head =>
      have reaps := holds.reap apart split zombie first stored
      refine ⟨_, _, fun fuel enough => ?_, Or.inl ⟨before, child, behind, reaps⟩⟩
      have unlinked : unlinkZombie kernel process fuel kernel.processList none =
          some (child, ⟨changed, head⟩) := by
        have chain := holds.chain
        rw [split] at chain
        refine @unlinkZombie_some kernel process _ fuel [] before behind child chain ?_ ?_ ?_
          changed head stored
        · intro earlier listed
          rw [holds.zombieChild_eq caller (by simp [split, listed])]
          exact first earlier listed
        · rwa [holds.zombieChild_eq caller childListed]
        · rw [split, List.length_append] at enough
          omega
      simp only [processWait, if_neg (holds.chain.ne_zero caller), unlinked]
      rw [if_pos (holds.chain.ne_zero childListed)]

end Waiting

end Reaping

section Parents

variable {table after : Table} {call : Call}

/-- No process can wait for the one with pid 0: its parent is itself or pid 1, and no process has
pid 1 beside it. -/
structure KernelUnawaited (table : Table) : Prop where
  nextPid_pos : 0 < table.nextPid
  kernel : ∀ address ∈ table.processList, (table.record address).pid = 0 →
    (table.record address).parentPid ≤ 1 ∧ 2 ≤ table.nextPid ∧
      ∀ other ∈ table.processList, (table.record other).pid ≠ 1

theorem KernelUnawaited.of_kept (unawaited : KernelUnawaited table)
    (counter : table.nextPid ≤ after.nextPid)
    (listed : ∀ address ∈ after.processList, address ∈ table.processList)
    (pid : ∀ address ∈ table.processList,
      (after.record address).pid = (table.record address).pid)
    (parentPid : ∀ address ∈ table.processList, (table.record address).parentPid ≤ 1 →
      (after.record address).parentPid ≤ 1) : KernelUnawaited after := by
  refine ⟨unawaited.nextPid_pos.trans_le counter, fun address member isKernel => ?_⟩
  have was := listed address member
  rw [pid address was] at isKernel
  rcases unawaited.kernel address was isKernel with ⟨parent, two, others⟩
  refine ⟨parentPid address was parent, two.trans counter, fun other otherMember => ?_⟩
  rw [pid other (listed other otherMember)]
  exact others other (listed other otherMember)

theorem KernelUnawaited.of_added {process : ℕ} (unawaited : KernelUnawaited table)
    (added : Added table after process) (counter : table.nextPid ≤ after.nextPid) :
    KernelUnawaited after := by
  have positive := unawaited.nextPid_pos
  refine ⟨positive.trans_le counter, fun address member isKernel => ?_⟩
  rw [added.processList, List.mem_cons] at member
  rcases member with rfl | member
  · rw [added.pid] at isKernel
    omega
  · rw [added.old member] at isKernel ⊢
    rcases unawaited.kernel address member isKernel with ⟨parent, two, others⟩
    refine ⟨parent, two.trans counter, fun other otherMember => ?_⟩
    rw [added.processList, List.mem_cons] at otherMember
    rcases otherMember with rfl | otherMember
    · rw [added.pid]
      omega
    · rw [added.old otherMember]
      exact others other otherMember

theorem KernelUnawaited.step (unawaited : KernelUnawaited table) (invariant : Invariant table)
    (valid : call.Valid table) (room : table.nextPid + call.pids table < 2 ^ 32) :
    KernelUnawaited (call.run table) := by
  have effect := invariant.toOrderly.effect valid
  have counter : table.nextPid ≤ (call.run table).nextPid := by
    rw [(invariant.served valid room).nextPid]
    exact Nat.le_add_right _ _
  generalize call.deed table = deed at effect
  cases deed with
  | nothing =>
    refine unawaited.of_kept counter ?_ effect.pid ?_
    · rw [effect.processList]
      exact fun _ => id
    · intro address member
      rw [effect.parentPid address member]
      exact id
  | adds process =>
    exact unawaited.of_added effect counter
  | ends process code =>
    rcases effect with ⟨_, ended⟩
    refine unawaited.of_kept counter ?_ ?_ ?_
    · rw [ended.processList]
      exact fun _ => id
    · intro address _
      rw [ended.record]
    · intro address _ parent
      rw [ended.record, adopted]
      split
      · exact le_rfl
      · exact parent
  | reaps child =>
    refine unawaited.of_kept counter ?_ ?_ ?_
    · rw [effect.processList]
      exact fun _ => List.mem_of_mem_erase
    · simp [effect.record]
    · simp [effect.record]
  | blocks process =>
    have same (address : ℕ) : ((call.run table).record address).pid =
        (table.record address).pid ∧ ((call.run table).record address).parentPid =
          (table.record address).parentPid := by
      rw [effect.table]
      exact ⟨modify_keeps Process.pid rfl address, modify_keeps Process.parentPid rfl address⟩
    refine unawaited.of_kept counter ?_ (fun address _ => (same address).1) ?_
    · rw [effect.table]
      exact fun _ => id
    · intro address _ parent
      rwa [(same address).2]

theorem KernelUnawaited.run (unawaited : KernelUnawaited table) (invariant : Invariant table)
    {calls : List Call} (valid : ValidRun table calls)
    (room : table.nextPid + pidsTaken table calls < 2 ^ 32) :
    KernelUnawaited (calls.foldl Call.run table) := by
  induction calls generalizing table with
  | nil => exact unawaited
  | cons call calls ih =>
    simp only [pidsTaken] at room
    have served := invariant.served valid.1 (by omega)
    have next := served.nextPid
    exact ih (unawaited.step invariant valid.1 (by omega)) served.invariant valid.2 (by omega)

theorem AfterInit.unawaited (begins : AfterInit table) : KernelUnawaited table := by
  cases begins with
  | kernel record taken directory kernelDirectory ticks =>
    refine ⟨?_, ?_⟩
    all_goals simp [processInit, processCreate, allocProcess, currentPid, Word32.add]
  | empty record => exact ⟨by simp, by simp⟩

theorem KernelUnawaited.pid_pos (unawaited : KernelUnawaited table) (invariant : Invariant table)
    {process child : ℕ} (isCurrent : table.currentProcess = some process)
    (listed : child ∈ table.processList)
    (zombie : zombieChild table (table.record process).pid child) :
    0 < (table.record child).pid := by
  simp only [zombieChild, decide_eq_true_eq] at zombie
  have caller := invariant.current_mem process isCurrent
  by_contra isZero
  have isKernel : (table.record child).pid = 0 := by omega
  rcases unawaited.kernel child listed isKernel with ⟨parent, _, others⟩
  have notOne := others process caller
  have samePid : (table.record process).pid = (table.record child).pid := by omega
  have isSelf := invariant.pid_injective process caller child listed samePid
  rw [← isSelf] at zombie
  exact invariant.current_alive process isCurrent zombie.2

end Parents

namespace Reaping

open ByteMemory LinkedList

/-- A wait of the current process returns. A pid as its result was that of the first zombie child,
which alone has left the list; otherwise there was none, and at most the state of the caller has
changed. -/
theorem processWait_reaps_one {start : Table} (begins : AfterInit start) (calls : List Call)
    (valid : ValidRun start calls) (room : pidsTaken start calls < 2 ^ 31 - 2) {process : ℕ}
    (isCurrent : (calls.foldl Call.run start).currentProcess = some process) {kernel : ListState}
    (holds : Holds kernel (calls.foldl Call.run start)) {status : ℕ}
    (apart : StatusApart (calls.foldl Call.run start) status) :
    ∃ result after, (∀ fuel, (calls.foldl Call.run start).processList.length < fuel →
        processWait fuel kernel process status = some (result, after)) ∧
      (0 < result ∨ result = -1 ∨ result = 0) ∧
      (0 < result → ∃ before child behind,
        Reaps kernel (calls.foldl Call.run start) process status result after before child behind ∧
          result = ((calls.foldl Call.run start).record child).pid) ∧
      (result = -1 ∨ result = 0 →
        FindsNone kernel (calls.foldl Call.run start) process result after) := by
  rcases begins.invariant with ⟨initial, small⟩
  rcases initial.run calls valid (by omega) with ⟨invariant, next⟩
  have unawaited := begins.unawaited.run initial valid (by omega)
  generalize calls.foldl Call.run start = table at *
  rcases holds.exists_processWait (invariant.current_mem process isCurrent) apart with
    ⟨result, after, run, reaped | leaves⟩
  · rcases reaped with ⟨before, child, behind, reaps⟩
    have listed : child ∈ table.processList := by simp [reaps.split]
    have positive := unawaited.pid_pos invariant isCurrent listed reaps.zombie
    have below := invariant.pid_lt child listed
    have isPid : result = (table.record child).pid := by
      rw [reaps.result, Word32.toInt_eq (by omega)]
    refine ⟨result, after, run, Or.inl (by omega), fun _ => ⟨before, child, behind, reaps, isPid⟩,
      fun failed => ?_⟩
    omega
  · have outcome := leaves.result
    refine ⟨result, after, run, Or.inr outcome, fun succeeded => ?_, fun _ => leaves⟩
    omega

def sampleMemory (pid : ℕ) : Memory :=
  let memory := write32 (fun _ => 0) (0x1010 + stateField) ProcessState.running.number
  let memory := write32 memory (0x1010 + pageDirectoryField) 0x400000
  let memory := write32 memory (0x1010 + fdTableField) 0x1190
  let memory := write32 memory (0x1220 + pidField) pid
  let memory := write32 memory (0x1220 + stateField) ProcessState.zombie.number
  let memory := write32 memory (0x1220 + pageDirectoryField) 0x402000
  let memory := write32 memory (0x1220 + exitCodeField) 9
  let memory := write32 memory (0x1220 + fdTableField) 0x13A0
  write32 memory (0x1220 + nextField) 0x1010

def sampleKernel (pid : ℕ) : ListState := { memory := sampleMemory pid, processList := 0x1220 }

theorem sampleMemory_fields {pid : ℕ} (word : pid < 2 ^ 32) :
    RecordAt (sampleMemory pid) 0x1010 (bootTable.record 0x1010) ∧
      RecordAt (sampleMemory pid) 0x1220
        { bootChild with pid := pid, state := .zombie, exitCode := 9 } := by
  refine ⟨⟨?_, ?_, ?_, ?_, ?_, ?_⟩, ⟨?_, ?_, ?_, ?_, ?_, ?_⟩⟩
  all_goals simp (disch := decide) only [sampleMemory, read32_write32_of_disjoint,
    read32_write32_same]
  all_goals first | exact Nat.mod_eq_of_lt word | rfl

section Samples

variable {table : Table} {pid pointer : ℕ}

def sampleBlocks : List ℕ := [0x1190, 0x400000, 0x1010, 0x13A0, 0x402000, 0x1220]

theorem sample_freeable (freed : pointer ∈ sampleBlocks) :
    Freeable pointer (bytes processSize [0x1220, 0x1010]) := by
  simp only [sampleBlocks, List.mem_cons, List.not_mem_nil, or_false] at freed
  refine ⟨by simp only [Heap.headerSize]; omega, by omega, ?_⟩
  rw [Set.disjoint_left]
  rintro location inHeader ⟨block, listed, inside⟩
  simp only [headerBytes, mem_range, Heap.headerSize, processSize, List.mem_cons, List.not_mem_nil,
    or_false] at inHeader listed inside
  omega

variable (list : table.processList = [0x1220, 0x1010])
  (kernel : table.record 0x1010 = bootTable.record 0x1010)
  (child : table.record 0x1220 = { bootChild with pid := pid, state := .zombie, exitCode := 9 })

include list kernel child

theorem freedPointers_sample {address : ℕ} (listed : address ∈ table.processList)
    (freed : pointer ∈ freedPointers (table.record address) address) : pointer ∈ sampleBlocks := by
  rw [list, List.mem_pair] at listed
  rcases listed with rfl | rfl
  · rw [child] at freed
    exact List.mem_append_right [0x1190, 0x400000, 0x1010] freed
  · rw [kernel] at freed
    exact List.mem_append_left [0x13A0, 0x402000, 0x1220] freed

theorem sampleKernel_holds (word : pid < 2 ^ 32) : Holds (sampleKernel pid) table := by
  rcases sampleMemory_fields word with ⟨kernelFields, childFields⟩
  rw [← kernel] at kernelFields
  rw [← child] at childFields
  have next : read32 (sampleMemory pid) (0x1220 + nextField) = 0x1010 := by
    simp only [sampleMemory, read32_write32_same]
    rfl
  have last : read32 (sampleMemory pid) (0x1010 + nextField) = 0 := by
    simp (disch := decide) only [sampleMemory, read32_write32_of_disjoint]
    rfl
  refine ⟨?_, ?_, ?_, ?_⟩
  · rw [list]
    exact ⟨rfl, by decide, next, by decide, last⟩
  · rw [list, Apart, List.pairwise_pair]
    exact disjoint_range (by decide)
  · simpa [list] using ⟨childFields, kernelFields⟩
  · intro address listed pointer freed _
    rw [list]
    exact sample_freeable (freedPointers_sample list kernel child listed freed)

theorem sample_statusApart : StatusApart table 0x5000 := by
  constructor
  · intro _
    rw [list, Set.disjoint_left]
    rintro location inStatus ⟨block, listed, inside⟩
    simp only [mem_range, processSize, List.mem_cons, List.not_mem_nil, or_false] at *
    omega
  · intro _ address listed pointer freed
    have isBlock := freedPointers_sample list kernel child listed freed
    simp only [sampleBlocks, List.mem_cons, List.not_mem_nil, or_false] at isBlock
    apply disjoint_range
    simp only [Heap.headerSize]
    omega

end Samples

theorem processWait_reaps_one_killed :
    AfterInit bootTable ∧ ValidRun bootTable killedChild ∧
      pidsTaken bootTable killedChild < 2 ^ 31 - 2 ∧
      (killedChild.foldl Call.run bootTable).currentProcess = some 0x1010 ∧
      Holds (sampleKernel 2) (killedChild.foldl Call.run bootTable) ∧
      StatusApart (killedChild.foldl Call.run bootTable) 0x5000 ∧
      ∃ result after, (∀ fuel, 2 < fuel →
          processWait fuel (sampleKernel 2) 0x1010 0x5000 = some (result, after)) ∧
        (0 < result ∨ result = -1 ∨ result = 0) := by
  have valid : ValidRun bootTable killedChild := ⟨bootFork_valid, trivial, trivial⟩
  have holds : Holds (sampleKernel 2) (killedChild.foldl Call.run bootTable) :=
    sampleKernel_holds rfl rfl rfl (by decide)
  have apart : StatusApart (killedChild.foldl Call.run bootTable) 0x5000 :=
    @sample_statusApart _ 2 rfl rfl rfl
  rcases processWait_reaps_one bootTable_afterInit killedChild valid (by decide) rfl holds apart
    with ⟨result, after, run, outcome, _⟩
  exact ⟨bootTable_afterInit, valid, by decide, rfl, holds, apart, result, after, run, outcome⟩

/-- A run that creates one process, whose pid reads as -1 when its parent has reaped it. -/
theorem processWait_reaps_without_pid :
    ∃ calls kernel after, ValidRun bootTable calls ∧ created bootTable calls = 1 ∧
      (calls.foldl Call.run bootTable).currentProcess = some 0x1010 ∧
      Holds kernel (calls.foldl Call.run bootTable) ∧
      (∀ fuel, 2 < fuel → processWait fuel kernel 0x1010 0 = some (-1, after)) ∧
      zombieChild kernel.memory 0x1010 kernel.processList ∧
      after.processList ≠ kernel.processList := by
  rcases exists_fork_at_pid (by decide : 0xFFFFFFFF < 2 ^ 32) [.kill 0xFFFFFFFF 9] with
    ⟨calls, run, valid, one⟩
  have holds : Holds (sampleKernel 0xFFFFFFFF)
      ((Call.kill 0xFFFFFFFF 9).run (forkedAt 0xFFFFFFFF)) :=
    sampleKernel_holds rfl rfl rfl (by decide)
  rcases @Holds.exists_processWait _ _ 0x1010 0 holds (by decide) ⟨by simp, by simp⟩ with
    ⟨result, after, waited, _⟩
  have outcome : (processWait 3 (sampleKernel 0xFFFFFFFF) 0x1010 0).map
      (fun reaped => (reaped.1, reaped.2.processList)) = some (-1, 0x1010) := by decide +kernel
  rw [waited 3 (by decide)] at outcome
  simp only [Option.map_some, Option.some.injEq, Prod.mk.injEq] at outcome
  rcases outcome with ⟨rfl, first⟩
  refine ⟨calls, sampleKernel 0xFFFFFFFF, after, valid.mpr ⟨trivial, trivial⟩, one, ?_⟩
  rw [run]
  exact ⟨rfl, holds, waited, by decide +kernel, by rw [first]; decide⟩

end Reaping

end RamOS.Proc
