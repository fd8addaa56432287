import RamOS.Heap.Model
import RamOS.Lib.AllocTrace
import RamOS.Proc.Lifecycle

/-!
# What the process manager gives back to the heap

`alloc_process` takes two blocks from the heap, and `free_process` gives back the descriptor
table, the page directory and the structure of a process. Page directories come from the frame
allocator, though. A ledger is the process table together with the calls of `kmalloc` and
`kfree` so far.
-/

namespace RamOS.Proc

open AllocTrace
open ByteMemory (range)

/-- What the two calls of `kmalloc` in `alloc_process` return. -/
structure Grants where
  process : ℕ
  fdTable : ℕ

def Grants.allocation (grants : Grants) : Option Allocation :=
  if grants.process = 0 ∨ grants.fdTable = 0 then none
  else some ⟨grants.process, grants.fdTable⟩

def Grants.events (grants : Grants) : List (Event ℕ) :=
  if grants.process = 0 then []
  else if grants.fdTable = 0 then [.alloc grants.process, .free grants.process]
  else [.alloc grants.process, .alloc grants.fdTable]

def freeProcessEvents (record : Process) (process : ℕ) : List (Event ℕ) :=
  (if record.fdTable = 0 then [] else [.free record.fdTable]) ++
    (if record.pageDirectory = 0 then [] else [.free record.pageDirectory]) ++ [.free process]

/-- The process table, and the calls of the heap that the process manager has made. -/
structure Ledger where
  table : Table
  trace : List (Event ℕ)

/-- Calls of the process manager; a fork says which blocks it took. -/
inductive ManagerCall
  | create (name : Bytes) (grants : Grants) (directory ticks : ℕ)
  | fork (parent : ℕ) (grants : Grants) (copies : List ℕ) (clone ticks : ℕ)
  | exit (process : ℕ)
  | kill (pid : ℕ) (signal : ℤ)
  | wait (process : ℕ)

def reapedChild (table : Table) (process : ℕ) : Option ℕ :=
  table.processList.find? (zombieChild table (table.record process).pid)

def ManagerCall.run (ledger : Ledger) : ManagerCall → Ledger
  | .create name grants directory ticks =>
    ⟨(processCreate ledger.table name grants.allocation directory ticks).2,
      ledger.trace ++ grants.events⟩
  | .fork parent grants copies clone ticks =>
    match processFork ledger.table parent grants.allocation clone ticks with
    | (some _, table) => ⟨table, ledger.trace ++ grants.events ++ copies.map .alloc⟩
    | (none, table) =>
      match grants.allocation with
      | none => ⟨table, ledger.trace ++ grants.events⟩
      | some taken =>
        ⟨table, ledger.trace ++ grants.events ++
          freeProcessEvents (table.record taken.process) taken.process⟩
  | .exit process => ⟨processExit ledger.table process, ledger.trace⟩
  | .kill pid signal => ⟨(processKill ledger.table pid signal).2, ledger.trace⟩
  | .wait process =>
    ⟨(processWait ledger.table process).2.2,
      ledger.trace ++
        match reapedChild ledger.table process with
        | some child => freeProcessEvents (ledger.table.record child) child
        | none => []⟩

def heapArea (region : Heap.Region) : Set ℕ := range region.start Heap.heapSize

/-- `kmalloc` hands out memory of the heap that is not in use. -/
structure Grants.Fresh (region : Heap.Region) (trace : List (Event ℕ)) (grants : Grants) :
    Prop where
  process : grants.process ≠ 0 → grants.process ∈ heapArea region ∧ ¬ Live trace grants.process
  fdTable : grants.process ≠ 0 → grants.fdTable ≠ 0 →
    grants.fdTable ∈ heapArea region ∧ ¬ Live trace grants.fdTable ∧
      grants.fdTable ≠ grants.process

/-- Processes are given by their addresses, `kmalloc` serves from the heap, and
`alloc_frame` from elsewhere. -/
def ManagerCall.Valid (region : Heap.Region) (ledger : Ledger) : ManagerCall → Prop
  | .create _ grants directory _ =>
    grants.Fresh region ledger.trace ∧ directory ∉ heapArea region
  | .fork parent grants copies clone _ =>
    parent ∈ ledger.table.processList ∧ grants.Fresh region ledger.trace ∧
      (∀ copied ∈ copies, copied ∈ heapArea region) ∧ clone ∉ heapArea region
  | .exit process | .wait process => process ∈ ledger.table.processList
  | .kill _ _ => True

/-- A process that is reaped has no page directory. -/
def ManagerCall.ReapsBare (ledger : Ledger) : ManagerCall → Prop
  | .wait process => ∀ child, reapedChild ledger.table process = some child →
      (ledger.table.record child).pageDirectory = 0
  | _ => True

def blocks (table : Table) : List ℕ :=
  table.processList.flatMap fun process => [process, (table.record process).fdTable]

/-- The listed processes hold separate live blocks, and page directories that are none. -/
structure Owns (region : Heap.Region) (ledger : Ledger) : Prop where
  nodup : (blocks ledger.table).Nodup
  live : ∀ block ∈ blocks ledger.table, Live ledger.trace block
  inHeap : ∀ pointer, Live ledger.trace pointer → pointer ∈ heapArea region
  directory : ∀ process ∈ ledger.table.processList,
    (ledger.table.record process).pageDirectory ∉ heapArea region

variable {region : Heap.Region} {ledger after : Ledger} {grants : Grants} {process child : ℕ}

theorem zero_notMem_heapArea (region : Heap.Region) : 0 ∉ heapArea region := by
  intro inside
  have positive := region.start_pos
  have lower : region.start ≤ 0 := inside.1
  omega

variable {table : Table} {taken : Allocation} {trace : List (Event ℕ)} {ticks parent : ℕ}

theorem mem_blocks {block : ℕ} :
    block ∈ blocks table ↔
      ∃ process ∈ table.processList, block = process ∨ block = (table.record process).fdTable := by
  simp [blocks]

/-- What `free_process` frees beside the record itself. -/
def Process.holdings (record : Process) : ℕ × ℕ := (record.fdTable, record.pageDirectory)

structure Kept (ledger after : Ledger) : Prop where
  processList : after.table.processList = ledger.table.processList
  holdings : ∀ process ∈ ledger.table.processList,
    (after.table.record process).holdings = (ledger.table.record process).holdings
  live : ∀ pointer, Live after.trace pointer ↔ Live ledger.trace pointer
  freesLive : FreesLive after.trace ↔ FreesLive ledger.trace

theorem Kept.owns (kept : Kept ledger after) (owns : Owns region ledger) : Owns region after := by
  have sameBlocks : blocks after.table = blocks ledger.table := by
    rw [blocks, blocks, kept.processList]
    refine List.flatMap_congr ?_
    intro process listed
    rw [(Prod.mk.inj (kept.holdings process listed)).1]
  refine ⟨?_, ?_, ?_, ?_⟩
  · rw [sameBlocks]
    exact owns.nodup
  · intro block listed
    rw [sameBlocks] at listed
    exact (kept.live block).mpr (owns.live block listed)
  · exact fun pointer isLive => owns.inHeap pointer ((kept.live pointer).mp isLive)
  · intro process listed
    rw [kept.processList] at listed
    rw [(Prod.mk.inj (kept.holdings process listed)).2]
    exact owns.directory process listed

structure Enters (region : Heap.Region) (ledger after : Ledger) (taken : Allocation) : Prop where
  processList : after.table.processList = taken.process :: ledger.table.processList
  frame : ∀ address ≠ taken.process, after.table.record address = ledger.table.record address
  fdTable : (after.table.record taken.process).fdTable = taken.fdTable
  directory : (after.table.record taken.process).pageDirectory ∉ heapArea region
  live : ∀ pointer, pointer = taken.process ∨ pointer = taken.fdTable ∨
    Live ledger.trace pointer → Live after.trace pointer
  inHeap : ∀ pointer, Live after.trace pointer →
    Live ledger.trace pointer ∨ pointer ∈ heapArea region
  fresh : ¬ Live ledger.trace taken.process ∧ ¬ Live ledger.trace taken.fdTable ∧
    taken.fdTable ≠ taken.process
  freesLive : FreesLive after.trace ↔ FreesLive ledger.trace

theorem Enters.owns (enters : Enters region ledger after taken) (owns : Owns region ledger) :
    Owns region after := by
  rcases enters.fresh with ⟨newProcess, newTable, different⟩
  have oldBlock {block : ℕ} (listed : block ∈ blocks ledger.table) :
      block ≠ taken.process ∧ block ≠ taken.fdTable := by
    constructor
    · rintro rfl
      exact newProcess (owns.live _ listed)
    · rintro rfl
      exact newTable (owns.live _ listed)
  have oldProcess {process : ℕ} (listed : process ∈ ledger.table.processList) :
      after.table.record process = ledger.table.record process :=
    enters.frame process (oldBlock (mem_blocks.mpr ⟨process, listed, Or.inl rfl⟩)).1
  have nextBlocks : blocks after.table =
      taken.process :: taken.fdTable :: blocks ledger.table := by
    rw [blocks, enters.processList, List.flatMap_cons, enters.fdTable]
    simp only [List.cons_append, List.nil_append, List.cons.injEq, true_and, blocks]
    refine List.flatMap_congr ?_
    intro process listed
    rw [oldProcess listed]
  refine ⟨?_, ?_, ?_, ?_⟩
  · rw [nextBlocks, List.nodup_cons, List.nodup_cons, List.mem_cons, not_or]
    exact ⟨⟨different.symm, fun listed => (oldBlock listed).1 rfl⟩,
      fun listed => (oldBlock listed).2 rfl, owns.nodup⟩
  · intro block listed
    rw [nextBlocks, List.mem_cons, List.mem_cons] at listed
    rcases listed with same | same | listed
    · exact enters.live block (Or.inl same)
    · exact enters.live block (Or.inr (Or.inl same))
    · exact enters.live block (Or.inr (Or.inr (owns.live block listed)))
  · intro pointer isLive
    rcases enters.inHeap pointer isLive with old | inside
    · exact owns.inHeap pointer old
    · exact inside
  · intro process listed
    rw [enters.processList, List.mem_cons] at listed
    rcases listed with rfl | listed
    · exact enters.directory
    · rw [oldProcess listed]
      exact owns.directory process listed

structure Leaves (ledger after : Ledger) (child : ℕ) : Prop where
  processList : ledger.table.processList.Perm (child :: after.table.processList)
  record : after.table.record = ledger.table.record
  trace : after.trace = ledger.trace ++ freeProcessEvents (ledger.table.record child) child

section Leaves

variable (leaves : Leaves ledger after child)

include leaves

theorem Leaves.blocks_perm :
    (blocks ledger.table).Perm
      (child :: (ledger.table.record child).fdTable :: blocks after.table) := by
  rw [blocks, blocks, leaves.record]
  exact leaves.processList.flatMap_right _

theorem Leaves.block_ne (owns : Owns region ledger) {block : ℕ}
    (listed : block ∈ blocks after.table) :
    block ≠ child ∧ block ≠ (ledger.table.record child).fdTable ∧ Live ledger.trace block := by
  have nodup := leaves.blocks_perm.nodup_iff.mp owns.nodup
  rw [List.nodup_cons, List.nodup_cons, List.mem_cons, not_or] at nodup
  refine ⟨?_, ?_, owns.live block (leaves.blocks_perm.mem_iff.mpr (by simp [listed]))⟩
  · rintro rfl
    exact nodup.1.2 listed
  · rintro rfl
    exact nodup.2.1 listed

theorem Leaves.own_blocks (owns : Owns region ledger) :
    Live ledger.trace child ∧ Live ledger.trace (ledger.table.record child).fdTable ∧
      child ≠ (ledger.table.record child).fdTable ∧ (ledger.table.record child).fdTable ≠ 0 := by
  have nodup := leaves.blocks_perm.nodup_iff.mp owns.nodup
  rw [List.nodup_cons, List.mem_cons, not_or] at nodup
  have tableLive : Live ledger.trace (ledger.table.record child).fdTable :=
    owns.live _ (leaves.blocks_perm.mem_iff.mpr (by simp))
  refine ⟨owns.live child (leaves.blocks_perm.mem_iff.mpr (by simp)), tableLive, nodup.1.1, ?_⟩
  intro null
  rw [null] at tableLive
  exact zero_notMem_heapArea region (owns.inHeap 0 tableLive)

theorem Leaves.mem : child ∈ ledger.table.processList :=
  leaves.processList.mem_iff.mpr (by simp)

theorem Leaves.trace_of_bare (owns : Owns region ledger)
    (bare : (ledger.table.record child).pageDirectory = 0) :
    after.trace =
      ledger.trace ++ [.free (ledger.table.record child).fdTable] ++ [.free child] := by
  rcases leaves.own_blocks owns with ⟨-, -, -, notNull⟩
  rw [leaves.trace, freeProcessEvents, if_neg notNull, if_pos bare]
  simp

theorem Leaves.owns (owns : Owns region ledger)
    (bare : (ledger.table.record child).pageDirectory = 0) : Owns region after := by
  have trace := leaves.trace_of_bare owns bare
  refine ⟨?_, ?_, ?_, ?_⟩
  · exact (leaves.blocks_perm.nodup_iff.mp owns.nodup).of_cons.of_cons
  · intro block listed
    rcases leaves.block_ne owns listed with ⟨notChild, notTable, isLive⟩
    rw [trace, live_concat_free, live_concat_free]
    exact ⟨notChild, notTable, isLive⟩
  · intro pointer isLive
    rw [trace, live_concat_free, live_concat_free] at isLive
    exact owns.inHeap pointer isLive.2.2
  · intro process listed
    rw [leaves.record]
    exact owns.directory process (leaves.processList.mem_iff.mpr (List.mem_cons_of_mem _ listed))

theorem Leaves.freesLive_iff (owns : Owns region ledger) (sound : FreesLive ledger.trace) :
    FreesLive after.trace ↔ (ledger.table.record child).pageDirectory = 0 := by
  rcases leaves.own_blocks owns with ⟨childLive, tableLive, different, notNull⟩
  constructor
  · intro freed
    by_contra hasDirectory
    rw [leaves.trace, freeProcessEvents, if_neg notNull, if_neg hasDirectory, ← List.append_assoc,
      ← List.append_assoc, freesLive_concat_free, freesLive_concat_free, live_concat_free] at freed
    exact owns.directory child leaves.mem (owns.inHeap _ freed.1.2.2)
  · intro bare
    rw [leaves.trace_of_bare owns bare, freesLive_concat_free, freesLive_concat_free,
      live_concat_free]
    exact ⟨⟨sound, tableLive⟩, different, childLive⟩

end Leaves

theorem Grants.allocation_eq_some (granted : grants.allocation = some taken) :
    grants.process = taken.process ∧ grants.fdTable = taken.fdTable ∧
      taken.process ≠ 0 ∧ taken.fdTable ≠ 0 := by
  rw [Grants.allocation] at granted
  split at granted
  · cases granted
  next notNull =>
    cases granted
    rw [not_or] at notNull
    exact ⟨rfl, rfl, notNull⟩

structure Taken (region : Heap.Region) (trace : List (Event ℕ)) (taken : Allocation) : Prop where
  process : taken.process ∈ heapArea region
  fdTable : taken.fdTable ∈ heapArea region
  fresh : ¬ Live trace taken.process ∧ ¬ Live trace taken.fdTable ∧
    taken.fdTable ≠ taken.process

theorem Grants.Fresh.allocated (fresh : grants.Fresh region trace)
    (granted : grants.allocation = some taken) :
    Taken region trace taken := by
  rcases Grants.allocation_eq_some granted with ⟨process, fdTable, hasProcess, hasTable⟩
  have freshProcess := fresh.process (by rwa [process])
  have freshTable := fresh.fdTable (by rwa [process]) (by rwa [fdTable])
  rw [process] at freshProcess freshTable
  rw [fdTable] at freshTable
  exact ⟨freshProcess.1, freshTable.1, freshProcess.2, freshTable.2⟩

theorem append_events (granted : grants.allocation = some taken) :
    trace ++ grants.events = trace ++ [.alloc taken.process] ++ [.alloc taken.fdTable] := by
  rcases Grants.allocation_eq_some granted with ⟨process, fdTable, hasProcess, hasTable⟩
  rw [Grants.events, process, fdTable, if_neg hasProcess, if_neg hasTable, List.append_cons]

theorem live_append_events {pointer : ℕ} (granted : grants.allocation = some taken) :
    Live (trace ++ grants.events) pointer ↔
      pointer = taken.fdTable ∨ pointer = taken.process ∨ Live trace pointer := by
  rw [append_events granted, live_concat_alloc, live_concat_alloc]

theorem freesLive_append_events (granted : grants.allocation = some taken) :
    FreesLive (trace ++ grants.events) ↔ FreesLive trace := by
  rw [append_events granted, freesLive_concat_alloc, freesLive_concat_alloc]

theorem kept_of_refused (refused : grants.allocation = none)
    (fresh : grants.Fresh region ledger.trace) :
    Kept ledger ⟨ledger.table, ledger.trace ++ grants.events⟩ := by
  rw [Grants.allocation] at refused
  split at refused
  next isNull =>
    rw [Grants.events]
    by_cases noProcess : grants.process = 0
    · rw [if_pos noProcess, List.append_nil]
      exact ⟨rfl, fun _ _ => rfl, fun _ => Iff.rfl, Iff.rfl⟩
    · have notLive := (fresh.process noProcess).2
      rw [if_neg noProcess, if_pos (isNull.resolve_left noProcess), List.append_cons]
      refine ⟨rfl, fun _ _ => rfl, fun pointer => ?_, ?_⟩
      · rw [live_concat_free, live_concat_alloc]
        constructor
        · rintro ⟨different, same | isLive⟩
          · exact absurd same different
          · exact isLive
        · refine fun isLive => ⟨?_, Or.inr isLive⟩
          rintro rfl
          exact notLive isLive
      · rw [freesLive_concat_free, live_concat_alloc, freesLive_concat_alloc]
        simp
  · cases refused

theorem Taken.enters {taken : Allocation} {table : Table} {copies : List ℕ}
    (isTaken : Taken region ledger.trace taken)
    (copiesInHeap : ∀ copied ∈ copies, copied ∈ heapArea region)
    (processList : table.processList = taken.process :: ledger.table.processList)
    (frame : ∀ address ≠ taken.process, table.record address = ledger.table.record address)
    (fdTable : (table.record taken.process).fdTable = taken.fdTable)
    (directory : (table.record taken.process).pageDirectory ∉ heapArea region) :
    Enters region ledger ⟨table, ledger.trace ++ [.alloc taken.process] ++
      [.alloc taken.fdTable] ++ copies.map .alloc⟩ taken := by
  refine ⟨processList, frame, fdTable, directory, ?_, ?_, isTaken.fresh, ?_⟩
  · intro pointer held
    rw [live_append_allocs, live_concat_alloc, live_concat_alloc]
    tauto
  · intro pointer isLive
    rw [live_append_allocs, live_concat_alloc, live_concat_alloc] at isLive
    rcases isLive with copied | rfl | rfl | old
    · exact Or.inr (copiesInHeap pointer copied)
    · exact Or.inr isTaken.fdTable
    · exact Or.inr isTaken.process
    · exact Or.inl old
  · rw [freesLive_append_allocs, freesLive_concat_alloc, freesLive_concat_alloc]

theorem create_enters {name : Bytes} {directory : ℕ} (granted : grants.allocation = some taken)
    (fresh : grants.Fresh region ledger.trace) (outside : directory ∉ heapArea region) :
    Enters region ledger ((ManagerCall.create name grants directory ticks).run ledger) taken := by
  have entered := @Taken.enters region ledger taken
    (processCreate ledger.table name (some taken) directory ticks).2 [] (fresh.allocated granted)
    (by simp) rfl (processCreate_frame _ _ _ _ _)
    (by simp [processCreate, allocProcess, clearedProcess])
    (by simpa [processCreate, allocProcess] using outside)
  rw [List.map_nil, List.append_nil] at entered
  simp only [ManagerCall.run, granted, append_events granted]
  exact entered

theorem Owns.parent_ne (owns : Owns region ledger) (listed : parent ∈ ledger.table.processList)
    (isTaken : Taken region ledger.trace taken) :
    parent ≠ taken.process := by
  rintro rfl
  exact isTaken.fresh.1 (owns.live _ (mem_blocks.mpr ⟨_, listed, Or.inl rfl⟩))

theorem fork_enters {clone : ℕ} {copies : List ℕ} (owns : Owns region ledger)
    (listed : parent ∈ ledger.table.processList) (granted : grants.allocation = some taken)
    (fresh : grants.Fresh region ledger.trace)
    (copiesInHeap : ∀ copied ∈ copies, copied ∈ heapArea region) (outside : clone ∉ heapArea region)
    (cloned : clonedDirectory (ledger.table.record parent) clone ≠ 0) :
    Enters region ledger ((ManagerCall.fork parent grants copies clone ticks).run ledger)
      taken := by
  have isTaken := fresh.allocated granted
  have different := owns.parent_ne listed isTaken
  have frame := processFork_frame ledger.table parent taken clone ticks
  have isClone : clonedDirectory (ledger.table.record parent) clone = clone := by
    rw [clonedDirectory] at cloned ⊢
    split at cloned
    · contradiction
    next present => rw [if_neg present]
  simp only [ManagerCall.run, granted, append_events granted]
  simp only [processFork, allocProcess, modify_record_of_ne different, if_neg cloned] at frame ⊢
  refine isTaken.enters copiesInHeap rfl frame ?_ ?_
  · simp [clearedProcess]
  · simpa [isClone] using outside

theorem fork_kept {clone : ℕ} {copies : List ℕ} (owns : Owns region ledger)
    (listed : parent ∈ ledger.table.processList) (granted : grants.allocation = some taken)
    (fresh : grants.Fresh region ledger.trace)
    (failed : clonedDirectory (ledger.table.record parent) clone = 0) :
    Kept ledger ((ManagerCall.fork parent grants copies clone ticks).run ledger) := by
  have isTaken := fresh.allocated granted
  have different := owns.parent_ne listed isTaken
  have hasTable := (Grants.allocation_eq_some granted).2.2.2
  have frame := processFork_frame ledger.table parent taken clone ticks
  simp only [ManagerCall.run, granted]
  simp only [processFork, allocProcess, modify_record_of_ne different, if_pos failed] at frame ⊢
  have freed (record : Process) (table : record.fdTable = taken.fdTable)
      (bare : record.pageDirectory = 0) : freeProcessEvents record taken.process =
        [.free taken.fdTable] ++ [.free taken.process] := by
    rw [freeProcessEvents, table, bare, if_neg hasTable, if_pos rfl]
    rfl
  rw [freed _ (by simp [clearedProcess]) (by simp [failed]), ← List.append_assoc]
  rcases isTaken.fresh with ⟨newProcess, newTable, apart⟩
  refine ⟨rfl, ?_, ?_, ?_⟩
  · exact fun process isListed => by rw [frame process (owns.parent_ne isListed isTaken)]
  · intro pointer
    rw [live_concat_free, live_concat_free, live_append_events granted]
    constructor
    · rintro ⟨notProcess, notTable, same | same | isLive⟩
      · exact absurd same notTable
      · exact absurd same notProcess
      · exact isLive
    · refine fun isLive => ⟨?_, ?_, Or.inr (Or.inr isLive)⟩
      · rintro rfl
        exact newProcess isLive
      · rintro rfl
        exact newTable isLive
  · rw [freesLive_concat_free, freesLive_concat_free, freesLive_append_events granted,
      live_concat_free, live_append_events granted, live_append_events granted]
    simp [apart.symm]

theorem kept_of_holdings (processList : table.processList = ledger.table.processList)
    (holdings : ∀ process,
      (table.record process).holdings = (ledger.table.record process).holdings) :
    Kept ledger ⟨table, ledger.trace⟩ :=
  ⟨processList, fun process _ => holdings process, fun _ => Iff.rfl, Iff.rfl⟩

theorem kept_of_ended {code : ℤ} (ended : Ended ledger.table table process code) :
    Kept ledger ⟨table, ledger.trace⟩ :=
  kept_of_holdings ended.processList fun address => by rw [ended.record]; rfl

theorem exit_kept (ledger : Ledger) (process : ℕ) :
    Kept ledger ((ManagerCall.exit process).run ledger) := by
  have ended := processExit_ended ledger.table process (ledger.table.record process).exitCode
  have stored : (ledger.table.modify process fun record =>
      { record with exitCode := (ledger.table.record process).exitCode }) = ledger.table := by
    simp [Table.modify]
  rw [stored] at ended
  exact kept_of_ended ended

theorem kill_kept (ledger : Ledger) (pid : ℕ) (signal : ℤ) :
    Kept ledger ((ManagerCall.kill pid signal).run ledger) := by
  simp only [ManagerCall.run, processKill]
  cases processGetByPid ledger.table pid with
  | none => exact kept_of_holdings rfl fun _ => rfl
  | some process => exact kept_of_ended (processExit_ended ledger.table process signal)

theorem wait_kept (waits : reapedChild ledger.table process = none) :
    Kept ledger ((ManagerCall.wait process).run ledger) := by
  simp only [ManagerCall.run, waits, List.append_nil]
  simp only [reapedChild] at waits
  simp only [processWait, waits]
  split
  · dsimp only
    exact kept_of_holdings rfl (modify_keeps Process.holdings rfl)
  · exact kept_of_holdings rfl fun _ => rfl

theorem wait_leaves (reaps : reapedChild ledger.table process = some child) :
    Leaves ledger ((ManagerCall.wait process).run ledger) child := by
  simp only [ManagerCall.run, reaps]
  simp only [reapedChild] at reaps
  rcases Slice.exists_eraseP_eq reaps with ⟨front, back, split, erased⟩
  simp only [processWait, reaps]
  refine ⟨?_, rfl, rfl⟩
  rw [erased, split]
  exact List.perm_middle

theorem Owns.run_cases (owns : Owns region ledger) {call : ManagerCall}
    (valid : call.Valid region ledger) :
    Kept ledger (call.run ledger) ∧ call.ReapsBare ledger ∨
      (∃ taken, Enters region ledger (call.run ledger) taken) ∧ call.ReapsBare ledger ∨
      ∃ child, Leaves ledger (call.run ledger) child ∧
        (call.ReapsBare ledger ↔ (ledger.table.record child).pageDirectory = 0) := by
  cases call with
  | create name grants directory ticks =>
    rcases valid with ⟨fresh, outside⟩
    cases granted : grants.allocation with
    | none =>
      left
      refine ⟨?_, trivial⟩
      simp only [ManagerCall.run, granted, processCreate, allocProcess]
      exact kept_of_refused granted fresh
    | some taken =>
      right
      left
      exact ⟨⟨taken, create_enters granted fresh outside⟩, trivial⟩
  | fork parent grants copies clone ticks =>
    rcases valid with ⟨listed, fresh, copiesInHeap, outside⟩
    cases granted : grants.allocation with
    | none =>
      left
      refine ⟨?_, trivial⟩
      simp only [ManagerCall.run, granted, processFork, allocProcess]
      exact kept_of_refused granted fresh
    | some taken =>
      by_cases failed : clonedDirectory (ledger.table.record parent) clone = 0
      · exact Or.inl ⟨fork_kept owns listed granted fresh failed, trivial⟩
      · right
        left
        exact ⟨⟨taken, fork_enters owns listed granted fresh copiesInHeap outside failed⟩,
          trivial⟩
  | exit process => exact Or.inl ⟨exit_kept ledger process, trivial⟩
  | kill pid signal => exact Or.inl ⟨kill_kept ledger pid signal, trivial⟩
  | wait process =>
    cases reaps : reapedChild ledger.table process with
    | none => exact Or.inl ⟨wait_kept reaps, by simp [ManagerCall.ReapsBare, reaps]⟩
    | some child =>
      right
      right
      refine ⟨child, wait_leaves reaps, ?_⟩
      simp only [ManagerCall.ReapsBare, reaps, Option.some.injEq, forall_eq']

inductive OpenedLedger (region : Heap.Region) : Ledger → Prop
  | kernel (record : ℕ → Process) (taken : Allocation) (directory kernelDirectory ticks : ℕ)
      (isTaken : Taken region [] taken) (outside : kernelDirectory ∉ heapArea region) :
      OpenedLedger region ⟨processInit record taken directory kernelDirectory ticks,
        [.alloc taken.process, .alloc taken.fdTable]⟩
  | empty (record : ℕ → Process) (grants : Grants) (refused : grants.allocation = none)
      (fresh : grants.Fresh region []) :
      OpenedLedger region ⟨{ record, processList := [], currentProcess := none, nextPid := 1 },
        grants.events⟩

theorem owns_nothing (region : Heap.Region) (record : ℕ → Process) :
    Owns region ⟨{ record, processList := [], currentProcess := none, nextPid := 1 }, []⟩ := by
  refine ⟨List.nodup_nil, ?_, ?_, ?_⟩
  · intro block listed
    cases listed
  · intro pointer isLive
    cases isLive.mem
  · intro process listed
    cases listed

theorem OpenedLedger.owns (opened : OpenedLedger region ledger) :
    Owns region ledger ∧ FreesLive ledger.trace := by
  cases opened with
  | kernel record taken directory kernelDirectory ticks isTaken outside =>
    have enters := @Taken.enters region
      ⟨{ record, processList := [], currentProcess := none, nextPid := 1 }, []⟩ taken
      (processInit record taken directory kernelDirectory ticks) [] isTaken (by simp) rfl
      (fun address different => by
        simp [processInit, processCreate, allocProcess, modify_record_of_ne different])
      (by simp [processInit, processCreate, allocProcess, clearedProcess])
      (by simpa [processInit, processCreate, allocProcess] using outside)
    exact ⟨enters.owns (owns_nothing region record), enters.freesLive.mpr freesLive_nil⟩
  | empty record grants refused fresh =>
    have kept := @kept_of_refused region
      ⟨{ record, processList := [], currentProcess := none, nextPid := 1 }, []⟩ grants refused fresh
    exact ⟨kept.owns (owns_nothing region record), kept.freesLive.mpr freesLive_nil⟩

/-- Only live pointers are freed along a run exactly when no call reaps a process that has a page
directory. -/
theorem kfree_live_iff (opened : OpenedLedger region ledger) {calls : List ManagerCall}
    (valid : ∀ k (listed : k < calls.length),
      calls[k].Valid region ((calls.take k).foldl ManagerCall.run ledger)) :
    (∀ k, FreesLive ((calls.take k).foldl ManagerCall.run ledger).trace) ↔
      ∀ k (listed : k < calls.length),
        calls[k].ReapsBare ((calls.take k).foldl ManagerCall.run ledger) := by
  refine @Runs.forall_take_iff _ _ ManagerCall.run ledger calls (Owns region)
    (fun ledger => FreesLive ledger.trace) (fun ledger call => call.Valid region ledger)
    (fun ledger call => call.ReapsBare ledger) opened.owns ?_ ?_ valid
  · intro ledger call owns isValid bare
    rcases owns.run_cases isValid with ⟨kept, -⟩ | ⟨⟨taken, enters⟩, -⟩ | ⟨child, leaves, isBare⟩
    · exact kept.owns owns
    · exact enters.owns owns
    · exact leaves.owns owns (isBare.mp bare)
  · intro ledger call owns sound isValid
    rcases owns.run_cases isValid with ⟨kept, bare⟩ | ⟨⟨taken, enters⟩, bare⟩ |
      ⟨child, leaves, isBare⟩
    · exact iff_of_true (kept.freesLive.mpr sound) bare
    · exact iff_of_true (enters.freesLive.mpr sound) bare
    · rw [isBare]
      exact leaves.freesLive_iff owns sound

def bootHeap : Heap.Region := ⟨0x1000, by decide, by decide⟩

def bootLedger : Ledger := ⟨bootTable, [.alloc 0x1010, .alloc 0x1190]⟩

theorem bootLedger_opened : OpenedLedger bootHeap bootLedger := by
  refine .kernel (fun _ => clearedProcess 0) ⟨0x1010, 0x1190⟩ 0x400000 0x400000 0 ⟨?_, ?_, ?_⟩ ?_
  · exact ⟨by decide, by decide⟩
  · exact ⟨by decide, by decide⟩
  · exact ⟨fun isLive => (nomatch isLive.mem), fun isLive => (nomatch isLive.mem), by decide⟩
  · exact fun inside => absurd inside.2 (by decide)

/-- A process for which there was no frame is created, killed and reaped. -/
def bareChild : List ManagerCall :=
  [.create [0x61] ⟨0x1220, 0x13A0⟩ 0 5, .kill 2 9, .wait 0x1010]

theorem kfree_live_bareChild :
    FreesLive (bareChild.foldl ManagerCall.run bootLedger).trace := by
  have live : ∀ k, FreesLive ((bareChild.take k).foldl ManagerCall.run bootLedger).trace := by
    refine (kfree_live_iff bootLedger_opened ?_).mpr ?_
    · intro k listed
      match k, listed with
      | 0, _ =>
        refine ⟨⟨fun _ => ⟨⟨by decide, by decide⟩, ?_⟩,
          fun _ _ => ⟨⟨by decide, by decide⟩, ?_, by decide⟩⟩, zero_notMem_heapArea _⟩
        · exact fun isLive => absurd isLive.mem (by decide)
        · exact fun isLive => absurd isLive.mem (by decide)
      | 1, _ => trivial
      | 2, _ => exact (by decide : 0x1010 ∈ ((bareChild.take 2).foldl ManagerCall.run
          bootLedger).table.processList)
    · intro k listed
      match k, listed with
      | 0, _ => trivial
      | 1, _ => trivial
      | 2, _ =>
        rintro child ⟨⟩
        decide
  exact live 3

/-- A forked child is reaped, and its page directory, a frame, is given to the heap. -/
theorem reaping_frees_frame :
    ¬ FreesLive ([.fork 0x1010 ⟨0x1220, 0x13A0⟩ [] 0x402000 5, .kill 2 9, .wait 0x1010].foldl
      ManagerCall.run bootLedger).trace := by
  intro sound
  have live := sound [.alloc 0x1010, .alloc 0x1190, .alloc 0x1220, .alloc 0x13A0, .free 0x13A0]
    0x402000 [.free 0x1220] (by decide)
  exact absurd live.mem (by decide)

end RamOS.Proc
