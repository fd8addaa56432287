import Mathlib.Data.List.Nodup
import Mathlib.Data.List.Perm.Subperm
import RamOS.Proc.Lifecycle

/-!
# Listing the processes

`sys_getprocs` does not walk over the process list: it asks for the pids from 0 to 255 one
after the other. A process with a higher pid is not listed, however few processes there
are, and of two processes with the same pid only the first one is.
-/

namespace RamOS.Proc

/-- `proc_info_t`. -/
structure ProcInfo where
  pid : ℕ
  ppid : ℕ
  state : ProcessState
  name : Bytes
  memoryUsed : ℕ
  cpuTime : ℕ
deriving DecidableEq

def procInfo (ticks : ℕ) (process : Process) : ProcInfo where
  pid := process.pid
  ppid := process.parentPid
  state := process.state
  name := process.name.take 63
  memoryUsed := 0
  cpuTime := Word32.sub ticks process.startTime

/-- The loop of `sys_getprocs` with the number of pids left; `ticks` is the timer's answer at each
pid. -/
def getprocsLoop (table : Table) (ticks : ℕ → ℕ) (maxCount : ℤ) :
    ℕ → ℕ → List ProcInfo → List ProcInfo
  | 0, _, procs => procs
  | left + 1, pid, procs =>
    if (procs.length : ℤ) < maxCount then
      match processGetByPid table pid with
      | some process =>
        getprocsLoop table ticks maxCount left (pid + 1)
          (procs ++ [procInfo (ticks pid) (table.record process)])
      | none => getprocsLoop table ticks maxCount left (pid + 1) procs
    else procs

/-- `sys_getprocs`: the result, and the records in the buffer. -/
def sysGetprocs (table : Table) (ticks : ℕ → ℕ) (procsBuf : ℕ) (maxCount : ℤ) :
    ℤ × List ProcInfo :=
  if procsBuf = 0 ∨ maxCount ≤ 0 then (-1, [])
  else
    let procs := getprocsLoop table ticks maxCount 256 0 []
    (procs.length, procs)

def processCount (table : Table) : ℤ := table.processList.foldl (fun count _ => count + 1) 0

/-- The result counts the processes, and the records describe each of them once. -/
def ListsAll (table : Table) (ticks : ℕ → ℕ) (answer : ℤ × List ProcInfo) : Prop :=
  answer.1 = processCount table ∧
    answer.2.Perm (table.processList.map fun process =>
      procInfo (ticks (table.record process).pid) (table.record process))

def foundProcesses (table : Table) (start count : ℕ) : List ℕ :=
  (List.range' start count).filterMap (processGetByPid table)

variable {table : Table} {ticks : ℕ → ℕ} {start count process : ℕ}

theorem processCount_eq (table : Table) : processCount table = table.processList.length := by
  have counted (processes : List ℕ) (sum : ℤ) :
      processes.foldl (fun count _ => count + 1) sum = sum + processes.length := by
    induction processes generalizing sum with
    | nil => simp
    | cons process processes ih =>
      rw [List.foldl_cons, ih, List.length_cons]
      omega
  rw [processCount, counted, zero_add]

theorem getprocsLoop_eq {procs : List ProcInfo} {maxCount : ℕ} (fits : procs.length ≤ maxCount) :
    getprocsLoop table ticks maxCount count start procs =
      (procs ++ (foundProcesses table start count).map fun process =>
        procInfo (ticks (table.record process).pid) (table.record process)).take maxCount := by
  induction count generalizing start procs with
  | zero => simp [getprocsLoop, foundProcesses, fits]
  | succ count ih =>
    rw [getprocsLoop]
    split
    next room =>
      rw [foundProcesses, List.range'_succ]
      cases found : processGetByPid table start with
      | none =>
        rw [List.filterMap_cons_none found]
        exact ih fits
      | some process =>
        rw [List.filterMap_cons_some found, List.map_cons,
          (processGetByPid_eq_some found).2]
        dsimp only
        rw [ih (by rw [List.length_append, List.length_singleton]; omega), List.append_assoc]
        rfl
    next full => rw [List.take_left' (by omega)]

theorem mem_foundProcesses :
    process ∈ foundProcesses table 0 count ↔ (table.record process).pid < count ∧
      processGetByPid table (table.record process).pid = some process := by
  simp only [foundProcesses, List.mem_filterMap, List.mem_range'_1, Nat.zero_add, Nat.zero_le,
    true_and]
  constructor
  · rintro ⟨pid, below, found⟩
    rw [(processGetByPid_eq_some found).2]
    exact ⟨below, found⟩
  · exact fun found => ⟨_, found⟩

theorem nodup_foundProcesses : (foundProcesses table start count).Nodup := by
  refine List.Nodup.filterMap ?_ List.nodup_range'
  intro one two process foundOne foundTwo
  exact (processGetByPid_eq_some foundOne).2.symm.trans (processGetByPid_eq_some foundTwo).2

theorem foundProcesses_subperm : (foundProcesses table 0 count).Subperm table.processList := by
  refine nodup_foundProcesses.subperm fun process found => ?_
  exact (processGetByPid_eq_some (mem_foundProcesses.mp found).2).1

theorem processGetByPid_pid (distinct : (table.processList.map fun process =>
      (table.record process).pid).Nodup) (listed : process ∈ table.processList) :
    processGetByPid table (table.record process).pid = some process := by
  cases found : processGetByPid table (table.record process).pid with
  | none =>
    have missing := List.find?_eq_none.mp found process listed
    simp at missing
  | some first =>
    rcases processGetByPid_eq_some found with ⟨firstListed, same⟩
    rw [List.inj_on_of_nodup_map distinct firstListed listed same]

theorem foundProcesses_perm_iff :
    (foundProcesses table 0 count).Perm table.processList ↔
      (∀ process ∈ table.processList, (table.record process).pid < count) ∧
        (table.processList.map fun process => (table.record process).pid).Nodup := by
  constructor
  · intro perm
    constructor
    · exact fun process listed => (mem_foundProcesses.mp (perm.mem_iff.mpr listed)).1
    · refine (perm.map _).nodup_iff.mp (List.Nodup.map_on ?_ nodup_foundProcesses)
      intro one foundOne two foundTwo same
      have first := (mem_foundProcesses.mp foundOne).2
      rw [same, (mem_foundProcesses.mp foundTwo).2, Option.some.injEq] at first
      exact first.symm
  · rintro ⟨below, distinct⟩
    refine (List.perm_ext_iff_of_nodup nodup_foundProcesses distinct.of_map).mpr fun process => ?_
    constructor
    · exact fun found => foundProcesses_subperm.subset found
    · exact fun listed => mem_foundProcesses.mpr
        ⟨below process listed, processGetByPid_pid distinct listed⟩

theorem sysGetprocs_eq {procsBuf : ℕ} {maxCount : ℤ} (buffer : procsBuf ≠ 0)
    (room : processCount table ≤ maxCount) (positive : 0 < maxCount) :
    sysGetprocs table ticks procsBuf maxCount =
      (((foundProcesses table 0 256).length : ℤ), (foundProcesses table 0 256).map fun process =>
        procInfo (ticks (table.record process).pid) (table.record process)) := by
  rw [processCount_eq] at room
  rcases Int.eq_ofNat_of_zero_le positive.le with ⟨size, rfl⟩
  have enough : (foundProcesses table 0 256).length ≤ size := by
    have most := (@foundProcesses_subperm table 256).length_le
    omega
  rw [sysGetprocs, if_neg (by omega), getprocsLoop_eq (Nat.zero_le _), List.nil_append,
    List.take_of_length_le (by rwa [List.length_map])]
  dsimp only
  rw [List.length_map]

theorem listsAll_foundProcesses_iff :
    ListsAll table ticks (((foundProcesses table 0 256).length : ℤ),
        (foundProcesses table 0 256).map fun process =>
          procInfo (ticks (table.record process).pid) (table.record process)) ↔
      (foundProcesses table 0 256).Perm table.processList := by
  rw [ListsAll, processCount_eq]
  constructor
  · rintro ⟨counted, _⟩
    exact foundProcesses_subperm.perm_of_length_le (by omega)
  · exact fun perm => ⟨by rw [perm.length_eq], perm.map _⟩

/-- With room for all processes, `sys_getprocs` lists them all exactly when the buffer is not
empty and the pids are distinct and below 256. -/
theorem sysGetprocs_listsAll_iff (table : Table) (ticks : ℕ → ℕ) {procsBuf : ℕ} {maxCount : ℤ}
    (buffer : procsBuf ≠ 0) (room : processCount table ≤ maxCount) :
    ListsAll table ticks (sysGetprocs table ticks procsBuf maxCount) ↔
      0 < maxCount ∧ (∀ process ∈ table.processList, (table.record process).pid < 256) ∧
        (table.processList.map fun process => (table.record process).pid).Nodup := by
  by_cases positive : 0 < maxCount
  · rw [sysGetprocs_eq buffer room positive, listsAll_foundProcesses_iff, foundProcesses_perm_iff,
      and_iff_right positive]
  · have refused : sysGetprocs table ticks procsBuf maxCount = (-1, []) := by
      rw [sysGetprocs, if_pos (Or.inr (by omega))]
    rw [refused, ListsAll, processCount_eq]
    constructor
    · rintro ⟨counted, _⟩
      omega
    · rintro ⟨nonempty, _⟩
      exact absurd nonempty positive

/-- The kernel and a child that it has forked. -/
def forkedTable : Table := bootFork.run bootTable

theorem sysGetprocs_listsAll_iff_forked :
    processCount forkedTable = 2 ∧
      ListsAll forkedTable (fun _ => 7) (sysGetprocs forkedTable (fun _ => 7) 0x5000 4) :=
  ⟨by decide, (sysGetprocs_listsAll_iff forkedTable (fun _ => 7) (by decide) (by decide)).mpr
    (by decide)⟩

/-- After 254 failed forks the next child has the pid 256, and is not listed. -/
theorem sysGetprocs_misses_child :
    ∃ calls, ValidRun bootTable calls ∧ created bootTable calls = 1 ∧
      processCount (calls.foldl Call.run bootTable) = 2 ∧
      (sysGetprocs (calls.foldl Call.run bootTable) (fun _ => 7) 0x5000 2).1 = 1 := by
  rcases exists_fork_at_pid (by decide : 256 < 2 ^ 32) [] with ⟨calls, result, valid, one⟩
  refine ⟨calls, valid.mpr trivial, one, ?_⟩
  rw [result]
  decide +kernel

/-- As long as at most 254 pids have been taken, every process is listed. -/
theorem listsAll_of_few_pids {first : Table} (begins : AfterInit first) {calls : List Call}
    (valid : ValidRun first calls) (few : pidsTaken first calls ≤ 254) {procsBuf : ℕ}
    {maxCount : ℤ} (buffer : procsBuf ≠ 0) (positive : 0 < maxCount)
    (room : processCount (calls.foldl Call.run first) ≤ maxCount) :
    ListsAll (calls.foldl Call.run first) ticks
      (sysGetprocs (calls.foldl Call.run first) ticks procsBuf maxCount) := by
  rcases begins.invariant with ⟨initial, small⟩
  rcases initial.run calls valid (by omega) with ⟨invariant, next⟩
  rw [sysGetprocs_eq buffer room positive, listsAll_foundProcesses_iff, foundProcesses_perm_iff]
  refine ⟨fun process listed => ?_, invariant.sound.pids⟩
  have below := invariant.pid_lt process listed
  omega

theorem listsAll_forkedTable :
    ListsAll forkedTable (fun _ => 7) (sysGetprocs forkedTable (fun _ => 7) 0x5000 4) := by
  exact @listsAll_of_few_pids _ _ bootTable_afterInit [bootFork] ⟨bootFork_valid, trivial⟩
    (by decide) _ _ (by decide) (by decide) (by decide)

end RamOS.Proc
