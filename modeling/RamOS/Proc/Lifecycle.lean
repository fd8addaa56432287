import RamOS.Proc.Effects

/-!
# The life of a process

Processes are created, forked, executed, ended, reaped and switched by calls in any
order, with allocations that may fail. This file follows whole runs of such calls
from `process_init`. Pids come from a 32-bit counter that a failing fork advances as
well, so that they stay distinct as long as the counter has not wrapped.
-/

namespace RamOS.Proc

structure Invariant (table : Table) : Prop extends Orderly table where
  pid_lt : ∀ address ∈ table.processList, (table.record address).pid < table.nextPid
  pid_injective : ∀ left ∈ table.processList, ∀ right ∈ table.processList,
    (table.record left).pid = (table.record right).pid → left = right

def IsZombie (table : Table) (address pid : ℕ) : Prop :=
  address ∈ table.processList ∧ (table.record address).state = .zombie ∧
    (table.record address).pid = pid

variable {table after : Table} {process : ℕ} {call : Call}

theorem Invariant.of_kept (invariant : Invariant table) (orderly : Orderly after)
    (kept : ∀ address ∈ after.processList, address ∈ table.processList ∧
      (after.record address).pid = (table.record address).pid)
    (counter : table.nextPid ≤ after.nextPid) : Invariant after where
  toOrderly := orderly
  pid_lt address listed := by
    rcases kept address listed with ⟨wasListed, same⟩
    rw [same]
    exact (invariant.pid_lt address wasListed).trans_le counter
  pid_injective left leftListed right rightListed equal := by
    rcases kept left leftListed with ⟨wasLeft, sameLeft⟩
    rcases kept right rightListed with ⟨wasRight, sameRight⟩
    rw [sameLeft, sameRight] at equal
    exact invariant.pid_injective left wasLeft right wasRight equal

theorem Invariant.of_added (invariant : Invariant table) (added : Added table after process)
    (counter : after.nextPid = table.nextPid + 1) : Invariant after := by
  have below (address : ℕ) (listed : address ∈ table.processList) :
      (after.record address).pid < table.nextPid := by
    rw [added.old listed]
    exact invariant.pid_lt address listed
  have pid := added.pid
  refine ⟨added.orderly invariant.toOrderly, ?_, ?_⟩
  · intro address listed
    rw [added.processList, List.mem_cons] at listed
    rcases listed with rfl | listed
    · omega
    · have := below address listed
      omega
  · intro left leftListed right rightListed same
    rw [added.processList, List.mem_cons] at leftListed rightListed
    rcases leftListed with rfl | leftListed <;> rcases rightListed with rfl | rightListed
    · rfl
    · have := below right rightListed
      omega
    · have := below left leftListed
      omega
    · rw [added.old leftListed, added.old rightListed] at same
      exact invariant.pid_injective left leftListed right rightListed same

structure Served (table : Table) (call : Call) : Prop where
  invariant : Invariant (call.run table)
  nextPid : (call.run table).nextPid = table.nextPid + call.pids table
  zombie : ∀ address pid, IsZombie table address pid →
    IsZombie (call.run table) address pid ∨
      call = .wait ∧ address ∉ (call.run table).processList

theorem run_nextPid (table : Table) (call : Call)
    (room : table.nextPid + call.pids table < 2 ^ 32) :
    (call.run table).nextPid = table.nextPid + call.pids table := by
  cases call with
  | create name allocation directory ticks =>
    cases allocation with
    | none => rfl
    | some taken => exact Word32.add_eq room
  | fork allocation clone ticks =>
    cases isCurrent : table.currentProcess with
    | none => cases allocation <;> simp [Call.run, sysFork, Call.pids, isCurrent]
    | some parent =>
      rw [fork_run_eq isCurrent]
      cases allocation with
      | none => rfl
      | some taken =>
        simp only [Call.pids, isCurrent, Option.isSome_some, if_true] at room ⊢
        rw [← Word32.add_eq room]
        simp only [processFork, allocProcess]
        split <;> rfl
  | exec entry argv =>
    simp only [Call.run, sysExec, processExec]
    split
    · rfl
    · split <;> rfl
  | exit code =>
    simp only [Call.run, sysExit]
    split
    · rfl
    · exact (processExit_ended table _ code).nextPid
  | wait =>
    simp only [Call.run, sysWait, processWait]
    repeat' split
    all_goals rfl
  | kill pid signal =>
    simp only [Call.run, sysKill, processKill]
    repeat' split
    all_goals first | rfl | exact (processExit_ended table _ signal).nextPid
  | switch next => exact (processSwitch_fields table next).2.1

theorem eq_wait_of_reaps {child : ℕ} (reaps : call.deed table = .reaps child) : call = .wait := by
  revert reaps
  fun_cases Call.deed table call <;> first | exact fun _ => rfl | exact fun reaps => nomatch reaps

theorem Invariant.served (invariant : Invariant table) (valid : call.Valid table)
    (room : table.nextPid + call.pids table < 2 ^ 32) : Served table call := by
  have next := run_nextPid table call room
  have orderly := invariant.toOrderly.run valid
  have effect := invariant.toOrderly.effect valid
  refine ⟨?_, next, ?_⟩
  · cases deed : call.deed table with
    | nothing =>
      rw [deed] at effect
      refine invariant.of_kept orderly (fun address listed => ?_) (by omega)
      rw [effect.processList] at listed
      exact ⟨listed, effect.pid address listed⟩
    | adds process =>
      rw [deed] at effect
      have counter := effect.nextPid
      exact invariant.of_added effect (by simp only [Word32.add] at counter; omega)
    | ends process code =>
      rw [deed] at effect
      refine invariant.of_kept orderly (fun address listed => ?_) (by omega)
      rw [effect.2.processList] at listed
      exact ⟨listed, by rw [effect.2.record]⟩
    | reaps child =>
      rw [deed] at effect
      refine invariant.of_kept orderly (fun address listed => ?_) (by omega)
      rw [effect.processList] at listed
      exact ⟨List.mem_of_mem_erase listed, by rw [effect.record]⟩
    | blocks process =>
      rw [deed] at effect
      refine invariant.of_kept orderly (fun address listed => ?_) (by omega)
      rw [effect.table] at listed ⊢
      exact ⟨listed, modify_keeps Process.pid rfl address⟩
  · rintro address pid ⟨listed, isZombie, hasPid⟩
    cases deed : call.deed table with
    | nothing =>
      rw [deed] at effect
      exact Or.inl ⟨effect.processList ▸ listed, (effect.zombie address listed).mpr isZombie,
        (effect.pid address listed).trans hasPid⟩
    | adds process =>
      rw [deed] at effect
      rw [IsZombie, Added.old effect listed, effect.processList]
      exact Or.inl ⟨List.mem_cons_of_mem _ listed, isZombie, hasPid⟩
    | ends process code =>
      rw [deed] at effect
      refine Or.inl ⟨effect.2.processList ▸ listed, effect.2.zombie_iff.mpr (Or.inr isZombie), ?_⟩
      rwa [effect.2.record]
    | reaps child =>
      rw [deed] at effect
      rw [IsZombie, effect.record]
      by_cases stays : address ∈ (call.run table).processList
      · exact Or.inl ⟨stays, isZombie, hasPid⟩
      · exact Or.inr ⟨eq_wait_of_reaps deed, stays⟩
    | blocks process =>
      rw [deed] at effect
      have different : address ≠ process := by
        rintro rfl
        exact invariant.current_alive _ effect.isCurrent isZombie
      rw [IsZombie, effect.table, modify_record_of_ne different]
      exact Or.inl ⟨listed, isZombie, hasPid⟩

theorem processInit_invariant (record : ℕ → Process) (taken : Allocation)
    (directory kernelDirectory ticks : ℕ) :
    Invariant (processInit record taken directory kernelDirectory ticks) ∧
      (processInit record taken directory kernelDirectory ticks).nextPid = 2 := by
  refine ⟨⟨⟨?_, ?_, ?_, ?_⟩, ?_, ?_⟩, rfl⟩
  all_goals simp [processInit, processCreate, allocProcess, Table.modify, Word32.add]

/-- The table after `process_init`, with or without memory for the kernel process. -/
inductive AfterInit : Table → Prop
  | kernel (record : ℕ → Process) (taken : Allocation) (directory kernelDirectory ticks : ℕ) :
      AfterInit (processInit record taken directory kernelDirectory ticks)
  | empty (record : ℕ → Process) :
      AfterInit { record, processList := [], currentProcess := none, nextPid := 1 }

theorem AfterInit.invariant (start : AfterInit table) : Invariant table ∧ table.nextPid ≤ 2 := by
  cases start with
  | kernel record taken directory kernelDirectory ticks =>
    rcases processInit_invariant record taken directory kernelDirectory ticks with
      ⟨invariant, next⟩
    exact ⟨invariant, next.le⟩
  | empty record =>
    refine ⟨⟨⟨List.nodup_nil, ?_, ?_, ?_⟩, ?_, ?_⟩, by simp⟩
    all_goals simp

theorem AfterInit.orderly (start : AfterInit table) : Orderly table := start.invariant.1.toOrderly

theorem Invariant.run (invariant : Invariant table) (calls : List Call)
    (valid : ValidRun table calls) (room : table.nextPid + pidsTaken table calls < 2 ^ 32) :
    Invariant (calls.foldl Call.run table) ∧
      (calls.foldl Call.run table).nextPid = table.nextPid + pidsTaken table calls := by
  induction calls generalizing table with
  | nil => exact ⟨invariant, rfl⟩
  | cons call calls ih =>
    simp only [pidsTaken] at room
    have served := invariant.served valid.1 (by omega)
    have next := served.nextPid
    rcases ih served.invariant valid.2 (by omega) with ⟨kept, taken⟩
    refine ⟨kept, ?_⟩
    rw [List.foldl_cons, taken, pidsTaken]
    omega

theorem Invariant.zombie_run (invariant : Invariant table) (calls : List Call)
    (valid : ValidRun table calls) (room : table.nextPid + pidsTaken table calls < 2 ^ 32)
    {address pid : ℕ} (isZombie : IsZombie table address pid) :
    IsZombie (calls.foldl Call.run table) address pid ∨
      ∃ before later, calls = before ++ .wait :: later ∧
        IsZombie (before.foldl Call.run table) address pid ∧
        address ∉ (Call.wait.run (before.foldl Call.run table)).processList := by
  induction calls generalizing table with
  | nil => exact Or.inl isZombie
  | cons call calls ih =>
    simp only [pidsTaken] at room
    have served := invariant.served valid.1 (by omega)
    have next := served.nextPid
    rcases served.zombie address pid isZombie with stays | ⟨rfl, removed⟩
    · rcases ih served.invariant valid.2 (by omega) stays with kept | ⟨before, later, rfl, found⟩
      · exact Or.inl kept
      · exact Or.inr ⟨call :: before, later, rfl, found⟩
    · exact Or.inr ⟨[], calls, rfl, isZombie, removed⟩

structure Sound (table : Table) : Prop where
  pids : (table.processList.map fun address => (table.record address).pid).Nodup
  current : ∀ address, table.currentProcess = some address →
    address ∈ table.processList ∧ (table.record address).state ≠ .zombie
  running : ∀ address ∈ table.processList, (table.record address).state = .running →
    table.currentProcess = some address

theorem Invariant.sound (invariant : Invariant table) : Sound table where
  pids := List.Nodup.map_on invariant.pid_injective invariant.nodup
  current := fun address isCurrent =>
    ⟨invariant.current_mem address isCurrent, invariant.current_alive address isCurrent⟩
  running := invariant.running

theorem validRun_append (calls later : List Call) :
    ValidRun table (calls ++ later) ↔
      ValidRun table calls ∧ ValidRun (calls.foldl Call.run table) later := by
  induction calls generalizing table with
  | nil => simp [ValidRun]
  | cons call calls ih => simp [ValidRun, ih, and_assoc]

theorem pidsTaken_append (calls later : List Call) :
    pidsTaken table (calls ++ later) =
      pidsTaken table calls + pidsTaken (calls.foldl Call.run table) later := by
  induction calls generalizing table with
  | nil => simp [pidsTaken]
  | cons call calls ih => simp [pidsTaken, ih, Nat.add_assoc]

/-- After any calls that leave the counter room, pids are distinct, the current process is a live
one of the list, only it is running, and a zombie stays one until a wait takes it out of the list.
-/
theorem reachable_sound (record : ℕ → Process) (taken : Allocation)
    (directory kernelDirectory ticks : ℕ) (calls later : List Call)
    (valid : ValidRun (processInit record taken directory kernelDirectory ticks) (calls ++ later))
    (room : pidsTaken (processInit record taken directory kernelDirectory ticks)
      (calls ++ later) < 2 ^ 32 - 2) :
    Sound (calls.foldl Call.run
      (processInit record taken directory kernelDirectory ticks)) ∧
    ∀ address pid,
      IsZombie (calls.foldl Call.run
        (processInit record taken directory kernelDirectory ticks)) address pid →
      IsZombie ((calls ++ later).foldl Call.run
        (processInit record taken directory kernelDirectory ticks)) address pid ∨
      ∃ before remaining, later = before ++ .wait :: remaining ∧
        IsZombie ((calls ++ before).foldl Call.run
          (processInit record taken directory kernelDirectory ticks)) address pid ∧
        address ∉ ((calls ++ before ++ [Call.wait]).foldl Call.run
          (processInit record taken directory kernelDirectory ticks)).processList := by
  rcases processInit_invariant record taken directory kernelDirectory ticks with
    ⟨initial, counter⟩
  generalize processInit record taken directory kernelDirectory ticks = start
    at valid room initial counter ⊢
  rcases (validRun_append calls later).mp valid with ⟨validCalls, validLater⟩
  rw [pidsTaken_append] at room
  rcases initial.run calls validCalls (by omega) with ⟨reached, next⟩
  refine ⟨reached.sound, ?_⟩
  intro address pid isZombie
  rcases reached.zombie_run later validLater (by omega) isZombie with
    stays | ⟨before, remaining, split, found, removed⟩
  · left
    rwa [List.foldl_append]
  · right
    refine ⟨before, remaining, split, ?_, ?_⟩
    · rwa [List.foldl_append]
    · rwa [List.foldl_append, List.foldl_append]

def bootTable : Table :=
  processInit (fun _ => clearedProcess 0) ⟨0x1010, 0x1190⟩ 0x400000 0x400000 0

theorem bootTable_afterInit : AfterInit bootTable := .kernel _ _ _ _ _

def bootFork : Call := .fork (some ⟨0x1220, 0x13A0⟩) 0x402000 5

theorem bootFork_valid : bootFork.Valid bootTable := by
  rintro taken ⟨⟩
  decide

/-- A fork, and a child that is killed before its parent waits. -/
def killedChild : List Call := [bootFork, .kill 2 9]

theorem reachable_sound_after_kill :
    ValidRun bootTable (killedChild ++ [.wait]) ∧
      pidsTaken bootTable (killedChild ++ [.wait]) < 2 ^ 32 - 2 ∧
      Sound (killedChild.foldl Call.run bootTable) := by
  have valid : ValidRun bootTable (killedChild ++ [.wait]) :=
    ⟨bootFork_valid, trivial, trivial, trivial⟩
  exact ⟨valid, by decide, (reachable_sound (fun _ => clearedProcess 0) ⟨0x1010, 0x1190⟩ 0x400000
    0x400000 0 killedChild [.wait] valid (by decide)).1⟩

/-- The counter after forks that got a process structure but no page directory; `leftover` is what
the last of them wrote into the structure. -/
def spentTable (leftover : Process) (pid : ℕ) : Table :=
  { bootTable with
    record := Function.update bootTable.record 0x1220 leftover
    nextPid := pid }

def forkedAt (pid : ℕ) : Table :=
  bootFork.run { bootTable with nextPid := pid }

def bootChild : Process := (forkedAt 2).record 0x1220

theorem failedFork_spentTable (leftover : Process) (pid : ℕ) :
    ∃ next, (Call.fork (some ⟨0x1220, 0x13A0⟩) 0 5).run (spentTable leftover pid) =
      spentTable next (Word32.add pid 1) :=
  ⟨_, by
    simp only [Call.run, sysFork, processFork, allocProcess, clonedDirectory, Table.modify,
      spentTable, Function.update_idem]
    rfl⟩

theorem fork_spentTable (leftover : Process) (pid : ℕ) :
    bootFork.run (spentTable leftover pid) = forkedAt pid := by
  simp only [forkedAt, bootFork, Call.run, sysFork, processFork, allocProcess, clonedDirectory,
    Table.modify, spentTable, Function.update_idem]
  rfl

def forksThen (count : ℕ) (later : List Call) : List Call :=
  List.replicate count (.fork (some ⟨0x1220, 0x13A0⟩) 0 5) ++ bootFork :: later

theorem forksThen_run (later : List Call) (leftover : Process) {pid : ℕ} (word : pid < 2 ^ 32)
    (count : ℕ) :
    (forksThen count later).foldl Call.run (spentTable leftover pid) =
        later.foldl Call.run (forkedAt ((pid + count) % 2 ^ 32)) ∧
      (ValidRun (spentTable leftover pid) (forksThen count later) ↔
        ValidRun (forkedAt ((pid + count) % 2 ^ 32)) later) ∧
      created (spentTable leftover pid) (forksThen count later) =
        1 + created (forkedAt ((pid + count) % 2 ^ 32)) later := by
  have spent (leftover pid) : (spentTable leftover pid).processList = [0x1010] := rfl
  have bootFork_spent (leftover pid) : bootFork.Valid (spentTable leftover pid) := bootFork_valid
  have forked (pid) : (forkedAt pid).processList = [0x1220, 0x1010] := rfl
  induction count generalizing leftover pid with
  | zero =>
    have next : (pid + 0) % 2 ^ 32 = pid := Nat.mod_eq_of_lt word
    rw [next]
    simp [forksThen, ValidRun, created, bootFork_spent, fork_spentTable, spent, forked]
  | succ count ih =>
    rcases failedFork_spentTable leftover pid with ⟨next, result⟩
    have kept := ih next (Word32.add_lt pid 1)
    have sum : (Word32.add pid 1 + count) % 2 ^ 32 = (pid + (count + 1)) % 2 ^ 32 := by
      simp only [Word32.add]
      omega
    rw [sum] at kept
    simpa [forksThen, List.replicate_succ, ValidRun, created, Call.Valid, result, spent] using kept

/-- Failed forks bring the counter to any value, which is the pid of the next child. -/
theorem exists_fork_at_pid {pid : ℕ} (word : pid < 2 ^ 32) (later : List Call) :
    ∃ calls, calls.foldl Call.run bootTable = later.foldl Call.run (forkedAt pid) ∧
      (ValidRun bootTable calls ↔ ValidRun (forkedAt pid) later) ∧
      created bootTable calls = 1 + created (forkedAt pid) later := by
  have boot : spentTable (bootTable.record 0x1220) 2 = bootTable := by
    rw [spentTable, Function.update_eq_self]
    rfl
  have run := forksThen_run later (bootTable.record 0x1220) (by decide : 2 < 2 ^ 32)
    ((pid + 2 ^ 32 - 2) % 2 ^ 32)
  have reached : (2 + (pid + 2 ^ 32 - 2) % 2 ^ 32) % 2 ^ 32 = pid := by omega
  rw [boot, reached] at run
  exact ⟨_, run⟩

/-- Two processes get the pid 0 in a run that creates one: the other pids have gone to failed
forks. -/
theorem pids_repeat_after_failed_forks :
    ∃ calls, ValidRun bootTable calls ∧ created bootTable calls < 2 ^ 32 - 2 ∧
      ¬Sound (calls.foldl Call.run bootTable) := by
  rcases exists_fork_at_pid (Nat.two_pow_pos 32) [] with ⟨calls, result, valid, one⟩
  refine ⟨calls, valid.mpr trivial, by simp [one, created], ?_⟩
  rw [result]
  intro sound
  have distinct : [0, 0].Nodup := sound.pids
  exact absurd distinct (by decide)

end RamOS.Proc
