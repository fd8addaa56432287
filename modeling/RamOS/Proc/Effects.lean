import Mathlib.Data.List.Nodup
import RamOS.Lib.Runs
import RamOS.Lib.Slice
import RamOS.Proc.Model

/-!
# What a call does to the process table

A call ends a process, reaps a child, blocks its caller, adds a process, or
leaves the listed processes as they are apart from who runs. This is said once
here, field by field, and holds whatever the pids are: also after the counter
has wrapped and two processes share a pid.
-/

namespace RamOS.Proc

/-- Calls into the process manager, with what the rest of the kernel answers. A wait stores the
status of the child through a pointer of the caller, which is taken to lead outside of the process
records. -/
inductive Call
  | create (name : Bytes) (allocation : Option Allocation) (directory ticks : ℕ)
  | fork (allocation : Option Allocation) (clone ticks : ℕ)
  | exec (entry : ℕ) (argv : Option (List Bytes))
  | exit (code : ℤ)
  | wait
  | kill (pid : ℕ) (signal : ℤ)
  | switch (next : ℕ)

def Call.run (table : Table) : Call → Table
  | .create name allocation directory ticks =>
    (processCreate table name allocation directory ticks).2
  | .fork allocation clone ticks => (sysFork table allocation clone ticks).2
  | .exec entry argv => (sysExec table entry argv).2
  | .exit code => (sysExit table code).2
  | .wait => (sysWait table).2.2
  | .kill pid signal => (sysKill table pid signal).2
  | .switch next => processSwitch table next

/-- The heap hands out unused memory, and the scheduler switches to ready processes of the list.
-/
def Call.Valid (table : Table) : Call → Prop
  | .create _ allocation _ _ | .fork allocation _ _ =>
    ∀ taken, allocation = some taken → taken.process ∉ table.processList
  | .switch next => next ∈ table.processList ∧ (table.record next).state = .ready
  | _ => True

def ValidRun : Table → List Call → Prop
  | _, [] => True
  | table, call :: calls => call.Valid table ∧ ValidRun (call.run table) calls

def Call.pids (table : Table) : Call → ℕ
  | .create _ (some _) _ _ => 1
  | .fork (some _) _ _ => if table.currentProcess.isSome then 1 else 0
  | _ => 0

def pidsTaken : Table → List Call → ℕ
  | _, [] => 0
  | table, call :: calls => call.pids table + pidsTaken (call.run table) calls

def created : Table → List Call → ℕ
  | _, [] => 0
  | table, call :: calls =>
    ((call.run table).processList.length - table.processList.length) +
      created (call.run table) calls

/-- What a call does to the listed processes, apart from choosing who runs. -/
inductive Deed
  | nothing
  | adds (process : ℕ)
  | ends (process : ℕ) (code : ℤ)
  | reaps (child : ℕ)
  | blocks (process : ℕ)

def Call.deed (table : Table) : Call → Deed
  | .create _ (some taken) _ _ => .adds taken.process
  | .fork (some taken) clone _ =>
    match table.currentProcess with
    | none => .nothing
    | some parent =>
      if clonedDirectory (table.record parent) clone = 0 then .nothing
      else .adds taken.process
  | .exit code =>
    match table.currentProcess with
    | none => .nothing
    | some process => .ends process code
  | .wait =>
    match table.currentProcess with
    | none => .nothing
    | some process =>
      match table.processList.find? (zombieChild table (table.record process).pid) with
      | some child => .reaps child
      | none =>
        if table.processList.any fun address =>
            (table.record address).parentPid = (table.record process).pid then
          .blocks process
        else .nothing
  | .kill pid signal =>
    if pid = 0 then .nothing
    else
      match processGetByPid table pid with
      | none => .nothing
      | some process => .ends process signal
  | _ => .nothing

/-- The exit of a process wakes this one, which waits for it. -/
def Wakes (table : Table) (process address : ℕ) : Prop :=
  address ≠ process ∧ (table.record process).parentPid ≠ 0 ∧
    processGetByPid table (table.record process).parentPid = some address ∧
    (table.record address).state = .blocked

instance (table : Table) (process address : ℕ) : Decidable (Wakes table process address) :=
  inferInstanceAs (Decidable (_ ∧ _))

/-- The parent that a process has after the exit of another one. -/
def adopted (table : Table) (process address : ℕ) : ℕ :=
  if address ∈ table.processList ∧
      (table.record address).parentPid = (table.record process).pid then 1
  else (table.record address).parentPid

/-- What the exit of a process with a code does. -/
structure Ended (table after : Table) (process : ℕ) (code : ℤ) : Prop where
  processList : after.processList = table.processList
  current : after.currentProcess =
    if table.currentProcess = some process then none else table.currentProcess
  nextPid : after.nextPid = table.nextPid
  record : ∀ address, after.record address =
    { table.record address with
      state := if address = process then .zombie
        else if Wakes table process address then .ready else (table.record address).state
      parentPid := adopted table process address
      exitCode := if address = process then code else (table.record address).exitCode }

/-- Nothing that tells the listed processes apart changes, none of them ends, revives or blocks,
and the current process is alive and runs alone. -/
structure Steady (table after : Table) : Prop where
  processList : after.processList = table.processList
  pid : ∀ address ∈ table.processList, (after.record address).pid = (table.record address).pid
  parentPid : ∀ address ∈ table.processList,
    (after.record address).parentPid = (table.record address).parentPid
  exitCode : ∀ address ∈ table.processList,
    (after.record address).exitCode = (table.record address).exitCode
  descriptors : ∀ address ∈ table.processList,
    (after.record address).descriptors = (table.record address).descriptors
  zombie : ∀ address ∈ table.processList,
    ((after.record address).state = .zombie ↔ (table.record address).state = .zombie)
  blocked : ∀ address ∈ table.processList, (after.record address).state = .blocked →
    (table.record address).state = .blocked
  running : ∀ address ∈ table.processList, (after.record address).state = .running →
    after.currentProcess = some address
  current : ∀ address, after.currentProcess = some address →
    address ∈ table.processList ∧ (table.record address).state ≠ .zombie

/-- A process structure is filled in and put in front of the list. Its open files, if any, are
those of the current process. -/
structure Added (table after : Table) (process : ℕ) : Prop where
  fresh : process ∉ table.processList
  frame : ∀ address ≠ process, after.record address = table.record address
  processList : after.processList = process :: table.processList
  current : after.currentProcess = table.currentProcess
  nextPid : after.nextPid = Word32.add table.nextPid 1
  pid : (after.record process).pid = table.nextPid
  parentPid : (after.record process).parentPid = currentPid table
  state : (after.record process).state = .ready
  descriptors : ∀ entry ∈ (after.record process).descriptors, entry = 0 ∨
    ∃ current, table.currentProcess = some current ∧ entry ∈ (table.record current).descriptors

/-- A zombie child of the current process leaves the list. -/
structure Reaped (table after : Table) (child : ℕ) : Prop where
  listed : child ∈ table.processList
  zombie : (table.record child).state = .zombie
  record : after.record = table.record
  current : after.currentProcess = table.currentProcess
  processList : after.processList = table.processList.erase child

/-- The current process, which has children and no zombie among them, waits. -/
structure Blocked (table after : Table) (process : ℕ) : Prop where
  isCurrent : table.currentProcess = some process
  alive : ∀ address ∈ table.processList,
    (table.record address).parentPid = (table.record process).pid →
      (table.record address).state ≠ .zombie
  table : after = table.modify process fun record => { record with state := .blocked }

def Effect (table after : Table) : Deed → Prop
  | .nothing => Steady table after
  | .adds process => Added table after process
  | .ends process code => process ∈ table.processList ∧ Ended table after process code
  | .reaps child => Reaped table after child
  | .blocks process => Blocked table after process

/-- What holds of the table whatever the pids are. -/
structure Orderly (table : Table) : Prop where
  nodup : table.processList.Nodup
  current_mem : ∀ address, table.currentProcess = some address → address ∈ table.processList
  current_alive : ∀ address, table.currentProcess = some address →
    (table.record address).state ≠ .zombie
  running : ∀ address ∈ table.processList, (table.record address).state = .running →
    table.currentProcess = some address

variable {table after : Table} {process address other : ℕ} {call : Call} {clone ticks : ℕ}
  {change : Process → Process}

@[simp]
theorem modify_record_self :
    (table.modify process change).record process = change (table.record process) := by
  simp [Table.modify]

theorem modify_record_of_ne (different : other ≠ process) :
    (table.modify process change).record other = table.record other := by
  simp [Table.modify, different]

theorem modify_keeps {α : Type} (field : Process → α)
    (kept : field (change (table.record process)) = field (table.record process)) (address : ℕ) :
    field ((table.modify process change).record address) = field (table.record address) := by
  by_cases same : address = process
  · rw [same, modify_record_self, kept]
  · rw [modify_record_of_ne same]

@[simp]
theorem modify_processList : (table.modify process change).processList = table.processList := rfl

@[simp]
theorem modify_currentProcess :
    (table.modify process change).currentProcess = table.currentProcess := rfl

@[simp]
theorem modify_nextPid : (table.modify process change).nextPid = table.nextPid := rfl

theorem processCreate_frame (table : Table) (name : Bytes) (taken : Allocation)
    (directory ticks : ℕ) : ∀ address ≠ taken.process,
      (processCreate table name (some taken) directory ticks).2.record address =
        table.record address := by
  intro address different
  simp [processCreate, allocProcess, Table.modify, different]

theorem processFork_frame (table : Table) (parent : ℕ) (taken : Allocation) (clone ticks : ℕ) :
    ∀ address ≠ taken.process,
      (processFork table parent (some taken) clone ticks).2.record address =
        table.record address := by
  intro address different
  simp only [processFork, allocProcess]
  split <;> simp [Table.modify, different]

theorem processFork_created {taken : Allocation}
    (present : (table.record process).pageDirectory ≠ 0) (cloned : clone ≠ 0)
    (different : process ≠ taken.process) :
    (processFork table process (some taken) clone ticks).1 = some taken.process ∧
      (processFork table process (some taken) clone ticks).2.processList =
        taken.process :: table.processList ∧
      ((processFork table process (some taken) clone ticks).2.record taken.process).pid =
        table.nextPid ∧
      ((processFork table process (some taken) clone ticks).2.record
        taken.process).pageDirectory = clone := by
  simp [processFork, allocProcess, clonedDirectory, modify_record_of_ne different, present, cloned]

theorem processSwitch_record (table : Table) (next address : ℕ) :
    (processSwitch table next).record address =
      if address = next then { table.record next with state := .running }
      else if table.currentProcess = some address ∧ (table.record address).state = .running then
        { table.record address with state := .ready }
      else table.record address := by
  unfold processSwitch
  by_cases isNext : address = next
  · subst isNext
    rw [if_pos rfl]
    simp only [modify_record_self]
    split
    · split
      next previous _ condition => rw [modify_record_of_ne condition.1.symm]
      · rfl
    · rfl
  · simp only [modify_record_of_ne isNext, if_neg isNext]
    cases table.currentProcess with
    | none => simp
    | some previous =>
      by_cases same : previous = address
      · subst same
        by_cases isRunning : (table.record previous).state = .running
        · simp [isNext, isRunning]
        · simp [isRunning]
      · have different : address ≠ previous := fun equal => same equal.symm
        simp only [Option.some.injEq, same, false_and, if_false]
        split
        · rw [modify_record_of_ne different]
        · rfl

theorem processSwitch_fields (table : Table) (next : ℕ) :
    (processSwitch table next).processList = table.processList ∧
      (processSwitch table next).nextPid = table.nextPid ∧
      (processSwitch table next).currentProcess = some next := by
  unfold processSwitch
  split
  · split <;> exact ⟨rfl, rfl, rfl⟩
  · exact ⟨rfl, rfl, rfl⟩

theorem processSwitch_keeps {α : Type} (field : Process → α)
    (kept : ∀ record state, field { record with state := state } = field record)
    (table : Table) (next address : ℕ) :
    field ((processSwitch table next).record address) = field (table.record address) := by
  rw [processSwitch_record]
  split
  next same => rw [kept, same]
  · split
    · rw [kept]
    · rfl

theorem fork_run_eq (isCurrent : table.currentProcess = some process)
    (allocation : Option Allocation) (clone ticks : ℕ) :
    (Call.fork allocation clone ticks).run table =
      (processFork table process allocation clone ticks).2 := by
  simp only [Call.run, sysFork, isCurrent]
  split <;> simp_all

theorem processGetByPid_congr (pid : ℕ) (sameList : after.processList = table.processList)
    (samePid : ∀ address, (after.record address).pid = (table.record address).pid) :
    processGetByPid after pid = processGetByPid table pid := by
  rw [processGetByPid, processGetByPid, sameList]
  simp only [samePid]

theorem processGetByPid_eq_some {pid : ℕ} (found : processGetByPid table pid = some address) :
    address ∈ table.processList ∧ (table.record address).pid = pid :=
  ⟨List.mem_of_find?_eq_some found, by simpa using List.find?_some found⟩

theorem wakeParent_record (table : Table) (parentPid address : ℕ) :
    (wakeParent table parentPid).record address =
      if parentPid ≠ 0 ∧ processGetByPid table parentPid = some address ∧
          (table.record address).state = .blocked then
        { table.record address with state := .ready }
      else table.record address := by
  by_cases kernel : parentPid = 0
  · simp [wakeParent, kernel]
  cases found : processGetByPid table parentPid with
  | none => simp [wakeParent, kernel, found]
  | some parent =>
    by_cases isBlocked : (table.record parent).state = .blocked
    · by_cases same : address = parent
      · subst same
        simp [wakeParent, kernel, found, isBlocked]
      · have other : parent ≠ address := Ne.symm same
        simp [wakeParent, kernel, found, isBlocked, modify_record_of_ne same, other]
    · by_cases same : parent = address
      · subst same
        simp [wakeParent, kernel, found, isBlocked]
      · simp [wakeParent, kernel, found, isBlocked, same]

theorem reparent_record (table : Table) (pid address : ℕ) :
    (reparent table pid).record address =
      if address ∈ table.processList ∧ (table.record address).parentPid = pid then
        { table.record address with parentPid := 1 }
      else table.record address := by
  rw [reparent]
  generalize table.processList = addresses
  induction addresses generalizing table with
  | nil => simp
  | cons first addresses ih =>
    rw [List.foldl_cons, ih]
    by_cases same : address = first
    · subst same
      by_cases isChild : (table.record address).parentPid = pid
      · simp [isChild]
      · simp [isChild]
    · by_cases isChild : (table.record first).parentPid = pid
      · simp [isChild, modify_record_of_ne same, same]
      · simp [isChild, same]

theorem record_exited (table : Table) (process : ℕ) (code : ℤ) (other : ℕ) :
    ((table.modify process fun record => { record with exitCode := code }).modify process
        fun record => { record with state := .zombie }).record other =
      { table.record other with
        state := if other = process then .zombie else (table.record other).state
        exitCode := if other = process then code else (table.record other).exitCode } := by
  by_cases same : other = process
  · subst same
    simp
  · simp [modify_record_of_ne same, same]

theorem record_woken {exited : Table} {code : ℤ}
    (exitedList : exited.processList = table.processList)
    (exitedRecord : ∀ other, exited.record other =
      { table.record other with
        state := if other = process then .zombie else (table.record other).state
        exitCode := if other = process then code else (table.record other).exitCode })
    (other : ℕ) :
    (wakeParent exited (table.record process).parentPid).record other =
      { exited.record other with
        state := if other = process then .zombie
          else if Wakes table process other then .ready else (table.record other).state } := by
  rw [wakeParent_record, processGetByPid_congr _ exitedList (fun _ => by rw [exitedRecord])]
  by_cases same : other = process
  · subst same
    simp [exitedRecord]
  · by_cases wakes : Wakes table process other
    · rw [if_pos ⟨wakes.2.1, wakes.2.2.1, by simpa [exitedRecord, same] using wakes.2.2.2⟩,
        if_neg same, if_pos wakes]
    · have asleep : ¬ ((table.record process).parentPid ≠ 0 ∧
          processGetByPid table (table.record process).parentPid = some other ∧
          (exited.record other).state = .blocked) := by
        rintro ⟨hasParent, found, isBlocked⟩
        exact wakes ⟨same, hasParent, found, by simpa [exitedRecord, same] using isBlocked⟩
      rw [if_neg asleep, if_neg same, if_neg wakes]
      simp [exitedRecord, same]

theorem wakeParent_fields (table : Table) (parentPid : ℕ) :
    (wakeParent table parentPid).processList = table.processList ∧
      (wakeParent table parentPid).currentProcess = table.currentProcess ∧
      (wakeParent table parentPid).nextPid = table.nextPid := by
  fun_cases wakeParent table parentPid <;> exact ⟨rfl, rfl, rfl⟩

theorem reparent_fields (table : Table) (pid : ℕ) :
    (reparent table pid).processList = table.processList ∧
      (reparent table pid).currentProcess = table.currentProcess ∧
      (reparent table pid).nextPid = table.nextPid := by
  unfold reparent
  refine List.foldlRecOn (motive := fun (after : Table) => after.processList = table.processList ∧
    after.currentProcess = table.currentProcess ∧ after.nextPid = table.nextPid)
    table.processList _ ⟨rfl, rfl, rfl⟩ fun after same address _ => ?_
  split <;> exact same

theorem processExit_ended (table : Table) (process : ℕ) (code : ℤ) :
    Ended table (processExit
      (table.modify process fun record => { record with exitCode := code }) process) process
      code := by
  have exitedRecord := record_exited table process code
  rw [processExit]
  generalize exitedEq : ((table.modify process fun record =>
    { record with exitCode := code }).modify process fun record =>
      { record with state := .zombie }) = exited at exitedRecord ⊢
  have exitedList : exited.processList = table.processList := by rw [← exitedEq]; rfl
  have wokenRecord := record_woken exitedList exitedRecord
  have sameParent : (exited.record process).parentPid = (table.record process).parentPid := by
    rw [exitedRecord]
  rw [sameParent]
  have woken := wakeParent_fields exited (table.record process).parentPid
  generalize wakeParent exited (table.record process).parentPid = wokenTable at *
  have samePid : (wokenTable.record process).pid = (table.record process).pid := by
    rw [wokenRecord, exitedRecord]
  rw [samePid]
  have orphaned := reparent_fields wokenTable (table.record process).pid
  have record (address : ℕ) : (reparent wokenTable (table.record process).pid).record address =
      { table.record address with
        state := if address = process then .zombie
          else if Wakes table process address then .ready else (table.record address).state
        parentPid := adopted table process address
        exitCode := if address = process then code else (table.record address).exitCode } := by
    rw [reparent_record, woken.1, exitedList, wokenRecord, exitedRecord]
    simp only [adopted]
    split <;> rfl
  rw [woken.1, woken.2.1, woken.2.2, exitedList, ← exitedEq] at orphaned
  generalize reparent wokenTable (table.record process).pid = after at orphaned record ⊢
  rcases orphaned with ⟨sameList, sameCurrent, sameNext⟩
  rw [sameCurrent]
  by_cases isCurrent : table.currentProcess = some process
  · rw [modify_currentProcess, modify_currentProcess, if_pos isCurrent]
    exact ⟨sameList, (if_pos isCurrent).symm, sameNext, record⟩
  · rw [modify_currentProcess, modify_currentProcess, if_neg isCurrent]
    exact ⟨sameList, sameCurrent.trans (if_neg isCurrent).symm, sameNext, record⟩

theorem Steady.of_unchanged (orderly : Orderly table) : Steady table table where
  processList := rfl
  pid := fun _ _ => rfl
  parentPid := fun _ _ => rfl
  exitCode := fun _ _ => rfl
  descriptors := fun _ _ => rfl
  zombie := fun _ _ => Iff.rfl
  blocked := fun _ _ => id
  running := orderly.running
  current := fun address isCurrent =>
    ⟨orderly.current_mem address isCurrent, orderly.current_alive address isCurrent⟩

theorem exec_steady (orderly : Orderly table) (isCurrent : table.currentProcess = some process)
    (entry stack : ℕ) :
    Steady table (table.modify process fun record =>
      { record with eip := entry, esp := stack, ebp := stack, state := .ready }) := by
  have alive := orderly.current_alive process isCurrent
  refine ⟨rfl, ?_, ?_, ?_, ?_, ?_, ?_, ?_, ?_⟩
  · exact fun address _ => modify_keeps Process.pid rfl address
  · exact fun address _ => modify_keeps Process.parentPid rfl address
  · exact fun address _ => modify_keeps Process.exitCode rfl address
  · exact fun address _ => modify_keeps Process.descriptors rfl address
  · intro address _
    by_cases same : address = process
    · simp [same, alive]
    · simp [modify_record_of_ne same]
  · intro address _
    by_cases same : address = process
    · simp [same]
    · simp [modify_record_of_ne same]
  · intro address listed
    by_cases same : address = process
    · simp [same]
    · rw [modify_record_of_ne same]
      exact orderly.running address listed
  · exact (Steady.of_unchanged orderly).current

theorem switch_steady (orderly : Orderly table) (member : process ∈ table.processList)
    (ready : (table.record process).state = .ready) :
    Steady table (processSwitch table process) := by
  rcases processSwitch_fields table process with ⟨sameList, -, current⟩
  have keeps {α : Type} (field : Process → α)
      (kept : ∀ record state, field { record with state := state } = field record) :=
    processSwitch_keeps field kept table process
  refine ⟨sameList, ?_, ?_, ?_, ?_, ?_, ?_, ?_, ?_⟩
  · exact fun address _ => keeps Process.pid (fun _ _ => rfl) address
  · exact fun address _ => keeps Process.parentPid (fun _ _ => rfl) address
  · exact fun address _ => keeps Process.exitCode (fun _ _ => rfl) address
  · exact fun address _ => keeps Process.descriptors (fun _ _ => rfl) address
  · intro address _
    rw [processSwitch_record]
    split
    next same => simp [same, ready]
    next =>
      split
      next ran => simp [ran.2]
      next => rfl
  · intro address _
    rw [processSwitch_record]
    split
    · simp
    · split
      · simp
      · exact id
  · intro address listed isRunning
    rw [processSwitch_record] at isRunning
    rw [current]
    split at isRunning
    next same => rw [same]
    next =>
      split at isRunning
      · simp at isRunning
      next idle => exact absurd ⟨orderly.running address listed isRunning, isRunning⟩ idle
  · intro address isCurrent
    rw [current] at isCurrent
    cases isCurrent
    exact ⟨member, by simp [ready]⟩

theorem Steady.of_frame (orderly : Orderly table) (fresh : process ∉ table.processList)
    (frame : ∀ address ≠ process, after.record address = table.record address)
    (sameList : after.processList = table.processList)
    (current : after.currentProcess = table.currentProcess) : Steady table after := by
  have old (address : ℕ) (listed : address ∈ table.processList) :
      after.record address = table.record address :=
    frame address fun same => fresh (same ▸ listed)
  have unchanged := Steady.of_unchanged orderly
  refine ⟨sameList, ?_, ?_, ?_, ?_, ?_, ?_, ?_, current ▸ unchanged.current⟩
  all_goals
    intro address listed
    rw [old address listed]
  · exact id
  · exact current ▸ orderly.running address listed

theorem fork_effect (orderly : Orderly table) {allocation : Option Allocation}
    (valid : (Call.fork allocation clone ticks).Valid table) :
    Effect table ((Call.fork allocation clone ticks).run table)
      ((Call.fork allocation clone ticks).deed table) := by
  cases isCurrent : table.currentProcess with
  | none =>
    have unchanged := Steady.of_unchanged orderly
    cases allocation with
    | none => simpa only [Call.run, sysFork, isCurrent]
    | some taken => simpa only [Call.run, Call.deed, sysFork, isCurrent]
  | some parent =>
    rw [fork_run_eq isCurrent]
    cases allocation with
    | none => exact Steady.of_unchanged orderly
    | some taken =>
      have fresh := valid taken rfl
      have different : parent ≠ taken.process := by
        rintro rfl
        exact fresh (orderly.current_mem _ isCurrent)
      have frame := processFork_frame table parent taken clone ticks
      simp only [Call.deed, isCurrent]
      simp only [processFork, allocProcess, modify_record_of_ne different] at frame ⊢
      split at frame
      next failed =>
        rw [if_pos failed, if_pos failed]
        exact Steady.of_frame orderly fresh frame rfl rfl
      next cloned =>
        rw [if_neg cloned, if_neg cloned]
        refine ⟨fresh, frame, rfl, rfl, rfl, ?_, ?_, ?_, ?_⟩
        · simp
        · simp [currentPid, isCurrent]
        · simp
        · intro entry isEntry
          simp only [modify_record_self, clearedProcess] at isEntry
          split at isEntry
          · exact Or.inl (List.eq_of_mem_replicate isEntry)
          · exact Or.inr ⟨parent, isCurrent, isEntry⟩

theorem wait_effect (orderly : Orderly table) :
    Effect table (Call.wait.run table) (Call.wait.deed table) := by
  cases isCurrent : table.currentProcess with
  | none =>
    simp only [Call.run, Call.deed, sysWait, isCurrent]
    exact Steady.of_unchanged orderly
  | some process =>
    cases found : table.processList.find? (zombieChild table (table.record process).pid) with
    | some child =>
      have isChild := List.find?_some found
      simp only [zombieChild, decide_eq_true_eq] at isChild
      simp only [Call.run, Call.deed, sysWait, isCurrent, processWait, found]
      refine ⟨List.mem_of_find?_eq_some found, isChild.2, rfl, isCurrent.symm, ?_⟩
      rcases Slice.exists_eraseP_eq found with ⟨front, back, split, erased⟩
      have nodup := orderly.nodup
      rw [split] at nodup
      have absent : child ∉ front := fun listed =>
        (List.disjoint_of_nodup_append nodup) listed (by simp)
      rw [erased, split, List.erase_append_right _ absent, List.erase_cons_head]
    | none =>
      simp only [Call.run, Call.deed, sysWait, isCurrent, processWait, found]
      split
      next =>
        refine ⟨isCurrent, fun address listed isChild isZombie => ?_, rfl⟩
        have passed := List.find?_eq_none.mp found address listed
        simp [zombieChild, isChild, isZombie] at passed
      next => exact Steady.of_unchanged orderly

theorem Orderly.effect (orderly : Orderly table) (valid : call.Valid table) :
    Effect table (call.run table) (call.deed table) := by
  cases call with
  | create name allocation directory ticks =>
    cases allocation with
    | none => exact Steady.of_unchanged orderly
    | some taken =>
      have fresh := valid taken rfl
      refine ⟨fresh, processCreate_frame table name taken directory ticks, rfl, rfl, rfl, ?_, ?_,
        ?_, ?_⟩
      · simp [Call.run, processCreate, allocProcess]
      · cases isCurrent : table.currentProcess with
        | none => simp [Call.run, processCreate, allocProcess, currentPid, isCurrent]
        | some current =>
          have different : current ≠ taken.process := by
            rintro rfl
            exact fresh (orderly.current_mem _ isCurrent)
          simp [Call.run, processCreate, allocProcess, currentPid, isCurrent,
            modify_record_of_ne different]
      · simp [Call.run, processCreate, allocProcess]
      · intro entry isEntry
        simp only [Call.run, processCreate, allocProcess, modify_record_self,
          clearedProcess] at isEntry
        exact Or.inl (List.eq_of_mem_replicate isEntry)
  | fork allocation clone ticks => exact fork_effect orderly valid
  | exec entry argv =>
    cases isCurrent : table.currentProcess with
    | none =>
      simp only [Call.run, sysExec, isCurrent]
      exact Steady.of_unchanged orderly
    | some process =>
      simp only [Call.run, sysExec, isCurrent, processExec]
      split
      · exact Steady.of_unchanged orderly
      · exact exec_steady orderly isCurrent _ _
  | exit code =>
    cases isCurrent : table.currentProcess with
    | none =>
      simp only [Call.run, Call.deed, sysExit, isCurrent]
      exact Steady.of_unchanged orderly
    | some process =>
      simp only [Call.run, Call.deed, sysExit, isCurrent]
      exact ⟨orderly.current_mem process isCurrent, processExit_ended table process code⟩
  | wait => exact wait_effect orderly
  | kill pid signal =>
    by_cases kernel : pid = 0
    · simp only [Call.run, Call.deed, sysKill, if_pos kernel]
      exact Steady.of_unchanged orderly
    · cases found : processGetByPid table pid with
      | none =>
        simp only [Call.run, Call.deed, sysKill, if_neg kernel, found]
        exact Steady.of_unchanged orderly
      | some process =>
        simp only [Call.run, Call.deed, sysKill, if_neg kernel, found, processKill]
        exact ⟨(processGetByPid_eq_some found).1, processExit_ended table process signal⟩
  | switch next => exact switch_steady orderly valid.1 valid.2

namespace Ended

variable {code : ℤ}

theorem zombie_iff (isEnded : Ended table after process code) :
    (after.record address).state = .zombie ↔
      address = process ∨ (table.record address).state = .zombie := by
  rw [isEnded.record]
  by_cases same : address = process
  · simp [same]
  · by_cases wakes : Wakes table process address
    · simp [same, wakes, wakes.2.2.2]
    · simp [same, wakes]

theorem blocked_iff (isEnded : Ended table after process code) :
    (after.record address).state = .blocked ↔
      address ≠ process ∧ ¬ Wakes table process address ∧
        (table.record address).state = .blocked := by
  rw [isEnded.record]
  by_cases same : address = process
  · simp [same]
  · by_cases wakes : Wakes table process address
    · simp [same, wakes]
    · simp [same, wakes]

end Ended

theorem Added.old (added : Added table after process) (listed : address ∈ table.processList) :
    after.record address = table.record address :=
  added.frame address fun same => added.fresh (same ▸ listed)

theorem Steady.orderly (steady : Steady table after) (orderly : Orderly table) : Orderly after := by
  refine ⟨steady.processList ▸ orderly.nodup, ?_, ?_, steady.processList ▸ steady.running⟩
  · intro address isCurrent
    rw [steady.processList]
    exact (steady.current address isCurrent).1
  · intro address isCurrent isZombie
    rcases steady.current address isCurrent with ⟨listed, alive⟩
    exact alive ((steady.zombie address listed).mp isZombie)

theorem Added.orderly (added : Added table after process) (orderly : Orderly table) :
    Orderly after := by
  refine ⟨?_, ?_, ?_, ?_⟩
  · rw [added.processList]
    exact List.nodup_cons.mpr ⟨added.fresh, orderly.nodup⟩
  · intro address isCurrent
    rw [added.current] at isCurrent
    rw [added.processList]
    exact List.mem_cons_of_mem _ (orderly.current_mem address isCurrent)
  · intro address isCurrent
    rw [added.current] at isCurrent
    rw [added.old (orderly.current_mem address isCurrent)]
    exact orderly.current_alive address isCurrent
  · intro address listed isRunning
    rw [added.processList, List.mem_cons] at listed
    rcases listed with rfl | listed
    · simp [added.state] at isRunning
    · rw [added.old listed] at isRunning
      exact added.current.trans (orderly.running address listed isRunning)

theorem Ended.orderly {code : ℤ} (ended : Ended table after process code)
    (orderly : Orderly table) : Orderly after := by
  have current (address : ℕ) : after.currentProcess = some address ↔
      address ≠ process ∧ table.currentProcess = some address := by
    rw [ended.current]
    grind
  refine ⟨ended.processList ▸ orderly.nodup, ?_, ?_, ?_⟩
  · intro address isCurrent
    rw [ended.processList]
    exact orderly.current_mem address ((current address).mp isCurrent).2
  · intro address isCurrent isZombie
    rcases (current address).mp isCurrent with ⟨different, wasCurrent⟩
    exact orderly.current_alive address wasCurrent
      ((ended.zombie_iff.mp isZombie).resolve_left different)
  · intro address listed isRunning
    rw [ended.processList] at listed
    rw [ended.record] at isRunning
    have different : address ≠ process := by
      rintro rfl
      simp at isRunning
    rw [if_neg different] at isRunning
    split at isRunning
    · cases isRunning
    · exact (current address).mpr ⟨different, orderly.running address listed isRunning⟩

theorem Reaped.orderly (reaped : Reaped table after process) (orderly : Orderly table) :
    Orderly after := by
  refine ⟨?_, ?_, ?_, ?_⟩
  · rw [reaped.processList]
    exact orderly.nodup.erase process
  · intro address isCurrent
    rw [reaped.current] at isCurrent
    rw [reaped.processList]
    refine (List.mem_erase_of_ne ?_).mpr (orderly.current_mem address isCurrent)
    rintro rfl
    exact orderly.current_alive _ isCurrent reaped.zombie
  · rw [reaped.current, reaped.record]
    exact orderly.current_alive
  · rw [reaped.current, reaped.record, reaped.processList]
    exact fun address listed => orderly.running address (List.mem_of_mem_erase listed)

theorem Blocked.orderly (blocked : Blocked table after process) (orderly : Orderly table) :
    Orderly after := by
  rw [blocked.table]
  refine ⟨orderly.nodup, orderly.current_mem, fun address isCurrent => ?_, fun address listed => ?_⟩
  · by_cases same : address = process
    · simp [same]
    · rw [modify_record_of_ne same]
      exact orderly.current_alive address isCurrent
  · by_cases same : address = process
    · simp [same]
    · rw [modify_record_of_ne same]
      exact orderly.running address listed

theorem Orderly.run (orderly : Orderly table) (valid : call.Valid table) :
    Orderly (call.run table) := by
  have effect := orderly.effect valid
  generalize call.deed table = deed at effect
  cases deed with
  | nothing => exact effect.orderly orderly
  | adds process => exact effect.orderly orderly
  | ends process code => exact effect.2.orderly orderly
  | reaps child => exact effect.orderly orderly
  | blocks process => exact effect.orderly orderly

theorem ValidRun.valid {calls : List Call} (valid : ValidRun table calls) :
    ∀ k (listed : k < calls.length), calls[k].Valid ((calls.take k).foldl Call.run table) := by
  induction calls generalizing table with
  | nil => exact fun k listed => absurd listed (Nat.not_lt_zero k)
  | cons call calls ih =>
    intro k listed
    cases k with
    | zero => exact valid.1
    | succ k => exact ih valid.2 k (Nat.lt_of_succ_lt_succ listed)

end RamOS.Proc
