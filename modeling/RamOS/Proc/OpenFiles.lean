import RamOS.Proc.Lifecycle
import RamOS.Vfs.Isolation

/-!
# Open files and the end of a process

A process has a table of descriptors of its own, and `process_exit` closes the
descriptors that are entered there. The table that `sys_open` works on is the one of
the file system, which all processes share. Nothing is ever entered in the table of a
process, so that its end closes nothing.
-/

namespace RamOS.Proc

open RamOS.Vfs

/-- A process gets a descriptor from `sys_open`, one is closed by `sys_close`, or a process ends.
-/
inductive FileEvent
  | obtained (process fd : ℕ)
  | closed (fd : ℕ)
  | exited (process : ℕ)

/-- The processes, the descriptors, and the events, the last one first, which are not part of the
code. -/
structure Shared (Env : Type) where
  table : Table
  files : Files Env
  events : List FileEvent

inductive Request
  | processCall (call : Call)
  | openFile (path : Option Bytes) (flags : ℤ)
  | closeFile (fd : ℤ)

def exiting (table : Table) : Call → Option ℕ
  | .exit _ => table.currentProcess
  | .kill pid _ => if pid = 0 then none else processGetByPid table pid
  | _ => none

section Requests

variable {Env : Type} (api : Interface Env)

def closeDescriptors (process : Process) (files : Files Env) : Files Env :=
  process.descriptors.zipIdx.foldl
    (fun files slot =>
      if process.fdTable ≠ 0 ∧ slot.1 ≠ 0 then (vfsClose api files slot.2).2 else files)
    files

def sysOpen (kernel : Shared Env) (path : Option Bytes) (flags : ℤ) : Shared Env :=
  let result := vfsOpen api kernel.files path flags
  { kernel with
    files := result.2
    events :=
      match kernel.table.currentProcess with
      | some process =>
        if 0 ≤ result.1 then .obtained process result.1.toNat :: kernel.events else kernel.events
      | none => kernel.events }

def sysClose (kernel : Shared Env) (fd : ℤ) : Shared Env :=
  let result := vfsClose api kernel.files fd
  { kernel with
    files := result.2
    events := if result.1 = 0 then .closed fd.toNat :: kernel.events else kernel.events }

namespace Request

def run (kernel : Shared Env) : Request → Shared Env
  | processCall call =>
    match exiting kernel.table call with
    | none => { kernel with table := call.run kernel.table }
    | some process =>
      { table := call.run kernel.table
        files := closeDescriptors api (kernel.table.record process) kernel.files
        events := .exited process :: kernel.events }
  | openFile path flags => sysOpen api kernel path flags
  | closeFile fd => sysClose api kernel fd

def Valid (table : Table) : Request → Prop
  | processCall call => call.Valid table
  | openFile _ _ => table.currentProcess ≠ none
  | closeFile _ => True

end Request

inductive Running : Shared Env → Prop
  | start {table : Table} (booted : AfterInit table) (env : Env) :
      Running ⟨table, clearedFiles env, []⟩
  | step {kernel : Shared Env} (earlier : Running kernel) (request : Request)
      (valid : request.Valid kernel.table) : Running (request.run api kernel)

end Requests

/-- The processes that have obtained a descriptor and have not ended since. -/
def openers (fd : ℕ) : List FileEvent → List ℕ
  | [] => []
  | .obtained process other :: events =>
    if other = fd then process :: openers fd events else openers fd events
  | .exited process :: events => (openers fd events).filter (· ≠ process)
  | .closed _ :: events => openers fd events

/-- The descriptor has been handed out and not been closed by `sys_close` since. -/
def LeftOpen (fd : ℕ) : List FileEvent → Prop
  | [] => False
  | .obtained _ other :: events => other = fd ∨ LeftOpen fd events
  | .closed other :: events => other ≠ fd ∧ LeftOpen fd events
  | .exited _ :: events => LeftOpen fd events

def Unrecorded (table : Table) : Prop :=
  ∀ address ∈ table.processList, ∀ entry ∈ (table.record address).descriptors, entry = 0

variable {table after : Table} {process : ℕ}

theorem Unrecorded.of_same (unrecorded : Unrecorded table)
    (listed : ∀ address ∈ after.processList, address ∈ table.processList)
    (same : ∀ address ∈ table.processList,
      (after.record address).descriptors = (table.record address).descriptors) :
    Unrecorded after := by
  intro address isListed
  rw [same address (listed address isListed)]
  exact unrecorded address (listed address isListed)

theorem Unrecorded.run (unrecorded : Unrecorded table) (orderly : Orderly table) {call : Call}
    (valid : call.Valid table) : Unrecorded (call.run table) := by
  have effect := orderly.effect valid
  generalize call.deed table = deed at effect
  cases deed with
  | nothing =>
    exact unrecorded.of_same (fun _ listed => effect.processList ▸ listed) effect.descriptors
  | adds process =>
    intro address listed entry isEntry
    rw [effect.processList, List.mem_cons] at listed
    rcases listed with rfl | listed
    · rcases effect.descriptors entry isEntry with isZero | ⟨current, isCurrent, copied⟩
      · exact isZero
      · exact unrecorded current (orderly.current_mem current isCurrent) entry copied
    · rw [Added.old effect listed] at isEntry
      exact unrecorded address listed entry isEntry
  | ends process code =>
    refine unrecorded.of_same (fun _ listed => effect.2.processList ▸ listed) fun address _ => ?_
    rw [effect.2.record]
  | reaps child =>
    rw [Unrecorded, effect.processList, effect.record]
    exact fun address listed => unrecorded address (List.mem_of_mem_erase listed)
  | blocks process =>
    rw [effect.table]
    exact unrecorded.of_same (fun _ listed => listed) fun address _ =>
      modify_keeps Process.descriptors rfl address

theorem AfterInit.unrecorded (booted : AfterInit table) : Unrecorded table := by
  cases booted with
  | kernel record taken directory kernelDirectory ticks =>
    intro address listed entry isEntry
    rw [List.mem_singleton.mp listed] at isEntry
    simp only [processInit, processCreate, allocProcess, modify_record_self,
      clearedProcess] at isEntry
    exact List.eq_of_mem_replicate isEntry
  | empty record => exact fun address listed => absurd listed List.not_mem_nil

section Runs

variable {Env : Type} {api : Interface Env} {kernel : Shared Env}

theorem closeDescriptors_of_zero {process : Process}
    (zero : ∀ entry ∈ process.descriptors, entry = 0) (files : Files Env) :
    closeDescriptors api process files = files := by
  have each : ∀ slot ∈ process.descriptors.zipIdx, slot.1 = 0 := by
    intro slot listed
    exact zero slot.1 (List.fst_mem_of_mem_zipIdx listed)
  rw [closeDescriptors]
  generalize process.descriptors.zipIdx = slots at each
  induction slots with
  | nil => rfl
  | cons slot slots ih =>
    have empty := each slot List.mem_cons_self
    rw [List.foldl_cons, if_neg (fun both => both.2 empty)]
    exact ih fun other listed => each other (List.mem_cons_of_mem slot listed)

theorem exiting_mem (orderly : Orderly table) {call : Call}
    (exits : exiting table call = some process) : process ∈ table.processList := by
  cases call with
  | exit code => exact orderly.current_mem process exits
  | kill pid signal =>
    simp only [exiting] at exits
    split at exits
    · cases exits
    · exact (processGetByPid_eq_some exits).1
  | create | fork | exec | wait | switch => cases exits

/-- An entry of the shared table is in use exactly if it has been left open. -/
structure Tracked (kernel : Shared Env) : Prop where
  orderly : Orderly kernel.table
  unrecorded : Unrecorded kernel.table
  inUse : ∀ fd, (kernel.files.fdTable fd).node ≠ 0 ↔ LeftOpen fd kernel.events

theorem Tracked.closeDescriptors (tracked : Tracked kernel) {call : Call}
    (exits : exiting kernel.table call = some process) :
    closeDescriptors api (kernel.table.record process) kernel.files = kernel.files :=
  closeDescriptors_of_zero (tracked.unrecorded process (exiting_mem tracked.orderly exits)) _

theorem Tracked.sysOpen (tracked : Tracked kernel) (present : kernel.table.currentProcess ≠ none)
    (path : Option Bytes) (flags : ℤ) : Tracked (sysOpen api kernel path flags) := by
  refine ⟨tracked.orderly, tracked.unrecorded, fun fd => ?_⟩
  rcases Option.ne_none_iff_exists'.mp present with ⟨process, isCurrent⟩
  simp only [Proc.sysOpen, isCurrent]
  cases path with
  | none => exact tracked.inUse fd
  | some path =>
    cases @vfsOpen_opens Env api kernel.files path flags with
    | failed code unchanged =>
      rw [unchanged, if_neg (by omega)]
      exact tracked.inUse fd
    | opened handed entry returned atLeast inside free ofNode nonzero replaced =>
      have isHanded : (vfsOpen api kernel.files (some path) flags).1.toNat = handed := by omega
      rw [if_pos (by omega), isHanded, replaced, LeftOpen, ← tracked.inUse fd]
      by_cases same : fd = handed
      · rw [same, Function.update_self, ofNode]
        exact iff_of_true nonzero (.inl rfl)
      · rw [Function.update_of_ne same]
        constructor
        · exact .inr
        · exact fun either => either.resolve_left fun equal => same equal.symm

theorem Tracked.sysClose (tracked : Tracked kernel) (fd : ℤ) :
    Tracked (sysClose api kernel fd) := by
  refine ⟨tracked.orderly, tracked.unrecorded, fun other => ?_⟩
  simp only [Proc.sysClose]
  cases found : kernel.files.openEntry fd with
  | none =>
    simp only [vfsClose, found]
    exact tracked.inUse other
  | some entry =>
    have returned : (vfsClose api kernel.files fd).1 = 0 := by simp only [vfsClose, found]
    rw [vfsClose_table found, if_pos returned, LeftOpen, ← tracked.inUse other]
    by_cases same : other = fd.toNat
    · rw [same, Function.update_self]
      exact iff_of_false (fun used => used rfl) fun both => both.1 rfl
    · rw [Function.update_of_ne same]
      constructor
      · exact fun used => ⟨fun equal => same equal.symm, used⟩
      · exact And.right

theorem Tracked.run (tracked : Tracked kernel) {request : Request}
    (valid : request.Valid kernel.table) : Tracked (request.run api kernel) := by
  cases request with
  | processCall call =>
    have orderly := tracked.orderly.run valid
    have unrecorded := tracked.unrecorded.run tracked.orderly valid
    cases exits : exiting kernel.table call with
    | none =>
      simp only [Request.run, exits]
      exact ⟨orderly, unrecorded, tracked.inUse⟩
    | some process =>
      simp only [Request.run, exits, tracked.closeDescriptors exits]
      exact ⟨orderly, unrecorded, tracked.inUse⟩
  | openFile path flags => exact tracked.sysOpen valid path flags
  | closeFile fd => exact tracked.sysClose fd

theorem Running.tracked (running : Running api kernel) : Tracked kernel := by
  induction running with
  | start booted env =>
    refine ⟨booted.orderly, booted.unrecorded, fun fd => ?_⟩
    exact iff_of_false (fun used => used rfl) id
  | step _ request valid ih => exact ih.run valid

end Runs

/-- A descriptor is free again once every process that has obtained it has ended. -/
def Released {Env : Type} (kernel : Shared Env) : Prop :=
  ∀ fd, openers fd kernel.events = [] → (kernel.files.fdTable fd).node = 0

/-- The end of a process leaves the descriptors of the others alone. -/
def SparesOthers {Env : Type} (api : Interface Env) (kernel : Shared Env) : Prop :=
  ∀ call process, exiting kernel.table call = some process →
    ∀ fd other, other ≠ process → other ∈ openers fd kernel.events →
      ((Request.processCall call).run api kernel).files.fdTable fd = kernel.files.fdTable fd

/-- The end of a process never closes a descriptor of another one, and descriptors are released
exactly as far as `sys_close` closes each before the last process that has obtained it ends. -/
theorem exit_releases_iff {Env : Type} {api : Interface Env} {kernel : Shared Env}
    (running : Running api kernel) :
    (Released kernel ∧ SparesOthers api kernel) ↔
      ∀ fd, LeftOpen fd kernel.events → openers fd kernel.events ≠ [] := by
  have tracked := running.tracked
  have spares : SparesOthers api kernel := by
    intro call process exits fd other _ _
    simp only [Request.run, exits, tracked.closeDescriptors exits]
  constructor
  · rintro ⟨released, -⟩ fd leftOpen ended
    exact (tracked.inUse fd).mpr leftOpen (released fd ended)
  · intro closed
    refine ⟨fun fd ended => ?_, spares⟩
    by_contra used
    exact closed fd ((tracked.inUse fd).mp used) ended

/-- The only path that leads to a node is `/a`. -/
def oneFile : Interface Unit where
  finddir := fun _ path => (if path = CString.ascii "/a" then 1 else 0, ())
  flags := fun _ _ => vfsFile
  length := fun _ _ => 0
  setLength := fun _ _ _ => ()
  openNode := fun _ _ => none
  closeNode := fun _ _ => none
  read := fun _ _ => none
  write := fun _ _ => none
  readdir := fun _ _ => none
  fillDirent := fun _ _ _ => ()

def childOpens : List Request :=
  [.processCall bootFork, .processCall (.switch 0x1220),
    .openFile (some (CString.ascii "/a")) 1]

def kernelAfter (requests : List Request) : Shared Unit :=
  requests.foldl (Request.run oneFile) ⟨bootTable, clearedFiles (), []⟩

theorem running_childOpens : Running oneFile (kernelAfter childOpens) := by
  have start : Running oneFile ⟨bootTable, clearedFiles (), []⟩ := .start (.kernel _ _ _ _ _) ()
  have forked := start.step (.processCall bootFork) (by
    rintro taken ⟨⟩
    decide)
  have switched := forked.step (.processCall (.switch 0x1220)) ⟨by decide, by decide⟩
  exact switched.step (.openFile (some (CString.ascii "/a")) 1) (Option.some_ne_none 0x1220)

theorem exit_releases_closed :
    Running oneFile (kernelAfter (childOpens ++ [.closeFile 3, .processCall (.exit 0)])) ∧
      Released (kernelAfter (childOpens ++ [.closeFile 3, .processCall (.exit 0)])) ∧
      SparesOthers oneFile
        (kernelAfter (childOpens ++ [.closeFile 3, .processCall (.exit 0)])) := by
  have closed := running_childOpens.step (.closeFile 3) trivial
  have exited := closed.step (.processCall (.exit 0)) trivial
  refine ⟨exited, (exit_releases_iff exited).mpr fun fd leftOpen => ?_⟩
  have events : LeftOpen fd [.exited 0x1220, .closed 3, .obtained 0x1220 3] := leftOpen
  simp only [LeftOpen, or_false] at events
  exact absurd events.2 events.1

/-- A child opens a file and ends, and its descriptor stays in use. -/
theorem exit_leaves_descriptor_open :
    Running oneFile (kernelAfter (childOpens ++ [.processCall (.exit 0)])) ∧
      openers 3 (kernelAfter childOpens).events = [0x1220] ∧
      openers 3 (kernelAfter (childOpens ++ [.processCall (.exit 0)])).events = [] ∧
      ((kernelAfter (childOpens ++ [.processCall (.exit 0)])).table.record 0x1220).state =
        .zombie ∧
      ((kernelAfter (childOpens ++ [.processCall (.exit 0)])).files.fdTable 3).node = 1 := by
  refine ⟨running_childOpens.step (.processCall (.exit 0)) trivial, ?_, ?_, ?_, ?_⟩
  all_goals decide

end RamOS.Proc
