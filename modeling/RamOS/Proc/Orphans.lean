import RamOS.Proc.Lifecycle

/-!
# Parents in the process list

`process_exit` gives the children of its process to the process of pid 1. The
first process takes pid 1 from the counter and is then renumbered to 0, so that
no process has pid 1 before the counter has wrapped, and whatever is given to it
has no parent in the list.
-/

namespace RamOS.Proc

variable {table after start : Table} {process address : ℕ} {call : Call}

def ParentsListed (table : Table) : Prop :=
  ∀ address ∈ table.processList, ∃ parent ∈ table.processList,
    (table.record parent).pid = (table.record address).parentPid

instance (table : Table) : Decidable (ParentsListed table) :=
  inferInstanceAs (Decidable (∀ _ ∈ _, ∃ _ ∈ _, _))

/-- A process added without a current one finds the kernel, one that ends leaves children only to
a pid 1, and one that is reaped has no children left unless another has its pid. -/
def Call.KeepsParents (table : Table) (call : Call) : Prop :=
  match call.deed table with
  | .adds _ => table.currentProcess = none →
      (∃ parent ∈ table.processList, (table.record parent).pid = 0) ∨ table.nextPid = 0
  | .ends process _ =>
    (∃ child ∈ table.processList,
      (table.record child).parentPid = (table.record process).pid) →
      ∃ parent ∈ table.processList, (table.record parent).pid = 1
  | .reaps child => ∀ other ∈ table.processList, other ≠ child →
      (table.record other).parentPid = (table.record child).pid →
        ∃ parent ∈ table.processList, parent ≠ child ∧
          (table.record parent).pid = (table.record child).pid
  | _ => True

theorem parentsListed_congr (processList : after.processList = table.processList)
    (pid : ∀ address ∈ table.processList,
      (after.record address).pid = (table.record address).pid)
    (parentPid : ∀ address ∈ table.processList,
      (after.record address).parentPid = (table.record address).parentPid)
    (listed : ParentsListed table) : ParentsListed after := by
  rw [ParentsListed, processList]
  intro address inside
  rcases listed address inside with ⟨parent, parentInside, isParent⟩
  refine ⟨parent, parentInside, ?_⟩
  rw [pid parent parentInside, parentPid address inside, isParent]

theorem Added.parentsListed_after (isAdded : Added table after process) (orderly : Orderly table)
    (listed : ParentsListed table) :
    ParentsListed after ↔ (table.currentProcess = none →
      (∃ parent ∈ table.processList, (table.record parent).pid = 0) ∨ table.nextPid = 0) := by
  rw [ParentsListed, isAdded.processList]
  constructor
  · intro parents noCurrent
    rcases parents process (by simp) with ⟨parent, inside, isParent⟩
    rw [isAdded.parentPid, currentPid, noCurrent] at isParent
    rcases List.mem_cons.mp inside with rfl | inside
    · exact Or.inr (isAdded.pid ▸ isParent)
    · exact Or.inl ⟨parent, inside, isAdded.old inside ▸ isParent⟩
  · intro adopts address inside
    rcases List.mem_cons.mp inside with rfl | inside
    · rw [isAdded.parentPid, currentPid]
      cases isCurrent : table.currentProcess with
      | some current =>
        have currentInside := orderly.current_mem current isCurrent
        exact ⟨current, by simp [currentInside], by rw [isAdded.old currentInside]⟩
      | none =>
        rcases adopts isCurrent with ⟨parent, parentInside, isKernel⟩ | wrapped
        · exact ⟨parent, by simp [parentInside], by rw [isAdded.old parentInside, isKernel]⟩
        · exact ⟨address, by simp, by rw [isAdded.pid, wrapped]⟩
    · rcases listed address inside with ⟨parent, parentInside, isParent⟩
      refine ⟨parent, by simp [parentInside], ?_⟩
      rw [isAdded.old parentInside, isAdded.old inside, isParent]

theorem Ended.parentsListed_after {code : ℤ} (isEnded : Ended table after process code)
    (listed : ParentsListed table) :
    ParentsListed after ↔
      ((∃ child ∈ table.processList,
        (table.record child).parentPid = (table.record process).pid) →
        ∃ parent ∈ table.processList, (table.record parent).pid = 1) := by
  have parentPid (child : ℕ) : (after.record child).parentPid = adopted table process child := by
    rw [isEnded.record]
  have pid (address : ℕ) : (after.record address).pid = (table.record address).pid := by
    rw [isEnded.record]
  simp only [ParentsListed, isEnded.processList, parentPid, pid]
  constructor
  · rintro parents ⟨child, inside, isChild⟩
    have given := parents child inside
    rwa [adopted, if_pos ⟨inside, isChild⟩] at given
  · intro adopts address inside
    rw [adopted]
    split
    next orphan => exact adopts ⟨address, inside, orphan.2⟩
    next => exact listed address inside

theorem Reaped.parentsListed_after {child : ℕ} (isReaped : Reaped table after child)
    (orderly : Orderly table) (listed : ParentsListed table) :
    ParentsListed after ↔
      ∀ other ∈ table.processList, other ≠ child →
        (table.record other).parentPid = (table.record child).pid →
          ∃ parent ∈ table.processList, parent ≠ child ∧
            (table.record parent).pid = (table.record child).pid := by
  simp only [ParentsListed, isReaped.processList, isReaped.record, orderly.nodup.mem_erase_iff]
  constructor
  · intro parents other inside different isChild
    rcases parents other ⟨different, inside⟩ with ⟨parent, ⟨apart, parentInside⟩, isParent⟩
    exact ⟨parent, parentInside, apart, isParent.trans isChild⟩
  · rintro remaining address ⟨different, inside⟩
    rcases listed address inside with ⟨parent, parentInside, isParent⟩
    by_cases same : parent = child
    · rw [same] at isParent
      rcases remaining address inside different isParent.symm with
        ⟨second, secondInside, apart, samePid⟩
      exact ⟨second, ⟨apart, secondInside⟩, samePid.trans isParent⟩
    · exact ⟨parent, ⟨same, parentInside⟩, isParent⟩

/-- A call keeps all parents in the list exactly under its condition. -/
theorem parentsListed_run_iff (orderly : Orderly table) (listed : ParentsListed table)
    (valid : call.Valid table) : ParentsListed (call.run table) ↔ call.KeepsParents table := by
  have effect := orderly.effect valid
  rw [Call.KeepsParents]
  generalize call.deed table = deed at effect ⊢
  cases deed with
  | nothing =>
    exact iff_of_true
      (parentsListed_congr effect.processList effect.pid effect.parentPid listed) trivial
  | adds process =>
    exact Added.parentsListed_after effect orderly listed
  | ends process code =>
    exact effect.2.parentsListed_after listed
  | reaps child =>
    exact Reaped.parentsListed_after effect orderly listed
  | blocks process =>
    refine iff_of_true (parentsListed_congr ?_ ?_ ?_ listed) trivial
    all_goals rw [Blocked.table effect]
    · rfl
    · exact fun address _ => modify_keeps Process.pid rfl address
    · exact fun address _ => modify_keeps Process.parentPid rfl address

theorem AfterInit.parentsListed (isStart : AfterInit start) : ParentsListed start := by
  cases isStart with
  | kernel record taken directory kernelDirectory ticks =>
    intro address inside
    refine ⟨address, inside, ?_⟩
    rw [List.mem_singleton.mp (show address ∈ [taken.process] from inside)]
    simp [processInit, processCreate, allocProcess, currentPid]
  | empty record =>
    intro address inside
    cases inside

/-- Every state of a run lists the parents of all processes exactly when no call creates a process
without a parent, ends one with children while there is no pid 1, or reaps one with children. -/
theorem parentsListed_iff (isStart : AfterInit start) {calls : List Call}
    (valid : ValidRun start calls) :
    (∀ k, ParentsListed ((calls.take k).foldl Call.run start)) ↔
      ∀ k (listed : k < calls.length),
        calls[k].KeepsParents ((calls.take k).foldl Call.run start) :=
  Runs.forall_take_iff ⟨isStart.orderly, isStart.parentsListed⟩
    (fun _ _ orderly isValid _ => orderly.run isValid)
    (fun _ _ orderly listed isValid => parentsListed_run_iff orderly listed isValid) valid.valid

theorem parentsListed_iff_kill :
    (∀ k, ParentsListed ((killedChild.take k).foldl Call.run bootTable)) ↔
      ∀ k (listed : k < killedChild.length),
        killedChild[k].KeepsParents ((killedChild.take k).foldl Call.run bootTable) :=
  parentsListed_iff bootTable_afterInit ⟨bootFork_valid, trivial, trivial⟩

/-- After the exit of its parent, the child belongs to a pid that nobody has. -/
theorem exit_leaves_orphan :
    ¬ ParentsListed ([bootFork, .exit 0].foldl Call.run bootTable) := by
  decide

end RamOS.Proc
