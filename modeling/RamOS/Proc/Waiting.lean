import RamOS.Proc.Lifecycle

/-!
# Waiting for a child

`process_wait` blocks its caller if some process has it as its parent, and
`process_exit` wakes a blocked parent whose pid is not zero. The kernel process
has pid zero and is its own parent, so that it can block with no other child,
and no exit wakes it.
-/

namespace RamOS.Proc

variable {table after start : Table} {process address : ℕ} {call : Call}

/-- The process has a child, other than itself, that has not exited. -/
def HasLiveChild (table : Table) (address : ℕ) : Prop :=
  ∃ child ∈ table.processList, child ≠ address ∧
    (table.record child).parentPid = (table.record address).pid ∧
    (table.record child).state ≠ .zombie

def NoneStranded (table : Table) : Prop :=
  ∀ address ∈ table.processList, (table.record address).state = .blocked →
    HasLiveChild table address

instance (table : Table) (address : ℕ) : Decidable (HasLiveChild table address) :=
  inferInstanceAs (Decidable (∃ _ ∈ _, _))

instance (table : Table) : Decidable (NoneStranded table) :=
  inferInstanceAs (Decidable (∀ _ ∈ _, _))

/-- A call that blocks a process finds another one that is its child, and a call that ends one
leaves another living child to every process that stays blocked. -/
def Call.KeepsWaiting (table : Table) (call : Call) : Prop :=
  match call.deed table with
  | .blocks process => ∃ child ∈ table.processList, child ≠ process ∧
      (table.record child).parentPid = (table.record process).pid
  | .ends process _ => ∀ waiting ∈ table.processList, waiting ≠ process →
      (table.record waiting).state = .blocked → ¬ Wakes table process waiting →
        ∃ child ∈ table.processList, child ≠ waiting ∧ child ≠ process ∧
          adopted table process child = (table.record waiting).pid ∧
          (table.record child).state ≠ .zombie
  | _ => True

theorem Steady.noneStranded (steady : Steady table after) (waiting : NoneStranded table) :
    NoneStranded after := by
  intro address listed isBlocked
  rw [steady.processList] at listed
  rcases waiting address listed (steady.blocked address listed isBlocked) with
    ⟨child, childListed, other, isChild, alive⟩
  refine ⟨child, by rwa [steady.processList], other, ?_, ?_⟩
  · rw [steady.parentPid child childListed, steady.pid address listed, isChild]
  · exact fun isZombie => alive ((steady.zombie child childListed).mp isZombie)

theorem Added.noneStranded (isAdded : Added table after process) (waiting : NoneStranded table) :
    NoneStranded after := by
  intro address listed isBlocked
  rw [isAdded.processList, List.mem_cons] at listed
  rcases listed with rfl | listed
  · rw [isAdded.state] at isBlocked
    cases isBlocked
  · rw [isAdded.old listed] at isBlocked
    rcases waiting address listed isBlocked with ⟨child, childListed, other, isChild, alive⟩
    refine ⟨child, ?_, other, ?_⟩
    · rw [isAdded.processList]
      exact List.mem_cons_of_mem _ childListed
    · rw [isAdded.old listed, isAdded.old childListed]
      exact ⟨isChild, alive⟩

theorem Reaped.noneStranded {child : ℕ} (isReaped : Reaped table after child)
    (waiting : NoneStranded table) : NoneStranded after := by
  intro address listed isBlocked
  rw [isReaped.processList] at listed
  rw [isReaped.record] at isBlocked
  rcases waiting address (List.mem_of_mem_erase listed) isBlocked with
    ⟨other, otherListed, different, isChild, alive⟩
  refine ⟨other, ?_, different, ?_⟩
  · rw [isReaped.processList]
    refine (List.mem_erase_of_ne ?_).mpr otherListed
    rintro rfl
    exact alive isReaped.zombie
  · rw [isReaped.record]
    exact ⟨isChild, alive⟩

theorem Ended.noneStranded_after {code : ℤ} (isEnded : Ended table after process code) :
    NoneStranded after ↔
      ∀ waiting ∈ table.processList, waiting ≠ process →
        (table.record waiting).state = .blocked → ¬ Wakes table process waiting →
          ∃ child ∈ table.processList, child ≠ waiting ∧ child ≠ process ∧
            adopted table process child = (table.record waiting).pid ∧
            (table.record child).state ≠ .zombie := by
  have parent (child : ℕ) : (after.record child).parentPid = adopted table process child := by
    rw [isEnded.record]
  have pid (address : ℕ) : (after.record address).pid = (table.record address).pid := by
    rw [isEnded.record]
  simp only [NoneStranded, HasLiveChild, isEnded.processList, isEnded.blocked_iff, parent, pid,
    ne_eq, isEnded.zombie_iff, not_or]
  refine forall₂_congr fun waiting _ => ?_
  constructor
  · intro lives other isBlocked asleep
    rcases lives ⟨other, asleep, isBlocked⟩ with ⟨child, listed, different, isChild, apart, alive⟩
    exact ⟨child, listed, different, apart, isChild, alive⟩
  · rintro lives ⟨other, asleep, isBlocked⟩
    rcases lives other isBlocked asleep with ⟨child, listed, different, apart, isChild, alive⟩
    exact ⟨child, listed, different, isChild, apart, alive⟩

theorem Blocked.noneStranded_after (isBlocked : Blocked table after process)
    (orderly : Orderly table) (waiting : NoneStranded table) :
    NoneStranded after ↔ ∃ child ∈ table.processList, child ≠ process ∧
      (table.record child).parentPid = (table.record process).pid := by
  rw [isBlocked.table]
  have pid (address : ℕ) : ((table.modify process fun record =>
      { record with state := .blocked }).record address).pid = (table.record address).pid :=
    modify_keeps Process.pid rfl address
  have parentPid (address : ℕ) : ((table.modify process fun record =>
      { record with state := .blocked }).record address).parentPid =
        (table.record address).parentPid :=
    modify_keeps Process.parentPid rfl address
  have zombie {address : ℕ} (alive : (table.record address).state ≠ .zombie) :
      ((table.modify process fun record =>
        { record with state := .blocked }).record address).state ≠ .zombie := by
    by_cases same : address = process
    · simp [same]
    · rwa [modify_record_of_ne same]
  constructor
  · intro after
    rcases after process (orderly.current_mem process isBlocked.isCurrent) (by simp) with
      ⟨child, listed, other, isChild, -⟩
    rw [parentPid, pid] at isChild
    exact ⟨child, listed, other, isChild⟩
  · rintro ⟨child, listed, other, isChild⟩ address addressListed addressBlocked
    by_cases same : address = process
    · subst same
      refine ⟨child, listed, other, ?_, zombie (isBlocked.alive child listed isChild)⟩
      rw [parentPid, pid, isChild]
    · rw [modify_record_of_ne same] at addressBlocked
      rcases waiting address addressListed addressBlocked with
        ⟨grandchild, grandListed, different, isGrandchild, alive⟩
      refine ⟨grandchild, grandListed, different, ?_, zombie alive⟩
      rw [parentPid, pid, isGrandchild]

theorem noneStranded_run_iff (orderly : Orderly table) (waiting : NoneStranded table)
    (valid : call.Valid table) : NoneStranded (call.run table) ↔ call.KeepsWaiting table := by
  have effect := orderly.effect valid
  rw [Call.KeepsWaiting]
  generalize call.deed table = deed at effect ⊢
  cases deed with
  | nothing =>
    exact iff_of_true (Steady.noneStranded effect waiting) trivial
  | adds process =>
    exact iff_of_true (Added.noneStranded effect waiting) trivial
  | ends process code =>
    exact effect.2.noneStranded_after
  | reaps child =>
    exact iff_of_true (Reaped.noneStranded effect waiting) trivial
  | blocks process =>
    exact Blocked.noneStranded_after effect orderly waiting

theorem AfterInit.noneStranded (isStart : AfterInit start) : NoneStranded start := by
  cases isStart with
  | kernel record taken directory kernelDirectory ticks =>
    intro address listed isBlocked
    rw [List.mem_singleton.mp (show address ∈ [taken.process] from listed)] at isBlocked
    simp [processInit, processCreate, allocProcess] at isBlocked
  | empty record =>
    intro address listed
    cases listed

/-- No state of a run has a blocked process without a child to wait for exactly when every call
that blocks a process finds it another child, and every call that ends one leaves another child to
all that stay blocked. -/
theorem noneStranded_iff (isStart : AfterInit start) {calls : List Call}
    (valid : ValidRun start calls) :
    (∀ k, NoneStranded ((calls.take k).foldl Call.run start)) ↔
      ∀ k (listed : k < calls.length),
        calls[k].KeepsWaiting ((calls.take k).foldl Call.run start) :=
  Runs.forall_take_iff ⟨isStart.orderly, isStart.noneStranded⟩
    (fun _ _ orderly isValid _ => orderly.run isValid)
    (fun _ _ orderly waiting isValid => noneStranded_run_iff orderly waiting isValid) valid.valid

theorem noneStranded_iff_fork :
    (∀ k, NoneStranded (([bootFork, .wait].take k).foldl Call.run bootTable)) ↔
      ∀ k (listed : k < [bootFork, .wait].length),
        [bootFork, .wait][k].KeepsWaiting (([bootFork, .wait].take k).foldl Call.run bootTable) :=
  noneStranded_iff bootTable_afterInit ⟨bootFork_valid, trivial, trivial⟩

/-- The kernel blocks as its own only child, and stays blocked when its only other child is
killed. -/
theorem kernel_waits_forever :
    ¬ NoneStranded ([.wait].foldl Call.run bootTable) ∧
      ¬ NoneStranded ([bootFork, .wait, .kill 2 9].foldl Call.run bootTable) := by
  decide

end RamOS.Proc
