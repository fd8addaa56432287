import RamOS.Lib.ArrayList
import RamOS.Lib.RoundRobin
import RamOS.Proc.Model

/-!
# The scheduler

This file models `proc/scheduler.c`. The queue is an array with a count, and `current_index`
walks through it. Together they represent a rota, on which `scheduler_add`, `scheduler_remove`
and `scheduler_schedule` are the operations of round robin. A removal moves the slots behind the
removed one under the index, and the process that was next is passed over.
-/

namespace RamOS.Proc

open RoundRobin

structure Scheduler where
  readyQueue : ℕ → ℕ
  queueSize : ℕ
  currentIndex : ℕ

def maxProcesses : ℕ := 64

def schedulerInit (readyQueue : ℕ → ℕ) : Scheduler :=
  { readyQueue, queueSize := 0, currentIndex := 0 }

def schedulerAdd (scheduler : Scheduler) (proc : ℕ) : Scheduler :=
  if proc = 0 ∨ maxProcesses ≤ scheduler.queueSize then scheduler
  else
    { scheduler with
      readyQueue := Function.update scheduler.readyQueue scheduler.queueSize proc
      queueSize := scheduler.queueSize + 1 }

def queuedSlot (scheduler : Scheduler) (proc : ℕ) : Option ℕ :=
  (List.range scheduler.queueSize).find? fun slot => scheduler.readyQueue slot = proc

def schedulerRemove (scheduler : Scheduler) (proc : ℕ) : Scheduler :=
  if proc = 0 then scheduler
  else
    match queuedSlot scheduler proc with
    | none => scheduler
    | some slot =>
      let queueSize := scheduler.queueSize - 1
      { readyQueue := ArrayList.shiftUp scheduler.readyQueue slot (queueSize - slot)
        queueSize
        currentIndex :=
          if queueSize ≤ scheduler.currentIndex ∧ 0 < queueSize then 0
          else scheduler.currentIndex }

def nextIndex (scheduler : Scheduler) : ℕ :=
  (scheduler.currentIndex + 1) % scheduler.queueSize

def nextProcess (scheduler : Scheduler) : ℕ := scheduler.readyQueue (nextIndex scheduler)

/-- The scheduler after a call, and the process that it hands to `process_switch`. -/
structure Scheduled where
  scheduler : Scheduler
  switched : Option ℕ
  table : Table

def schedulerSchedule (scheduler : Scheduler) (table : Table) : Scheduled :=
  if scheduler.queueSize = 0 then { scheduler, switched := none, table }
  else
    let next := nextProcess scheduler
    let scheduler := { scheduler with currentIndex := nextIndex scheduler }
    if next ≠ 0 ∧ (table.record next).state = .ready then
      { scheduler, switched := some next, table := processSwitch table next }
    else { scheduler, switched := none, table }

/-- The calls of the scheduler. A scheduling call finds the processes in some table. -/
inductive SchedulerCall
  | add (proc : ℕ)
  | remove (proc : ℕ)
  | schedule (table : Table)

def SchedulerCall.run (scheduler : Scheduler) : SchedulerCall → Scheduler
  | .add proc => schedulerAdd scheduler proc
  | .remove proc => schedulerRemove scheduler proc
  | .schedule table => (schedulerSchedule scheduler table).scheduler

def schedulerAfter (scheduler : Scheduler) (calls : List SchedulerCall) : Scheduler :=
  calls.foldl SchedulerCall.run scheduler

/-- The scheduler after some scheduling calls; `tables k` is what call `k` finds. -/
def afterSchedules (scheduler : Scheduler) (tables : ℕ → Table) : ℕ → Scheduler
  | 0 => scheduler
  | k + 1 => (schedulerSchedule (afterSchedules scheduler tables k) (tables k)).scheduler

def queue (scheduler : Scheduler) : List ℕ :=
  ArrayList.toList scheduler.readyQueue scheduler.queueSize

/-! ### The rota behind the queue -/

structure Represents (rota : Rota ℕ) (scheduler : Scheduler) : Prop where
  items : rota.items = queue scheduler
  cursor : rota.cursor = scheduler.currentIndex
  size_le : scheduler.queueSize ≤ maxProcesses
  nonnull : ∀ proc ∈ rota.items, proc ≠ 0

section Refinement

variable {rota : Rota ℕ} {scheduler : Scheduler}

theorem Represents.length_eq (represents : Represents rota scheduler) :
    rota.items.length = scheduler.queueSize := by
  rw [represents.items]
  exact ArrayList.length_toList _ _

theorem Represents.next_eq (represents : Represents rota scheduler) :
    rota.next = nextIndex scheduler := by
  rw [Rota.next, represents.cursor, represents.length_eq, nextIndex]

theorem Represents.getElem? (represents : Represents rota scheduler) {slot : ℕ}
    (listed : slot < scheduler.queueSize) :
    rota.items[slot]? = some (scheduler.readyQueue slot) := by
  rw [represents.items, queue, ArrayList.getElem?_toList, if_pos listed]

theorem Represents.selected (represents : Represents rota scheduler)
    (occupied : 0 < scheduler.queueSize) : rota.selected = some (nextProcess scheduler) := by
  rw [Rota.selected, represents.next_eq]
  exact represents.getElem? (Nat.mod_lt _ occupied)

theorem represents_init (readyQueue : ℕ → ℕ) :
    ∃ rota, Represents rota (schedulerInit readyQueue) := by
  refine ⟨⟨[], 0, by decide⟩, ?_⟩
  constructor
  · rfl
  · rfl
  · exact Nat.zero_le _
  · simp

theorem Represents.add (represents : Represents rota scheduler) (proc : ℕ) :
    ∃ rota, Represents rota (schedulerAdd scheduler proc) := by
  rw [schedulerAdd]
  split
  case isTrue refused => exact ⟨rota, represents⟩
  case isFalse accepted =>
    refine ⟨rota.add proc, ?_⟩
    constructor
    · simp only [Rota.add, represents.items, queue, ArrayList.toList_push]
    · exact represents.cursor
    · simp only [not_or, not_le] at accepted
      exact accepted.2
    · intro queued listed
      rcases List.mem_append.mp listed with before | added
      · exact represents.nonnull queued before
      · rw [List.mem_singleton.mp added]
        exact fun null => accepted (Or.inl null)

theorem Represents.removeAt (represents : Represents rota scheduler) {proc slot : ℕ}
    (nonnull : proc ≠ 0) (queued : queuedSlot scheduler proc = some slot) :
    Represents (rota.removeAt slot) (schedulerRemove scheduler proc) := by
  have listed : slot < scheduler.queueSize :=
    List.mem_range.mp (List.mem_of_find?_eq_some queued)
  have removed : (queue scheduler).eraseIdx slot = queue (schedulerRemove scheduler proc) := by
    simp only [schedulerRemove, if_neg nonnull, queued, queue]
    exact (ArrayList.toList_erase listed).symm
  have inside := rota.inside
  rw [represents.length_eq, represents.cursor] at inside
  constructor
  · rw [Rota.items_removeAt, represents.items, removed]
  · have length : (rota.items.eraseIdx slot).length = scheduler.queueSize - 1 := by
      rw [List.length_eraseIdx_of_lt (by rwa [represents.length_eq]), represents.length_eq]
    simp only [Rota.cursor_removeAt, schedulerRemove, if_neg nonnull, queued, length,
      represents.cursor]
    -- an index that the last process leaves is already at the first slot
    split_ifs <;> omega
  · simp only [schedulerRemove, if_neg nonnull, queued]
    exact (Nat.sub_le _ _).trans represents.size_le
  · intro other kept
    exact represents.nonnull other (List.mem_of_mem_eraseIdx kept)

theorem Represents.remove (represents : Represents rota scheduler) (proc : ℕ) :
    ∃ rota, Represents rota (schedulerRemove scheduler proc) := by
  by_cases null : proc = 0
  · rw [schedulerRemove, if_pos null]
    exact ⟨rota, represents⟩
  · cases queued : queuedSlot scheduler proc with
    | none =>
      simp only [schedulerRemove, if_neg null, queued]
      exact ⟨rota, represents⟩
    | some slot => exact ⟨rota.removeAt slot, represents.removeAt null queued⟩

theorem schedulerSchedule_scheduler (table : Table) (occupied : scheduler.queueSize ≠ 0) :
    (schedulerSchedule scheduler table).scheduler =
      { scheduler with currentIndex := nextIndex scheduler } := by
  rw [schedulerSchedule, if_neg occupied]
  exact (apply_ite Scheduled.scheduler _ _ _).trans (ite_self _)

theorem Represents.schedule (represents : Represents rota scheduler) (table : Table) :
    Represents rota.turn (schedulerSchedule scheduler table).scheduler := by
  by_cases empty : scheduler.queueSize = 0
  · have stays : rota.turn.cursor = rota.cursor := if_pos (by rwa [represents.length_eq])
    rw [schedulerSchedule, if_pos empty]
    exact ⟨represents.items, stays.trans represents.cursor, represents.size_le, represents.nonnull⟩
  · have moves : rota.turn.cursor = nextIndex scheduler := by
      rw [rota.cursor_turn (by rw [represents.length_eq]; omega), represents.next_eq]
    rw [schedulerSchedule_scheduler table empty]
    exact ⟨represents.items, moves, represents.size_le, represents.nonnull⟩

theorem Represents.run (represents : Represents rota scheduler) (call : SchedulerCall) :
    ∃ rota, Represents rota (call.run scheduler) := by
  cases call with
  | add proc => exact represents.add proc
  | remove proc => exact represents.remove proc
  | schedule table => exact ⟨rota.turn, represents.schedule table⟩

theorem exists_rota (represented : ∃ rota, Represents rota scheduler)
    (calls : List SchedulerCall) : ∃ rota, Represents rota (schedulerAfter scheduler calls) := by
  induction calls generalizing scheduler with
  | nil => exact represented
  | cons call calls ih =>
    rcases represented with ⟨rota, represents⟩
    exact ih (represents.run call)

theorem Represents.schedules (represents : Represents rota scheduler) (tables : ℕ → Table)
    (k : ℕ) : Represents (Rota.turn^[k] rota) (afterSchedules scheduler tables k) := by
  induction k with
  | zero => exact represents
  | succ k ih =>
    rw [Function.iterate_succ_apply']
    exact ih.schedule (tables k)

end Refinement

/-! ### One pass over the queue -/

section Pass

variable {rota : Rota ℕ} {scheduler : Scheduler} {tables : ℕ → Table}

theorem afterSchedules_queue (k : ℕ) :
    (afterSchedules scheduler tables k).readyQueue = scheduler.readyQueue ∧
      (afterSchedules scheduler tables k).queueSize = scheduler.queueSize := by
  induction k with
  | zero => exact ⟨rfl, rfl⟩
  | succ k ih =>
    simp only [afterSchedules, schedulerSchedule]
    split_ifs
    · exact ih
    · exact ih
    · exact ih

theorem Represents.switched (represents : Represents rota scheduler) (table : Table)
    (occupied : 0 < scheduler.queueSize) :
    (schedulerSchedule scheduler table).switched =
        (if (table.record (nextProcess scheduler)).state = .ready then
          some (nextProcess scheduler) else none) ∧
      (schedulerSchedule scheduler table).table =
        if (table.record (nextProcess scheduler)).state = .ready then
          processSwitch table (nextProcess scheduler) else table := by
  have listed : nextProcess scheduler ∈ rota.items :=
    List.mem_of_getElem? (represents.selected occupied)
  have nonnull : nextProcess scheduler ≠ 0 := represents.nonnull _ listed
  simp only [schedulerSchedule, if_neg (Nat.ne_of_gt occupied), ne_eq, nonnull, not_false_eq_true,
    true_and]
  split_ifs
  · exact ⟨rfl, rfl⟩
  · exact ⟨rfl, rfl⟩

/-- In every reachable state the queue has at most 64 processes and the index lies in it. As many
scheduling calls as there are queued processes move the index to every slot once, whatever happens
to the processes meanwhile, and each hands the process in its slot over exactly if it is ready
then. -/
theorem schedules_visit_every_slot (readyQueue : ℕ → ℕ) (calls : List SchedulerCall)
    (tables : ℕ → Table) :
    let scheduler := schedulerAfter (schedulerInit readyQueue) calls
    let slot := fun k => (afterSchedules scheduler tables (k + 1)).currentIndex
    scheduler.queueSize ≤ 64 ∧
      scheduler.currentIndex < max scheduler.queueSize 1 ∧
      ((List.range scheduler.queueSize).map slot).Perm (List.range scheduler.queueSize) ∧
      ∀ k < scheduler.queueSize,
        let call := schedulerSchedule (afterSchedules scheduler tables k) (tables k)
        let proc := scheduler.readyQueue (slot k)
        call.switched = (if ((tables k).record proc).state = .ready then some proc else none) ∧
          call.table =
            if ((tables k).record proc).state = .ready then processSwitch (tables k) proc
            else tables k := by
  intro scheduler slot
  obtain ⟨rota, represents⟩ : ∃ rota, Represents rota scheduler :=
    exists_rota (represents_init readyQueue) calls
  have slots : slot = fun k => (Rota.turn^[k + 1] rota).cursor := by
    funext k
    exact (represents.schedules tables (k + 1)).cursor.symm
  refine ⟨represents.size_le, ?_, ?_, ?_⟩
  · rw [← represents.cursor, ← represents.length_eq]
    exact rota.inside
  · rw [slots, ← represents.length_eq]
    exact rota.window_perm
  · intro k inside
    have kept := @afterSchedules_queue scheduler tables k
    have occupied : 0 < (afterSchedules scheduler tables k).queueSize := by
      rw [kept.2]
      exact Nat.zero_lt_of_lt inside
    have found : nextProcess (afterSchedules scheduler tables k) =
        scheduler.readyQueue (slot k) := by
      simp only [slot, afterSchedules, schedulerSchedule_scheduler _ (Nat.ne_of_gt occupied)]
      rw [nextProcess, kept.1]
    rw [← found]
    exact (represents.schedules tables k).switched (tables k) occupied

end Pass

/-! ### Removals between two turns -/

section Removal

variable {rota : Rota ℕ} {scheduler : Scheduler}

theorem Represents.queuedSlot (represents : Represents rota scheduler)
    (distinct : rota.items.Nodup) {slot : ℕ} (listed : slot < scheduler.queueSize) :
    queuedSlot scheduler (scheduler.readyQueue slot) = some slot := by
  rw [Proc.queuedSlot, List.find?_range_eq_some]
  refine ⟨by simp, List.mem_range.mpr listed, ?_⟩
  intro earlier before
  have apart : rota.items[earlier]? ≠ rota.items[slot]? := by
    rw [ne_eq, List.getElem?_inj (by rw [represents.length_eq]; omega) distinct]
    exact Nat.ne_of_lt before
  rw [represents.getElem? listed, represents.getElem? (before.trans listed)] at apart
  simpa using apart

theorem Represents.nextProcess_remove_iff (represents : Represents rota scheduler) {slot : ℕ}
    (distinct : (queue scheduler).Nodup) (listed : slot < scheduler.queueSize)
    (other : scheduler.readyQueue slot ≠ nextProcess scheduler) :
    nextProcess (schedulerRemove scheduler (scheduler.readyQueue slot)) = nextProcess scheduler ↔
      scheduler.queueSize = 2 ∨ scheduler.currentIndex + 1 < slot := by
  rw [← represents.items] at distinct
  have nonnull : scheduler.readyQueue slot ≠ 0 :=
    represents.nonnull _ (List.mem_of_getElem? (represents.getElem? listed))
  have queued := represents.queuedSlot distinct listed
  have removed := represents.removeAt nonnull queued
  have apart : rota.next ≠ slot := by
    rintro rfl
    exact other (congrArg scheduler.readyQueue represents.next_eq)
  have nextListed : rota.next < scheduler.queueSize := by
    rw [represents.next_eq]
    exact Nat.mod_lt _ (Nat.zero_lt_of_lt listed)
  have occupied : 0 < (schedulerRemove scheduler (scheduler.readyQueue slot)).queueSize := by
    simp only [schedulerRemove, if_neg nonnull, queued]
    omega
  have turn := rota.selected_removeAt_iff distinct (by rwa [represents.length_eq]) apart
  rwa [removed.selected occupied, represents.selected (Nat.zero_lt_of_lt listed),
    Option.some_inj, represents.length_eq, represents.cursor] at turn

/-- The next process keeps its turn when another is removed exactly if that one is queued behind
it, or if no third one is queued. -/
theorem remove_keeps_turn_iff (readyQueue : ℕ → ℕ) (calls : List SchedulerCall) (slot : ℕ)
    (distinct : (queue (schedulerAfter (schedulerInit readyQueue) calls)).Nodup)
    (listed : slot < (schedulerAfter (schedulerInit readyQueue) calls).queueSize)
    (other : (schedulerAfter (schedulerInit readyQueue) calls).readyQueue slot ≠
      nextProcess (schedulerAfter (schedulerInit readyQueue) calls)) :
    let scheduler := schedulerAfter (schedulerInit readyQueue) calls
    nextProcess (schedulerRemove scheduler (scheduler.readyQueue slot)) = nextProcess scheduler ↔
      scheduler.queueSize = 2 ∨ scheduler.currentIndex + 1 < slot := by
  obtain ⟨rota, represents⟩ := exists_rota (represents_init readyQueue) calls
  exact represents.nextProcess_remove_iff distinct listed other

/-- Of three processes the last one is removed before the second one's turn. -/
theorem remove_last_keeps_turn :
    let scheduler := schedulerAfter (schedulerInit fun _ => 0)
      [.add 0x1000, .add 0x2000, .add 0x3000]
    nextProcess (schedulerRemove scheduler (scheduler.readyQueue 2)) = nextProcess scheduler :=
  (remove_keeps_turn_iff (fun _ => 0) [.add 0x1000, .add 0x2000, .add 0x3000] 2 (by decide)
    (by decide) (by decide)).mpr (Or.inr (by decide))

/-- With the index at the first of three processes the second one is next. If the first one is
removed, the third one is scheduled instead. -/
theorem remove_first_passes_over_second :
    let scheduler := schedulerAfter (schedulerInit fun _ => 0)
      [.add 0x1000, .add 0x2000, .add 0x3000]
    (queue scheduler).Nodup ∧ 0x1000 ∈ queue scheduler ∧ nextProcess scheduler = 0x2000 ∧
      nextProcess (schedulerRemove scheduler 0x1000) = 0x3000 := by
  decide

end Removal

end RamOS.Proc
