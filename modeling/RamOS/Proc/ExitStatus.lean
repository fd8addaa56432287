import RamOS.Proc.Lifecycle

/-!
# The exit status of a child

A log beside the table keeps, for every process structure, the codes of the
calls that have ended the process since it was created. `process_kill` does not
look at the state of its target: it stores its signal over the code of a zombie
as well, and `process_wait` delivers the last code of the log.
-/

namespace RamOS.Proc

open Word32 (toInt)

variable {start : Table} {call : Call}

/-- The table, and the codes of the calls that ended each process, in order. -/
structure Logged where
  table : Table
  codes : ℕ → List ℤ

def Logged.run (logged : Logged) (call : Call) : Logged where
  table := call.run logged.table
  codes :=
    match call.deed logged.table with
    | .adds process => Function.update logged.codes process []
    | .ends process code =>
      Function.update logged.codes process (logged.codes process ++ [code])
    | _ => logged.codes

def logAfter (start : Table) (calls : List Call) : Logged :=
  calls.foldl Logged.run { table := start, codes := fun _ => [] }

/-- The call stores no new code over that of a process that has ended. -/
def Call.SparesZombies (table : Table) (call : Call) : Prop :=
  match call.deed table with
  | .ends process code => (table.record process).state = .zombie →
      (table.record process).exitCode = code
  | _ => True

theorem logAfter_table (start : Table) (calls : List Call) :
    (logAfter start calls).table = calls.foldl Call.run start := by
  rw [logAfter]
  generalize (fun _ => [] : ℕ → List ℤ) = codes
  induction calls generalizing start codes with
  | nil => rfl
  | cons call calls ih => exact ih (call.run start) _

/-- A listed process is a zombie if and only if the log has a code for it, and its exit code is
then the last one. -/
structure Accounted (logged : Logged) : Prop where
  orderly : Orderly logged.table
  zombie : ∀ address ∈ logged.table.processList,
    ((logged.table.record address).state = .zombie ↔ logged.codes address ≠ [])
  last : ∀ address ∈ logged.table.processList, ∀ code ∈ (logged.codes address).getLast?,
    (logged.table.record address).exitCode = code

/-- All codes of a listed process are its exit code. -/
def Uniform (logged : Logged) : Prop :=
  ∀ address ∈ logged.table.processList, ∀ code ∈ logged.codes address,
    (logged.table.record address).exitCode = code

section Step

variable {logged : Logged}

theorem Logged.run_cases (orderly : Orderly logged.table) (valid : call.Valid logged.table)
    {address : ℕ} (inside : address ∈ (logged.run call).table.processList) :
    (address ∈ logged.table.processList ∧
      ((logged.run call).table.record address).exitCode =
        (logged.table.record address).exitCode ∧
      (((logged.run call).table.record address).state = .zombie ↔
        (logged.table.record address).state = .zombie) ∧
      (logged.run call).codes address = logged.codes address) ∨
    (((logged.run call).table.record address).state = .ready ∧
      (logged.run call).codes address = []) ∨
    ∃ code, call.deed logged.table = .ends address code ∧ address ∈ logged.table.processList ∧
      ((logged.run call).table.record address).state = .zombie ∧
      ((logged.run call).table.record address).exitCode = code ∧
      (logged.run call).codes address = logged.codes address ++ [code] := by
  have effect := orderly.effect valid
  simp only [Logged.run] at inside ⊢
  cases deed : call.deed logged.table with
  | nothing =>
    rw [deed] at effect
    rw [effect.processList] at inside
    exact Or.inl ⟨inside, effect.exitCode address inside, effect.zombie address inside, rfl⟩
  | adds process =>
    rw [deed] at effect
    by_cases same : address = process
    · subst same
      exact Or.inr (Or.inl ⟨effect.state, Function.update_self ..⟩)
    · rw [effect.processList, List.mem_cons, or_iff_right same] at inside
      rw [effect.frame address same]
      exact Or.inl ⟨inside, rfl, Iff.rfl, Function.update_of_ne same ..⟩
  | ends process code =>
    rw [deed] at effect
    rw [effect.2.processList] at inside
    by_cases same : address = process
    · subst same
      refine Or.inr (Or.inr ⟨code, rfl, inside, effect.2.zombie_iff.mpr (Or.inl rfl), ?_,
        Function.update_self ..⟩)
      simp [effect.2.record]
    · refine Or.inl ⟨inside, ?_, ?_, Function.update_of_ne same ..⟩
      · simp [effect.2.record, same]
      · rw [effect.2.zombie_iff, or_iff_right same]
  | reaps child =>
    rw [deed] at effect
    rw [effect.processList] at inside
    rw [effect.record]
    exact Or.inl ⟨List.mem_of_mem_erase inside, rfl, Iff.rfl, rfl⟩
  | blocks process =>
    rw [deed] at effect
    rw [effect.table] at inside ⊢
    refine Or.inl ⟨inside, ?_, ?_, rfl⟩
    · exact modify_keeps Process.exitCode rfl address
    · by_cases same : address = process
      · simp [same, orderly.current_alive process effect.isCurrent]
      · rw [modify_record_of_ne same]

theorem Accounted.run (accounted : Accounted logged) (valid : call.Valid logged.table) :
    Accounted (logged.run call) := by
  refine ⟨accounted.orderly.run valid, ?_, ?_⟩
  · intro address inside
    rcases Logged.run_cases accounted.orderly valid inside with
      ⟨listed, -, zombie, codes⟩ | ⟨ready, codes⟩ | ⟨code, -, -, zombie, -, codes⟩
    · rw [zombie, codes]
      exact accounted.zombie address listed
    · simp [ready, codes]
    · simp [zombie, codes]
  · intro address inside
    rcases Logged.run_cases accounted.orderly valid inside with
      ⟨listed, exitCode, -, codes⟩ | ⟨-, codes⟩ | ⟨code, -, -, -, exitCode, codes⟩
    · rw [exitCode, codes]
      exact accounted.last address listed
    · simp [codes]
    · simp [exitCode, codes]

theorem Uniform.run (uniform : Uniform logged) (accounted : Accounted logged)
    (valid : call.Valid logged.table) (spares : call.SparesZombies logged.table) :
    Uniform (logged.run call) := by
  intro address inside
  rcases Logged.run_cases accounted.orderly valid inside with
    ⟨listed, exitCode, -, codes⟩ | ⟨-, codes⟩ | ⟨code, deed, listed, -, exitCode, codes⟩
  · rw [exitCode, codes]
    exact uniform address listed
  · simp [codes]
  · rw [exitCode, codes]
    rw [Call.SparesZombies, deed] at spares
    intro other logged
    rcases List.mem_append.mp logged with earlier | isLast
    · have zombie := (accounted.zombie address listed).mpr (List.ne_nil_of_mem earlier)
      rw [← spares zombie]
      exact uniform address listed other earlier
    · exact (List.mem_singleton.mp isLast).symm

theorem Accounted.wait_status (accounted : Accounted logged) {child : ℕ}
    (reaps : Call.wait.deed logged.table = .reaps child) :
    child ∈ logged.table.processList ∧
      (sysWait logged.table).1 = toInt (logged.table.record child).pid ∧
      ∃ first last, (logged.codes child).head? = some first ∧
        (logged.codes child).getLast? = some last ∧ (sysWait logged.table).2.1 = some last := by
  have effect := @Orderly.effect _ .wait accounted.orderly trivial
  rw [reaps] at effect
  have nonempty := (accounted.zombie child effect.listed).mp effect.zombie
  have delivered : sysWait logged.table =
      (toInt (logged.table.record child).pid, some (logged.table.record child).exitCode,
        (sysWait logged.table).2.2) := by
    simp only [Call.deed] at reaps
    split at reaps
    · cases reaps
    next process isCurrent =>
      split at reaps
      next found isChild =>
        cases reaps
        simp only [sysWait, isCurrent, processWait, isChild]
      next =>
        split at reaps
        · cases reaps
        · cases reaps
  have last := accounted.last child effect.listed ((logged.codes child).getLast nonempty)
    (List.getLast?_eq_some_getLast nonempty)
  refine ⟨effect.listed, by rw [delivered], (logged.codes child).head nonempty,
    (logged.codes child).getLast nonempty, List.head?_eq_some_head nonempty,
    List.getLast?_eq_some_getLast nonempty, ?_⟩
  rw [delivered, last]

end Step

theorem AfterInit.accounted (isStart : AfterInit start) :
    Accounted { table := start, codes := fun _ => [] } := by
  refine ⟨isStart.orderly, ?_, by simp⟩
  cases isStart with
  | kernel record taken directory kernelDirectory ticks =>
    intro address inside
    rw [List.mem_singleton.mp (show address ∈ [taken.process] from inside)]
    simp [processInit, processCreate, allocProcess]
  | empty record =>
    intro address inside
    cases inside

/-- When a wait returns a child, the status is the code of the first call that ended the child
exactly when the last one carried the same; it always is if no call stores over the code of a
process that has ended. -/
theorem wait_status_iff (isStart : AfterInit start) {calls : List Call}
    (valid : ValidRun start calls) :
    (∀ k child, calls[k]? = some .wait →
      Call.wait.deed (logAfter start (calls.take k)).table = .reaps child →
      ∃ first, ((logAfter start (calls.take k)).codes child).head? = some first ∧
        (sysWait (logAfter start (calls.take k)).table).1 =
          toInt ((logAfter start (calls.take k)).table.record child).pid ∧
        ((sysWait (logAfter start (calls.take k)).table).2.1 = some first ↔
          ((logAfter start (calls.take k)).codes child).getLast? = some first)) ∧
    ((∀ k (listed : k < calls.length),
        calls[k].SparesZombies (logAfter start (calls.take k)).table) →
      ∀ k child, Call.wait.deed (logAfter start (calls.take k)).table = .reaps child →
        (sysWait (logAfter start (calls.take k)).table).2.1 =
          ((logAfter start (calls.take k)).codes child).head?) := by
  have isValid (k : ℕ) (listed : k < calls.length) :
      calls[k].Valid (logAfter start (calls.take k)).table := by
    rw [logAfter_table]
    exact valid.valid k listed
  have accounted (k : ℕ) : Accounted (logAfter start (calls.take k)) :=
    Runs.forall_take isStart.accounted (fun k listed reached => reached.run (isValid k listed)) k
  refine ⟨?_, ?_⟩
  · intro k child _ reaps
    rcases (accounted k).wait_status reaps with ⟨-, returned, first, last, isFirst, isLast, status⟩
    refine ⟨first, isFirst, returned, ?_⟩
    rw [status, isLast]
  · intro spares k child reaps
    have uniform : Uniform (logAfter start (calls.take k)) := by
      refine Runs.forall_take (by simp [Uniform]) (fun k listed reached => ?_) k
      exact reached.run (accounted k) (isValid k listed) (spares k listed)
    rcases (accounted k).wait_status reaps with ⟨listed, -, first, last, isFirst, isLast, status⟩
    have firstCode := uniform child listed first (List.mem_of_mem_head? isFirst)
    have lastCode := uniform child listed last (List.mem_of_mem_getLast? isLast)
    rw [status, isFirst, ← firstCode, ← lastCode]

/-- A child is forked, killed twice with different signals, and waited for. -/
def killedTwice : List Call := [bootFork, .kill 2 9, .kill 2 15, .wait]

theorem wait_status_iff_killedTwice :
    ∃ first, ((logAfter bootTable (killedTwice.take 3)).codes 0x1220).head? = some first ∧
      (sysWait (logAfter bootTable (killedTwice.take 3)).table).1 =
        toInt ((logAfter bootTable (killedTwice.take 3)).table.record 0x1220).pid ∧
      ((sysWait (logAfter bootTable (killedTwice.take 3)).table).2.1 = some first ↔
        ((logAfter bootTable (killedTwice.take 3)).codes 0x1220).getLast? = some first) :=
  have valid : ValidRun bootTable killedTwice :=
    ⟨bootFork_valid, trivial, trivial, trivial, trivial⟩
  (wait_status_iff bootTable_afterInit valid).1 3 0x1220 rfl rfl

/-- The child was ended by signal 9, and the wait delivers 15. -/
theorem wait_delivers_second_signal :
    (logAfter bootTable (killedTwice.take 3)).codes 0x1220 = [9, 15] ∧
      (sysWait (killedTwice.take 3 |>.foldl Call.run bootTable)).1 = 2 ∧
      (sysWait (killedTwice.take 3 |>.foldl Call.run bootTable)).2.1 = some 15 := by
  decide

end RamOS.Proc
