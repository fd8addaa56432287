import RamOS.Vfs.Descriptors

/-!
# Isolation of file descriptors

Each file operation replaces at most one entry of the table, and an entry that
it leaves without a node is cleared. What the operations that hand out a
descriptor do is stated on its own, because the descriptor was free before.
-/

namespace RamOS.Vfs

variable {Env : Type} {api : Interface Env} {files : Files Env}

def FileDescriptor.Sound (entry : FileDescriptor) : Prop :=
  entry.node = 0 → entry = .closed

inductive Changed (before after : ℕ → FileDescriptor) (slot : ℤ) : Prop
  | same (unchanged : after = before)
  | entry (fd : ℕ) (entry : FileDescriptor) (isSlot : (fd : ℤ) = slot) (sound : entry.Sound)
      (replaced : after = Function.update before fd entry)

namespace Changed

variable {before after : ℕ → FileDescriptor} {slot : ℤ}

theorem only_slot (changed : Changed before after slot) {fd : ℕ} (differs : after fd ≠ before fd) :
    (fd : ℤ) = slot := by
  cases changed with
  | same unchanged => exact absurd (congrFun unchanged fd) differs
  | entry changedFd entry isSlot _ replaced =>
    by_cases equal : fd = changedFd
    · rw [equal, isSlot]
    · rw [replaced, Function.update_of_ne equal] at differs
      exact absurd rfl differs

theorem sound (changed : Changed before after slot) (allSound : ∀ fd, (before fd).Sound) (fd : ℕ) :
    (after fd).Sound := by
  cases changed with
  | same unchanged => exact unchanged ▸ allSound fd
  | entry changedFd entry _ entrySound replaced =>
    rw [replaced]
    by_cases equal : fd = changedFd
    · rw [equal, Function.update_self]
      exact entrySound
    · rw [Function.update_of_ne equal]
      exact allSound fd

end Changed

theorem openEntry_eq_some {fd : ℤ} {entry : FileDescriptor}
    (found : files.openEntry fd = some entry) :
    (fd.toNat : ℤ) = fd ∧ fd < maxFileDescriptors ∧ files.fdTable fd.toNat = entry ∧
      entry.node ≠ 0 := by
  simp only [Files.openEntry, Option.ite_none_left_eq_some, not_or, Option.some.injEq] at found
  rcases found with ⟨⟨nonnegative, inside, isOpen⟩, rfl⟩
  exact ⟨by omega, by omega, rfl, isOpen⟩

theorem openEntry_of_open {fd : ℤ} (nonnegative : 0 ≤ fd) (inside : fd < maxFileDescriptors)
    (isOpen : (files.fdTable fd.toNat).node ≠ 0) :
    files.openEntry fd = some (files.fdTable fd.toNat) := by
  rw [Files.openEntry, if_neg]
  rintro (negative | tooLarge | unused)
  · omega
  · omega
  · exact isOpen unused

theorem allocFd_eq_some {fdTable : ℕ → FileDescriptor} {fd : ℕ}
    (allocated : allocFd fdTable = some fd) :
    3 ≤ fd ∧ fd < maxFileDescriptors ∧ (fdTable fd).node = 0 := by
  have inside := List.mem_range'_1.mp (List.mem_of_find?_eq_some allocated)
  have free := List.find?_some allocated
  rw [maxFileDescriptors] at inside ⊢
  exact ⟨inside.1, by omega, by simpa using free⟩

theorem Changed.of_open {fd : ℤ} {entry replacement : FileDescriptor} {after : ℕ → FileDescriptor}
    (found : files.openEntry fd = some entry)
    (replaced : after = Function.update files.fdTable fd.toNat replacement)
    (keeps : replacement.node = entry.node) : Changed files.fdTable after fd := by
  rcases openEntry_eq_some found with ⟨isSlot, -, -, isOpen⟩
  exact .entry fd.toNat replacement isSlot (fun empty => absurd (keeps ▸ empty) isOpen) replaced

/-- The operation leaves the table alone, or fills the entry of a free descriptor. -/
inductive Opens (before after : ℕ → FileDescriptor) (result : ℤ) (node : ℕ) : Prop
  | failed (code : result = -1) (unchanged : after = before)
  | opened (fd : ℕ) (entry : FileDescriptor) (returned : result = fd) (atLeast : 3 ≤ fd)
      (inside : fd < maxFileDescriptors) (free : (before fd).node = 0) (ofNode : entry.node = node)
      (nonzero : node ≠ 0) (replaced : after = Function.update before fd entry)

theorem vfsOpen_opens (path : Bytes) (flags : ℤ) :
    Opens files.fdTable (vfsOpen api files (some path) flags).2.fdTable
      (vfsOpen api files (some path) flags).1 (api.finddir files.env path).1 := by
  simp only [vfsOpen]
  split_ifs with null
  · exact .failed rfl rfl
  · exact .failed rfl rfl
  · cases allocated : allocFd files.fdTable with
    | none => exact .failed rfl rfl
    | some fd =>
      rcases allocFd_eq_some allocated with ⟨atLeast, inside, free⟩
      exact .opened fd _ rfl atLeast inside free rfl null rfl

theorem vfsOpen_succeeded {path : Bytes} {flags fd : ℤ} {after : Files Env}
    (ran : vfsOpen api files (some path) flags = (fd, after)) (succeeded : 0 ≤ fd) :
    (api.finddir files.env path).1 ≠ 0 ∧ fd < maxFileDescriptors ∧
      (files.fdTable fd.toNat).node = 0 ∧
      after.fdTable = Function.update files.fdTable fd.toNat
        { node := (api.finddir files.env path).1, position := 0, flags := Word32.ofInt flags } := by
  simp only [vfsOpen] at ran
  split_ifs at ran with null
  · cases ran
    omega
  · cases ran
    omega
  · cases allocated : allocFd files.fdTable with
    | none =>
      rw [allocated] at ran
      cases ran
      omega
    | some slot =>
      rw [allocated] at ran
      cases ran
      rcases allocFd_eq_some allocated with ⟨-, inside, free⟩
      exact ⟨null, by omega, free, rfl⟩

theorem vfsDup_opens {oldfd : ℤ} {entry : FileDescriptor}
    (found : files.openEntry oldfd = some entry) :
    Opens files.fdTable (vfsDup files oldfd).2.fdTable (vfsDup files oldfd).1 entry.node := by
  rcases openEntry_eq_some found with ⟨-, -, -, isOpen⟩
  simp only [vfsDup, found]
  cases allocated : allocFd files.fdTable with
  | none => exact .failed rfl rfl
  | some fd =>
    rcases allocFd_eq_some allocated with ⟨atLeast, inside, free⟩
    exact .opened fd _ rfl atLeast inside free rfl isOpen rfl

theorem Opens.changed {before after : ℕ → FileDescriptor} {result : ℤ} {node : ℕ}
    (opens : Opens before after result node) : Changed before after result := by
  cases opens with
  | failed _ unchanged => exact .same unchanged
  | opened fd entry returned _ _ _ ofNode nonzero replaced =>
    exact .entry fd entry returned.symm (fun empty => absurd (ofNode ▸ empty) nonzero) replaced

theorem vfsClose_table {fd : ℤ} {entry : FileDescriptor}
    (found : files.openEntry fd = some entry) :
    (vfsClose api files fd).2.fdTable = Function.update files.fdTable fd.toNat .closed := by
  simp only [vfsClose, found]
  rfl

theorem vfsClose_changed (fd : ℤ) :
    Changed files.fdTable (vfsClose api files fd).2.fdTable fd := by
  cases found : files.openEntry fd with
  | none => exact .same (by simp only [vfsClose, found])
  | some entry =>
    exact .entry fd.toNat .closed (openEntry_eq_some found).1 (fun _ => rfl)
      (vfsClose_table found)

theorem vfsRead_cases (fd : ℤ) (buffer size : ℕ) :
    (vfsRead api files fd buffer size).2.fdTable = files.fdTable ∨
      ∃ entry read, files.openEntry fd = some entry ∧
        api.read files.env entry.node = some read ∧
        (vfsRead api files fd buffer size).2.fdTable =
          Function.update files.fdTable fd.toNat
            { entry with
              position :=
                Word32.add entry.position
                  (Word32.ofInt (read entry.position size buffer).1) } := by
  fun_cases vfsRead api files fd buffer size with
  | case4 entry found _ read callback _ _ ran =>
    exact Or.inr ⟨entry, read, found, callback, by rw [ran]; rfl⟩
  | _ => exact Or.inl rfl

theorem vfsRead_changed (fd : ℤ) (buffer size : ℕ) :
    Changed files.fdTable (vfsRead api files fd buffer size).2.fdTable fd := by
  rcases @vfsRead_cases _ api files fd buffer size with same | ⟨entry, read, found, -, replaced⟩
  · exact .same same
  · exact .of_open found replaced rfl

theorem vfsWrite_changed (fd : ℤ) (buffer size : ℕ) :
    Changed files.fdTable (vfsWrite api files fd buffer size).2.fdTable fd := by
  fun_cases vfsWrite api files fd buffer size with
  | case1 | case2 | case3 => exact .same rfl
  | case4 entry found | case5 entry found => exact .of_open found (Function.update_idem ..) rfl
  | case6 entry found => exact .of_open found rfl rfl

theorem vfsSeek_cases (fd offset whence : ℤ) :
    (vfsSeek api files fd offset whence).2 = files ∨
      ∃ entry position, files.openEntry fd = some entry ∧ position < 2 ^ 32 ∧
        0 ≤ Word32.toInt position ∧ vfsSeek api files fd offset whence =
          (Word32.toInt position,
            files.setEntry fd.toNat { entry with position := position }) := by
  have moved {newPos : ℕ} {entry : FileDescriptor} (found : files.openEntry fd = some entry)
      (fits : newPos < 2 ^ 32) (after : ℤ × Files Env)
      (isAfter : after = if Word32.toInt newPos < 0 then (-1, files)
        else (Word32.toInt newPos, files.setEntry fd.toNat { entry with position := newPos })) :
      after.2 = files ∨ ∃ entry position, files.openEntry fd = some entry ∧ position < 2 ^ 32 ∧
        0 ≤ Word32.toInt position ∧ after = (Word32.toInt position,
          files.setEntry fd.toNat { entry with position := position }) := by
    rw [isAfter]
    split
    · exact Or.inl rfl
    · exact Or.inr ⟨entry, newPos, found, fits, by omega, rfl⟩
  fun_cases vfsSeek api files fd offset whence with
  | case1 | case5 => exact Or.inl rfl
  | case2 entry found => exact moved found (Word32.ofInt_lt offset) _ rfl
  | case3 entry found | case4 entry found => exact moved found (Word32.add_lt _ _) _ rfl

theorem vfsSeek_changed (fd offset whence : ℤ) :
    Changed files.fdTable (vfsSeek api files fd offset whence).2.fdTable fd := by
  rcases @vfsSeek_cases _ api files fd offset whence with
    same | ⟨entry, position, found, -, -, replaced⟩
  · exact .same (congrArg Files.fdTable same)
  · rw [replaced]
    exact .of_open found rfl rfl

theorem vfsReaddir_cases (fd : ℤ) (dirent : ℕ) :
    (vfsReaddir api files fd dirent).2.fdTable = files.fdTable ∨
      ∃ entry readdir, files.openEntry fd = some entry ∧
        api.readdir files.env entry.node = some readdir ∧
        (readdir entry.position).1 ≠ 0 ∧
        (vfsReaddir api files fd dirent).2.fdTable =
          Function.update files.fdTable fd.toNat
            { entry with position := Word32.add entry.position 1 } := by
  fun_cases vfsReaddir api files fd dirent with
  | case5 entry found _ readdir callback _ _ ran nonzero =>
    exact Or.inr ⟨entry, readdir, found, callback, by rwa [ran], rfl⟩
  | _ => exact Or.inl rfl

theorem vfsReaddir_changed (fd : ℤ) (dirent : ℕ) :
    Changed files.fdTable (vfsReaddir api files fd dirent).2.fdTable fd := by
  rcases @vfsReaddir_cases _ api files fd dirent with
    same | ⟨entry, readdir, found, -, -, replaced⟩
  · exact .same same
  · exact .of_open found replaced rfl

theorem vfsDup2_cases (oldfd newfd : ℤ) :
    (vfsDup2 api files oldfd newfd).2.fdTable = files.fdTable ∨
      ∃ entry, files.openEntry oldfd = some entry ∧ (newfd.toNat : ℤ) = newfd ∧
        (vfsDup2 api files oldfd newfd).2.fdTable =
          Function.update files.fdTable newfd.toNat entry := by
  fun_cases vfsDup2 api files oldfd newfd with
  | case1 | case2 | case3 => exact Or.inl rfl
  | case4 entry found inRange distinct closed =>
    rcases openEntry_eq_some found with ⟨isOld, -, held, -⟩
    refine Or.inr ⟨entry, found, by omega, ?_⟩
    simp only [closed]
    split
    next inUse =>
      have isOpen := openEntry_of_open (by omega) (by omega) inUse
      have otherSlot : oldfd.toNat ≠ newfd.toNat := by omega
      rw [Files.setEntry, vfsClose_table isOpen, Function.update_of_ne otherSlot, held]
      exact Function.update_idem ..
    next => rw [Files.setEntry, held]

theorem vfsDup2_changed (oldfd newfd : ℤ) :
    Changed files.fdTable (vfsDup2 api files oldfd newfd).2.fdTable newfd := by
  rcases @vfsDup2_cases _ api files oldfd newfd with unchanged | ⟨entry, found, isSlot, replaced⟩
  · exact .same unchanged
  · exact .entry newfd.toNat entry isSlot
      (fun empty => absurd empty (openEntry_eq_some found).2.2.2) replaced

theorem vfsSeek_env (fd offset whence : ℤ) :
    (vfsSeek api files fd offset whence).2.env = files.env := by
  rcases @vfsSeek_cases _ api files fd offset whence with same | ⟨_, _, -, -, -, moved⟩
  · rw [same]
  · rw [moved]
    rfl

theorem vfsDup_env (oldfd : ℤ) : (vfsDup files oldfd).2.env = files.env := by
  fun_cases vfsDup files oldfd
  all_goals rfl

/-- Neither path resolution nor opening or closing a node changes anything. -/
structure Interface.Passive (api : Interface Env) : Prop where
  finddir : ∀ env path, (api.finddir env path).2 = env
  openNode : ∀ env node, api.openNode env node = none
  closeNode : ∀ env node, api.closeNode env node = none

namespace Interface.Passive

theorem vfsOpen_env (passive : api.Passive) (path : Option Bytes) (flags : ℤ) :
    (vfsOpen api files path flags).2.env = files.env := by
  cases path with
  | none => rfl
  | some path =>
    simp only [vfsOpen, passive.openNode, Option.getD_none]
    split_ifs
    · exact passive.finddir ..
    · exact passive.finddir ..
    · cases allocFd files.fdTable
      all_goals exact passive.finddir ..

theorem vfsClose_env (passive : api.Passive) (fd : ℤ) :
    (vfsClose api files fd).2.env = files.env := by
  fun_cases vfsClose api files fd with
  | case1 => rfl
  | case2 entry _ closed =>
    simp only [closed, passive.closeNode]
    rfl

theorem vfsDup2_env (passive : api.Passive) (oldfd newfd : ℤ) :
    (vfsDup2 api files oldfd newfd).2.env = files.env := by
  fun_cases vfsDup2 api files oldfd newfd with
  | case1 | case2 | case3 => rfl
  | case4 _ _ _ _ closed =>
    simp only [closed]
    split
    · exact passive.vfsClose_env newfd
    · rfl

end Interface.Passive

theorem FileCall.run_changed (call : FileCall) :
    Changed files.fdTable (call.run api files).2.fdTable (call.touched (call.run api files).1) := by
  cases call with
  | openFile path flags =>
    cases path with
    | none => exact .same rfl
    | some path => exact (vfsOpen_opens path flags).changed
  | close fd => exact vfsClose_changed fd
  | read fd buffer size => exact vfsRead_changed fd buffer size
  | write fd buffer size => exact vfsWrite_changed fd buffer size
  | seek fd offset whence => exact vfsSeek_changed fd offset whence
  | readdir fd dirent => exact vfsReaddir_changed fd dirent
  | dup oldfd =>
    cases found : files.openEntry oldfd with
    | none => exact .same (by simp only [FileCall.run, vfsDup, found])
    | some entry => exact (vfsDup_opens found).changed
  | dup2 oldfd newfd => exact vfsDup2_changed oldfd newfd

theorem FileCall.run_allocates {call : FileCall} (allocates : call.Allocates)
    (succeeded : 0 ≤ (call.run api files).1) :
    3 ≤ (call.run api files).1 ∧ (call.run api files).1 < maxFileDescriptors ∧
      (files.fdTable (call.run api files).1.toNat).node = 0 := by
  have fresh {after : ℕ → FileDescriptor} {result : ℤ} {node : ℕ}
      (opens : Opens files.fdTable after result node) (nonnegative : 0 ≤ result) :
      3 ≤ result ∧ result < maxFileDescriptors ∧ (files.fdTable result.toNat).node = 0 := by
    cases opens with
    | failed code _ => omega
    | opened fd _ returned atLeast inside free _ _ _ =>
      subst returned
      exact ⟨by omega, by omega, free⟩
  cases call with
  | openFile path flags =>
    cases path with
    | none => exact absurd succeeded (show ¬ (0 : ℤ) ≤ -1 by decide)
    | some path => exact fresh (vfsOpen_opens path flags) succeeded
  | dup oldfd =>
    cases found : files.openEntry oldfd with
    | none =>
      rw [FileCall.run, vfsDup, found] at succeeded
      exact absurd succeeded (show ¬ (0 : ℤ) ≤ -1 by decide)
    | some entry => exact fresh (vfsDup_opens found) succeeded
  | _ => exact allocates.elim

theorem FileCall.openEntry_run {call : FileCall} {fd : ℤ} {entry : FileDescriptor}
    (found : files.openEntry fd = some entry) (avoids : call.Avoids fd) :
    (call.run api files).2.openEntry fd = some entry := by
  rcases openEntry_eq_some found with ⟨isSlot, inside, held, isOpen⟩
  -- a descriptor that is handed out was free, so it is another one
  have notReturned (allocates : call.Allocates) : fd ≠ (call.run api files).1 := by
    intro returned
    have succeeded : 0 ≤ (call.run api files).1 := by omega
    have free := (call.run_allocates allocates succeeded).2.2
    rw [← returned, held] at free
    exact isOpen free
  have unchanged : (call.run api files).2.fdTable fd.toNat = files.fdTable fd.toNat := by
    by_contra differs
    have slot := call.run_changed.only_slot differs
    rw [isSlot] at slot
    cases call with
    | openFile path flags => exact notReturned trivial slot
    | dup oldfd => exact notReturned trivial slot
    | _ => exact avoids slot.symm
  rw [openEntry_of_open (by omega) inside (by rw [unchanged, held]; exact isOpen), unchanged, held]

theorem sound_filesAfter (allSound : ∀ fd, (files.fdTable fd).Sound) (calls : List FileCall) :
    ∀ fd, ((filesAfter api files calls).fdTable fd).Sound := by
  induction calls generalizing files with
  | nil => exact allSound
  | cons call calls ih => exact ih (call.run_changed.sound allSound)

/-- In every reachable state, whatever the callbacks do, a free entry is cleared, a descriptor
that is handed out is not reserved and was free, and a call changes no entry but its own. -/
theorem reachable_isolated (api : Interface Env) (env : Env) (calls : List FileCall) :
    (∀ fd, ((filesAfter api (clearedFiles env) calls).fdTable fd).node = 0 →
      ((filesAfter api (clearedFiles env) calls).fdTable fd).position = 0 ∧
      ((filesAfter api (clearedFiles env) calls).fdTable fd).flags = 0) ∧
    ∀ (call : FileCall) (result : ℤ) (after : Files Env),
      call.run api (filesAfter api (clearedFiles env) calls) = (result, after) →
        (call.Allocates → 0 ≤ result → 3 ≤ result ∧ result < maxFileDescriptors ∧
          ((filesAfter api (clearedFiles env) calls).fdTable result.toNat).node = 0) ∧
        ∀ fd : ℕ, after.fdTable fd ≠ (filesAfter api (clearedFiles env) calls).fdTable fd →
          (fd : ℤ) = call.touched result := by
  refine ⟨?_, ?_⟩
  · intro fd unused
    have closed := sound_filesAfter (fun _ _ => rfl) calls fd unused
    rw [closed]
    exact ⟨rfl, rfl⟩
  · intro call result after ran
    have first : (call.run api (filesAfter api (clearedFiles env) calls)).1 = result := by rw [ran]
    have second : (call.run api (filesAfter api (clearedFiles env) calls)).2 = after := by rw [ran]
    subst first second
    exact ⟨fun allocates => call.run_allocates allocates, fun fd => call.run_changed.only_slot⟩

end RamOS.Vfs
