import RamOS.Vfs.Isolation

/-!
# Failed file operations

An operation that returns -1 has either not called anything, or it has resolved a
path, or the callback that it called has itself returned -1. What path resolution and
the callback did to the nodes remains, and so does the position that `vfs_write` has
moved to the end of the file before it called the callback.
-/

namespace RamOS.Vfs

variable {Env : Type} {api : Interface Env} {files : Files Env}

def KeepsLengths (api : Interface Env) (before after : Env) : Prop :=
  ∀ node, api.length after node = api.length before node

structure Unchanged (api : Interface Env) (before after : Files Env) : Prop where
  table : after.fdTable = before.fdTable
  lengths : KeepsLengths api before.env after.env

abbrev Transfer (Env : Type) := ℕ → ℕ → ℕ → ℤ × Env

/-- `vfs_read` or `vfs_write` comes to its callback: the descriptor is open, the buffer is there,
the mode allows it, and the node is no directory. -/
structure Reaches (files : Files Env) (api : Interface Env)
    (select : Env → ℕ → Option (Transfer Env)) (forbidden : ℕ) (fd : ℤ) (buffer : ℕ)
    (entry : FileDescriptor) (callback : Transfer Env) : Prop where
  found : files.openEntry fd = some entry
  admitted : ¬ (buffer = 0 ∨ entry.flags &&& forbidden ≠ 0 ∨
    api.flags files.env entry.node &&& vfsDirectory ≠ 0)
  selected : select files.env entry.node = some callback

def writePosition (api : Interface Env) (files : Files Env) (entry : FileDescriptor) : ℕ :=
  if entry.flags &&& oAppend ≠ 0 then api.length files.env entry.node else entry.position

/-- Path resolution and the callback have left the lengths alone, and a descriptor in append mode
was at the end already. -/
def FileCall.FailsCleanly (api : Interface Env) (files : Files Env) : FileCall → Prop
  | openFile (some path) _ => KeepsLengths api files.env (api.finddir files.env path).2
  | read fd buffer size => ∀ entry read,
      Reaches files api api.read oWronly fd buffer entry read →
        KeepsLengths api files.env (read entry.position size buffer).2
  | write fd buffer size => ∀ entry write,
      Reaches files api api.write oRdonly fd buffer entry write →
        writePosition api files entry = entry.position ∧
          KeepsLengths api files.env (write (writePosition api files entry) size buffer).2
  | _ => True

theorem Unchanged.refl (api : Interface Env) (files : Files Env) : Unchanged api files files :=
  ⟨rfl, fun _ => rfl⟩

theorem unchanged_env_iff {env : Env} :
    Unchanged api files { files with env := env } ↔ KeepsLengths api files.env env :=
  ⟨fun unchanged => unchanged.lengths, fun kept => ⟨rfl, kept⟩⟩

theorem unchanged_setEntry_iff {fd : ℤ} {entry replacement : FileDescriptor} {env : Env}
    (found : files.openEntry fd = some entry) :
    Unchanged api files { files.setEntry fd.toNat replacement with env := env } ↔
      replacement = entry ∧ KeepsLengths api files.env env := by
  rcases openEntry_eq_some found with ⟨-, -, held, -⟩
  constructor
  · rintro ⟨table, lengths⟩
    have here := congrFun table fd.toNat
    simp only [Files.setEntry, Function.update_self, held] at here
    exact ⟨here, lengths⟩
  · rintro ⟨rfl, lengths⟩
    refine ⟨?_, lengths⟩
    simp only [Files.setEntry]
    rw [← held]
    exact Function.update_eq_self fd.toNat files.fdTable

theorem vfsOpen_unchanged_iff (path : Bytes) (flags : ℤ)
    (failed : (vfsOpen api files (some path) flags).1 = -1) :
    Unchanged api files (vfsOpen api files (some path) flags).2 ↔
      KeepsLengths api files.env (api.finddir files.env path).2 := by
  simp only [vfsOpen] at failed ⊢
  split_ifs at failed ⊢
  · exact unchanged_env_iff
  · exact unchanged_env_iff
  · cases allocated : allocFd files.fdTable with
    | none => exact unchanged_env_iff
    | some fd =>
      simp only [allocated] at failed
      omega

theorem unchanged_iff_of_reaches {select : Env → ℕ → Option (Transfer Env)}
    {forbidden buffer : ℕ} {fd : ℤ} {after : Files Env}
    {property : FileDescriptor → Transfer Env → Prop}
    (unreached : (∀ entry callback,
      ¬ Reaches files api select forbidden fd buffer entry callback) → after = files)
    (reached : ∀ entry callback, Reaches files api select forbidden fd buffer entry callback →
      (Unchanged api files after ↔ property entry callback)) :
    Unchanged api files after ↔ ∀ entry callback,
      Reaches files api select forbidden fd buffer entry callback → property entry callback := by
  constructor
  · exact fun unchanged entry callback reaches => (reached entry callback reaches).mp unchanged
  · intro holds
    by_cases any : ∃ entry callback, Reaches files api select forbidden fd buffer entry callback
    · rcases any with ⟨entry, callback, reaches⟩
      exact (reached entry callback reaches).mpr (holds entry callback reaches)
    · simp only [not_exists] at any
      rw [unreached any]
      exact .refl api files

section Reading

variable {fd : ℤ} {buffer size : ℕ}

theorem vfsRead_of_unreached
    (unreached : ∀ entry read, ¬ Reaches files api api.read oWronly fd buffer entry read) :
    vfsRead api files fd buffer size = (-1, files) := by
  fun_cases vfsRead api files fd buffer size with
  | case4 entry found admitted read selected | case5 entry found admitted read selected =>
    exact absurd ⟨found, admitted, selected⟩ (unreached entry read)
  | _ => rfl

theorem vfsRead_of_reaches {entry : FileDescriptor} {read : Transfer Env}
    (reaches : Reaches files api api.read oWronly fd buffer entry read)
    (failed : (vfsRead api files fd buffer size).1 = -1) :
    (vfsRead api files fd buffer size).2 =
      { files with env := (read entry.position size buffer).2 } := by
  simp only [vfsRead, reaches.found, if_neg reaches.admitted, reaches.selected] at failed ⊢
  split_ifs at failed ⊢
  · omega
  · rfl

theorem vfsRead_unchanged_iff (failed : (vfsRead api files fd buffer size).1 = -1) :
    Unchanged api files (vfsRead api files fd buffer size).2 ↔
      (FileCall.read fd buffer size).FailsCleanly api files := by
  refine unchanged_iff_of_reaches (fun unreached => by rw [vfsRead_of_unreached unreached])
    fun entry read reaches => ?_
  rw [vfsRead_of_reaches reaches failed]
  exact unchanged_env_iff

end Reading

section Writing

variable {fd : ℤ} {buffer size : ℕ}

theorem vfsWrite_of_unreached
    (unreached : ∀ entry write, ¬ Reaches files api api.write oRdonly fd buffer entry write) :
    vfsWrite api files fd buffer size = (-1, files) := by
  fun_cases vfsWrite api files fd buffer size with
  | case1 | case2 | case3 => rfl
  | case4 entry found admitted write selected | case5 entry found admitted write selected
  | case6 entry found admitted write selected =>
    exact absurd ⟨found, admitted, selected⟩ (unreached entry write)

theorem vfsWrite_of_reaches {entry : FileDescriptor} {write : Transfer Env}
    (reaches : Reaches files api api.write oRdonly fd buffer entry write)
    (failed : (vfsWrite api files fd buffer size).1 = -1) :
    (vfsWrite api files fd buffer size).2 =
      { files.setEntry fd.toNat { entry with position := writePosition api files entry } with
        env := (write (writePosition api files entry) size buffer).2 } := by
  simp only [vfsWrite, reaches.found, if_neg reaches.admitted, reaches.selected] at failed ⊢
  rw [← writePosition] at failed ⊢
  split_ifs at failed ⊢
  · omega
  · omega
  · rfl

theorem vfsWrite_unchanged_iff (failed : (vfsWrite api files fd buffer size).1 = -1) :
    Unchanged api files (vfsWrite api files fd buffer size).2 ↔
      (FileCall.write fd buffer size).FailsCleanly api files := by
  refine unchanged_iff_of_reaches (fun unreached => by rw [vfsWrite_of_unreached unreached])
    fun entry write reaches => ?_
  have stays : ({ entry with position := writePosition api files entry } : FileDescriptor) =
      entry ↔ writePosition api files entry = entry.position := by
    rw [FileDescriptor.ext_iff]
    simp
  rw [vfsWrite_of_reaches reaches failed, unchanged_setEntry_iff reaches.found, stays]

end Writing

theorem vfsClose_failed {fd : ℤ} (failed : (vfsClose api files fd).1 = -1) :
    (vfsClose api files fd).2 = files := by
  revert failed
  fun_cases vfsClose api files fd with
  | case1 => exact fun _ => rfl
  | case2 =>
    intro failed
    omega

theorem vfsSeek_failed {fd offset whence : ℤ}
    (failed : (vfsSeek api files fd offset whence).1 = -1) :
    (vfsSeek api files fd offset whence).2 = files := by
  rcases @vfsSeek_cases _ api files fd offset whence with same | ⟨_, _, _, _, nonnegative, moved⟩
  · exact same
  · rw [moved] at failed
    dsimp only at failed
    omega

theorem vfsReaddir_failed {fd : ℤ} {dirent : ℕ} (failed : (vfsReaddir api files fd dirent).1 = -1) :
    (vfsReaddir api files fd dirent).2 = files := by
  revert failed
  fun_cases vfsReaddir api files fd dirent with
  | case4 | case5 =>
    intro failed
    dsimp only at failed
    omega
  | _ => exact fun _ => rfl

theorem vfsDup_failed {oldfd : ℤ} (failed : (vfsDup files oldfd).1 = -1) :
    (vfsDup files oldfd).2 = files := by
  revert failed
  fun_cases vfsDup files oldfd with
  | case3 =>
    intro failed
    dsimp only at failed
    omega
  | _ => exact fun _ => rfl

theorem vfsDup2_failed {oldfd newfd : ℤ} (failed : (vfsDup2 api files oldfd newfd).1 = -1) :
    (vfsDup2 api files oldfd newfd).2 = files := by
  revert failed
  fun_cases vfsDup2 api files oldfd newfd with
  | case4 =>
    intro failed
    dsimp only at failed
    omega
  | _ => exact fun _ => rfl

/-- A call that returns -1 has changed no entry and no length exactly if path resolution and the
callback have changed no length and a descriptor in append mode was at the end of its file. -/
theorem failed_unchanged_iff (api : Interface Env) (files : Files Env) (call : FileCall) :
    ((call.run api files).1 = -1 → Unchanged api files (call.run api files).2) ↔
      ((call.run api files).1 = -1 → call.FailsCleanly api files) := by
  apply imp_congr_right
  intro failed
  have untouched (same : (call.run api files).2 = files) :
      Unchanged api files (call.run api files).2 := by
    rw [same]
    exact .refl api files
  cases call with
  | openFile path flags =>
    cases path with
    | none => exact iff_of_true (untouched rfl) trivial
    | some path => exact vfsOpen_unchanged_iff path flags failed
  | close fd => exact iff_of_true (untouched (vfsClose_failed failed)) trivial
  | read fd buffer size => exact vfsRead_unchanged_iff failed
  | write fd buffer size => exact vfsWrite_unchanged_iff failed
  | seek fd offset whence => exact iff_of_true (untouched (vfsSeek_failed failed)) trivial
  | readdir fd dirent => exact iff_of_true (untouched (vfsReaddir_failed failed)) trivial
  | dup oldfd => exact iff_of_true (untouched (vfsDup_failed failed)) trivial
  | dup2 oldfd newfd => exact iff_of_true (untouched (vfsDup2_failed failed)) trivial

def fullDisk : Interface Unit where
  finddir := fun _ _ => (1, ())
  flags := fun _ _ => vfsFile
  length := fun _ _ => 5
  setLength := fun _ _ _ => ()
  openNode := fun _ _ => none
  closeNode := fun _ _ => none
  read := fun _ _ => none
  write := fun _ _ => some fun _ _ _ => (-1, ())
  readdir := fun _ _ => none
  fillDirent := fun _ _ _ => ()

/-- A write in append mode fails, and the descriptor has moved to the end of the file. -/
theorem failed_append_moves :
    ((filesAfter fullDisk (clearedFiles ())
        [.openFile (some (CString.ascii "/log")) 0x22]).fdTable 3).position = 0 ∧
      ((FileCall.write 3 0x1000 1).run fullDisk (filesAfter fullDisk (clearedFiles ())
        [.openFile (some (CString.ascii "/log")) 0x22])).1 = -1 ∧
      (((FileCall.write 3 0x1000 1).run fullDisk (filesAfter fullDisk (clearedFiles ())
        [.openFile (some (CString.ascii "/log")) 0x22])).2.fdTable 3).position = 5 := by
  refine ⟨rfl, rfl, rfl⟩

end RamOS.Vfs
