import RamOS.Lib.Word32
import RamOS.Vfs.Model

/-!
# The file descriptor table

The table is shared by all open files. Everything else that the file operations read or change
is an environment of arbitrary type, and an interface says what the callbacks and the fields of
a node are there.

An empty slot of a node is `none` and the null pointer is zero. What the operations print is not
part of the model.
-/

namespace RamOS.Vfs

def maxFileDescriptors : ℕ := 256

def oRdonly : ℕ := 0x0001

def oWronly : ℕ := 0x0002

def oRdwr : ℕ := 0x0004

def oAppend : ℕ := 0x0020

/-- `file_descriptor_t`. -/
@[ext]
structure FileDescriptor where
  node : ℕ
  position : ℕ
  flags : ℕ
deriving DecidableEq

def FileDescriptor.closed : FileDescriptor where
  node := 0
  position := 0
  flags := 0

structure Interface (Env : Type) where
  finddir : Env → Bytes → ℕ × Env
  flags : Env → ℕ → ℕ
  length : Env → ℕ → ℕ
  setLength : Env → ℕ → ℕ → Env
  openNode : Env → ℕ → Option Env
  closeNode : Env → ℕ → Option Env
  read : Env → ℕ → Option (ℕ → ℕ → ℕ → ℤ × Env)
  write : Env → ℕ → Option (ℕ → ℕ → ℕ → ℤ × Env)
  readdir : Env → ℕ → Option (ℕ → ℕ × Env)
  fillDirent : Env → ℕ → ℕ → Env

structure Files (Env : Type) where
  env : Env
  fdTable : ℕ → FileDescriptor

/-- An environment with the memory of the machine, in which the buffers lie. -/
structure Machine (Rest : Type) where
  memory : ByteMemory.Memory
  rest : Rest

variable {Env : Type}

def clearedFiles (env : Env) : Files Env where
  env := env
  fdTable := fun _ => .closed

namespace Files

def setEntry (files : Files Env) (fd : ℕ) (entry : FileDescriptor) : Files Env :=
  { files with fdTable := Function.update files.fdTable fd entry }

def openEntry (files : Files Env) (fd : ℤ) : Option FileDescriptor :=
  if fd < 0 ∨ (maxFileDescriptors : ℤ) ≤ fd ∨ (files.fdTable fd.toNat).node = 0 then none
  else some (files.fdTable fd.toNat)

end Files

def allocFd (fdTable : ℕ → FileDescriptor) : Option ℕ :=
  (List.range' 3 (maxFileDescriptors - 3)).find? fun fd => (fdTable fd).node = 0

section Operations

variable (api : Interface Env) (files : Files Env)

/-- `vfs_open`; creation and truncation are not implemented in the source. -/
def vfsOpen (path : Option Bytes) (flags : ℤ) : ℤ × Files Env :=
  match path with
  | none => (-1, files)
  | some path =>
    let (node, env) := api.finddir files.env path
    let files := { files with env := env }
    if node = 0 then (-1, files)
    else if api.flags env node &&& vfsDirectory ≠ 0 ∧
        Word32.ofInt flags &&& (oWronly ||| oRdwr) ≠ 0 then (-1, files)
    else
      match allocFd files.fdTable with
      | none => (-1, files)
      | some fd =>
        let files := files.setEntry fd
          { node := node, position := 0, flags := Word32.ofInt flags }
        (fd, { files with env := (api.openNode files.env node).getD files.env })

def vfsClose (fd : ℤ) : ℤ × Files Env :=
  match files.openEntry fd with
  | none => (-1, files)
  | some entry =>
    let files := { files with env := (api.closeNode files.env entry.node).getD files.env }
    (0, files.setEntry fd.toNat .closed)

def vfsRead (fd : ℤ) (buffer size : ℕ) : ℤ × Files Env :=
  match files.openEntry fd with
  | none => (-1, files)
  | some entry =>
    if buffer = 0 ∨ entry.flags &&& oWronly ≠ 0 ∨
        api.flags files.env entry.node &&& vfsDirectory ≠ 0 then (-1, files)
    else
      match api.read files.env entry.node with
      | none => (-1, files)
      | some read =>
        let (bytesRead, env) := read entry.position size buffer
        let files := { files with env := env }
        if 0 < bytesRead then
          (bytesRead, files.setEntry fd.toNat
            { entry with position := Word32.add entry.position (Word32.ofInt bytesRead) })
        else (bytesRead, files)

/-- `vfs_write`; in append mode the position moves before the write. -/
def vfsWrite (fd : ℤ) (buffer size : ℕ) : ℤ × Files Env :=
  match files.openEntry fd with
  | none => (-1, files)
  | some entry =>
    if buffer = 0 ∨ entry.flags &&& oRdonly ≠ 0 ∨
        api.flags files.env entry.node &&& vfsDirectory ≠ 0 then (-1, files)
    else
      match api.write files.env entry.node with
      | none => (-1, files)
      | some write =>
        let position :=
          if entry.flags &&& oAppend ≠ 0 then api.length files.env entry.node
          else entry.position
        let files := files.setEntry fd.toNat { entry with position := position }
        let (bytesWritten, env) := write position size buffer
        let files := { files with env := env }
        if 0 < bytesWritten then
          let position := Word32.add position (Word32.ofInt bytesWritten)
          let files := files.setEntry fd.toNat { entry with position := position }
          if api.length env entry.node < position then
            (bytesWritten, { files with env := api.setLength env entry.node position })
          else (bytesWritten, files)
        else (bytesWritten, files)

/-- `vfs_seek`; the numbers stand for `SEEK_SET`, `SEEK_CUR` and `SEEK_END`. -/
def vfsSeek (fd offset whence : ℤ) : ℤ × Files Env :=
  match files.openEntry fd with
  | none => (-1, files)
  | some entry =>
    let moveTo (newPos : ℕ) : ℤ × Files Env :=
      if Word32.toInt newPos < 0 then (-1, files)
      else (Word32.toInt newPos, files.setEntry fd.toNat { entry with position := newPos })
    if whence = 0 then moveTo (Word32.ofInt offset)
    else if whence = 1 then moveTo (Word32.add entry.position (Word32.ofInt offset))
    else if whence = 2 then
      moveTo (Word32.add (api.length files.env entry.node) (Word32.ofInt offset))
    else (-1, files)

def vfsReaddir (fd : ℤ) (dirent : ℕ) : ℤ × Files Env :=
  match files.openEntry fd with
  | none => (-1, files)
  | some entry =>
    if dirent = 0 ∨ api.flags files.env entry.node &&& vfsDirectory = 0 then (-1, files)
    else
      match api.readdir files.env entry.node with
      | none => (-1, files)
      | some readdir =>
        let (child, env) := readdir entry.position
        if child = 0 then (0, { files with env := env })
        else
          let files := { files with env := api.fillDirent env dirent child }
          (1, files.setEntry fd.toNat
            { entry with position := Word32.add entry.position 1 })

def vfsDup (oldfd : ℤ) : ℤ × Files Env :=
  match files.openEntry oldfd with
  | none => (-1, files)
  | some entry =>
    match allocFd files.fdTable with
    | none => (-1, files)
    | some newfd => (newfd, files.setEntry newfd entry)

/-- `vfs_dup2`, which closes the new descriptor first. -/
def vfsDup2 (oldfd newfd : ℤ) : ℤ × Files Env :=
  match files.openEntry oldfd with
  | none => (-1, files)
  | some _ =>
    if newfd < 0 ∨ (maxFileDescriptors : ℤ) ≤ newfd then (-1, files)
    else if oldfd = newfd then (newfd, files)
    else
      let files :=
        if (files.fdTable newfd.toNat).node ≠ 0 then (vfsClose api files newfd).2 else files
      (newfd, files.setEntry newfd.toNat (files.fdTable oldfd.toNat))

end Operations

inductive FileCall where
  | openFile (path : Option Bytes) (flags : ℤ)
  | close (fd : ℤ)
  | read (fd : ℤ) (buffer size : ℕ)
  | write (fd : ℤ) (buffer size : ℕ)
  | seek (fd offset whence : ℤ)
  | readdir (fd : ℤ) (dirent : ℕ)
  | dup (oldfd : ℤ)
  | dup2 (oldfd newfd : ℤ)

namespace FileCall

def run (api : Interface Env) (files : Files Env) : FileCall → ℤ × Files Env
  | openFile path flags => vfsOpen api files path flags
  | close fd => vfsClose api files fd
  | read fd buffer size => vfsRead api files fd buffer size
  | write fd buffer size => vfsWrite api files fd buffer size
  | seek fd offset whence => vfsSeek api files fd offset whence
  | readdir fd dirent => vfsReaddir api files fd dirent
  | dup oldfd => vfsDup files oldfd
  | dup2 oldfd newfd => vfsDup2 api files oldfd newfd

def Allocates : FileCall → Prop
  | openFile .. | dup .. => True
  | _ => False

/-- The descriptor that a call with the given result may change. -/
def touched (result : ℤ) : FileCall → ℤ
  | openFile .. | dup .. => result
  | close fd | read fd _ _ | write fd _ _ | seek fd _ _ | readdir fd _ => fd
  | dup2 _ newfd => newfd

def Avoids (fd : ℤ) : FileCall → Prop
  | openFile .. | dup .. => True
  | close other | read other _ _ | write other _ _ | seek other _ _ | readdir other _ => other ≠ fd
  | dup2 _ newfd => newfd ≠ fd

end FileCall

def filesAfter (api : Interface Env) (files : Files Env) (calls : List FileCall) : Files Env :=
  calls.foldl (fun files call => (call.run api files).2) files

end RamOS.Vfs
