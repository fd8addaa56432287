import RamOS.Lib.Word32
import RamOS.Vfs.Model

/-!
# The initial RAM disk

`initrd_init` walks a cpio archive in memory and registers its files in a flat table of at most
64 entries. Pointers and sizes are words and wrap, so its loop and the `strlen` inside it run on
fuel.

The nodes come from `kmalloc`: `allocate i` is the answer for the `i`-th registered file, and
the call after the last file is the one for the root.
-/

namespace RamOS.Initrd

open ByteMemory CString

def maxFiles : ℕ := 64

/-- The callbacks of the initrd's nodes that the model follows. -/
inductive Callback where
  | initrdFinddir
deriving DecidableEq, Repr

/-- `initrd_file_t`; the name stands for the bytes before its terminator. -/
structure InitrdFile where
  name : Bytes
  size : ℕ
  data : ℕ
  vfsNode : ℕ

structure State where
  files : ℕ → InitrdFile
  fileCount : ℕ
  initrdRoot : ℕ
  initrdNodes : ℕ → ℕ
  nodes : ℕ → Vfs.Node Callback

def parseHexDigit (val : ℕ) (char : UInt8) : ℕ :=
  let shifted := val * 2 ^ 4 % 2 ^ 32
  if '0'.toUInt8 ≤ char ∧ char ≤ '9'.toUInt8 then
    Word32.add shifted (char.toNat - '0'.toNat)
  else if 'A'.toUInt8 ≤ char ∧ char ≤ 'F'.toUInt8 then
    Word32.add shifted (char.toNat - 'A'.toNat + 10)
  else if 'a'.toUInt8 ≤ char ∧ char ≤ 'f'.toUInt8 then
    Word32.add shifted (char.toNat - 'a'.toNat + 10)
  else shifted

def parseHex (memory : Memory) (str len : ℕ) : ℕ :=
  (load memory str len).foldl parseHexDigit 0

def align4 (value : ℕ) : ℕ := Word32.add value 3 &&& Word32.not 3

def headerSize (namesize : ℕ) : ℕ := align4 (Word32.add 110 namesize)

def dataSize (filesize : ℕ) : ℕ := align4 filesize

def nextEntry (data namesize filesize : ℕ) : ℕ :=
  Word32.add data (Word32.add (headerSize namesize) (dataSize filesize))

/-- The node of a registered file; the model names its table entry by the index. -/
def fileNode (index : ℕ) (name : Bytes) (size : ℕ) : Vfs.Node Callback where
  name := name.take 128
  flags := Vfs.vfsFile
  inode := index
  length := size
  impl := index
  finddir := none

def rootNode : Vfs.Node Callback where
  name := ascii "initrd"
  flags := Vfs.vfsDirectory
  inode := 0
  length := 0
  impl := 0
  finddir := some .initrdFinddir

namespace State

def initial : State where
  files := fun _ => { name := [], size := 0, data := 0, vfsNode := 0 }
  fileCount := 0
  initrdRoot := 0
  initrdNodes := fun _ => 0
  nodes := fun _ =>
    { name := [], flags := 0, inode := 0, length := 0, impl := 0, finddir := none }

def register (state : State) (allocate : ℕ → ℕ) (name : Bytes) (size data : ℕ) : State :=
  let index := state.fileCount
  let vnode := allocate index
  let file : InitrdFile :=
    { name := name
      size := size
      data := data
      vfsNode := if vnode = 0 then (state.files index).vfsNode else vnode }
  { state with
    files := Function.update state.files index file
    fileCount := index + 1
    initrdNodes :=
      if vnode = 0 then state.initrdNodes else Function.update state.initrdNodes index vnode
    nodes :=
      if vnode = 0 then state.nodes
      else Function.update state.nodes vnode (fileNode index name size) }

section Register

variable (state : State) (allocate : ℕ → ℕ) (name : Bytes) (size data : ℕ)

@[simp]
theorem register_fileCount :
    (state.register allocate name size data).fileCount = state.fileCount + 1 := rfl

theorem register_files_same :
    (state.register allocate name size data).files state.fileCount =
      { name := name
        size := size
        data := data
        vfsNode :=
          if allocate state.fileCount = 0 then (state.files state.fileCount).vfsNode
          else allocate state.fileCount } := by
  simp [register]

variable {state allocate name size data}

theorem register_files_of_ne {index : ℕ} (other : index ≠ state.fileCount) :
    (state.register allocate name size data).files index = state.files index := by
  simp [register, other]

end Register

def createRoot (state : State) (allocate : ℕ → ℕ) : State :=
  let root := allocate state.fileCount
  { state with
    initrdRoot := root
    nodes := if root = 0 then state.nodes else Function.update state.nodes root rootNode }

end State

inductive Outcome where
  | leave
  | continue (data : ℕ) (state : State)

def initrdEntry (fuel : ℕ) (memory : Memory) (allocate : ℕ → ℕ) (finish data : ℕ)
    (state : State) : Option Outcome :=
  if finish < Word32.add data 110 then some .leave
  else if load memory data 6 ≠ ascii "070701" then some .leave
  else
    let namesize := parseHex memory (data + 94) 8
    let filesize := parseHex memory (data + 54) 8
    let filename := data + 110
    if strcmpAt memory filename (ascii "TRAILER!!!") = 0 then some .leave
    else if memory filename = '.'.toUInt8 ∧
        (memory (filename + 1) = 0 ∨ memory (filename + 1) = '/'.toUInt8) then
      some (.continue (nextEntry data namesize filesize) state)
    else if state.fileCount < maxFiles then
      let name :=
        if memory filename = '.'.toUInt8 ∧ memory (filename + 1) = '/'.toUInt8 then filename + 2
        else filename
      (strlen fuel memory name).map fun nameLen =>
        let kept := if 256 ≤ nameLen then 255 else nameLen
        .continue (nextEntry data namesize filesize)
          (state.register allocate (load memory name kept) filesize
            (Word32.add data (headerSize namesize)))
    else some .leave

def initrdLoop (memory : Memory) (allocate : ℕ → ℕ) (finish : ℕ) : ℕ → ℕ → State → Option State
  | 0, _, _ => none
  | fuel + 1, data, state =>
    if data < finish ∧ state.fileCount < maxFiles then
      match initrdEntry fuel memory allocate finish data state with
      | none => none
      | some .leave => some state
      | some (.continue next changed) => initrdLoop memory allocate finish fuel next changed
    else some state

def initrdInit (fuel : ℕ) (memory : Memory) (allocate : ℕ → ℕ) (addr size : ℕ) (state : State) :
    Option (ℕ × State) :=
  (initrdLoop memory allocate (Word32.add addr size) fuel addr { state with fileCount := 0 }).map
    fun loaded => (loaded.fileCount, loaded.createRoot allocate)

def initrdFind (state : State) (name : Bytes) : Option ℕ :=
  (List.range state.fileCount).find? fun index => strcmp (state.files index).name name = 0

def initrdFinddir (state : State) (name : Bytes) : ℕ :=
  match initrdFind state name with
  | none => 0
  | some index => state.initrdNodes index

end RamOS.Initrd
