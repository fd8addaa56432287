import RamOS.Vfs.Descriptors

/-!
# What user space reads of a node

`vfs_stat` and `vfs_readdir` fill in a record that the kernel and the library of the programs
declare apart. For `stat_t` the mode is the kernel's node type, which the programs take for one
of their own file types. For `dirent_t` the kernel's name has 128 bytes and the library's has
256, so that the kernel stores the inode number into the middle of the name.
-/

namespace RamOS.Vfs

open ByteMemory CString

variable {Callback : Type}

/-- The test for a directory of `vfs_readdir`. -/
def IsDirectory (node : Node Callback) : Prop := node.flags &&& vfsDirectory ≠ 0

instance (node : Node Callback) : Decidable (IsDirectory node) :=
  inferInstanceAs (Decidable (_ ≠ _))

def storeStat (memory : Memory) (statbuf : ℕ) (node : Node Callback) : Memory :=
  let memory := write32 memory statbuf node.flags
  let memory := write32 memory (statbuf + 4) node.length
  let memory := write32 memory (statbuf + 8) (Word32.add node.length 511 / 512)
  let memory := write32 memory (statbuf + 12) 0
  let memory := write32 memory (statbuf + 16) 0
  write32 memory (statbuf + 20) 0

def vfsStat (vfs : State Callback) (memory : Memory) (path : Option Bytes) (statbuf : ℕ) :
    ℤ × Memory :=
  match path with
  | none => (-1, memory)
  | some path =>
    if statbuf = 0 then (-1, memory)
    else
      let node := vfsFinddir vfs path
      if node = 0 then (-1, memory) else (0, storeStat memory statbuf (vfs.nodes node))

def storeDirent (memory : Memory) (entry : ℕ) (child : Node Callback) : Memory :=
  let memory := strncpy memory entry child.name 128
  let memory := write8 memory (entry + 127) 0
  write32 memory (entry + 128) child.inode

structure NodeState (Callback : Type) where
  memory : Memory
  vfs : State Callback

def recordInterface (callbacks : Interface (NodeState Callback)) : Interface (NodeState Callback) :=
  { callbacks with
    flags := fun kernel node => (kernel.vfs.nodes node).flags
    fillDirent := fun kernel entry child =>
      { kernel with memory := storeDirent kernel.memory entry (kernel.vfs.nodes child) } }

/-- A call of `vfs_stat` that succeeds stores the record of the node at the path. -/
theorem vfsStat_stores {vfs : State Callback} {memory after : Memory} {path : Bytes}
    {statbuf : ℕ} (succeeded : vfsStat vfs memory (some path) statbuf = (0, after)) :
    vfsFinddir vfs path ≠ 0 ∧
      after = storeStat memory statbuf (vfs.nodes (vfsFinddir vfs path)) := by
  simp only [vfsStat] at succeeded
  split_ifs at succeeded with isNull missing
  · simp at succeeded
  · simp at succeeded
  · rw [Prod.mk.injEq] at succeeded
    exact ⟨missing, succeeded.2.symm⟩

/-- A call of `vfs_readdir` that gives an entry stores the record of the child. -/
theorem vfsReaddir_stores {callbacks : Interface (NodeState Callback)}
    {files after : Files (NodeState Callback)} {fd : ℤ} {entry : ℕ}
    (succeeded : vfsReaddir (recordInterface callbacks) files fd entry = (1, after)) :
    ∃ (descriptor : FileDescriptor) (readdir : ℕ → ℕ × NodeState Callback),
      files.openEntry fd = some descriptor ∧
        callbacks.readdir files.env descriptor.node = some readdir ∧
        (readdir descriptor.position).1 ≠ 0 ∧
        after.env.memory = storeDirent (readdir descriptor.position).2.memory entry
          ((readdir descriptor.position).2.vfs.nodes (readdir descriptor.position).1) := by
  revert succeeded
  fun_cases vfsReaddir (recordInterface callbacks) files fd entry with
  | case5 descriptor opened _ readdir listed child env ran nonzero =>
    intro succeeded
    rw [Prod.mk.injEq] at succeeded
    refine ⟨descriptor, readdir, opened, listed, by rwa [ran], ?_⟩
    rw [← succeeded.2, ran]
    rfl
  | _ => simp

def sIfdir : ℕ := 0x4000

structure Stat where
  stMode : ℕ
  stSize : ℕ
  stBlocks : ℕ
  stAtime : ℕ
  stMtime : ℕ
  stCtime : ℕ

structure Dirent where
  name : Bytes
  inode : ℕ
  type : ℕ

def readStat (memory : Memory) (statbuf : ℕ) : Stat where
  stMode := read32 memory statbuf
  stSize := read32 memory (statbuf + 4)
  stBlocks := read32 memory (statbuf + 8)
  stAtime := read32 memory (statbuf + 12)
  stMtime := read32 memory (statbuf + 16)
  stCtime := read32 memory (statbuf + 20)

def readDirent (memory : Memory) (entry : ℕ) : Dirent where
  name := stringIn memory entry 256
  inode := read32 memory (entry + 256)
  type := read32 memory (entry + 260)

/-- The fields of a node are words, and its name has no zero byte. -/
structure IsRecord (node : Node Callback) : Prop where
  flags : node.flags < 2 ^ 32
  inode : node.inode < 2 ^ 32
  length : node.length < 2 ^ 32
  name : 0 ∉ node.name

structure Describes (stat : Stat) (entry : Dirent) (node : Node Callback) : Prop where
  size : stat.stSize = node.length
  name : entry.name = node.name.take 127
  inode : entry.inode = node.inode
  mode : stat.stMode &&& sIfdir ≠ 0 ↔ IsDirectory node
  type : entry.type = sIfdir ↔ IsDirectory node

section Stored

variable {memory : Memory} {statbuf entry : ℕ} {node : Node Callback}

theorem stMode_storeStat (isRecord : IsRecord node) :
    (readStat (storeStat memory statbuf node) statbuf).stMode = node.flags := by
  have apart (offset : ℕ) (behind : 4 ≤ offset) (memory : Memory) (value : ℕ) :
      read32 (write32 memory (statbuf + offset) value) statbuf = read32 memory statbuf :=
    read32_write32_of_disjoint (by omega)
  simp only [readStat, storeStat]
  rw [apart 20 (by omega), apart 16 (by omega), apart 12 (by omega), apart 8 (by omega),
    apart 4 (by omega), read32_write32_same, Nat.mod_eq_of_lt isRecord.flags]

theorem stSize_storeStat (isRecord : IsRecord node) :
    (readStat (storeStat memory statbuf node) statbuf).stSize = node.length := by
  have apart (offset : ℕ) (behind : 8 ≤ offset) (memory : Memory) (value : ℕ) :
      read32 (write32 memory (statbuf + offset) value) (statbuf + 4) =
        read32 memory (statbuf + 4) :=
    read32_write32_of_disjoint (by omega)
  simp only [readStat, storeStat]
  rw [apart 20 (by omega), apart 16 (by omega), apart 12 (by omega), apart 8 (by omega),
    read32_write32_same, Nat.mod_eq_of_lt isRecord.length]

theorem storeDirent_eqOn : Set.EqOn (storeDirent memory entry node) memory (range entry 132)ᶜ := by
  intro location outside
  rw [mem_compl_range] at outside
  rw [storeDirent, write32_apply_of_outside (by omega), write8_apply_of_ne (by omega),
    strncpy_eqOn _ _ _ _ (by rw [mem_compl_range]; omega)]

theorem name_storeDirent (isRecord : IsRecord node) :
    (readDirent (storeDirent memory entry node) entry).name = node.name.take 127 := by
  have noZero : 0 ∉ node.name.take 127 := fun zero => isRecord.name (List.mem_of_mem_take zero)
  have atMost : (node.name.take 127).length ≤ 127 := List.length_take_le _ _
  refine stringIn_eq (load_eq fun offset inside => ?_) noZero (by omega)
  rw [List.length_append, List.length_singleton] at inside
  rw [storeDirent, write32_apply_of_outside (by omega), getD_append_zero,
    List.getD_eq_getElem?_getD]
  by_cases last : offset = 127
  · rw [last, write8_same, List.getElem?_eq_none atMost, Option.getD_none]
  · rw [write8_apply_of_ne (by omega), strncpy_apply (by omega),
      List.getElem?_take_of_lt (by omega), List.getD_eq_getElem?_getD]

theorem inode_storeDirent :
    (readDirent (storeDirent memory entry node) entry).inode = read32 memory (entry + 256) := by
  apply read32_congr
  intro location inside
  rw [mem_range] at inside
  exact storeDirent_eqOn (by rw [mem_compl_range]; omega)

theorem type_storeDirent :
    (readDirent (storeDirent memory entry node) entry).type = read32 memory (entry + 260) := by
  apply read32_congr
  intro location inside
  rw [mem_range] at inside
  exact storeDirent_eqOn (by rw [mem_compl_range]; omega)

end Stored

/-- A program reads back what a node is exactly if the node type happens to have the bit of the
library's directory type just for directories, and the record happened to hold inode number and
type before the call. -/
theorem encodings_agree_iff (memory : Memory) (statbuf entry : ℕ) (node : Node Callback)
    (isRecord : IsRecord node) :
    Describes (readStat (storeStat memory statbuf node) statbuf)
        (readDirent (storeDirent memory entry node) entry) node ↔
      (node.flags &&& sIfdir ≠ 0 ↔ IsDirectory node) ∧
        read32 memory (entry + 256) = node.inode ∧
        (read32 memory (entry + 260) = sIfdir ↔ IsDirectory node) := by
  constructor
  · rintro ⟨_, _, inode, mode, type⟩
    rw [stMode_storeStat isRecord] at mode
    rw [inode_storeDirent] at inode
    rw [type_storeDirent] at type
    exact ⟨mode, inode, type⟩
  · rintro ⟨mode, inode, type⟩
    refine ⟨stSize_storeStat isRecord, name_storeDirent isRecord, ?_, ?_, ?_⟩
    · rw [inode_storeDirent, inode]
    · rw [stMode_storeStat isRecord, mode]
    · rw [type_storeDirent, type]

def sampleDirectory : Node Unit where
  name := ascii "etc"
  flags := vfsDirectory
  inode := 5
  length := 0
  impl := 0
  finddir := none

theorem sampleDirectory_isRecord : IsRecord sampleDirectory :=
  ⟨by decide, by decide, by decide, by decide⟩

theorem encodings_agree_iff_sample :
    Describes (readStat (storeStat (fun _ => 0) 0 sampleDirectory) 0)
        (readDirent (storeDirent (fun _ => 0) 0 sampleDirectory) 0) sampleDirectory ↔
      (sampleDirectory.flags &&& sIfdir ≠ 0 ↔ IsDirectory sampleDirectory) ∧
        read32 (fun _ => 0) (0 + 256) = sampleDirectory.inode ∧
        (read32 (fun _ => 0) (0 + 260) = sIfdir ↔ IsDirectory sampleDirectory) :=
  encodings_agree_iff _ 0 0 sampleDirectory sampleDirectory_isRecord

/-- A program can neither enter nor list the directory in zeroed records, and its inode number
reads as zero. -/
theorem directory_not_recognised :
    IsDirectory sampleDirectory ∧
      (readStat (storeStat (fun _ => 0) 0 sampleDirectory) 0).stMode &&& sIfdir = 0 ∧
      (readDirent (storeDirent (fun _ => 0) 0 sampleDirectory) 0).type ≠ sIfdir ∧
      (readDirent (storeDirent (fun _ => 0) 0 sampleDirectory) 0).inode ≠
        sampleDirectory.inode := by
  rw [stMode_storeStat sampleDirectory_isRecord, type_storeDirent, inode_storeDirent]
  decide

end RamOS.Vfs
