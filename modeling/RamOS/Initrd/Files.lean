import RamOS.Initrd.Lookup
import RamOS.Initrd.Reads
import RamOS.Lib.WordMemory
import RamOS.Vfs.Encodings

/-!
# The files of the initrd behind the file operations

The descriptor table reaches the initrd through the callbacks of its nodes: a file has
`initrd_read`, the root has `initrd_readdir`, and no node can be written, opened or closed.
Where a path leads is left open. No operation stores anything outside its buffer, and none
changes the tables of the initrd.
-/

namespace RamOS.Initrd

open ByteMemory CString Slice WordMemory
open Vfs (FileCall FileDescriptor Files Interface Machine)

structure Disk where
  initrd : State
  resolve : Bytes → ℕ

def fileAddresses (file : InitrdFile) : List ℕ := addresses file.data file.size

abbrev InitrdFile.bytes (file : InitrdFile) : Set ℕ := {address | address ∈ fileAddresses file}

def contents (memory : Memory) (file : InitrdFile) : Bytes := (fileAddresses file).map memory

def readNode (machine : Machine Disk) (node offset size buffer : ℕ) : ℤ × Machine Disk :=
  let file := machine.rest.initrd.files (machine.rest.initrd.nodes node).impl
  let sources := initrdReadAddresses file offset size
  (Word32.toInt sources.length,
    { machine with
      memory := copyAlong machine.memory (addresses buffer sources.length) sources })

def initrdReaddir (state : State) (index : ℕ) : ℕ :=
  if state.fileCount ≤ index then 0 else state.initrdNodes index

/-- The nodes of the initrd, told by their type: only the root is a directory. -/
def initrdInterface : Interface (Machine Disk) where
  finddir := fun machine path => (machine.rest.resolve path, machine)
  flags := fun machine node => (machine.rest.initrd.nodes node).flags
  length := fun machine node => (machine.rest.initrd.nodes node).length
  setLength := fun machine node length =>
    let nodes := machine.rest.initrd.nodes
    { machine with
      rest :=
        { machine.rest with
          initrd :=
            { machine.rest.initrd with
              nodes := Function.update nodes node { nodes node with length := length } } } }
  openNode := fun _ _ => none
  closeNode := fun _ _ => none
  read := fun machine node =>
    if (machine.rest.initrd.nodes node).flags = Vfs.vfsFile then some (readNode machine node)
    else none
  write := fun _ _ => none
  readdir := fun machine node =>
    if (machine.rest.initrd.nodes node).flags = Vfs.vfsDirectory then
      some fun index => (initrdReaddir machine.rest.initrd index, machine)
    else none
  fillDirent := fun machine dirent child =>
    { machine with
      memory := Vfs.storeDirent machine.memory dirent (machine.rest.initrd.nodes child) }

def IsFileNode (initrd : State) (node index : ℕ) : Prop :=
  ∃ name size, initrd.nodes node = fileNode index name size

def storesTo : FileCall → Set ℕ
  | .read _ buffer size => {address | address ∈ addresses buffer size}
  | .readdir _ dirent => range dirent 132
  | _ => ∅

theorem length_initrdReadAddresses_le (file : InitrdFile) (offset size : ℕ) :
    (initrdReadAddresses file offset size).length ≤ size := by
  rw [initrdReadAddresses]
  split
  · exact Nat.zero_le size
  next before =>
    rw [List.length_map, List.length_range]
    split
    next beyond =>
      simp only [Word32.add] at beyond
      simp only [Word32.sub]
      omega
    next => exact le_rfl

structure Framed (before after : Machine Disk) (stored : Set ℕ) : Prop where
  rest : after.rest = before.rest
  memory : Set.EqOn after.memory before.memory storedᶜ

theorem Framed.refl (machine : Machine Disk) (stored : Set ℕ) : Framed machine machine stored :=
  ⟨rfl, fun _ _ => rfl⟩

section Frames

variable {files : Files (Machine Disk)}

theorem passive_initrdInterface : initrdInterface.Passive :=
  ⟨fun _ _ => rfl, fun _ _ => rfl, fun _ _ => rfl⟩

theorem read_eq_some {machine : Machine Disk} {node : ℕ} {read : ℕ → ℕ → ℕ → ℤ × Machine Disk}
    (callback : initrdInterface.read machine node = some read) : read = readNode machine node := by
  simp only [initrdInterface] at callback
  split at callback
  · exact (Option.some.inj callback).symm
  · cases callback

theorem readdir_eq_some {machine : Machine Disk} {node : ℕ} {readdir : ℕ → ℕ × Machine Disk}
    (callback : initrdInterface.readdir machine node = some readdir) :
    readdir = fun index => (initrdReaddir machine.rest.initrd index, machine) := by
  simp only [initrdInterface] at callback
  split at callback
  · exact (Option.some.inj callback).symm
  · cases callback

theorem readNode_framed (machine : Machine Disk) (node offset size buffer : ℕ) :
    Framed machine (readNode machine node offset size buffer).2
      {address | address ∈ addresses buffer size} := by
  refine ⟨rfl, fun address outside => copyAlong_of_notMem fun listed => outside ?_⟩
  exact addresses_subset (length_initrdReadAddresses_le _ _ _) listed

theorem vfsRead_framed (fd : ℤ) (buffer size : ℕ) :
    Framed files.env (Vfs.vfsRead initrdInterface files fd buffer size).2.env
      {address | address ∈ addresses buffer size} := by
  fun_cases Vfs.vfsRead initrdInterface files fd buffer size with
  | case1 | case2 | case3 => exact .refl _ _
  | case4 entry _ _ read callback _ _ ran | case5 entry _ _ read callback _ _ ran =>
    have framed := readNode_framed files.env entry.node entry.position size buffer
    rw [← read_eq_some callback, ran] at framed
    exact framed

theorem vfsWrite_eq (fd : ℤ) (buffer size : ℕ) :
    Vfs.vfsWrite initrdInterface files fd buffer size = (-1, files) := by
  simp only [Vfs.vfsWrite, initrdInterface]
  cases files.openEntry fd with
  | none => rfl
  | some entry => exact ite_self _

theorem vfsReaddir_framed (fd : ℤ) (dirent : ℕ) :
    Framed files.env (Vfs.vfsReaddir initrdInterface files fd dirent).2.env (range dirent 132) := by
  fun_cases Vfs.vfsReaddir initrdInterface files fd dirent with
  | case1 | case2 | case3 => exact .refl _ _
  | case4 _ _ _ _ callback _ ran =>
    cases readdir_eq_some callback
    cases (Prod.mk.inj ran).2
    exact .refl _ _
  | case5 _ _ _ _ callback _ _ ran =>
    cases readdir_eq_some callback
    cases ran
    exact ⟨rfl, Vfs.storeDirent_eqOn⟩

theorem run_framed (call : FileCall) :
    Framed files.env (call.run initrdInterface files).2.env (storesTo call) := by
  have same {after : Machine Disk} {stored : Set ℕ} (unchanged : after = files.env) :
      Framed files.env after stored := unchanged ▸ .refl _ _
  cases call with
  | openFile path flags => exact same (passive_initrdInterface.vfsOpen_env path flags)
  | close fd => exact same (passive_initrdInterface.vfsClose_env fd)
  | read fd buffer size => exact vfsRead_framed fd buffer size
  | write fd buffer size =>
    rw [FileCall.run, vfsWrite_eq]
    exact .refl _ _
  | seek fd offset whence => exact same (Vfs.vfsSeek_env fd offset whence)
  | readdir fd dirent => exact vfsReaddir_framed fd dirent
  | dup oldfd => exact same (Vfs.vfsDup_env oldfd)
  | dup2 oldfd newfd => exact same (passive_initrdInterface.vfsDup2_env oldfd newfd)

end Frames

theorem initrdReadAddresses_eq {file : InitrdFile} {offset size : ℕ} (short : file.size < 2 ^ 32)
    (fits : offset < file.size → offset + size < 2 ^ 32) :
    initrdReadAddresses file offset size =
      slice (fileAddresses file) offset (min size (file.size - offset)) := by
  rw [initrdReadAddresses]
  split
  next beyond =>
    have none : min size (file.size - offset) = 0 := by omega
    rw [none, slice, List.take_zero]
  next =>
    have count : (if file.size < Word32.add offset size then Word32.sub file.size offset
        else size) = min size (file.size - offset) := by
      rw [Word32.add_eq (fits (by omega)), Word32.sub_eq (by omega) short]
      split <;> omega
    rw [fileAddresses, slice_addresses (by omega), addresses, ← count]

theorem vfsRead_eq {files : Files (Machine Disk)} {fd : ℤ} {entry : FileDescriptor}
    {file : InitrdFile} {index buffer size : ℕ} (found : files.openEntry fd = some entry)
    (isNode : IsFileNode files.env.rest.initrd entry.node index)
    (isFile : files.env.rest.initrd.files index = file)
    (readable : entry.flags &&& Vfs.oWronly = 0) (nonnull : buffer ≠ 0)
    (short : file.size < 2 ^ 31) (fits : entry.position < file.size →
      entry.position + size < 2 ^ 32) :
    Vfs.vfsRead initrdInterface files fd buffer size =
      (((min size (file.size - entry.position) : ℕ) : ℤ),
        { env :=
            { memory :=
                copyAlong files.env.memory
                  (addresses buffer (min size (file.size - entry.position)))
                  (slice (fileAddresses file) entry.position
                    (min size (file.size - entry.position)))
              rest := files.env.rest }
          fdTable :=
            Function.update files.fdTable fd.toNat
              { entry with
                position := entry.position + min size (file.size - entry.position) } }) := by
  rcases isNode with ⟨name, length, node⟩
  have notDirectory : Vfs.vfsFile &&& Vfs.vfsDirectory = 0 := by decide
  have sources := initrdReadAddresses_eq (by omega : file.size < 2 ^ 32) fits
  have count : (slice (fileAddresses file) entry.position
      (min size (file.size - entry.position))).length = min size (file.size - entry.position) := by
    rw [slice, List.length_take, List.length_drop, fileAddresses, length_addresses]
    omega
  have held := (Vfs.openEntry_eq_some found).2.2.1
  generalize taken : min size (file.size - entry.position) = amount at sources count
  have bound : amount < 2 ^ 31 := by omega
  simp only [Vfs.vfsRead, found, initrdInterface, node, fileNode, readable, notDirectory,
    nonnull, readNode, isFile, sources, count, ne_eq, not_true_eq_false, or_self, if_false, if_true,
    Word32.toInt_eq bound]
  split
  next =>
    have advanced : Word32.add entry.position (Word32.ofInt amount) = entry.position + amount := by
      rw [Word32.ofInt_eq (by omega) (by omega), Int.toNat_natCast, Word32.add_eq (by omega)]
    rw [advanced]
    rfl
  next nothing =>
    have zero : amount = 0 := by omega
    rw [zero, Nat.add_zero, ← held, Function.update_eq_self]

structure OpenOn (disk : Disk) (fd : ℤ) (index : ℕ) (text : Bytes) (entry : FileDescriptor)
    (files : Files (Machine Disk)) : Prop where
  rest : files.env.rest = disk
  found : files.openEntry fd = some entry
  isNode : IsFileNode disk.initrd entry.node index
  readable : entry.flags &&& Vfs.oWronly = 0
  holds : contents files.env.memory (disk.initrd.files index) = text

namespace OpenOn

variable {disk : Disk} {fd : ℤ} {index : ℕ} {text : Bytes} {entry : FileDescriptor}
  {files after : Files (Machine Disk)} (isOpen : OpenOn disk fd index text entry files)

include isOpen

theorem length_eq : text.length = (disk.initrd.files index).size := by
  rw [← isOpen.holds, contents, List.length_map, fileAddresses, length_addresses]

theorem held : files.fdTable fd.toNat = entry :=
  (Vfs.openEntry_eq_some isOpen.found).2.2.1

theorem moved {stored : Set ℕ} (framed : Framed files.env after.env stored)
    (apart : Disjoint stored (disk.initrd.files index).bytes)
    {position : ℕ} (replaced : after.fdTable fd.toNat = { entry with position := position }) :
    OpenOn disk fd index text { entry with position := position } after where
  rest := framed.rest.trans isOpen.rest
  found := by
    rcases Vfs.openEntry_eq_some isOpen.found with ⟨isSlot, below, -, nonzero⟩
    rw [← replaced]
    exact Vfs.openEntry_of_open (by omega) below (by rw [replaced]; exact nonzero)
  isNode := isOpen.isNode
  readable := isOpen.readable
  holds := by
    rw [← isOpen.holds]
    refine List.map_congr_left fun address listed => framed.memory fun isStored => ?_
    exact Set.disjoint_left.mp apart isStored listed

theorem run_other {call : FileCall} (avoids : call.Avoids fd) (apart : Disjoint (storesTo call)
      (disk.initrd.files index).bytes) :
    OpenOn disk fd index text entry (call.run initrdInterface files).2 := by
  have found := @FileCall.openEntry_run _ initrdInterface _ _ _ _ isOpen.found avoids
  exact isOpen.moved (run_framed call) apart (Vfs.openEntry_eq_some found).2.2.1

theorem seek (offset : ℤ) :
    ∃ position, OpenOn disk fd index text { entry with position := position }
        (Vfs.vfsSeek initrdInterface files fd offset 0).2 ∧
      (0 ≤ offset → offset < 2 ^ 31 → position = offset.toNat) ∧
      (-2 ^ 31 ≤ offset → offset < 0 → position = entry.position) := by
  have framed : Framed files.env (Vfs.vfsSeek initrdInterface files fd offset 0).2.env ∅ := by
    rw [Vfs.vfsSeek_env]
    exact .refl _ _
  by_cases back : Word32.toInt (Word32.ofInt offset) < 0
  · refine ⟨entry.position, isOpen.moved framed (Set.empty_disjoint _) ?_, ?_, fun _ _ => rfl⟩
    · simp only [Vfs.vfsSeek, isOpen.found, if_true, if_pos back]
      exact isOpen.held
    · intro nonnegative small
      rw [Word32.ofInt_eq nonnegative (by omega), Word32.toInt_eq (by omega)] at back
      omega
  · refine ⟨Word32.ofInt offset, isOpen.moved framed (Set.empty_disjoint _) ?_, ?_, ?_⟩
    · simp only [Vfs.vfsSeek, isOpen.found, if_true, if_neg back]
      exact Function.update_self ..
    · exact fun nonnegative small => Word32.ofInt_eq nonnegative (by omega)
    · intro least negative
      refine absurd ?_ back
      rw [Word32.ofInt, Word32.toInt]
      omega

theorem read (short : text.length < 2 ^ 31) {buffer size : ℕ}
    (fits : entry.position < text.length → entry.position + size < 2 ^ 32) (nonnull : buffer ≠ 0)
    (apart : (addresses buffer (min size text.length)).Disjoint
      (fileAddresses (disk.initrd.files index))) :
    (Vfs.vfsRead initrdInterface files fd buffer size).1 =
        (min size (text.length - entry.position) : ℕ) ∧
      OpenOn disk fd index text
        { entry with position := entry.position + min size (text.length - entry.position) }
        (Vfs.vfsRead initrdInterface files fd buffer size).2 ∧
      (addresses buffer (min size (text.length - entry.position))).map
          (Vfs.vfsRead initrdInterface files fd buffer size).2.env.memory =
        slice text entry.position (min size (text.length - entry.position)) ∧
      Framed files.env (Vfs.vfsRead initrdInterface files fd buffer size).2.env
        {address | address ∈ addresses buffer (min size (text.length - entry.position))} := by
  have length := isOpen.length_eq
  have isNode := isOpen.isNode
  rw [← isOpen.rest] at isNode
  have read := vfsRead_eq isOpen.found isNode
    (congrArg (fun disk => disk.initrd.files index) isOpen.rest) isOpen.readable nonnull
    (length ▸ short) (length ▸ fits)
  rw [← length] at read
  generalize taken : min size (text.length - entry.position) = amount at read ⊢
  have atMost : amount ≤ min size text.length := by omega
  have disjoint : (addresses buffer amount).Disjoint (fileAddresses (disk.initrd.files index)) :=
    List.disjoint_of_subset_left (addresses_subset atMost) apart
  have apartSlice : (addresses buffer amount).Disjoint
      (slice (fileAddresses (disk.initrd.files index)) entry.position amount) :=
    List.disjoint_of_subset_right
      (fun address listed => List.mem_of_mem_drop (List.mem_of_mem_take listed)) disjoint
  have sliceLength : (slice (fileAddresses (disk.initrd.files index)) entry.position
      amount).length = amount := by
    rw [slice, List.length_take, List.length_drop, fileAddresses, length_addresses]
    omega
  have framed : Framed files.env (Vfs.vfsRead initrdInterface files fd buffer size).2.env
      {address | address ∈ addresses buffer amount} := by
    rw [read]
    exact ⟨rfl, fun address outside => copyAlong_of_notMem outside⟩
  refine ⟨by rw [read], isOpen.moved framed ?_ ?_, ?_, framed⟩
  · exact Set.disjoint_left.mpr fun address stored listed => disjoint stored listed
  · rw [read]
    exact Function.update_self ..
  · rw [read]
    dsimp only
    rw [map_copyAlong (by rw [sliceLength, length_addresses]) (nodup_addresses (by omega))
      apartSlice, ← isOpen.holds, contents, slice, slice, List.map_take, List.map_drop]

end OpenOn

theorem openOn_of_vfsOpen {files opened : Files (Machine Disk)} {path : Bytes}
    {flags fd : ℤ} {index : ℕ}
    (isNode : IsFileNode files.env.rest.initrd (files.env.rest.resolve path) index)
    (readable : Word32.ofInt flags &&& Vfs.oWronly = 0)
    (ran : Vfs.vfsOpen initrdInterface files (some path) flags = (fd, opened))
    (succeeded : 0 ≤ fd) :
    OpenOn files.env.rest fd index
      (contents files.env.memory (files.env.rest.initrd.files index))
      { node := files.env.rest.resolve path, position := 0, flags := Word32.ofInt flags }
      opened := by
  have env := @passive_initrdInterface.vfsOpen_env _ _ files (some path) flags
  rw [ran] at env
  rcases Vfs.vfsOpen_succeeded ran succeeded with ⟨nonzero, below, -, table⟩
  have entry := congrFun table fd.toNat
  rw [Function.update_self] at entry
  have found := @Vfs.openEntry_of_open _ opened fd succeeded below (by rw [entry]; exact nonzero)
  rw [entry] at found
  exact ⟨by rw [env], found, isNode, readable, by rw [env]⟩

theorem initrdInit_fileNode {fuel addr size count index : ℕ} {memory : Memory}
    {allocate : ℕ → ℕ} {before loaded : State}
    (ran : initrdInit fuel memory allocate addr size before = some (count, loaded))
    (allocated : ∀ call ≤ count, allocate call ≠ 0)
    (distinct : Set.InjOn allocate (Set.Iic count)) (inside : index < count) :
    loaded.nodes (allocate index) =
      fileNode index (loaded.files index).name (loaded.files index).size := by
  have keeps (reached : State) (name : Bytes) (size address : ℕ)
      (fresh : FreshNode allocate reached.fileCount)
      (registered : ∀ index < reached.fileCount, reached.nodes (allocate index) =
        fileNode index (reached.files index).name (reached.files index).size)
      (_ : 0 ∉ name) :
      let after := reached.register allocate name size address
      ∀ index < after.fileCount, after.nodes (allocate index) =
        fileNode index (after.files index).name (after.files index).size := by
    intro after index listed
    rw [State.register_fileCount] at listed
    rcases Nat.lt_succ_iff_lt_or_eq.mp listed with earlier | rfl
    · rw [State.register_files_of_ne (by omega)]
      simpa [after, State.register, fresh.nonzero, fresh.apart index earlier] using
        registered index earlier
    · rw [State.register_files_same]
      simp [after, State.register, fresh.nonzero]
  rcases initrdInit_invariant keeps (fun index none => absurd none (Nat.not_lt_zero index)) ran
    allocated distinct with ⟨table, rfl, rfl, registered⟩
  have root := freshNode_of_injOn allocated distinct le_rfl
  simpa [State.createRoot, root.nonzero, root.apart index inside] using registered index inside

def loneFile (size : ℕ) : InitrdFile where
  name := ascii "file"
  size := size
  data := 0x800000
  vfsNode := 0x200000

/-- `initrd_read` takes exactly what was asked for, unless the request starts inside the file and
its sum wraps: then nothing is cut off. -/
theorem initrdReadAddresses_exact_iff (file : InitrdFile) (offset size : ℕ)
    (short : file.size < 2 ^ 32) (word : size < 2 ^ 32) :
    initrdReadAddresses file offset size =
        slice (fileAddresses file) offset (min (offset + size) file.size - offset) ↔
      (offset < file.size → offset + size < 2 ^ 32) := by
  rcases Nat.lt_or_ge offset file.size with inside | beyond
  · have count : min (offset + size) file.size - offset = min size (file.size - offset) := by omega
    rw [count]
    constructor
    · intro exact _
      by_contra wraps
      have passes : ¬file.size < Word32.add offset size := by
        simp only [Word32.add]
        omega
      have lengths := congrArg List.length exact
      rw [fileAddresses, slice_addresses (by omega), length_addresses, initrdReadAddresses,
        if_neg (by omega), if_neg passes, List.length_map, List.length_range] at lengths
      omega
    · intro fits
      exact initrdReadAddresses_eq short fits
  · have none : min (offset + size) file.size - offset = 0 := by omega
    rw [none, initrdReadAddresses, if_pos beyond]
    exact iff_of_true rfl (fun inside => absurd inside (by omega))

/-- The last three bytes of a file of four. -/
theorem initrdReadAddresses_exact_three :
    initrdReadAddresses (loneFile 4) 1 100 =
      slice (fileAddresses (loneFile 4)) 1 (min (1 + 100) (loneFile 4).size - 1) :=
  (initrdReadAddresses_exact_iff (loneFile 4) 1 100 (by decide) (by decide)).mpr fun _ => by decide

/-- From the second byte of a file of four, a request for 2 ^ 32 - 1 bytes copies them all. -/
theorem length_initrdReadAddresses_wrapped :
    (loneFile 4).size = 4 ∧
      (initrdReadAddresses (loneFile 4) 1 0xFFFFFFFF).length = 0xFFFFFFFF := by
  refine ⟨rfl, ?_⟩
  rw [initrdReadAddresses, if_neg (by decide), List.length_map, List.length_range]
  decide

def loneDisk (size : ℕ) : Disk where
  initrd :=
    { State.initial with
      files := fun _ => loneFile size
      fileCount := 1
      initrdNodes := fun _ => 0x200000
      nodes := fun _ => fileNode 0 (ascii "file") size }
  resolve := fun path => if path = ascii "/file" then 0x200000 else 0

def loneFiles (bytes : Bytes) : Files (Machine Disk) :=
  Vfs.clearedFiles { memory := place 0x800000 bytes, rest := loneDisk bytes.length }

theorem contents_loneFile {bytes : Bytes} (small : bytes.length ≤ 0x800000) :
    contents (place 0x800000 bytes) (loneFile bytes.length) = bytes := by
  rw [contents, fileAddresses]
  simp only [loneFile]
  rw [map_addresses_of_le (by omega), load_place_all]

theorem loneFile_apart {buffer count size : ℕ} (below : buffer + count ≤ 0x800000)
    (small : size ≤ 0x800000) :
    (addresses buffer count).Disjoint (fileAddresses (loneFile size)) := by
  intro address inBuffer inFile
  simp only [fileAddresses, loneFile] at inFile
  rw [mem_addresses_of_le (by omega), mem_range] at inBuffer inFile
  omega

end RamOS.Initrd
