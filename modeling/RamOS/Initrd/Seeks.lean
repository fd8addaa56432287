import RamOS.Initrd.Files

/-!
# Positions in the files of the initrd

`vfs_seek` adds the signed offset to an unsigned base and looks at the sign of the sum as an
`int`, which decides about the exact sum only as long as the base is below `2 ^ 31`. The lengths
are, by assumption; that the positions are is an invariant of the file operations.
-/

namespace RamOS.Initrd

open ByteMemory CString
open Vfs (FileCall FileDescriptor Files Machine)

/-- The node of the root, or of a file of less than `2 ^ 31` bytes. -/
def Disk.Serves (disk : Disk) (node : ℕ) : Prop :=
  disk.initrd.nodes node = rootNode ∨
    ∃ index name, disk.initrd.nodes node = fileNode index name (disk.initrd.files index).size ∧
      (disk.initrd.files index).size < 2 ^ 31

structure Disk.Served (disk : Disk) : Prop where
  listed : disk.initrd.fileCount ≤ maxFiles
  resolved : ∀ path, disk.resolve path ≠ 0 → disk.Serves (disk.resolve path)

inductive Whence
  | set
  | current
  | finish

def Whence.number : Whence → ℤ
  | set => 0
  | current => 1
  | finish => 2

def Whence.base (files : Files (Machine Disk)) (entry : FileDescriptor) : Whence → ℕ
  | set => 0
  | current => entry.position
  | finish => (files.env.rest.initrd.nodes entry.node).length

section Resolution

variable {fuel addr size count rootMount : ℕ} {memory : Memory} {allocate : ℕ → ℕ}
  {before loaded : State}

theorem fileCount_le_maxFiles (word : addr < 2 ^ 32)
    (ran : initrdInit fuel memory allocate addr size before = some (count, loaded)) :
    count ≤ maxFiles := by
  rcases initrdInit_files ran with ⟨data, walked, reached, isCount, -⟩
  rw [← isCount]
  exact (position_bounds word (Nat.zero_le _) reached).2

/-- With only the files of a loaded archive mounted, a path leads nowhere or to a node that
`initrd_init` allocated. -/
theorem vfsFinddir_allocated
    (ran : initrdInit fuel memory allocate addr size before = some (count, loaded))
    (allocated : ∀ call ≤ count, allocate call ≠ 0)
    (distinct : Set.InjOn allocate (Set.Iic count)) (path : Bytes) :
    Vfs.vfsFinddir (vfsInit loaded rootMount) path = 0 ∨
      Vfs.vfsFinddir (vfsInit loaded rootMount) path = allocate count ∨
      ∃ index < count, Vfs.vfsFinddir (vfsInit loaded rootMount) path = allocate index := by
  rcases initrdInit_loaded ran allocated distinct with ⟨rfl, isLoaded⟩
  have booted := isLoaded.booted rootMount
  have live := booted.tended.vfsFinddir_live booted path
  rw [Vfs.clearedFiles, bootTree_vfs] at live
  refine live.imp_right fun made => ?_
  rcases Finset.mem_image.mp made with ⟨call, listed, isNode⟩
  rw [Finset.mem_range, Nat.lt_succ_iff_lt_or_eq] at listed
  rcases listed with file | rfl
  · exact Or.inr ⟨call, file, isNode.symm⟩
  · exact Or.inl isNode.symm

/-- After `initrd_init` every path leads nowhere, to the root that it made, or to the node that it
made for a registered file, with that file's name and size. -/
theorem vfsFinddir_registered (word : addr < 2 ^ 32)
    (ran : initrdInit fuel memory allocate addr size before = some (count, loaded))
    (allocated : ∀ call ≤ count, allocate call ≠ 0)
    (distinct : Set.InjOn allocate (Set.Iic count)) :
    loaded.fileCount = count ∧ count ≤ maxFiles ∧
      ∀ path, let node := Vfs.vfsFinddir (vfsInit loaded rootMount) path
        node = 0 ∨ node = allocate count ∧ loaded.nodes node = rootNode ∨
          ∃ index < count, node = allocate index ∧
            loaded.nodes node =
              fileNode index (loaded.files index).name (loaded.files index).size := by
  have isLoaded := initrdInit_loaded ran allocated distinct
  refine ⟨isLoaded.1, fileCount_le_maxFiles word ran, fun path => ?_⟩
  dsimp only
  rcases vfsFinddir_allocated ran allocated distinct path with null | root | ⟨index, listed, file⟩
  · exact Or.inl null
  · rw [root]
    exact Or.inr (Or.inl ⟨rfl, isLoaded.1 ▸ isLoaded.2.rootNode⟩)
  · rw [file]
    exact Or.inr (Or.inr ⟨index, listed, rfl, initrdInit_fileNode ran allocated distinct listed⟩)

theorem served_of_initrdInit (word : addr < 2 ^ 32)
    (ran : initrdInit fuel memory allocate addr size before = some (count, loaded))
    (allocated : ∀ call ≤ count, allocate call ≠ 0)
    (distinct : Set.InjOn allocate (Set.Iic count))
    (short : ∀ index < count, (loaded.files index).size < 2 ^ 31) :
    Disk.Served { initrd := loaded, resolve := Vfs.vfsFinddir (vfsInit loaded rootMount) } := by
  have isLoaded := initrdInit_loaded ran allocated distinct
  refine ⟨isLoaded.1 ▸ fileCount_le_maxFiles word ran, fun path nonzero => ?_⟩
  dsimp only
  rcases vfsFinddir_allocated ran allocated distinct path with null | root | ⟨index, listed, file⟩
  · exact absurd null nonzero
  · rw [root]
    exact Or.inl (isLoaded.1 ▸ isLoaded.2.rootNode)
  · rw [file]
    exact Or.inr ⟨index, _, initrdInit_fileNode ran allocated distinct listed, short index listed⟩

end Resolution

/-- The only entry is the file `a`, of more bytes than the archive has. -/
theorem vfsFinddir_oversizedEntry :
    ∃ loaded,
      initrdInit 3 (place 0x800000 oversizedEntry) sampleNodes 0x800000 112 State.initial =
        some (1, loaded) ∧
      ∀ path, let node := Vfs.vfsFinddir (vfsInit loaded 0x300000) path
        node = 0 ∨ node = sampleNodes 1 ∧ loaded.nodes node = rootNode ∨
          ∃ index < 1, node = sampleNodes index ∧
            loaded.nodes node =
              fileNode index (loaded.files index).name (loaded.files index).size := by
  have runs : ∃ loaded,
      initrdInit 3 (place 0x800000 oversizedEntry) sampleNodes 0x800000 112 State.initial =
        some (1, loaded) := ⟨_, rfl⟩
  rcases runs with ⟨loaded, ran⟩
  exact ⟨loaded, ran, (vfsFinddir_registered (by decide) ran
    (fun call _ => sampleNodes_ne_zero call) sampleNodes_injective.injOn).2.2⟩

/-! ### The invariant of the positions -/

structure Positioned (disk : Disk) (entry : FileDescriptor) : Prop where
  position_lt : entry.position < 2 ^ 31
  serves : entry.node ≠ 0 → disk.Serves entry.node

structure AllPositioned (disk : Disk) (files : Files (Machine Disk)) : Prop where
  rest : files.env.rest = disk
  entries : ∀ fd, Positioned disk (files.fdTable fd)

section Calls

variable {disk : Disk} {files : Files (Machine Disk)}

theorem Disk.Serves.length_lt {node : ℕ} (serves : disk.Serves node) :
    (disk.initrd.nodes node).length < 2 ^ 31 := by
  rcases serves with root | ⟨index, name, file, short⟩
  · rw [root]
    decide
  · rw [file]
    exact short

theorem positioned_closed : Positioned disk .closed :=
  ⟨by decide, fun open_ => absurd rfl open_⟩

theorem AllPositioned.entry (positioned : AllPositioned disk files) {fd : ℤ}
    {entry : FileDescriptor} (found : files.openEntry fd = some entry) :
    Positioned disk entry ∧ entry.node ≠ 0 := by
  rcases Vfs.openEntry_eq_some found with ⟨-, -, rfl, isOpen⟩
  exact ⟨positioned.entries _, isOpen⟩

theorem positioned_update (entries : ∀ fd, Positioned disk (files.fdTable fd)) (fd : ℕ)
    {entry : FileDescriptor} (positioned : Positioned disk entry) (other : ℕ) :
    Positioned disk (Function.update files.fdTable fd entry other) := by
  by_cases same : other = fd
  · rw [same, Function.update_self]
    exact positioned
  · rw [Function.update_of_ne same]
    exact entries other

theorem length_initrdReadAddresses {file : InitrdFile} {offset size : ℕ}
    (short : file.size < 2 ^ 32) (small : offset + size < 2 ^ 32) :
    (initrdReadAddresses file offset size).length = min size (file.size - offset) := by
  rcases Nat.lt_or_ge offset file.size with inside | beyond
  · rw [initrdReadAddresses_eq short fun _ => small, fileAddresses,
      WordMemory.slice_addresses (by omega), WordMemory.length_addresses]
  · rw [initrdReadAddresses, if_pos beyond, List.length_nil]
    omega

theorem Positioned.advance {entry : FileDescriptor} (positioned : Positioned disk entry)
    (isOpen : entry.node ≠ 0) (isFile : (disk.initrd.nodes entry.node).flags = Vfs.vfsFile)
    {size : ℕ} (small : size < 2 ^ 31) :
    let file := disk.initrd.files (disk.initrd.nodes entry.node).impl
    let count := (initrdReadAddresses file entry.position size).length
    Word32.add entry.position (Word32.ofInt (Word32.toInt count)) < 2 ^ 31 := by
  have inside := positioned.position_lt
  rcases positioned.serves isOpen with root | ⟨index, name, node, short⟩
  · rw [root] at isFile
    exact absurd isFile (by decide)
  · rw [node]
    simp only [fileNode]
    rw [length_initrdReadAddresses (by omega) (by omega), Word32.toInt_eq (by omega),
      Word32.ofInt_eq (by omega) (by omega), Int.toNat_natCast, Word32.add_eq (by omega)]
    omega

section Step

variable (positioned : AllPositioned disk files)
include positioned

theorem AllPositioned.of_update {after : Files (Machine Disk)} {stored : Set ℕ}
    (framed : Framed files.env after.env stored) {fd : ℕ} {entry : FileDescriptor}
    (replaced : after.fdTable = Function.update files.fdTable fd entry)
    (entryPositioned : Positioned disk entry) :
    AllPositioned disk after := by
  refine ⟨framed.rest.trans positioned.rest, fun other => ?_⟩
  rw [replaced]
  exact positioned_update positioned.entries fd entryPositioned other

theorem AllPositioned.of_same {after : Files (Machine Disk)} {stored : Set ℕ}
    (framed : Framed files.env after.env stored) (same : after.fdTable = files.fdTable) :
    AllPositioned disk after := by
  refine ⟨framed.rest.trans positioned.rest, fun other => ?_⟩
  rw [same]
  exact positioned.entries other

theorem AllPositioned.openFile (served : disk.Served) (path : Option Bytes) (flags : ℤ) :
    AllPositioned disk (Vfs.vfsOpen initrdInterface files path flags).2 := by
  have framed := @run_framed files (.openFile path flags)
  cases path with
  | none => exact positioned
  | some path =>
    rcases ran : Vfs.vfsOpen initrdInterface files (some path) flags with ⟨fd, opened⟩
    rw [FileCall.run, ran] at framed
    by_cases succeeded : 0 ≤ fd
    · rcases Vfs.vfsOpen_succeeded ran succeeded with ⟨nonzero, -, -, replaced⟩
      refine positioned.of_update framed replaced ⟨Nat.two_pow_pos 31, fun _ => ?_⟩
      rw [← positioned.rest] at served ⊢
      exact served.resolved path nonzero
    · have opens := @Vfs.vfsOpen_opens _ initrdInterface files path flags
      rw [ran] at opens
      cases opens with
      | failed code unchanged => exact positioned.of_same framed unchanged
      | opened slot entry returned => omega

theorem AllPositioned.read (fd : ℤ) (buffer : ℕ) {size : ℕ} (small : size < 2 ^ 31) :
    AllPositioned disk (Vfs.vfsRead initrdInterface files fd buffer size).2 := by
  have framed := @vfsRead_framed files fd buffer size
  rcases @Vfs.vfsRead_cases _ initrdInterface files fd buffer size with
    same | ⟨entry, read, found, callback, replaced⟩
  · exact positioned.of_same framed same
  · rcases positioned.entry found with ⟨entryPositioned, isOpen⟩
    have isFile : (disk.initrd.nodes entry.node).flags = Vfs.vfsFile := by
      by_contra other
      rw [← positioned.rest] at other
      simp [initrdInterface, other] at callback
    rw [read_eq_some callback] at replaced
    simp only [readNode, positioned.rest] at replaced
    exact positioned.of_update framed replaced
      ⟨entryPositioned.advance isOpen isFile small, entryPositioned.serves⟩

theorem AllPositioned.seek (fd offset whence : ℤ) :
    AllPositioned disk (Vfs.vfsSeek initrdInterface files fd offset whence).2 := by
  have framed := @run_framed files (.seek fd offset whence)
  rcases @Vfs.vfsSeek_cases _ initrdInterface files fd offset whence with
    same | ⟨entry, position, found, fits, nonnegative, replaced⟩
  · exact positioned.of_same framed (congrArg Vfs.Files.fdTable same)
  · rw [FileCall.run, replaced] at framed
    rw [replaced]
    exact positioned.of_update framed rfl
      ⟨(Word32.toInt_nonneg_iff fits).mp nonnegative, (positioned.entry found).1.serves⟩

theorem AllPositioned.readdir (listed : disk.initrd.fileCount ≤ maxFiles) (fd : ℤ) (dirent : ℕ) :
    AllPositioned disk (Vfs.vfsReaddir initrdInterface files fd dirent).2 := by
  have framed := @vfsReaddir_framed files fd dirent
  rcases @Vfs.vfsReaddir_cases _ initrdInterface files fd dirent with
    same | ⟨entry, readdir, found, callback, nonzero, replaced⟩
  · exact positioned.of_same framed same
  · rw [readdir_eq_some callback, positioned.rest] at nonzero
    have inside : entry.position < disk.initrd.fileCount := by
      by_contra beyond
      exact nonzero (if_pos (Nat.le_of_not_lt beyond))
    rw [maxFiles] at listed
    refine positioned.of_update framed replaced ⟨?_, (positioned.entry found).1.serves⟩
    simp only [Word32.add]
    omega

theorem AllPositioned.run (served : disk.Served)
    (call : FileCall) (small : ∀ fd buffer size, call = .read fd buffer size → size < 2 ^ 31) :
    AllPositioned disk (call.run initrdInterface files).2 := by
  have framed := @run_framed files call
  cases call with
  | openFile path flags => exact positioned.openFile served path flags
  | close fd =>
    cases found : files.openEntry fd with
    | none => exact positioned.of_same framed (by simp only [FileCall.run, Vfs.vfsClose, found])
    | some entry =>
      exact positioned.of_update framed (Vfs.vfsClose_table found) positioned_closed
  | read fd buffer size => exact positioned.read fd buffer (small fd buffer size rfl)
  | write fd buffer size =>
    rw [FileCall.run, vfsWrite_eq]
    exact positioned
  | seek fd offset whence => exact positioned.seek fd offset whence
  | readdir fd dirent => exact positioned.readdir served.listed fd dirent
  | dup oldfd =>
    simp only [FileCall.run, Vfs.vfsDup] at framed ⊢
    cases found : files.openEntry oldfd with
    | none => exact positioned
    | some entry =>
      dsimp only
      cases Vfs.allocFd files.fdTable with
      | none => exact positioned
      | some newfd =>
        exact ⟨positioned.rest,
          positioned_update positioned.entries newfd (positioned.entry found).1⟩
  | dup2 oldfd newfd =>
    rcases @Vfs.vfsDup2_cases _ initrdInterface files oldfd newfd with
      same | ⟨entry, found, -, replaced⟩
    · exact positioned.of_same framed same
    · exact positioned.of_update framed replaced (positioned.entry found).1

end Step

theorem allPositioned_filesAfter (served : disk.Served) (positioned : AllPositioned disk files)
    {calls : List FileCall}
    (small : ∀ fd buffer size, FileCall.read fd buffer size ∈ calls → size < 2 ^ 31) :
    AllPositioned disk (Vfs.filesAfter initrdInterface files calls) := by
  induction calls generalizing files with
  | nil => exact positioned
  | cons call calls ih =>
    apply ih (positioned.run served call _)
    · intro fd buffer size later
      exact small fd buffer size (List.mem_cons_of_mem _ later)
    · rintro fd buffer size rfl
      exact small fd buffer size (List.mem_cons_self ..)

end Calls

/-! ### Seeks -/

theorem toInt_add_ofInt_neg_iff {base : ℕ} {offset : ℤ} (baseSmall : base < 2 ^ 31)
    (lower : -2 ^ 31 ≤ offset) (upper : offset < 2 ^ 31) :
    Word32.toInt (Word32.add base (Word32.ofInt offset)) < 0 ↔
      ¬(0 ≤ base + offset ∧ base + offset < 2 ^ 31) := by
  rw [← not_le, Word32.toInt_nonneg_iff (Word32.add_lt _ _), not_iff_not, Word32.add, Word32.ofInt]
  omega

theorem add_ofInt_eq {base : ℕ} {offset : ℤ} (nonnegative : 0 ≤ base + offset)
    (small : base + offset < 2 ^ 31) :
    Word32.add base (Word32.ofInt offset) = (base + offset).toNat := by
  rw [Word32.add, Word32.ofInt]
  omega

theorem vfsSeek_eq {files : Files (Machine Disk)} {fd : ℤ} {entry : FileDescriptor}
    (found : files.openEntry fd = some entry) (offset : ℤ) (whence : Whence) :
    Vfs.vfsSeek initrdInterface files fd offset whence.number =
      let newPos := Word32.add (whence.base files entry) (Word32.ofInt offset)
      if Word32.toInt newPos < 0 then (-1, files)
      else (Word32.toInt newPos, files.setEntry fd.toNat { entry with position := newPos }) := by
  have fits : Word32.add 0 (Word32.ofInt offset) = Word32.ofInt offset := by
    rw [Word32.add, Nat.zero_add, Nat.mod_eq_of_lt (Word32.ofInt_lt offset)]
  simp only [Vfs.vfsSeek, found]
  cases whence with
  | set =>
    rw [Whence.base, fits]
    rfl
  | current => rfl
  | finish => rfl

/-- Whatever calls were made, with reads below `2 ^ 31` bytes, every position is below `2 ^ 31`,
and a seek goes to the exact sum of base and offset if it is in that range, or fails and changes
nothing. -/
theorem vfsSeek_exact (machine : Machine Disk) (calls : List FileCall)
    (served : machine.rest.Served)
    (small : ∀ fd buffer size, FileCall.read fd buffer size ∈ calls → size < 2 ^ 31) :
    let files := Vfs.filesAfter initrdInterface (Vfs.clearedFiles machine) calls
    (∀ fd, (files.fdTable fd).position < 2 ^ 31) ∧
      ∀ fd entry offset whence, files.openEntry fd = some entry →
        -2 ^ 31 ≤ offset → offset < 2 ^ 31 →
        let target : ℤ := Whence.base files entry whence + offset
        Vfs.vfsSeek initrdInterface files fd offset whence.number =
          if 0 ≤ target ∧ target < 2 ^ 31 then
            (target, files.setEntry fd.toNat { entry with position := target.toNat })
          else (-1, files) := by
  intro files
  have positioned : AllPositioned machine.rest files :=
    allPositioned_filesAfter served ⟨rfl, fun _ => positioned_closed⟩ small
  refine ⟨fun fd => (positioned.entries fd).position_lt, ?_⟩
  intro fd entry offset whence found lower upper target
  rcases positioned.entry found with ⟨entryPositioned, isOpen⟩
  have baseSmall : whence.base files entry < 2 ^ 31 := by
    cases whence with
    | set => exact Nat.two_pow_pos 31
    | current => exact entryPositioned.position_lt
    | finish =>
      rw [Whence.base, positioned.rest]
      exact (entryPositioned.serves isOpen).length_lt
  rw [vfsSeek_eq found]
  by_cases inside : 0 ≤ target ∧ target < 2 ^ 31
  · have exactSum := add_ofInt_eq inside.1 inside.2
    rw [if_pos inside]
    simp only [exactSum]
    rw [Word32.toInt_eq (by omega), if_neg (by omega), Int.toNat_of_nonneg inside.1]
  · rw [if_neg inside]
    exact if_pos ((toInt_add_ofInt_neg_iff baseSmall lower upper).mpr inside)

theorem loneDisk_served : (loneDisk 4).Served where
  listed := by decide
  resolved := fun _ _ => Or.inr ⟨0, ascii "file", rfl, by decide⟩

/-- A file of four bytes: opened, read to its end, and sought back by one. -/
theorem vfsSeek_exact_back :
    let files := Vfs.filesAfter initrdInterface (loneFiles [0x61, 0x62, 0x63, 0x64])
      [.openFile (some (ascii "/file")) 1, .read 3 0x1000 100]
    Vfs.vfsSeek initrdInterface files 3 (-1) 1 =
      (3, files.setEntry 3 { node := 0x200000, position := 3, flags := 1 }) :=
  (vfsSeek_exact { memory := place 0x800000 [0x61, 0x62, 0x63, 0x64], rest := loneDisk 4 }
    [.openFile (some (ascii "/file")) 1, .read 3 0x1000 100] loneDisk_served
    (by simp +contextual)).2 3 { node := 0x200000, position := 4, flags := 1 } (-1) .current
    (by decide) (by decide) (by decide)

end RamOS.Initrd
