import RamOS.Lib.LinkedList
import RamOS.Vfs.Model

/-!
# The mount list in memory

`vfs_mount` and `vfs_umount` keep the mounts in a linked list of records, which this file
follows byte by byte. A record is filled in by copies that write one byte more than their fields
have; the byte is the first one of the field behind, and every field is written after the one
before it.
-/

namespace RamOS.Vfs.MountTable

open ByteMemory CString LinkedList

def nodeField : ℕ := 256

def fstypeField : ℕ := 260

def sourceField : ℕ := 292

def nextField : ℕ := 548

def mountPointSize : ℕ := 552

theorem range_nextField_subset (mp : ℕ) : range mp nextField ⊆ range mp mountPointSize :=
  range_subset_range le_rfl (Nat.add_le_add_left (by decide) mp)

structure Entry where
  path : Bytes
  node : ℕ
  fstype : Bytes
  source : Bytes
deriving DecidableEq

structure MountState where
  memory : Memory
  mountList : ℕ
  rootNode : ℕ

def entryAt (memory : Memory) (mp : ℕ) : Entry where
  path := stringIn memory mp 256
  node := read32 memory (mp + nodeField)
  fstype := stringIn memory (mp + fstypeField) 32
  source := stringIn memory (mp + sourceField) 256

def mountEntries (fuel : ℕ) (kernel : MountState) : Option (List Entry) :=
  (blocksFrom nextField kernel.memory fuel kernel.mountList).map
    fun blocks => blocks.map (entryAt kernel.memory)

def Lists (kernel : MountState) (entries : List Entry) : Prop :=
  ∀ fuel, entries.length < fuel → mountEntries fuel kernel = some entries

def tableBytes (kernel : MountState) : Set ℕ :=
  { location | ∃ fuel blocks,
    blocksFrom nextField kernel.memory fuel kernel.mountList = some blocks ∧
      location ∈ bytes mountPointSize blocks }

/-- The bytes of the mount points in the list that have another path. -/
def otherBytes (kernel : MountState) (target : Bytes) : Set ℕ :=
  { location | ∃ fuel blocks,
    blocksFrom nextField kernel.memory fuel kernel.mountList = some blocks ∧
      location ∈ bytes mountPointSize
        (blocks.filter fun block => (entryAt kernel.memory block).path ≠ target) }

/-- Outside of the table: the flags of the node that the target names, the allocator, and the
driver. -/
structure MountIo where
  finddir : Memory → Option ℕ × Memory
  kmalloc : Memory → ℕ × Memory
  ext4Mount : Memory → ℕ × Memory
  kfree : Memory → Memory

structure UmountIo where
  ext4Umount : Memory → Memory
  kfree : Memory → Memory

def createRoot (memory : Memory) (rootMount rootNode : ℕ) : Memory :=
  let memory := strcpy memory rootMount (ascii "/")
  let memory := strcpy memory (rootMount + fstypeField) (ascii "initrd")
  let memory := strcpy memory (rootMount + sourceField) (ascii "initrd")
  let memory := write32 memory (rootMount + nodeField) rootNode
  write32 memory (rootMount + nextField) 0

def vfsInit (rootNode : ℕ) (kmalloc : Memory → ℕ × Memory) (memory : Memory) : MountState :=
  if rootNode = 0 then { memory := memory, mountList := 0, rootNode := rootNode }
  else
    let rootMount := (kmalloc memory).1
    let memory := (kmalloc memory).2
    if rootMount = 0 then { memory := memory, mountList := 0, rootNode := rootNode }
    else
      { memory := createRoot memory rootMount rootNode
        mountList := rootMount
        rootNode := rootNode }

def alreadyMounted (memory : Memory) (target : Bytes) : ℕ → ℕ → Option Bool
  | 0, _ => none
  | fuel + 1, mp =>
    if mp = 0 then some false
    else if strcmpAt memory mp target = 0 then some true
    else alreadyMounted memory target fuel (read32 memory (mp + nextField))

def fillMountPoint (memory : Memory) (mp : ℕ) (source target fstype : Bytes) : Memory :=
  let memory := strncpy memory mp target 256
  let memory := strncpy memory (mp + fstypeField) fstype 32
  let memory := strncpy memory (mp + sourceField) source 256
  write32 memory (mp + nodeField) 0

def loadFilesystem (io : MountIo) (rootNode : ℕ) (memory : Memory) (mp : ℕ)
    (fstype : Bytes) : Option Memory :=
  if strcmp fstype (ascii "ext4") = 0 then
    let mounted := io.ext4Mount memory
    some (write32 mounted.2 (mp + nodeField) mounted.1)
  else if strcmp fstype (ascii "initrd") = 0 then some (write32 memory (mp + nodeField) rootNode)
  else none

def loadedNode (io : MountIo) (rootNode : ℕ) (memory : Memory) (fstype : Bytes) : ℕ :=
  if strcmp fstype (ascii "ext4") = 0 then (io.ext4Mount memory).1
  else if strcmp fstype (ascii "initrd") = 0 then rootNode
  else 0

def attach (io : MountIo) (kernel : MountState) (mp : ℕ) (source target fstype : Bytes) :
    ℤ × MountState :=
  let filled := fillMountPoint kernel.memory mp source target fstype
  match loadFilesystem io kernel.rootNode filled mp fstype with
  | none => (-1, { kernel with memory := io.kfree filled })
  | some memory =>
    if read32 memory (mp + nodeField) = 0 then (-1, { kernel with memory := io.kfree memory })
    else
      (0, { kernel with
        memory := write32 memory (mp + nextField) kernel.mountList
        mountList := mp })

def vfsMount (fuel : ℕ) (io : MountIo) (kernel : MountState) :
    Option Bytes → Option Bytes → Option Bytes → Option (ℤ × MountState)
  | some source, some target, some fstype =>
    let found := io.finddir kernel.memory
    let kernel := { kernel with memory := found.2 }
    if found.1.any (· &&& vfsDirectory = 0) then some (-1, kernel)
    else
      match alreadyMounted kernel.memory target fuel kernel.mountList with
      | none => none
      | some true => some (-1, kernel)
      | some false =>
        let allocated := io.kmalloc kernel.memory
        let kernel := { kernel with memory := allocated.2 }
        if allocated.1 = 0 then some (-1, kernel)
        else some (attach io kernel allocated.1 source target fstype)
  | _, _, _ => some (-1, kernel)

def unlink (io : UmountIo) (kernel : MountState) (current : Option ℕ) (mp : ℕ) : MountState :=
  let unlinked := storeCell kernel.memory kernel.mountList
    (read32 kernel.memory (mp + nextField)) current
  let memory :=
    if strcmpAt unlinked.1 (mp + fstypeField) (ascii "ext4") = 0 then io.ext4Umount unlinked.1
    else unlinked.1
  { kernel with memory := io.kfree memory, mountList := unlinked.2 }

def umountLoop (io : UmountIo) (kernel : MountState) (target : Bytes) :
    ℕ → Option ℕ → Option (ℤ × MountState)
  | 0, _ => none
  | fuel + 1, current =>
    let mp := loadCell kernel.memory kernel.mountList current
    if mp = 0 then some (-1, kernel)
    else if strcmpAt kernel.memory mp target = 0 then
      if strcmpAt kernel.memory mp (ascii "/") = 0 then some (-1, kernel)
      else some (0, unlink io kernel current mp)
    else umountLoop io kernel target fuel (some (mp + nextField))

def vfsUmount (fuel : ℕ) (io : UmountIo) (kernel : MountState) :
    Option Bytes → Option (ℤ × MountState)
  | none => some (-1, kernel)
  | some target => umountLoop io kernel target fuel none

inductive MountCall where
  | mount (io : MountIo) (source target fstype : Bytes)
  | umount (io : UmountIo) (target : Bytes)

def MountCall.run (fuel : ℕ) (kernel : MountState) : MountCall → Option (ℤ × MountState)
  | mount io source target fstype =>
    vfsMount fuel io kernel (some source) (some target) (some fstype)
  | umount io target => vfsUmount fuel io kernel (some target)

def IsString (size : ℕ) (text : Bytes) : Prop := 0 ∉ text ∧ text.length < size

instance (size : ℕ) (text : Bytes) : Decidable (IsString size text) :=
  inferInstanceAs (Decidable (0 ∉ text ∧ text.length < size))

structure Table (kernel : MountState) (blocks : List ℕ) : Prop where
  chain : Segment nextField kernel.memory kernel.mountList blocks 0
  apart : Apart mountPointSize blocks
  inSpace : ∀ block ∈ blocks, block + mountPointSize ≤ 2 ^ 32
  terminated : ∀ block ∈ blocks, 0 ∈ load kernel.memory block 256
  rootWord : kernel.rootNode < 2 ^ 32

theorem entryAt_congr {memory changed : Memory} {mp : ℕ}
    (agree : Set.EqOn changed memory (range mp nextField)) :
    entryAt changed mp = entryAt memory mp := by
  have part {offset size : ℕ} (inside : offset + size ≤ nextField) :
      Set.EqOn changed memory (range (mp + offset) size) :=
    agree.mono (range_subset_range (by omega) (by omega))
  have path : stringIn changed mp 256 = stringIn memory mp 256 :=
    stringIn_congr (@part 0 256 (by decide))
  have node := read32_congr (@part nodeField 4 (by decide))
  have fstype := stringIn_congr (@part fstypeField 32 (by decide))
  have source := stringIn_congr (@part sourceField 256 (by decide))
  rw [entryAt, entryAt, path, node, fstype, source]

namespace Table

variable {kernel : MountState} {blocks : List ℕ} (table : Table kernel blocks)
include table

theorem tableBytes_eq : tableBytes kernel = bytes mountPointSize blocks := by
  ext location
  constructor
  · rintro ⟨fuel, found, run, inside⟩
    rwa [table.chain.eq_of_blocksFrom run] at inside
  · intro inside
    exact ⟨blocks.length + 1, blocks, table.chain.blocksFrom (Nat.lt_succ_self _), inside⟩

theorem lists : Lists kernel (blocks.map (entryAt kernel.memory)) := by
  intro fuel enough
  rw [List.length_map] at enough
  rw [mountEntries, table.chain.blocksFrom enough, Option.map_some]

theorem head_lt : kernel.mountList < 2 ^ 32 := by
  have chain := table.chain
  cases blocks with
  | nil =>
    have isNull : kernel.mountList = 0 := chain
    rw [isNull]
    decide
  | cons block rest =>
    have inSpace := table.inSpace block List.mem_cons_self
    rw [chain.1]
    exact Nat.lt_of_lt_of_le (Nat.lt_add_of_pos_right (by decide)) inSpace

theorem keep {memory : Memory}
    (agree : Set.EqOn memory kernel.memory (bytes mountPointSize blocks)) :
    Table { kernel with memory := memory } blocks ∧
      blocks.map (entryAt memory) = blocks.map (entryAt kernel.memory) := by
  have within {block : ℕ} (listed : block ∈ blocks) :
      Set.EqOn memory kernel.memory (range block mountPointSize) :=
    agree.mono (range_subset_bytes listed)
  have front {block size : ℕ} (listed : block ∈ blocks) (inside : size ≤ mountPointSize) :
      Set.EqOn memory kernel.memory (range block size) :=
    (within listed).mono (range_subset_range le_rfl (by omega))
  refine ⟨⟨table.chain.congr fun block listed => ?_, table.apart, table.inSpace, ?_,
    table.rootWord⟩, List.map_congr_left fun block listed => ?_⟩
  · exact read32_eq_of_eqOn (within listed) (by decide)
  · intro block listed
    rw [load_congr (front listed (by decide))]
    exact table.terminated block listed
  · exact entryAt_congr (front listed (by decide))

end Table

section Search

variable {memory : Memory} {pointer fuel : ℕ} {blocks : List ℕ} {target : Bytes}

theorem strcmpAt_path_iff {mp : ℕ} (terminated : 0 ∈ load memory mp 256) (noZero : 0 ∉ target) :
    strcmpAt memory mp target = 0 ↔ (entryAt memory mp).path = target :=
  strcmpAt_eq_zero_iff terminated noZero

theorem alreadyMounted_iff (segment : Segment nextField memory pointer blocks 0)
    (terminated : ∀ block ∈ blocks, 0 ∈ load memory block 256) (noZero : 0 ∉ target)
    {answer : Bool} (run : alreadyMounted memory target fuel pointer = some answer) :
    answer = true ↔ target ∈ (blocks.map (entryAt memory)).map Entry.path := by
  induction blocks generalizing pointer fuel with
  | nil =>
    have isNull : pointer = 0 := segment
    cases fuel with
    | zero => cases run
    | succ fuel =>
      rw [alreadyMounted, if_pos isNull, Option.some.injEq] at run
      simp [← run]
  | cons block blocks ih =>
    rcases segment with ⟨rfl, nonnull, rest⟩
    have here := @strcmpAt_path_iff memory target pointer
      (terminated pointer List.mem_cons_self) noZero
    cases fuel with
    | zero => cases run
    | succ fuel =>
      rw [alreadyMounted, if_neg nonnull] at run
      rw [List.map_cons, List.map_cons, List.mem_cons]
      by_cases found : strcmpAt memory pointer target = 0
      · rw [if_pos found, Option.some.injEq] at run
        simp [← run, here.mp found]
      · rw [if_neg found] at run
        have other : target ≠ (entryAt memory pointer).path := fun same =>
          found (here.mpr same.symm)
        rw [ih rest (fun block listed => terminated block (List.mem_cons_of_mem _ listed)) run]
        exact (or_iff_right other).symm

theorem exists_alreadyMounted (segment : Segment nextField memory pointer blocks 0)
    (enough : blocks.length < fuel) :
    ∃ answer, alreadyMounted memory target fuel pointer = some answer := by
  induction blocks generalizing pointer fuel with
  | nil =>
    rcases fuel with _ | fuel
    · omega
    have isNull : pointer = 0 := segment
    exact ⟨false, if_pos isNull⟩
  | cons block blocks ih =>
    rw [List.length_cons] at enough
    rcases fuel with _ | fuel
    · omega
    rcases segment with ⟨rfl, nonnull, rest⟩
    rw [alreadyMounted, if_neg nonnull]
    split
    next => exact ⟨true, rfl⟩
    next => exact ih rest (by omega)

end Search

section Filling

variable {memory changed : Memory} {mp : ℕ} {source target fstype : Bytes}

structure Filled (memory : Memory) (mp : ℕ) (source target fstype : Bytes) : Prop where
  path : load memory mp (target ++ [0]).length = target ++ [0]
  fstype : load memory (mp + fstypeField) (fstype ++ [0]).length = fstype ++ [0]
  source : load memory (mp + sourceField) (source ++ [0]).length = source ++ [0]

theorem load_congr_of_lt {address size : ℕ} {text : Bytes}
    (agree : Set.EqOn changed memory (range address size)) (short : text.length < size) :
    load changed address (text ++ [0]).length = load memory address (text ++ [0]).length := by
  refine load_congr (agree.mono (range_subset_range le_rfl ?_))
  rw [List.length_append, List.length_singleton]
  omega

theorem Filled.congr (filled : Filled memory mp source target fstype)
    (shortTarget : target.length < 256) (shortType : fstype.length < 32)
    (shortSource : source.length < 256)
    (agree : ∀ location ∈ range mp nextField, location ∉ range (mp + nodeField) 4 →
      changed location = memory location) : Filled changed mp source target fstype := by
  have part {offset size : ℕ} (inside : offset + size ≤ nextField)
      (outside : offset + size ≤ nodeField ∨ nodeField + 4 ≤ offset) :
      Set.EqOn changed memory (range (mp + offset) size) := by
    intro location within
    rw [mem_range] at within
    refine agree location (by rw [mem_range]; omega) ?_
    rw [mem_range]
    omega
  have front : Set.EqOn changed memory (range mp 256) := @part 0 256 (by decide) (by decide)
  refine ⟨?_, ?_, ?_⟩
  · rw [load_congr_of_lt front shortTarget, filled.path]
  · rw [load_congr_of_lt (part (by decide) (by decide)) shortType, filled.fstype]
  · rw [load_congr_of_lt (part (by decide) (by decide)) shortSource, filled.source]

theorem Filled.terminated (filled : Filled memory mp source target fstype)
    (shortTarget : target.length < 256) : 0 ∈ load memory mp 256 := by
  have listed : 0 ∈ load memory mp (target ++ [0]).length := by
    rw [filled.path]
    exact List.mem_append_right _ (List.mem_singleton_self _)
  rcases mem_load.mp listed with ⟨offset, inside, zero⟩
  rw [List.length_append, List.length_singleton] at inside
  exact mem_load.mpr ⟨offset, by omega, zero⟩

theorem Filled.entryAt_eq (filled : Filled memory mp source target fstype)
    (isSource : IsString 256 source) (isTarget : IsString 256 target)
    (isType : IsString 32 fstype) :
    entryAt memory mp =
      { path := target
        node := read32 memory (mp + nodeField)
        fstype := fstype
        source := source } := by
  rw [entryAt, stringIn_eq filled.path isTarget.1 isTarget.2,
    stringIn_eq filled.fstype isType.1 isType.2, stringIn_eq filled.source isSource.1 isSource.2]

theorem fillMountPoint_eqOn : Set.EqOn (fillMountPoint memory mp source target fstype) memory
    (range mp mountPointSize)ᶜ := by
  intro location outside
  simp only [mem_compl_range, mountPointSize] at outside
  simp only [fillMountPoint, nodeField, sourceField, fstypeField]
  rw [write32_apply_of_outside (by omega),
    strncpy_eqOn _ _ _ _ (by rw [mem_compl_range]; omega),
    strncpy_eqOn _ _ _ _ (by rw [mem_compl_range]; omega),
    strncpy_eqOn _ _ _ _ (by rw [mem_compl_range]; omega)]

theorem filled_fillMountPoint (shortTarget : target.length < 256) (shortType : fstype.length < 32)
    (shortSource : source.length < 256) :
    Filled (fillMountPoint memory mp source target fstype) mp source target fstype := by
  have node {address size : ℕ} (stored : Memory)
      (apart : address + size ≤ mp + nodeField ∨ mp + nodeField + 4 ≤ address) :
      Set.EqOn (write32 stored (mp + nodeField) 0) stored (range address size) := by
    intro location within
    rw [mem_range] at within
    exact write32_apply_of_outside (by omega)
  have behind {address size dest count : ℕ} (stored : Memory) (text : Bytes)
      (apart : address + size ≤ dest) :
      Set.EqOn (strncpy stored dest text count) stored (range address size) := by
    intro location within
    rw [mem_range] at within
    exact strncpy_eqOn _ _ _ _ (by rw [mem_compl_range]; omega)
  refine ⟨?_, ?_, ?_⟩
  · rw [fillMountPoint, load_congr_of_lt (@node mp 256 _ (by simp [nodeField])) shortTarget,
      load_congr_of_lt (@behind mp 256 _ _ _ _ (by simp [sourceField])) shortTarget,
      load_congr_of_lt (@behind mp 256 _ _ _ _ (by simp [fstypeField])) shortTarget,
      load_strncpy shortTarget]
  · rw [fillMountPoint,
      load_congr_of_lt (@node _ 32 _ (by simp [nodeField, fstypeField])) shortType,
      load_congr_of_lt (@behind _ 32 _ _ _ _ (by simp [sourceField, fstypeField])) shortType,
      load_strncpy shortType]
  · rw [fillMountPoint,
      load_congr_of_lt (@node _ 256 _ (by simp [nodeField, sourceField])) shortSource,
      load_strncpy shortSource]

end Filling

section Attaching

variable {io : MountIo} {kernel : MountState} {blocks : List ℕ} {mp : ℕ}
  {source target fstype : Bytes}

theorem loadedNode_lt {memory : Memory} {rootNode : ℕ} (rootWord : rootNode < 2 ^ 32)
    (ext4Node : ∀ memory, (io.ext4Mount memory).1 < 2 ^ 32) :
    loadedNode io rootNode memory fstype < 2 ^ 32 := by
  rw [loadedNode]
  split
  next => exact ext4Node memory
  next =>
    split
    next => exact rootWord
    next => decide

theorem loadFilesystem_cases {safe : Set ℕ}
    (keeps : ∀ memory, Set.EqOn (io.ext4Mount memory).2 memory safe) (memory : Memory)
    (rootNode : ℕ) :
    loadFilesystem io rootNode memory mp fstype = none ∧
        loadedNode io rootNode memory fstype = 0 ∨
      ∃ driven, Set.EqOn driven memory safe ∧
        loadFilesystem io rootNode memory mp fstype =
          some (write32 driven (mp + nodeField) (loadedNode io rootNode memory fstype)) := by
  rw [loadFilesystem, loadedNode]
  split
  next => exact Or.inr ⟨_, keeps memory, rfl⟩
  next =>
    split
    next => exact Or.inr ⟨memory, fun _ _ => rfl, rfl⟩
    next => exact Or.inl ⟨rfl, rfl⟩

theorem eqOn_write32_block {memory : Memory} {offset value : ℕ} {safe : Set ℕ}
    (apart : Disjoint (range mp mountPointSize) safe) (inside : offset + 4 ≤ mountPointSize) :
    Set.EqOn (write32 memory (mp + offset) value) memory safe := by
  have owned : range (mp + offset) 4 ⊆ range mp mountPointSize :=
    range_subset_range (by omega) (by omega)
  exact (write32_eqOn _ _ _).mono (Set.disjoint_right.mp (apart.mono_left owned))

theorem eqOn_fillMountPoint {memory : Memory} {safe : Set ℕ}
    (apart : Disjoint (range mp mountPointSize) safe) :
    Set.EqOn (fillMountPoint memory mp source target fstype) memory safe := by
  intro location isSafe
  exact fillMountPoint_eqOn fun owned => Set.disjoint_left.mp apart owned isSafe

variable (table : Table kernel blocks) (nonnull : mp ≠ 0) (inSpace : mp + mountPointSize ≤ 2 ^ 32)
  (apart : Disjoint (range mp mountPointSize) (bytes mountPointSize blocks))
include table nonnull inSpace apart

theorem Table.cons {memory : Memory}
    (agree : Set.EqOn memory kernel.memory (bytes mountPointSize blocks))
    (terminated : 0 ∈ load memory mp 256) :
    Table { kernel with
      memory := write32 memory (mp + nextField) kernel.mountList
      mountList := mp } (mp :: blocks) ∧
      blocks.map (entryAt (write32 memory (mp + nextField) kernel.mountList)) =
        blocks.map (entryAt kernel.memory) := by
  have linked : Set.EqOn (write32 memory (mp + nextField) kernel.mountList) kernel.memory
      (bytes mountPointSize blocks) := by
    intro location inside
    rw [eqOn_write32_block apart (by decide) inside, agree inside]
  rcases table.keep linked with ⟨kept, sameEntries⟩
  have separate : ∀ block ∈ blocks,
      Disjoint (range mp mountPointSize) (range block mountPointSize) :=
    fun block listed => apart.mono_right (range_subset_bytes listed)
  refine ⟨⟨⟨rfl, nonnull, ?_⟩, List.pairwise_cons.mpr ⟨separate, table.apart⟩, ?_, ?_,
    table.rootWord⟩, sameEntries⟩
  · have next : read32 (write32 memory (mp + nextField) kernel.mountList) (mp + nextField) =
        kernel.mountList := (read32_write32_same _ _ _).trans (Nat.mod_eq_of_lt table.head_lt)
    dsimp only
    rw [next]
    exact kept.chain
  · intro block listed
    rcases List.mem_cons.mp listed with rfl | listed
    · exact inSpace
    · exact table.inSpace block listed
  · intro block listed
    rcases List.mem_cons.mp listed with rfl | listed
    · have front : Set.EqOn (write32 memory (block + nextField) kernel.mountList) memory
          (range block 256) := by
        intro location within
        rw [mem_range] at within
        exact write32_apply_of_outside (by simp only [nextField]; omega)
      rw [load_congr front]
      exact terminated
    · exact kept.terminated block listed

theorem attach_effect (ext4Node : ∀ memory, (io.ext4Mount memory).1 < 2 ^ 32)
    (ext4Mount : ∀ memory, Set.EqOn (io.ext4Mount memory).2 memory
      (bytes mountPointSize blocks ∪ range mp mountPointSize))
    (kfree : ∀ memory, Set.EqOn (io.kfree memory) memory (bytes mountPointSize blocks))
    (isSource : IsString 256 source) (isTarget : IsString 256 target)
    (isType : IsString 32 fstype) {node : ℕ} {code : ℤ} {after : MountState}
    (isNode : loadedNode io kernel.rootNode (fillMountPoint kernel.memory mp source target fstype)
      fstype = node)
    (returned : attach io kernel mp source target fstype = (code, after)) :
    node = 0 ∧ code = -1 ∧ Table after blocks ∧
        blocks.map (entryAt after.memory) = blocks.map (entryAt kernel.memory) ∨
      node ≠ 0 ∧ code = 0 ∧ Table after (mp :: blocks) ∧
        blocks.map (entryAt after.memory) = blocks.map (entryAt kernel.memory) ∧
        entryAt after.memory mp =
          { path := target, node := node, fstype := fstype, source := source } := by
  have filledAgrees := @eqOn_fillMountPoint mp source target fstype kernel.memory _ apart
  have filled := @filled_fillMountPoint kernel.memory mp source target fstype isTarget.2 isType.2
    isSource.2
  rw [attach] at returned
  generalize fillMountPoint kernel.memory mp source target fstype = memory at *
  have nodeWord := @loadedNode_lt io fstype memory _ table.rootWord ext4Node
  rw [isNode] at nodeWord
  rcases @loadFilesystem_cases io mp fstype _ ext4Mount memory kernel.rootNode with
    ⟨unknown, noNode⟩ | ⟨driven, driverKeeps, loaded⟩
  · simp only [unknown] at returned
    cases returned
    exact Or.inl ⟨isNode.symm.trans noNode, rfl, table.keep ((kfree memory).trans filledAgrees)⟩
  · have stored : read32 (write32 driven (mp + nodeField) node) (mp + nodeField) = node :=
      (read32_write32_same _ _ _).trans (Nat.mod_eq_of_lt nodeWord)
    have agree : Set.EqOn (write32 driven (mp + nodeField) node) kernel.memory
        (bytes mountPointSize blocks) := by
      intro location inside
      rw [eqOn_write32_block apart (by decide) inside, driverKeeps (Or.inl inside),
        filledAgrees inside]
    rw [isNode] at loaded
    simp only [loaded, stored] at returned
    split at returned
    next isNull =>
      cases returned
      exact Or.inl ⟨isNull, rfl, table.keep ((kfree _).trans agree)⟩
    next nodeNonnull =>
      cases returned
      have mountedFilled : Filled (write32 driven (mp + nodeField) node) mp source target
          fstype := by
        refine filled.congr isTarget.2 isType.2 isSource.2 fun location inside outside => ?_
        rw [write32_eqOn _ _ _ outside]
        exact driverKeeps (Or.inr (range_nextField_subset mp inside))
      rcases table.cons nonnull inSpace apart agree (mountedFilled.terminated isTarget.2) with
        ⟨extended, sameEntries⟩
      refine Or.inr ⟨nodeNonnull, rfl, extended, sameEntries, ?_⟩
      have front : Set.EqOn
          (write32 (write32 driven (mp + nodeField) node) (mp + nextField) kernel.mountList)
          (write32 driven (mp + nodeField) node) (range mp nextField) := by
        intro location within
        exact write32_apply_of_outside (Or.inl within.2)
      dsimp only
      rw [entryAt_congr front, mountedFilled.entryAt_eq isSource isTarget isType, stored]

end Attaching

end RamOS.Vfs.MountTable
