import RamOS.Ext4.Model
import RamOS.Ext4.Superblock
import RamOS.Lib.CString

/-!
# Mounting an EXT4 file system

`ext4_mount` takes the geometry of a file system from its superblock, of which it checks the
magic number and nothing else. A device that cannot be opened counts as one that holds a
superblock made up by the driver. The machine shifts by the low five bits of the distance, so a
block size is a power of two or 0.
-/

namespace RamOS.Ext4

open CString

structure MountDevice (World : Type) extends Device World where
  devOpen : World → Bytes → ℤ → ℤ × World
  devSeek : World → ℤ → ℤ → ℤ → ℤ × World
  devClose : World → ℤ → ℤ × World

def superblockOffset : ℤ := 1024

/-- The superblock of `ext4_read_superblock` for a device that is not available. -/
def testSuperblock : Superblock where
  inodesCount := 16384
  blocksCount := 65536
  rBlocksCount := 3276
  freeBlocksCount := 60000
  freeInodesCount := 16000
  firstDataBlock := 1
  logBlockSize := 2
  logClusterSize := 2
  blocksPerGroup := 32768
  clustersPerGroup := 32768
  inodesPerGroup := 8192
  mtime := 0
  wtime := 0
  mntCount := 0
  maxMntCount := 20
  magic := ext4SuperMagic
  state := 1
  errors := 1
  minorRevLevel := 0
  lastcheck := 0
  checkinterval := 0
  creatorOs := 0
  revLevel := 1
  defResuid := 0
  defResgid := 0
  firstIno := 11
  inodeSize := 256
  blockGroupNr := 0
  featureCompat := 0x38
  featureIncompat := 0x2C2
  featureRoCompat := 0x73
  uuid := (List.range 16).map fun i => UInt8.ofNat (i * 17)
  volumeName := ascii "ramOS" ++ List.replicate 11 0

variable {World : Type}

def ext4ReadSuperblock (device : MountDevice World) (world : World) (name : Bytes) :
    Option Superblock × World :=
  let (fd, world) := device.devOpen world name 0
  if fd < 0 then (some testSuperblock, world)
  else
    let (_, world) := device.devSeek world fd superblockOffset 0
    let (bytesRead, bytes, world) := device.devRead world fd superblockBytes
    let (_, world) := device.devClose world fd
    if bytesRead ≠ superblockBytes then (none, world)
    else (some (Superblock.ofBytes bytes), world)

def blockSizeOf (logBlockSize : ℕ) : ℕ := 1024 * 2 ^ (logBlockSize % 32) % 2 ^ 32

/-- `ext4_fs_t`. -/
structure MountedFs extends Fs where
  superblock : Superblock
  numBlockGroups : ℕ

/-- The parameters that `ext4_mount` computes. No descriptor is ever stored. -/
def mountedFs (sb : Superblock) : MountedFs where
  deviceFd := -1
  blockSize := blockSizeOf sb.logBlockSize
  inodeSize := sb.inodeSize
  inodesPerGroup := sb.inodesPerGroup
  blocksPerGroup := sb.blocksPerGroup
  superblock := sb
  numBlockGroups :=
    Word32.sub (Word32.add sb.blocksCount sb.blocksPerGroup) 1 / sb.blocksPerGroup

/-- A call to `ext4_mount` ends in a division by zero, with `NULL`, or with a node. -/
inductive MountOutcome where
  | fault
  | failed
  | node (fs : MountedFs)

/-- `ext4_mount`; the last two arguments say whether `kmalloc` finds room. -/
def ext4Mount (device : MountDevice World) (world : World) (name : Option Bytes)
    (fsAllocated rootAllocated : Bool) : MountOutcome × World :=
  match name with
  | none => (.failed, world)
  | some name =>
    if !fsAllocated then (.failed, world)
    else
      match ext4ReadSuperblock device world name with
      | (none, world) => (.failed, world)
      | (some sb, world) =>
        if sb.magic ≠ ext4SuperMagic then (.failed, world)
        else if sb.blocksPerGroup = 0 then (.fault, world)
        else if !rootAllocated then (.failed, world)
        else (.node (mountedFs sb), world)

structure Usable (fs : Fs) : Prop where
  blockSize : ∃ k, 10 ≤ k ∧ k < 32 ∧ fs.blockSize = 2 ^ k
  inodesPerGroup : fs.inodesPerGroup ≠ 0
  blocksPerGroup : fs.blocksPerGroup ≠ 0
  holdsInode : inodeBytes ≤ fs.inodeSize
  inBlock : fs.inodeSize ≤ fs.blockSize

/-- No function of the file system divides by zero or copies an inode from or to a place outside
its block. -/
structure SafeCalls (device : Device World) (fs : Fs) : Prop where
  groups : fs.inodesPerGroup ≠ 0
  blocks : fs.blockSize ≠ 0
  copies : ∀ world blockNum inodeNum, 0 ≤ (ext4ReadBlock device fs world blockNum).1 →
    byteOffset fs inodeNum + inodeBytes ≤ fs.blockSize

def ReadInFull (device : MountDevice World) (world : World) (name : Bytes)
    (sb : Superblock) : Prop :=
  let (fd, opened) := device.devOpen world name 0
  let (_, sought) := device.devSeek opened fd superblockOffset 0
  let (bytesRead, bytes, _) := device.devRead sought fd superblockBytes
  0 ≤ fd ∧ bytesRead = superblockBytes ∧ sb = Superblock.ofBytes bytes

structure Admissible (device : MountDevice World) (world : World) (name : Bytes)
    (fs : MountedFs) : Prop where
  read : ReadInFull device world name fs.superblock
  magic : fs.superblock.magic = ext4SuperMagic
  usable : Usable fs.toFs
  safe : SafeCalls device.toDevice fs.toFs

structure UsableFields (sb : Superblock) : Prop where
  blockSize : sb.logBlockSize % 32 < 22
  inodesPerGroup : sb.inodesPerGroup ≠ 0
  blocksPerGroup : sb.blocksPerGroup ≠ 0
  holdsInode : inodeBytes ≤ sb.inodeSize
  inBlock : sb.inodeSize ≤ blockSizeOf sb.logBlockSize

theorem blockSizeOf_eq {logBlockSize : ℕ} (small : logBlockSize % 32 < 22) :
    blockSizeOf logBlockSize = 2 ^ (10 + logBlockSize % 32) := by
  have bound : 2 ^ (10 + logBlockSize % 32) < 2 ^ 32 :=
    Nat.pow_lt_pow_right (by decide) (by omega)
  rw [blockSizeOf, ← Nat.mod_eq_of_lt bound, Nat.pow_add]

theorem blockSizeOf_eq_zero {logBlockSize : ℕ} (large : 22 ≤ logBlockSize % 32) :
    blockSizeOf logBlockSize = 0 := by
  rw [blockSizeOf]
  refine Nat.mod_eq_zero_of_dvd ?_
  have shape : 1024 * 2 ^ (logBlockSize % 32) = 2 ^ (10 + logBlockSize % 32) :=
    (Nat.pow_add 2 10 _).symm
  rw [shape]
  exact Nat.pow_dvd_pow 2 (by omega)

theorem usable_mountedFs_iff (sb : Superblock) : Usable (mountedFs sb).toFs ↔ UsableFields sb := by
  constructor
  · intro usable
    rcases usable.blockSize with ⟨k, -, -, size⟩
    refine ⟨?_, usable.inodesPerGroup, usable.blocksPerGroup, usable.holdsInode, usable.inBlock⟩
    by_contra large
    have zero : (mountedFs sb).blockSize = 0 := blockSizeOf_eq_zero (by omega)
    rw [zero] at size
    exact (Nat.two_pow_pos k).ne size
  · intro fields
    exact ⟨⟨10 + sb.logBlockSize % 32, by omega, by have := fields.blockSize; omega,
      blockSizeOf_eq fields.blockSize⟩, fields.inodesPerGroup, fields.blocksPerGroup,
      fields.holdsInode, fields.inBlock⟩

variable {sb : Superblock} {name : Bytes}

theorem safeCalls_mountedFs (device : Device World) (usable : Usable (mountedFs sb).toFs) :
    SafeCalls device (mountedFs sb).toFs := by
  rcases usable.blockSize with ⟨k, -, -, size⟩
  refine ⟨usable.inodesPerGroup, ?_, ?_⟩
  · rw [size]
    exact (Nat.two_pow_pos k).ne'
  · intro world blockNum inodeNum succeeded
    have closed : ¬ 0 ≤ (mountedFs sb).deviceFd := (by decide : ¬ (0 : ℤ) ≤ -1)
    rw [ext4ReadBlock, if_neg closed] at succeeded
    exact absurd succeeded (by simp)

theorem readInFull_iff {device : MountDevice World} {world : World}
    (obtained : (ext4ReadSuperblock device world name).1 = some sb) :
    ReadInFull device world name sb ↔ 0 ≤ (device.devOpen world name 0).1 := by
  constructor
  · exact And.left
  · intro opened
    simp only [ext4ReadSuperblock, if_neg (Int.not_lt.mpr opened)] at obtained
    split at obtained
    · cases obtained
    next full =>
      refine ⟨opened, not_not.mp full, ?_⟩
      exact (Option.some.inj obtained).symm

theorem admissible_mountedFs_iff {device : MountDevice World} {world : World}
    (obtained : (ext4ReadSuperblock device world name).1 = some sb)
    (magic : sb.magic = ext4SuperMagic) :
    Admissible device world name (mountedFs sb) ↔
      0 ≤ (device.devOpen world name 0).1 ∧ UsableFields sb := by
  rw [← readInFull_iff obtained, ← usable_mountedFs_iff]
  constructor
  · intro admissible
    exact ⟨admissible.read, admissible.usable⟩
  · rintro ⟨read, usable⟩
    exact ⟨read, magic, usable, safeCalls_mountedFs device.toDevice usable⟩

theorem ext4Mount_of_magic {device : MountDevice World} {world : World}
    (obtained : (ext4ReadSuperblock device world name).1 = some sb)
    (magic : sb.magic = ext4SuperMagic) (rootAllocated : Bool) :
    (ext4Mount device world (some name) true rootAllocated).1 =
      if sb.blocksPerGroup = 0 then .fault
      else if rootAllocated then .node (mountedFs sb) else .failed := by
  rcases split : ext4ReadSuperblock device world name with ⟨read, after⟩
  rw [split] at obtained
  cases obtained
  simp only [ext4Mount, split, magic, Bool.not_true, Bool.false_eq_true, if_false, ne_eq,
    not_true_eq_false]
  split
  · rfl
  · cases rootAllocated <;> rfl

theorem ext4Mount_failed {device : MountDevice World} {world : World}
    (fsAllocated rootAllocated : Bool)
    (useless : fsAllocated = true → ∀ sb, (ext4ReadSuperblock device world name).1 = some sb →
      sb.magic ≠ ext4SuperMagic) :
    (ext4Mount device world (some name) fsAllocated rootAllocated).1 = .failed := by
  rw [ext4Mount]
  cases fsAllocated with
  | false => rfl
  | true =>
    rcases split : ext4ReadSuperblock device world name with ⟨_ | sb, after⟩
    · rfl
    · have wrong := useless rfl sb (by rw [split])
      simp [wrong]

/-- `ext4_mount` never divides by zero and mounts only what is admissible exactly if a superblock
with the right magic number has groups with blocks and, if there is room for the node, was read
and has usable values. -/
theorem ext4Mount_admissible_iff (device : MountDevice World) (world : World)
    (name : Option Bytes) (fsAllocated rootAllocated : Bool) :
    ((ext4Mount device world name fsAllocated rootAllocated).1 ≠ .fault ∧
        ∀ fs, (ext4Mount device world name fsAllocated rootAllocated).1 = .node fs →
          ∃ text, name = some text ∧ Admissible device world text fs) ↔
      ∀ text, name = some text → fsAllocated = true → ∀ sb,
        (ext4ReadSuperblock device world text).1 = some sb → sb.magic = ext4SuperMagic →
          sb.blocksPerGroup ≠ 0 ∧
            (rootAllocated = true →
              0 ≤ (device.devOpen world text 0).1 ∧ UsableFields sb) := by
  cases name with
  | none => simp [ext4Mount]
  | some name =>
    by_cases useful : fsAllocated = true ∧ ∃ sb,
        (ext4ReadSuperblock device world name).1 = some sb ∧ sb.magic = ext4SuperMagic
    · rcases useful with ⟨rfl, sb, obtained, magic⟩
      rw [ext4Mount_of_magic obtained magic]
      have condition : (∀ text, some name = some text → true = true → ∀ other,
          (ext4ReadSuperblock device world text).1 = some other →
            other.magic = ext4SuperMagic → other.blocksPerGroup ≠ 0 ∧
              (rootAllocated = true → 0 ≤ (device.devOpen world text 0).1 ∧
                UsableFields other)) ↔
          sb.blocksPerGroup ≠ 0 ∧ (rootAllocated = true →
            0 ≤ (device.devOpen world name 0).1 ∧ UsableFields sb) := by
        constructor
        · intro all
          exact all name rfl rfl sb obtained magic
        · rintro one text same - other listed -
          cases same
          rw [obtained] at listed
          cases listed
          exact one
      rw [condition, ← admissible_mountedFs_iff obtained magic]
      by_cases empty : sb.blocksPerGroup = 0
      · simp [empty]
      · cases rootAllocated with
        | false => simp [empty]
        | true => simp [empty]
    · have useless : fsAllocated = true → ∀ sb,
          (ext4ReadSuperblock device world name).1 = some sb → sb.magic ≠ ext4SuperMagic :=
        fun allocated sb obtained magic => useful ⟨allocated, sb, obtained, magic⟩
      rw [ext4Mount_failed fsAllocated rootAllocated useless]
      simp only [ne_eq, reduceCtorEq, not_false_eq_true, false_implies, implies_true, and_self,
        true_iff]
      intro text same allocated sb obtained magic
      cases same
      exact absurd ⟨allocated, sb, obtained, magic⟩ useful

/-- A device whose superblock is empty but for the magic number. -/
def emptyDevice : MountDevice Unit where
  devRead := fun _ _ count =>
    (count, List.replicate 56 0 ++ [0x53, 0xEF] ++ List.replicate 78 0, ())
  devWrite := fun _ _ _ => (-1, ())
  devOpen := fun _ _ _ => (0, ())
  devSeek := fun _ _ offset _ => (offset, ())
  devClose := fun _ _ => (0, ())

/-- Groups without blocks are divided by. -/
theorem ext4Mount_divides_by_zero :
    (ext4Mount emptyDevice () (some (ascii "ata0")) true true).1 = .fault ∧
      ∃ sb, ReadInFull emptyDevice () (ascii "ata0") sb ∧ sb.magic = ext4SuperMagic ∧
        sb.blocksPerGroup = 0 :=
  ⟨rfl, _, ⟨by decide, rfl, rfl⟩, by decide +kernel, by decide +kernel⟩

end RamOS.Ext4
