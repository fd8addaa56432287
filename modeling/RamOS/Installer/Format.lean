import RamOS.Ext4.Mount

/-!
# The superblock that the installer writes

The installer computes the counts of a new file system from the number of sectors of the
device, in 32-bit words. The size in bytes is taken before it is divided by the block size,
so that a disk of four gigabytes or more comes out as its size modulo four gigabytes.
-/

namespace RamOS.Installer

open ByteMemory CString Ext4

/-- Whether the device opens, the size that the control request stores, 0 if it fails, and the
result of the first write. -/
structure FormatIo where
  opens : Bool
  deviceSize : ℕ
  written : ℤ

def formatSectors (deviceSize : ℕ) : ℕ := if deviceSize = 0 then 256 * 1024 * 2 else deviceSize

def blockCount (sectors : ℕ) : ℕ := sectors * 512 % 2 ^ 32 / 4096

def inodeCount (sectors : ℕ) : ℕ := blockCount sectors / 4

/-- The record from `s_volume_name` on: zeros, and the label if there is one. -/
def labelMemory : Option Bytes → Memory
  | none => fun _ => 0
  | some label => write8 (strncpy (fun _ => 0) 0 label 16) 15 0

def formatSuperblock (sectors : ℕ) (label : Option Bytes) : Superblock where
  inodesCount := inodeCount sectors
  blocksCount := blockCount sectors
  rBlocksCount := blockCount sectors / 20
  freeBlocksCount := Word32.sub (blockCount sectors) 100
  freeInodesCount := Word32.sub (inodeCount sectors) 10
  firstDataBlock := 1
  logBlockSize := 2
  logClusterSize := 2
  blocksPerGroup := 32768
  clustersPerGroup := 32768
  inodesPerGroup := 8192
  mtime := 0
  wtime := 0
  mntCount := 0
  maxMntCount := 20
  magic := ext4SuperMagic
  state := 1
  errors := 1
  minorRevLevel := 0
  lastcheck := 0
  checkinterval := 0
  creatorOs := 0
  revLevel := 1
  defResuid := 0
  defResgid := 0
  firstIno := 11
  inodeSize := 256
  blockGroupNr := 0
  featureCompat := 0x38
  featureIncompat := 0x2C2
  featureRoCompat := 0x73
  uuid := (List.range 16).map fun i => UInt8.ofNat (i * 17)
  volumeName := load (labelMemory label) 0 16

/-- `buffer`: the record, of which `s_last_mounted` and `s_algorithm_usage_bitmap` are unknown to
the driver, and zeros up to the end of the block. -/
def formatBuffer (sectors : ℕ) (label : Option Bytes) : Bytes :=
  (formatSuperblock sectors label).bytes ++
    (load (labelMemory label) 16 68 ++ List.replicate (4096 - 204) 0)

/-- `format_ext4`: its result, and the offset and bytes of each write. -/
def formatExt4 (io : FormatIo) (label : Option Bytes) : ℤ × List (ℕ × Bytes) :=
  if !io.opens then (-1, [])
  else
    let buffer := formatBuffer (formatSectors io.deviceSize) label
    if io.written ≠ 4096 then (-1, [(1024, buffer)])
    else (0, [(1024, buffer), (4096 * 32768, buffer)])

structure Describes (sectors : ℕ) (sb : Superblock) : Prop where
  blocks : sb.blocksCount = sectors * 512 / 4096
  inodes : sb.inodesCount = sb.blocksCount / 4
  freeBlocks : sb.freeBlocksCount ≤ sb.blocksCount
  freeInodes : sb.freeInodesCount ≤ sb.inodesCount
  reserved : sb.rBlocksCount ≤ sb.blocksCount

theorem blockCount_lt (sectors : ℕ) : blockCount sectors < 2 ^ 32 := by
  rw [blockCount]
  omega

theorem formatSuperblock_fits (sectors : ℕ) (label : Option Bytes) :
    (formatSuperblock sectors label).Fits := by
  have blocks := blockCount_lt sectors
  have inodes : inodeCount sectors < 2 ^ 32 := (Nat.div_le_self _ 4).trans_lt blocks
  have reserved : blockCount sectors / 20 < 2 ^ 32 := (Nat.div_le_self _ 20).trans_lt blocks
  have word (left right : ℕ) : Word32.sub left right < 2 ^ 32 := Nat.mod_lt _ (by decide)
  refine ⟨?_, by simp [formatSuperblock], by simp [formatSuperblock]⟩
  simp only [Superblock.fields, formatSuperblock, List.forall_mem_cons]
  exact ⟨inodes, blocks, reserved, word _ _, word _ _, by decide⟩

theorem length_formatBuffer (sectors : ℕ) (label : Option Bytes) :
    (formatBuffer sectors label).length = 4096 := by
  rw [formatBuffer, List.length_append, List.length_append, length_load, List.length_replicate,
    Superblock.length_bytes (formatSuperblock_fits sectors label), superblockBytes]

theorem ofBytes_formatBuffer (sectors : ℕ) (label : Option Bytes) :
    Superblock.ofBytes (formatBuffer sectors label) = formatSuperblock sectors label :=
  Superblock.ofBytes_bytes (formatSuperblock_fits sectors label) _

theorem describes_formatSuperblock_iff {sectors : ℕ} {label : Option Bytes}
    (large : 808 ≤ sectors) :
    Describes sectors (formatSuperblock sectors label) ↔ sectors < 2 ^ 23 := by
  constructor
  · intro describes
    have blocks : sectors * 512 % 2 ^ 32 / 4096 = sectors * 512 / 4096 := describes.blocks
    omega
  · intro small
    have blocks : blockCount sectors = sectors * 512 / 4096 := by
      rw [blockCount, Nat.mod_eq_of_lt (by omega)]
    have bound := blockCount_lt sectors
    have inodes : inodeCount sectors = blockCount sectors / 4 := rfl
    refine ⟨blocks, inodes, ?_, ?_, Nat.div_le_self _ 20⟩
    · simp only [formatSuperblock]
      rw [Word32.sub_eq (by omega) bound]
      exact Nat.sub_le _ _
    · simp only [formatSuperblock]
      rw [Word32.sub_eq (by omega) (by omega)]
      exact Nat.sub_le _ _

theorem mem_formatExt4 {io : FormatIo} {label : Option Bytes} {write : ℕ × Bytes}
    (listed : write ∈ (formatExt4 io label).2) :
    write.2 = formatBuffer (formatSectors io.deviceSize) label := by
  rw [formatExt4] at listed
  split at listed
  · simp at listed
  split at listed
  · rw [List.mem_singleton.mp listed]
  · simp only [List.mem_cons, List.not_mem_nil, or_false] at listed
    rcases listed with rfl | rfl
    all_goals rfl

theorem first_mem_formatExt4 {io : FormatIo} (label : Option Bytes) (opened : io.opens) :
    (1024, formatBuffer (formatSectors io.deviceSize) label) ∈ (formatExt4 io label).2 := by
  rw [formatExt4, if_neg (by simp [opened])]
  dsimp only
  split
  all_goals exact List.mem_cons_self

/-- From 808 sectors on, every superblock that is written describes the device exactly if it has
less than four gigabytes. -/
theorem formatExt4_describes_iff {io : FormatIo} (label : Option Bytes) (opened : io.opens)
    (large : 808 ≤ formatSectors io.deviceSize) :
    (∀ write ∈ (formatExt4 io label).2,
        Describes (formatSectors io.deviceSize) (Superblock.ofBytes write.2)) ↔
      formatSectors io.deviceSize < 2 ^ 23 := by
  rw [← describes_formatSuperblock_iff large, ← ofBytes_formatBuffer _ label]
  constructor
  · intro described
    exact described _ (first_mem_formatExt4 label opened)
  · intro described write listed
    rw [mem_formatExt4 listed]
    exact described

def diskOf (gigabytes : ℕ) : FormatIo where
  opens := true
  deviceSize := gigabytes * 2 ^ 21
  written := 4096

theorem formatExt4_describes_smallDisk :
    (∀ write ∈ (formatExt4 (diskOf 1) (some (ascii "ramOS"))).2,
        Describes (formatSectors (diskOf 1).deviceSize) (Superblock.ofBytes write.2)) ↔
      formatSectors (diskOf 1).deviceSize < 2 ^ 23 :=
  formatExt4_describes_iff (some (ascii "ramOS")) rfl (by decide)

/-- With eight gigabytes the file system has no blocks, and 4294967196 of them are free. -/
theorem eight_gigabytes_have_no_blocks :
    ∃ write ∈ (formatExt4 (diskOf 8) none).2,
      (Superblock.ofBytes write.2).blocksCount = 0 ∧
        (Superblock.ofBytes write.2).freeBlocksCount = 4294967196 ∧
        formatSectors (diskOf 8).deviceSize * 512 / 4096 = 2097152 := by
  refine ⟨_, first_mem_formatExt4 none rfl, ?_⟩
  rw [ofBytes_formatBuffer]
  decide

/-- The disk after a write. -/
def writeDisk (disk : Memory) (write : ℕ × Bytes) : Memory :=
  transfer disk write.1 write.2.length (place write.1 write.2) write.1

/-- A disk under a descriptor with a position. -/
def diskDevice : MountDevice (Memory × ℕ) where
  devOpen := fun (disk, _) _ _ => (0, disk, 0)
  devSeek := fun (disk, _) _ offset _ => (offset, disk, offset.toNat)
  devRead := fun (disk, position) _ count =>
    (count, load disk position count, disk, position + count)
  devWrite := fun (disk, position) _ bytes =>
    (bytes.length, writeDisk disk (position, bytes), position + bytes.length)
  devClose := fun world _ => (0, world)

theorem load_formatted (disk : Memory) {io : FormatIo} {label : Option Bytes}
    (succeeded : (formatExt4 io label).1 = 0) :
    load ((formatExt4 io label).2.foldl writeDisk disk) 1024 superblockBytes =
      (formatSuperblock (formatSectors io.deviceSize) label).bytes := by
  have length := length_formatBuffer (formatSectors io.deviceSize) label
  have first := @load_place 1024 0 superblockBytes
    (formatBuffer (formatSectors io.deviceSize) label) (by rw [length]; decide)
  rw [List.drop_zero, formatBuffer, List.take_left' (Superblock.length_bytes
    (formatSuperblock_fits _ label)), ← formatBuffer] at first
  rw [← first]
  refine load_congr fun location inside => ?_
  rw [mem_range, superblockBytes] at inside
  rw [formatExt4] at succeeded ⊢
  split_ifs at succeeded ⊢
  · cases succeeded
  · cases succeeded
  · -- The copy of the superblock in the second group lies far behind.
    change writeDisk (writeDisk disk _) _ location = _
    rw [writeDisk, transfer_apply_of_outside (by dsimp only; omega), writeDisk, transfer,
      if_pos (by dsimp only; rw [length]; omega), Nat.add_sub_of_le inside.1]

/-- On a disk that keeps what is written, the driver mounts what the installer has formatted, with
the superblock that was written and sizes with which it can work: no inode leaves its block. -/
theorem ext4Mount_formatExt4 {io : FormatIo} {label : Option Bytes}
    (succeeded : (formatExt4 io label).1 = 0) (disk : Memory) (name : Bytes) :
    (ext4Mount diskDevice ((formatExt4 io label).2.foldl writeDisk disk, 0) (some name) true
        true).1 = .node (mountedFs (formatSuperblock (formatSectors io.deviceSize) label)) ∧
      Usable (mountedFs (formatSuperblock (formatSectors io.deviceSize) label)).toFs ∧
      ∀ inodeNum, byteOffset (mountedFs (formatSuperblock (formatSectors io.deviceSize)
        label)).toFs inodeNum + inodeBytes ≤
          (mountedFs (formatSuperblock (formatSectors io.deviceSize) label)).blockSize := by
  have read : (ext4ReadSuperblock diskDevice ((formatExt4 io label).2.foldl writeDisk disk, 0)
      name).1 = some (formatSuperblock (formatSectors io.deviceSize) label) := by
    have whole := Superblock.ofBytes_bytes
      (formatSuperblock_fits (formatSectors io.deviceSize) label) []
    rw [List.append_nil, ← load_formatted disk succeeded] at whole
    exact congrArg some whole
  refine ⟨(ext4Mount_of_magic read rfl true).trans rfl, (usable_mountedFs_iff _).mpr ?_, ?_⟩
  · exact ⟨(by decide : 2 % 32 < 22), (by decide : 8192 ≠ 0), (by decide : 32768 ≠ 0),
      (by decide : 96 ≤ 256), (by decide : 256 ≤ 1024 * 2 ^ (2 % 32) % 2 ^ 32)⟩
  · intro inodeNum
    change (inodeNum - 1) % 8192 * 256 % 2 ^ 32 % 4096 + 96 ≤ 4096
    omega

theorem ext4Mount_formatExt4_gigabyte :
    ∃ fs, (ext4Mount diskDevice ((formatExt4 (diskOf 1) none).2.foldl writeDisk (fun _ => 0), 0)
        (some (ascii "ata0")) true true).1 = .node fs ∧ fs.superblock.blocksCount = 262144 :=
  ⟨_, (ext4Mount_formatExt4 rfl _ _).1, rfl⟩

end RamOS.Installer
