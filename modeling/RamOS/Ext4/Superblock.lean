import RamOS.Lib.LittleEndian
import RamOS.Lib.Slice

/-!
# The superblock on the device

The driver and the installer declare the superblock apart, with the same packed fields at
the same places; the installer's record goes on behind the driver's. What one of them writes
is what the other one reads, as long as every value fits its field.
-/

namespace RamOS.Ext4

open LittleEndian Slice

/-- `ext4_superblock_t`. -/
structure Superblock where
  inodesCount : ℕ
  blocksCount : ℕ
  rBlocksCount : ℕ
  freeBlocksCount : ℕ
  freeInodesCount : ℕ
  firstDataBlock : ℕ
  logBlockSize : ℕ
  logClusterSize : ℕ
  blocksPerGroup : ℕ
  clustersPerGroup : ℕ
  inodesPerGroup : ℕ
  mtime : ℕ
  wtime : ℕ
  mntCount : ℕ
  maxMntCount : ℕ
  magic : ℕ
  state : ℕ
  errors : ℕ
  minorRevLevel : ℕ
  lastcheck : ℕ
  checkinterval : ℕ
  creatorOs : ℕ
  revLevel : ℕ
  defResuid : ℕ
  defResgid : ℕ
  firstIno : ℕ
  inodeSize : ℕ
  blockGroupNr : ℕ
  featureCompat : ℕ
  featureIncompat : ℕ
  featureRoCompat : ℕ
  uuid : Bytes
  volumeName : Bytes

def ext4SuperMagic : ℕ := 0xEF53

def superblockBytes : ℕ := 136

namespace Superblock

/-- The numbers of a superblock in their order, each with its width in bytes. -/
def fields (sb : Superblock) : List (ℕ × ℕ) :=
  [(4, sb.inodesCount), (4, sb.blocksCount), (4, sb.rBlocksCount), (4, sb.freeBlocksCount),
    (4, sb.freeInodesCount), (4, sb.firstDataBlock), (4, sb.logBlockSize),
    (4, sb.logClusterSize), (4, sb.blocksPerGroup), (4, sb.clustersPerGroup),
    (4, sb.inodesPerGroup), (4, sb.mtime), (4, sb.wtime), (2, sb.mntCount),
    (2, sb.maxMntCount), (2, sb.magic), (2, sb.state), (2, sb.errors), (2, sb.minorRevLevel),
    (4, sb.lastcheck), (4, sb.checkinterval), (4, sb.creatorOs), (4, sb.revLevel),
    (2, sb.defResuid), (2, sb.defResgid), (4, sb.firstIno), (2, sb.inodeSize),
    (2, sb.blockGroupNr), (4, sb.featureCompat), (4, sb.featureIncompat),
    (4, sb.featureRoCompat)]

def widths : List ℕ :=
  [4, 4, 4, 4, 4, 4, 4, 4, 4, 4, 4, 4, 4, 2, 2, 2, 2, 2, 2, 4, 4, 4, 4, 2, 2, 4, 2, 2, 4, 4, 4]

def bytes (sb : Superblock) : Bytes := pack sb.fields ++ sb.uuid ++ sb.volumeName

def ofBytes (bytes : Bytes) : Superblock :=
  let value (index : ℕ) : ℕ := (unpack widths bytes).getD index 0
  { inodesCount := value 0
    blocksCount := value 1
    rBlocksCount := value 2
    freeBlocksCount := value 3
    freeInodesCount := value 4
    firstDataBlock := value 5
    logBlockSize := value 6
    logClusterSize := value 7
    blocksPerGroup := value 8
    clustersPerGroup := value 9
    inodesPerGroup := value 10
    mtime := value 11
    wtime := value 12
    mntCount := value 13
    maxMntCount := value 14
    magic := value 15
    state := value 16
    errors := value 17
    minorRevLevel := value 18
    lastcheck := value 19
    checkinterval := value 20
    creatorOs := value 21
    revLevel := value 22
    defResuid := value 23
    defResgid := value 24
    firstIno := value 25
    inodeSize := value 26
    blockGroupNr := value 27
    featureCompat := value 28
    featureIncompat := value 29
    featureRoCompat := value 30
    uuid := slice bytes 104 16
    volumeName := slice bytes 120 16 }

structure Fits (sb : Superblock) : Prop where
  numbers : ∀ field ∈ sb.fields, field.2 < 2 ^ (8 * field.1)
  uuid : sb.uuid.length = 16
  volumeName : sb.volumeName.length = 16

variable {sb : Superblock}

theorem map_fst_fields (sb : Superblock) : sb.fields.map Prod.fst = widths := by
  simp only [fields, List.map_cons, List.map_nil, widths]

theorem length_pack_fields (sb : Superblock) : (pack sb.fields).length = 104 := by
  rw [length_pack, map_fst_fields]
  decide

theorem length_bytes (fits : Fits sb) : sb.bytes.length = superblockBytes := by
  rw [bytes, List.length_append, List.length_append, length_pack_fields, fits.uuid,
    fits.volumeName]
  rfl

theorem ofBytes_bytes (fits : Fits sb) (rest : Bytes) : ofBytes (sb.bytes ++ rest) = sb := by
  have values : unpack widths (sb.bytes ++ rest) = sb.fields.map Prod.snd := by
    rw [bytes, List.append_assoc, List.append_assoc, ← map_fst_fields sb,
      unpack_pack _ fits.numbers]
  have uuid : slice (sb.bytes ++ rest) 104 16 = sb.uuid := by
    rw [slice, bytes, List.append_assoc, List.append_assoc,
      List.drop_left' (length_pack_fields sb), List.take_left' fits.uuid]
  have volumeName : slice (sb.bytes ++ rest) 120 16 = sb.volumeName := by
    have front : (pack sb.fields ++ sb.uuid).length = 120 := by
      rw [List.length_append, length_pack_fields, fits.uuid]
    rw [slice, bytes, List.append_assoc, List.drop_left' front, List.take_left' fits.volumeName]
  simp only [ofBytes, values, uuid, volumeName]
  rfl

end Superblock

end RamOS.Ext4
