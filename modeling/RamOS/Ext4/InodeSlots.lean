import Mathlib.Order.Interval.Set.Disjoint
import Mathlib.Order.CompletePartialOrder
import RamOS.Ext4.Model

/-!
# Where the inodes lie

`ext4_read_inode` numbers the inodes group by group and lays those of a group out from the start
of its inode table on. One division gives the group and the index in it, and another one the
block and the offset. Both can be undone as long as nothing wraps, so that different inodes get
different slots.
-/

namespace RamOS.Ext4

/-- The inodes fill whole blocks, and the inode table of a group fits into the group. -/
structure InodeLayout extends Fs where
  divides : inodeSize ∣ blockSize
  holdsInode : inodeBytes ≤ inodeSize
  nonempty : 0 < inodesPerGroup
  fits : inodesPerGroup * inodeSize ≤ blocksPerGroup * blockSize

/-- No sum and no product that `ext4_read_inode` computes for the inode wraps. -/
def NoOverflow (fs : Fs) (inodeNum : ℕ) : Prop :=
  ext4InodeIndex fs inodeNum * fs.inodeSize < 2 ^ 32 ∧
    6 + ext4InodeBlockGroup fs inodeNum * fs.blocksPerGroup +
      ext4InodeIndex fs inodeNum * fs.inodeSize / fs.blockSize < 2 ^ 32

/-- The bytes of an inode, each as its block and its place in the block. -/
def inodeSlot (fs : Fs) (inodeNum : ℕ) : Set (ℕ × ℕ) :=
  {readInodeBlock fs inodeNum} ×ˢ
    Set.Ico (byteOffset fs inodeNum) (byteOffset fs inodeNum + fs.inodeSize)

theorem inodeNum_eq {fs : Fs} {inodeNum : ℕ} (numbered : 1 ≤ inodeNum) :
    inodeNum = fs.inodesPerGroup * ext4InodeBlockGroup fs inodeNum +
      ext4InodeIndex fs inodeNum + 1 := by
  have split := Nat.div_add_mod (inodeNum - 1) fs.inodesPerGroup
  rw [ext4InodeBlockGroup, ext4InodeIndex]
  omega

theorem tableOffset_eq {fs : Fs} {inodeNum : ℕ} (exact : NoOverflow fs inodeNum) :
    tableOffset fs inodeNum = ext4InodeIndex fs inodeNum * fs.inodeSize :=
  Nat.mod_eq_of_lt exact.1

theorem readInodeBlock_eq_add {fs : Fs} {inodeNum : ℕ} (exact : NoOverflow fs inodeNum) :
    readInodeBlock fs inodeNum =
      6 + ext4InodeBlockGroup fs inodeNum * fs.blocksPerGroup + blockOffset fs inodeNum := by
  have bound := exact.2
  rw [← tableOffset_eq exact, ← blockOffset] at bound
  have group : groupBlock fs inodeNum =
      ext4InodeBlockGroup fs inodeNum * fs.blocksPerGroup := Nat.mod_eq_of_lt (by omega)
  simp only [readInodeBlock, group, Word32.add]
  omega

namespace InodeLayout

variable (layout : InodeLayout) {inodeNum other : ℕ}

theorem index_lt (inodeNum : ℕ) : ext4InodeIndex layout.toFs inodeNum < layout.inodesPerGroup :=
  Nat.mod_lt _ layout.nonempty

theorem inodeSize_pos : 0 < layout.inodeSize :=
  (by decide : 0 < inodeBytes).trans_le layout.holdsInode

theorem tableEnd_le (inodeNum : ℕ) :
    ext4InodeIndex layout.toFs inodeNum * layout.inodeSize + layout.inodeSize ≤
      layout.blocksPerGroup * layout.blockSize := by
  calc ext4InodeIndex layout.toFs inodeNum * layout.inodeSize + layout.inodeSize
      = (ext4InodeIndex layout.toFs inodeNum + 1) * layout.inodeSize := (Nat.succ_mul _ _).symm
    _ ≤ layout.inodesPerGroup * layout.inodeSize :=
        Nat.mul_le_mul_right _ (layout.index_lt inodeNum)
    _ ≤ layout.blocksPerGroup * layout.blockSize := layout.fits

theorem blockSize_pos : 0 < layout.blockSize := by
  by_contra zero
  have filled := layout.tableEnd_le 1
  have positive := layout.inodeSize_pos
  rw [Nat.eq_zero_of_not_pos zero, Nat.mul_zero] at filled
  omega

theorem blockOffset_lt (exact : NoOverflow layout.toFs inodeNum) :
    blockOffset layout.toFs inodeNum < layout.blocksPerGroup := by
  have positive := layout.inodeSize_pos
  have filled := layout.tableEnd_le inodeNum
  rw [blockOffset, tableOffset_eq exact]
  apply Nat.div_lt_of_lt_mul
  rw [Nat.mul_comm layout.blockSize]
  omega

/-- The inode size divides the block size and the offset in the table, so a slot is inside one
block. -/
theorem byteOffset_add_le (exact : NoOverflow layout.toFs inodeNum) :
    byteOffset layout.toFs inodeNum + layout.inodeSize ≤ layout.blockSize := by
  rcases layout.divides with ⟨perBlock, blockSize⟩
  have positive := layout.blockSize_pos
  have offset : byteOffset layout.toFs inodeNum =
      layout.inodeSize * (ext4InodeIndex layout.toFs inodeNum % perBlock) := by
    rw [byteOffset, tableOffset_eq exact, blockSize, Nat.mul_comm, Nat.mul_mod_mul_left]
  have inside : ext4InodeIndex layout.toFs inodeNum % perBlock < perBlock := by
    apply Nat.mod_lt
    exact Nat.pos_of_mul_pos_left (blockSize ▸ positive)
  rw [offset, blockSize, ← Nat.mul_succ]
  exact Nat.mul_le_mul_left _ inside

theorem sameGroup (exact : NoOverflow layout.toFs inodeNum)
    (otherExact : NoOverflow layout.toFs other)
    (sameBlock : readInodeBlock layout.toFs inodeNum = readInodeBlock layout.toFs other) :
    ext4InodeBlockGroup layout.toFs inodeNum = ext4InodeBlockGroup layout.toFs other ∧
      blockOffset layout.toFs inodeNum = blockOffset layout.toFs other := by
  have below := layout.blockOffset_lt exact
  have otherBelow := layout.blockOffset_lt otherExact
  rw [readInodeBlock_eq_add exact, readInodeBlock_eq_add otherExact] at sameBlock
  have positive : 0 < layout.blocksPerGroup := by omega
  have here := (Nat.div_mod_unique positive).mpr
    ⟨Nat.add_comm (blockOffset layout.toFs inodeNum)
      (layout.blocksPerGroup * ext4InodeBlockGroup layout.toFs inodeNum), below⟩
  have there := (Nat.div_mod_unique positive).mpr
    ⟨Nat.add_comm (blockOffset layout.toFs other)
      (layout.blocksPerGroup * ext4InodeBlockGroup layout.toFs other), otherBelow⟩
  rw [Nat.mul_comm layout.blocksPerGroup] at here there
  rw [show ext4InodeBlockGroup layout.toFs inodeNum * layout.blocksPerGroup +
      blockOffset layout.toFs inodeNum = ext4InodeBlockGroup layout.toFs other *
      layout.blocksPerGroup + blockOffset layout.toFs other by omega] at here
  exact ⟨here.1.symm.trans there.1, here.2.symm.trans there.2⟩

theorem byteOffset_add_le_of_lt (exact : NoOverflow layout.toFs inodeNum)
    (otherExact : NoOverflow layout.toFs other)
    (sameBlock : blockOffset layout.toFs inodeNum = blockOffset layout.toFs other)
    (before : ext4InodeIndex layout.toFs inodeNum < ext4InodeIndex layout.toFs other) :
    byteOffset layout.toFs inodeNum + layout.inodeSize ≤ byteOffset layout.toFs other := by
  have here := Nat.div_add_mod (tableOffset layout.toFs inodeNum) layout.blockSize
  have there := Nat.div_add_mod (tableOffset layout.toFs other) layout.blockSize
  have apart : tableOffset layout.toFs inodeNum + layout.inodeSize ≤
      tableOffset layout.toFs other := by
    rw [tableOffset_eq exact, tableOffset_eq otherExact, ← Nat.succ_mul]
    exact Nat.mul_le_mul_right _ before
  rw [blockOffset, blockOffset] at sameBlock
  rw [sameBlock] at here
  rw [byteOffset, byteOffset]
  omega

/-- Each inode lies inside one block, and the slots of different inodes are disjoint. -/
theorem inodeSlots_disjoint :
    (∀ inodeNum, 1 ≤ inodeNum → NoOverflow layout.toFs inodeNum →
      byteOffset layout.toFs inodeNum + layout.inodeSize ≤ layout.blockSize) ∧
    ∀ inodeNum other, 1 ≤ inodeNum → 1 ≤ other → inodeNum ≠ other →
      NoOverflow layout.toFs inodeNum → NoOverflow layout.toFs other →
        Disjoint (inodeSlot layout.toFs inodeNum) (inodeSlot layout.toFs other) := by
  refine ⟨fun _ _ exact => layout.byteOffset_add_le exact, ?_⟩
  intro inodeNum other numbered otherNumbered distinct exact otherExact
  rw [inodeSlot, inodeSlot, Set.disjoint_prod]
  by_cases sameBlock : readInodeBlock layout.toFs inodeNum = readInodeBlock layout.toFs other
  · right
    rcases layout.sameGroup exact otherExact sameBlock with ⟨sameGroup, sameOffset⟩
    have number := @inodeNum_eq layout.toFs inodeNum numbered
    have otherNumber := @inodeNum_eq layout.toFs other otherNumbered
    rw [sameGroup] at number
    rw [Set.Ico_disjoint_Ico]
    rcases Nat.lt_trichotomy (ext4InodeIndex layout.toFs inodeNum)
      (ext4InodeIndex layout.toFs other) with before | same | behind
    · have apart := layout.byteOffset_add_le_of_lt exact otherExact sameOffset before
      omega
    · omega
    · have apart := layout.byteOffset_add_le_of_lt otherExact exact sameOffset.symm behind
      omega
  · left
    rwa [Set.disjoint_singleton]

def installed : InodeLayout where
  deviceFd := 0
  blockSize := 4096
  inodeSize := 256
  inodesPerGroup := 8192
  blocksPerGroup := 32768
  divides := by decide
  holdsInode := by decide
  nonempty := by decide
  fits := by decide

/-- The last inode of the first group and the first inode of the second. -/
theorem inodeSlots_disjoint_installed :
    byteOffset installed.toFs 8192 + 256 ≤ 4096 ∧
      Disjoint (inodeSlot installed.toFs 8192) (inodeSlot installed.toFs 8193) :=
  ⟨installed.inodeSlots_disjoint.1 8192 (by decide) ⟨by decide, by decide⟩,
    installed.inodeSlots_disjoint.2 8192 8193 (by decide) (by decide) (by decide)
      ⟨by decide, by decide⟩ ⟨by decide, by decide⟩⟩

end InodeLayout

end RamOS.Ext4
