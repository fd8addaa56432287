import RamOS.Ext4.Model

/-!
# Reading an inode back

Over an ideal block store, whose blocks hold what was last written to them, the
two functions on inodes agree on the byte offset and disagree on the block: the
inode is read from the block behind the one that it was written to. What is read
back is therefore what had been in that other block before.
-/

namespace RamOS.Ext4

open Slice

def idealBlocks (fs : Fs) : BlockIo (ℕ → Bytes) where
  readBlock := fun store blockNum => (fs.blockSize, store blockNum, store)
  writeBlock := fun store blockNum buffer =>
    (fs.blockSize, Function.update store blockNum buffer)

theorem readInodeBlock_eq (fs : Fs) (inodeNum : ℕ) :
    readInodeBlock fs inodeNum = Word32.add (writeInodeBlock fs inodeNum) 1 := by
  simp only [readInodeBlock, writeInodeBlock, Word32.add]
  omega

theorem readInodeBlock_ne (fs : Fs) (inodeNum : ℕ) :
    readInodeBlock fs inodeNum ≠ writeInodeBlock fs inodeNum := by
  simp only [readInodeBlock, writeInodeBlock, Word32.add]
  omega

theorem ext4ReadInode_after_write (fs : Fs) (store : ℕ → Bytes) {inodeNum : ℕ}
    (numbered : 1 ≤ inodeNum) (inode : Bytes) :
    (ext4ReadInode (idealBlocks fs) fs true
        (ext4WriteInode (idealBlocks fs) fs true store inodeNum inode).2 inodeNum).1 =
      some (slice (store (readInodeBlock fs inodeNum)) (byteOffset fs inodeNum) inodeBytes) := by
  have nonzero : inodeNum ≠ 0 := by omega
  have accepted : ¬ (fs.blockSize : ℤ) < 0 := by omega
  have other := readInodeBlock_ne fs inodeNum
  simp [ext4ReadInode, ext4WriteInode, idealBlocks, nonzero, accepted, other]

/-- A read after a write returns the inode exactly when the block behind the written one held it
before; the two never address the same block. -/
theorem inode_read_after_write_iff {fs : Fs} {store : ℕ → Bytes} {inodeNum : ℕ}
    (numbered : 1 ≤ inodeNum) (inode : Bytes) :
    ((ext4ReadInode (idealBlocks fs) fs true
        (ext4WriteInode (idealBlocks fs) fs true store inodeNum inode).2 inodeNum).1 =
          some inode ↔
      slice (store (Word32.add (writeInodeBlock fs inodeNum) 1)) (byteOffset fs inodeNum)
        inodeBytes = inode) ∧
    readInodeBlock fs inodeNum ≠ writeInodeBlock fs inodeNum := by
  rw [ext4ReadInode_after_write fs store numbered, Option.some.injEq, readInodeBlock_eq]
  exact ⟨Iff.rfl, by rw [← readInodeBlock_eq]; exact readInodeBlock_ne fs inodeNum⟩

def testFs : Fs where
  deviceFd := 0
  blockSize := 4096
  inodeSize := 256
  inodesPerGroup := 8192
  blocksPerGroup := 32768

theorem inode_read_after_write_iff_root :
    ((ext4ReadInode (idealBlocks testFs) testFs true
        (ext4WriteInode (idealBlocks testFs) testFs true (fun _ => List.replicate 4096 0) 2
          (List.replicate 96 1)).2 2).1 = some (List.replicate 96 1) ↔
      slice (List.replicate 4096 (0 : UInt8)) (byteOffset testFs 2) inodeBytes =
        List.replicate 96 1) ∧
    readInodeBlock testFs 2 ≠ writeInodeBlock testFs 2 :=
  @inode_read_after_write_iff testFs (fun _ => List.replicate 4096 0) 2 (by decide) _

/-- On a store of zeros, the root inode is not read back. -/
theorem rootInode_not_read_back :
    (ext4ReadInode (idealBlocks testFs) testFs true
        (ext4WriteInode (idealBlocks testFs) testFs true (fun _ => List.replicate 4096 0) 2
          (List.replicate 96 1)).2 2).1 ≠ some (List.replicate 96 1) := by
  rw [ext4ReadInode_after_write _ _ (by decide)]
  intro same
  have zeros : (0 : UInt8) ∈ slice (List.replicate 4096 0) (byteOffset testFs 2) inodeBytes := by
    have offset : byteOffset testFs 2 = 256 := by decide
    rw [slice, offset, List.drop_replicate, List.take_replicate, List.mem_replicate]
    exact ⟨by decide, rfl⟩
  rw [Option.some.inj same, List.mem_replicate] at zeros
  exact absurd zeros.2 (by decide)

end RamOS.Ext4
