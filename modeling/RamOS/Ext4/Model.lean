import RamOS.Lib.Slice
import RamOS.Lib.Word32
import RamOS.Lib.Memory

/-!
# Blocks and inodes of the EXT4 driver

A block is the list of its bytes, and so is an inode, whose 96 bytes are copied as they are. The
functions on inodes are written over the two block operations, and these over the two device
operations; what is below is a parameter. Sizes and block numbers are 32-bit words and their
sums and products wrap.
-/

namespace RamOS.Ext4

open Slice

structure Fs where
  deviceFd : ℤ
  blockSize : ℕ
  inodeSize : ℕ
  inodesPerGroup : ℕ
  blocksPerGroup : ℕ

/-- `dev_read` with the bytes it has stored, and `dev_write`. -/
structure Device (World : Type) where
  devRead : World → ℤ → ℕ → ℤ × Bytes × World
  devWrite : World → ℤ → Bytes → ℤ × World

structure BlockIo (World : Type) where
  readBlock : World → ℕ → ℤ × Bytes × World
  writeBlock : World → ℕ → Bytes → ℤ × World

variable {World : Type}

/-- `ext4_read_block`: the byte offset of the block is computed and not used. -/
def ext4ReadBlock (device : Device World) (fs : Fs) (world : World) (blockNum : ℕ) :
    ℤ × Bytes × World :=
  let _offset := blockNum * fs.blockSize % 2 ^ 32
  if 0 ≤ fs.deviceFd then device.devRead world fs.deviceFd fs.blockSize else (-1, [], world)

/-- `ext4_write_block`: the byte offset of the block is computed and not used. -/
def ext4WriteBlock (device : Device World) (fs : Fs) (world : World) (blockNum : ℕ)
    (buffer : Bytes) : ℤ × World :=
  let _offset := blockNum * fs.blockSize % 2 ^ 32
  if 0 ≤ fs.deviceFd then device.devWrite world fs.deviceFd (buffer.take fs.blockSize)
  else (-1, world)

def inodeBytes : ℕ := 96

def ext4InodeBlockGroup (fs : Fs) (inodeNum : ℕ) : ℕ := (inodeNum - 1) / fs.inodesPerGroup

def ext4InodeIndex (fs : Fs) (inodeNum : ℕ) : ℕ := (inodeNum - 1) % fs.inodesPerGroup

def tableOffset (fs : Fs) (inodeNum : ℕ) : ℕ :=
  ext4InodeIndex fs inodeNum * fs.inodeSize % 2 ^ 32

def byteOffset (fs : Fs) (inodeNum : ℕ) : ℕ := tableOffset fs inodeNum % fs.blockSize

def blockOffset (fs : Fs) (inodeNum : ℕ) : ℕ := tableOffset fs inodeNum / fs.blockSize

def groupBlock (fs : Fs) (inodeNum : ℕ) : ℕ :=
  ext4InodeBlockGroup fs inodeNum * fs.blocksPerGroup % 2 ^ 32

def readInodeBlock (fs : Fs) (inodeNum : ℕ) : ℕ :=
  let blocksPerDescTable := 1
  let inodeTableBlock := Word32.add (2 + blocksPerDescTable) (groupBlock fs inodeNum)
  let inodeTableBlock := Word32.add inodeTableBlock 3
  Word32.add inodeTableBlock (blockOffset fs inodeNum)

def writeInodeBlock (fs : Fs) (inodeNum : ℕ) : ℕ :=
  let inodeTableBlock := Word32.add 5 (groupBlock fs inodeNum)
  Word32.add inodeTableBlock (blockOffset fs inodeNum)

/-- `ext4_read_inode`, unless it returns -1; `allocated` says whether `kmalloc` finds room. -/
def ext4ReadInode (io : BlockIo World) (fs : Fs) (allocated : Bool) (world : World)
    (inodeNum : ℕ) : Option Bytes × World :=
  if inodeNum = 0 then (none, world)
  else if !allocated then (none, world)
  else
    let (result, block, world) := io.readBlock world (readInodeBlock fs inodeNum)
    if result < 0 then (none, world)
    else (some (slice block (byteOffset fs inodeNum) inodeBytes), world)

def ext4WriteInode (io : BlockIo World) (fs : Fs) (allocated : Bool) (world : World)
    (inodeNum : ℕ) (inode : Bytes) : ℤ × World :=
  if inodeNum = 0 then (-1, world)
  else if !allocated then (-1, world)
  else
    let (result, block, world) := io.readBlock world (writeInodeBlock fs inodeNum)
    if result < 0 then (-1, world)
    else
      io.writeBlock world (writeInodeBlock fs inodeNum)
        (splice block (byteOffset fs inodeNum) inode)

end RamOS.Ext4
