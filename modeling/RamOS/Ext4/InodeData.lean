import RamOS.Ext4.Allocation
import RamOS.Ext4.Blocks
import RamOS.Ext4.Inode

/-!
# The data of an inode

`ext4_read_inode_data` and `ext4_write_inode_data` work on one block of the first twelve. A read
of a block that is not there returns zeros for the whole request. A write takes a block for a
hole before it knows whether it can go through, and takes the count of a successful write for a
failure. Where the sum of place and size wraps, nothing is cut off: a read copies what lies behind
the buffer for the block, and a write overruns it. The argument `garbage` is what the buffer holds
before.
-/

namespace RamOS.Ext4

open Slice

variable {World : Type}

def blockBuffer (garbage : ℕ → UInt8) (stored : Bytes) (index : ℕ) : UInt8 :=
  stored.getD index (garbage index)

def toCopy (fs : Fs) (within size : ℕ) : ℕ :=
  if fs.blockSize < Word32.add within size then fs.blockSize - within else size

/-- `ext4_read_inode_data`; of the inode it uses the array `i_block`. -/
def ext4ReadInodeData (io : BlockIo World) (fs : Fs) (allocated : Bool) (garbage : ℕ → UInt8)
    (world : World) (iBlock : ℕ → ℕ) (offset size : ℕ) : ℤ × Bytes × World :=
  let blockNum := offset / fs.blockSize
  let within := offset % fs.blockSize
  if 12 ≤ blockNum then (-1, [], world)
  else
    let physicalBlock := iBlock blockNum
    if physicalBlock = 0 then (Word32.toInt size, List.replicate size 0, world)
    else if !allocated then (-1, [], world)
    else
      let (result, block, world) := io.readBlock world physicalBlock
      if result < 0 then (-1, [], world)
      else
        (Word32.toInt (toCopy fs within size),
          (List.range (toCopy fs within size)).map fun index =>
            blockBuffer garbage block (within + index),
          world)

/-- What `ext4_write_inode_data` leaves behind. The result of `ext4_write_block` is not part of
the code. -/
structure DataWrite (World : Type) where
  result : ℤ
  world : World
  counters : Counters
  iBlock : ℕ → ℕ
  blockWrite : Option ℤ

/-- The buffer after a copy that stays inside of it. -/
def changedBlock (fs : Fs) (garbage : ℕ → UInt8) (readResult : ℤ) (block : Bytes)
    (within size : ℕ) (buffer : ℕ → UInt8) : Bytes :=
  let block := if readResult < 0 then List.replicate fs.blockSize 0 else block
  (List.range fs.blockSize).map fun index =>
    if within ≤ index ∧ index < within + toCopy fs within size then buffer (index - within)
    else blockBuffer garbage block index

/-- From the buffer on. There is no outcome where the copy overruns the buffer. -/
def writeBack (io : BlockIo World) (fs : Fs) (allocated : Bool) (garbage : ℕ → UInt8)
    (world : World) (counters : Counters) (iBlock : ℕ → ℕ) (physicalBlock within size : ℕ)
    (buffer : ℕ → UInt8) : Option (DataWrite World) :=
  if !allocated then some ⟨-1, world, counters, iBlock, none⟩
  else
    let (readResult, block, world) := io.readBlock world physicalBlock
    if fs.blockSize < within + toCopy fs within size then none
    else
      let (result, world) := io.writeBlock world physicalBlock
        (changedBlock fs garbage readResult block within size buffer)
      some ⟨if result = 0 then Word32.toInt (toCopy fs within size) else -1, world, counters,
        iBlock, some result⟩

/-- There is no outcome either where the block size is zero, by which the code divides. -/
def ext4WriteInodeData (io : BlockIo World) (fs : Fs) (allocated : Bool) (garbage : ℕ → UInt8)
    (world : World) (counters : Counters) (iBlock : ℕ → ℕ) (offset size : ℕ)
    (buffer : ℕ → UInt8) : Option (DataWrite World) :=
  if fs.blockSize = 0 then none
  else
    let blockNum := offset / fs.blockSize
    let within := offset % fs.blockSize
    if 12 ≤ blockNum then some ⟨-1, world, counters, iBlock, none⟩
    else if iBlock blockNum = 0 then
      let (newBlock, counters) := ext4AllocBlock counters
      let iBlock := Function.update iBlock blockNum newBlock
      if newBlock = 0 then some ⟨-1, world, counters, iBlock, none⟩
      else writeBack io fs allocated garbage world counters iBlock newBlock within size buffer
    else
      writeBack io fs allocated garbage world counters iBlock (iBlock blockNum) within size buffer

structure BlockStore (blockSize : ℕ) where
  block : ℕ → Bytes
  length : ∀ blockNum, (block blockNum).length = blockSize

section Reading

variable {fs : Fs} (store : BlockStore fs.blockSize) (iBlock : ℕ → ℕ)

def logicalBlock (index : ℕ) : Bytes :=
  if iBlock index = 0 then List.replicate fs.blockSize 0 else store.block (iBlock index)

def logicalByte (position : ℕ) : Option UInt8 :=
  if position / fs.blockSize < 12 then
    (logicalBlock store iBlock (position / fs.blockSize))[position % fs.blockSize]?
  else none

/-- The returned number of bytes, at most those asked for, has been stored, and they are those of
the file. -/
structure ReadsContents (offset size : ℕ) (outcome : ℤ × Bytes × World) : Prop where
  bounded : outcome.1 ≤ size
  stored : (outcome.2.1.length : ℤ) = outcome.1
  same : ∀ index < outcome.2.1.length,
    logicalByte store iBlock (offset + index) = outcome.2.1[index]?

variable {store iBlock} {offset size index : ℕ}

theorem logicalByte_sameBlock (inside : offset % fs.blockSize + index < fs.blockSize) :
    logicalByte store iBlock (offset + index) =
      if offset / fs.blockSize < 12 then
        (logicalBlock store iBlock (offset / fs.blockSize))[offset % fs.blockSize + index]?
      else none := by
  have positive : 0 < fs.blockSize := by omega
  have split := Nat.div_add_mod offset fs.blockSize
  have shape : offset % fs.blockSize + index + fs.blockSize * (offset / fs.blockSize) =
      offset + index := by omega
  rcases (Nat.div_mod_unique positive).mpr ⟨shape, inside⟩ with ⟨block, place⟩
  rw [logicalByte, block, place]

theorem readsContents_zeros_iff (small : size < 2 ^ 31) (world : World) :
    ReadsContents store iBlock offset size
        (Word32.toInt size, List.replicate size 0, world) ↔
      ∀ index < size, logicalByte store iBlock (offset + index) = some 0 := by
  constructor
  · intro reads index below
    have same := reads.same index (by simpa using below)
    rwa [List.getElem?_replicate, if_pos below] at same
  · intro zeros
    have returned := Word32.toInt_eq small
    refine ⟨by omega, ?_, ?_⟩
    · rw [List.length_replicate, returned]
    · intro index below
      rw [List.length_replicate] at below
      rw [List.getElem?_replicate, if_pos below]
      exact zeros index below

theorem toCopy_of_fits (positive : 0 < fs.blockSize)
    (fits : offset % fs.blockSize + size < 2 ^ 32) :
    toCopy fs (offset % fs.blockSize) size = min size (fs.blockSize - offset % fs.blockSize) := by
  have within := Nat.mod_lt offset positive
  rw [toCopy, Word32.add_eq fits]
  split
  all_goals omega

theorem toCopy_of_wraps (positive : 0 < fs.blockSize) (word : size < 2 ^ 32)
    (wraps : 2 ^ 32 ≤ offset % fs.blockSize + size) (blockWord : fs.blockSize < 2 ^ 32) :
    toCopy fs (offset % fs.blockSize) size = size := by
  have within := Nat.mod_lt offset positive
  rw [toCopy, Word32.add, if_neg (by omega)]

theorem ext4ReadInodeData_of_block (garbage : ℕ → UInt8)
    (direct : offset / fs.blockSize < 12) (present : iBlock (offset / fs.blockSize) ≠ 0) :
    ext4ReadInodeData (idealBlocks fs) fs true garbage store.block iBlock offset size =
      (Word32.toInt (toCopy fs (offset % fs.blockSize) size),
        (List.range (toCopy fs (offset % fs.blockSize) size)).map fun index =>
          blockBuffer garbage (store.block (iBlock (offset / fs.blockSize)))
            (offset % fs.blockSize + index),
        store.block) := by
  have accepted : ¬ (fs.blockSize : ℤ) < 0 := by omega
  simp [ext4ReadInodeData, idealBlocks, Nat.not_le.mpr direct, present, accepted]

theorem readsContents_of_fits (positive : 0 < fs.blockSize) (garbage : ℕ → UInt8)
    (direct : offset / fs.blockSize < 12) (present : iBlock (offset / fs.blockSize) ≠ 0)
    (fits : offset % fs.blockSize + size < 2 ^ 32)
    (succeeded : 0 ≤ Word32.toInt (toCopy fs (offset % fs.blockSize) size)) :
    ReadsContents store iBlock offset size
      (ext4ReadInodeData (idealBlocks fs) fs true garbage store.block iBlock offset size) := by
  have cut := toCopy_of_fits positive fits
  have small : toCopy fs (offset % fs.blockSize) size < 2 ^ 31 :=
    (Word32.toInt_nonneg_iff (by omega)).mp succeeded
  rw [ext4ReadInodeData_of_block garbage direct present]
  refine ⟨?_, ?_, ?_⟩
  · dsimp only
    rw [Word32.toInt_eq small]
    omega
  · rw [List.length_map, List.length_range, Word32.toInt_eq small]
  · intro index below
    rw [List.length_map, List.length_range] at below
    have inside : offset % fs.blockSize + index < fs.blockSize := by omega
    have listed : offset % fs.blockSize + index <
        (store.block (iBlock (offset / fs.blockSize))).length := by rwa [store.length]
    rw [logicalByte_sameBlock inside, if_pos direct, logicalBlock, if_neg present,
      List.getElem?_map, List.getElem?_range below, Option.map_some, blockBuffer,
      List.getD_eq_getElem _ _ listed, List.getElem?_eq_getElem listed]

theorem not_readsContents_of_wraps (positive : 0 < fs.blockSize) (blockWord : fs.blockSize < 2 ^ 32)
    (word : size < 2 ^ 32) (direct : offset / fs.blockSize < 12)
    (present : iBlock (offset / fs.blockSize) ≠ 0)
    (wraps : 2 ^ 32 ≤ offset % fs.blockSize + size) :
    ∃ garbage, ¬ ReadsContents store iBlock offset size
      (ext4ReadInodeData (idealBlocks fs) fs true garbage store.block iBlock offset size) := by
  have within := Nat.mod_lt offset positive
  have uncut := toCopy_of_wraps positive word wraps blockWord
  -- the first byte behind the block is none of the file, or one that the heap need not hold
  have behind : fs.blockSize - offset % fs.blockSize < size := by omega
  let expected :=
    (logicalByte store iBlock (offset + (fs.blockSize - offset % fs.blockSize))).getD 0
  refine ⟨fun _ => expected + 1, fun reads => ?_⟩
  rw [ext4ReadInodeData_of_block _ direct present, uncut] at reads
  have same := reads.same (fs.blockSize - offset % fs.blockSize) (by simpa using behind)
  have outside : (store.block (iBlock (offset / fs.blockSize))).length ≤
      offset % fs.blockSize + (fs.blockSize - offset % fs.blockSize) := by
    rw [store.length]
    omega
  rw [List.getElem?_map, List.getElem?_range behind, Option.map_some, blockBuffer,
    List.getD_eq_default _ _ outside] at same
  have wrong : expected = expected + 1 := by
    conv_lhs => rw [show expected = Option.getD _ 0 from rfl, same, Option.getD_some]
  simp at wrong

/-- Over an ideal block store, a read returns the contents exactly if it returns a negative
number, or starts in a block that is there without a wrap, or starts in a hole and asks for zeros
of the file only. -/
theorem ext4ReadInodeData_contents_iff (positive : 0 < fs.blockSize)
    (blockWord : fs.blockSize < 2 ^ 32) (below : offset < 12 * fs.blockSize)
    (word : size < 2 ^ 32) :
    (∀ garbage,
      0 ≤ (ext4ReadInodeData (idealBlocks fs) fs true garbage store.block iBlock offset size).1 →
        ReadsContents store iBlock offset size
          (ext4ReadInodeData (idealBlocks fs) fs true garbage store.block iBlock offset size)) ↔
      (size < 2 ^ 31 →
        if iBlock (offset / fs.blockSize) = 0 then
          ∀ index < size, logicalByte store iBlock (offset + index) = some 0
        else offset % fs.blockSize + size < 2 ^ 32) := by
  have direct : offset / fs.blockSize < 12 := Nat.div_lt_of_lt_mul (by omega)
  by_cases hole : iBlock (offset / fs.blockSize) = 0
  · rw [if_pos hole]
    have zeros (garbage : ℕ → UInt8) :
        ext4ReadInodeData (idealBlocks fs) fs true garbage store.block iBlock offset size =
          (Word32.toInt size, List.replicate size 0, store.block) := by
      simp [ext4ReadInodeData, Nat.not_le.mpr direct, hole]
    constructor
    · intro reads small
      have contents := reads (fun _ => 0)
      rw [zeros, Word32.toInt_nonneg_iff word] at contents
      exact (readsContents_zeros_iff small _).mp (contents small)
    · intro contents garbage
      rw [zeros, Word32.toInt_nonneg_iff word]
      exact fun small => (readsContents_zeros_iff small _).mpr (contents small)
  · rw [if_neg hole]
    by_cases fits : offset % fs.blockSize + size < 2 ^ 32
    · refine iff_of_true (fun garbage succeeded => ?_) fun _ => fits
      rw [ext4ReadInodeData_of_block garbage direct hole] at succeeded
      exact readsContents_of_fits positive garbage direct hole fits succeeded
    · have uncut := @toCopy_of_wraps _ offset size positive word (by omega) blockWord
      constructor
      · intro reads small
        rcases not_readsContents_of_wraps positive blockWord word direct hole (by omega) with
          ⟨garbage, wrong⟩
        refine absurd (reads garbage ?_) wrong
        rw [ext4ReadInodeData_of_block garbage direct hole, uncut]
        exact (Word32.toInt_nonneg_iff word).mpr small
      · intro contents garbage succeeded
        rw [ext4ReadInodeData_of_block garbage direct hole, uncut,
          Word32.toInt_nonneg_iff word] at succeeded
        exact absurd (contents succeeded) fits

end Reading

def numberedBlocks : BlockStore smallFs.blockSize where
  block := fun blockNum => List.replicate 2 (UInt8.ofNat blockNum)
  length := fun _ => rfl

theorem ext4ReadInodeData_contents_small :
    (ext4ReadInodeData (idealBlocks smallFs) smallFs true (fun _ => 0) numberedBlocks.block
        (fun _ => 7) 3 5).1 = 1 ∧
      ReadsContents numberedBlocks (fun _ => 7) 3 5
        (ext4ReadInodeData (idealBlocks smallFs) smallFs true (fun _ => 0) numberedBlocks.block
          (fun _ => 7) 3 5) := by
  refine ⟨by decide, ?_⟩
  exact (ext4ReadInodeData_contents_iff (by decide) (by decide) (by decide) (by decide)).mpr
    (fun _ => by decide) (fun _ => 0) (by decide)

/-- Four bytes are asked for that start in a hole and go on into a block of sevens. -/
theorem hole_reads_into_next_block :
    (ext4ReadInodeData (idealBlocks smallFs) smallFs true (fun _ => 0) numberedBlocks.block
      (fun index => if index = 0 then 0 else 7) 0 4).1 = 4 ∧
    (ext4ReadInodeData (idealBlocks smallFs) smallFs true (fun _ => 0) numberedBlocks.block
      (fun index => if index = 0 then 0 else 7) 0 4).2.1 = [0, 0, 0, 0] ∧
    logicalByte numberedBlocks (fun index => if index = 0 then 0 else 7) 2 = some 7 := by
  decide

section Writing

structure AllOrNothing {Contents : Type} (contents : World → Contents) (world : World)
    (counters : Counters) (iBlock : ℕ → ℕ) (after : DataWrite World) : Prop where
  counted : 0 < after.result ↔ ∃ count, after.blockWrite = some count ∧ 0 < count
  unchanged : after.result = -1 →
    after.iBlock = iBlock ∧ after.counters.freeBlocksCount = counters.freeBlocksCount ∧
      contents after.world = contents world

variable {io : BlockIo World} {fs : Fs} {allocated : Bool} {garbage buffer : ℕ → UInt8}
  {world : World} {counters : Counters} {iBlock : ℕ → ℕ} {offset size physicalBlock within : ℕ}
  {Contents : Type} {contents : World → Contents}

theorem allOrNothing_of_unwritten {after : DataWrite World} (failed : after.result = -1)
    (notWritten : ∀ count, after.blockWrite = some count → ¬ 0 < count)
    (unchanged : after.iBlock = iBlock ∧
      after.counters.freeBlocksCount = counters.freeBlocksCount ∧
      contents after.world = contents world) :
    AllOrNothing contents world counters iBlock after := by
  refine ⟨iff_of_false (by omega) ?_, fun _ => unchanged⟩
  rintro ⟨count, written, positive⟩
  exact notWritten count written positive

theorem copy_inside_iff (positive : 0 < fs.blockSize) (blockWord : fs.blockSize < 2 ^ 32)
    (word : size < 2 ^ 32) :
    ¬ fs.blockSize < offset % fs.blockSize + toCopy fs (offset % fs.blockSize) size ↔
      offset % fs.blockSize + size < 2 ^ 32 := by
  have within := Nat.mod_lt offset positive
  constructor
  · intro inside
    by_contra wraps
    rw [toCopy_of_wraps positive word (by omega) blockWord] at inside
    omega
  · intro fits
    rw [toCopy_of_fits positive fits]
    omega

theorem writeBack_eq :
    writeBack io fs true garbage world counters iBlock physicalBlock within size buffer =
      let read := io.readBlock world physicalBlock
      let written := io.writeBlock read.2.2 physicalBlock
        (changedBlock fs garbage read.1 read.2.1 within size buffer)
      if fs.blockSize < within + toCopy fs within size then none
      else some ⟨if written.1 = 0 then Word32.toInt (toCopy fs within size) else -1, written.2,
        counters, iBlock, some written.1⟩ := rfl

section Outcomes

variable (outcomes : ∀ world blockNum data,
  (io.writeBlock world blockNum data).1 = -1 ∨ 0 < (io.writeBlock world blockNum data).1)

include outcomes

theorem writeBack_result {after : DataWrite World}
    (ran : writeBack io fs allocated garbage world counters iBlock physicalBlock within size
      buffer = some after) :
    after.result = -1 ∧ after.counters = counters := by
  cases allocated with
  | false =>
    cases ran
    exact ⟨rfl, rfl⟩
  | true =>
    rw [writeBack_eq] at ran
    dsimp only at ran
    split at ran
    · cases ran
    · cases ran
      refine ⟨if_neg ?_, rfl⟩
      have code := outcomes (io.readBlock world physicalBlock).2.2 physicalBlock
        (changedBlock fs garbage (io.readBlock world physicalBlock).1
          (io.readBlock world physicalBlock).2.1 within size buffer)
      omega

theorem not_allOrNothing_of_hole {after : DataWrite World}
    (direct : offset / fs.blockSize < 12) (hole : iBlock (offset / fs.blockSize) = 0)
    (free : 0 < counters.freeBlocksCount)
    (ran : ext4WriteInodeData io fs allocated garbage world counters iBlock offset size buffer =
      some after) :
    ¬ AllOrNothing contents world counters iBlock after := by
  have taken : after.result = -1 ∧
      after.counters.freeBlocksCount = counters.freeBlocksCount - 1 := by
    simp only [ext4WriteInodeData, if_neg (Nat.not_le.mpr direct), if_pos hole, ext4AllocBlock,
      if_pos free] at ran
    split_ifs at ran
    · cases ran
      exact ⟨rfl, rfl⟩
    · rcases writeBack_result outcomes ran with ⟨failed, same⟩
      exact ⟨failed, by rw [same]⟩
  intro allOrNothing
  have count := (allOrNothing.unchanged taken.1).2.1
  omega

/-- With a buffer for a block that is there, only a copy inside of the buffer whose block the
device refuses, with its contents as before, is all or nothing. -/
theorem writeBack_allOrNothing_iff (positive : 0 < fs.blockSize)
    (blockWord : fs.blockSize < 2 ^ 32) (word : size < 2 ^ 32) :
    (∃ after, writeBack io fs true garbage world counters iBlock physicalBlock
        (offset % fs.blockSize) size buffer = some after ∧
      AllOrNothing contents world counters iBlock after) ↔
      offset % fs.blockSize + size < 2 ^ 32 ∧
        let read := io.readBlock world physicalBlock
        let written := io.writeBlock read.2.2 physicalBlock
          (changedBlock fs garbage read.1 read.2.1 (offset % fs.blockSize) size buffer)
        written.1 = -1 ∧ contents written.2 = contents world := by
  rw [← copy_inside_iff positive blockWord word]
  constructor
  · rintro ⟨after, ran, allOrNothing⟩
    have failed := (writeBack_result outcomes ran).1
    rw [writeBack_eq] at ran
    dsimp only at ran
    split at ran
    · cases ran
    next inside =>
      cases ran
      refine ⟨inside, ?_, (allOrNothing.unchanged failed).2.2⟩
      refine (outcomes _ _ _).resolve_right fun written => ?_
      have counts := allOrNothing.counted.mpr ⟨_, rfl, written⟩
      omega
  · rintro ⟨inside, refused, same⟩
    rw [writeBack_eq]
    refine ⟨_, if_neg inside, allOrNothing_of_unwritten ?_ ?_ ⟨rfl, rfl, same⟩⟩
    · exact if_neg (by omega)
    · rintro count ⟨⟩
      omega

end Outcomes

/-- A call succeeds or does nothing exactly if it fails without a change: behind the direct
blocks, in a hole without free blocks, or in a block that is there, without a buffer or with a
copy that stays inside of it and a write that the device refuses. -/
theorem ext4WriteInodeData_allOrNothing_iff
    (outcomes : ∀ world blockNum data,
      (io.writeBlock world blockNum data).1 = -1 ∨ 0 < (io.writeBlock world blockNum data).1)
    (blockWord : fs.blockSize < 2 ^ 32) (word : size < 2 ^ 32) :
    (∃ after,
      ext4WriteInodeData io fs allocated garbage world counters iBlock offset size buffer =
        some after ∧ AllOrNothing contents world counters iBlock after) ↔
      fs.blockSize ≠ 0 ∧
        (12 ≤ offset / fs.blockSize ∨
          (iBlock (offset / fs.blockSize) = 0 ∧ counters.freeBlocksCount = 0) ∨
          (iBlock (offset / fs.blockSize) ≠ 0 ∧
            (allocated = false ∨ offset % fs.blockSize + size < 2 ^ 32 ∧
              let read := io.readBlock world (iBlock (offset / fs.blockSize))
              let written := io.writeBlock read.2.2 (iBlock (offset / fs.blockSize))
                (changedBlock fs garbage read.1 read.2.1 (offset % fs.blockSize) size buffer)
              written.1 = -1 ∧ contents written.2 = contents world))) := by
  by_cases zero : fs.blockSize = 0
  · simp [ext4WriteInodeData, zero]
  by_cases far : 12 ≤ offset / fs.blockSize
  · refine iff_of_true ?_ ⟨zero, .inl far⟩
    simp only [ext4WriteInodeData, if_neg zero, if_pos far]
    exact ⟨_, rfl, allOrNothing_of_unwritten rfl (fun count none => by cases none) ⟨rfl, rfl, rfl⟩⟩
  by_cases hole : iBlock (offset / fs.blockSize) = 0
  · by_cases free : 0 < counters.freeBlocksCount
    · refine iff_of_false ?_ ?_
      · rintro ⟨after, ran, allOrNothing⟩
        exact not_allOrNothing_of_hole outcomes (by omega) hole free ran allOrNothing
      · rintro ⟨-, isFar | ⟨-, full⟩ | ⟨present, -⟩⟩
        · exact far isFar
        · omega
        · exact present hole
    · refine iff_of_true ?_ ⟨zero, .inr (.inl ⟨hole, by omega⟩)⟩
      simp only [ext4WriteInodeData, if_neg zero, if_neg far, if_pos hole, ext4AllocBlock,
        if_neg free, if_true]
      refine ⟨_, rfl, allOrNothing_of_unwritten rfl (fun count none => by cases none)
        ⟨?_, rfl, rfl⟩⟩
      exact Function.update_eq_self_iff.mpr hole.symm
  · simp only [ext4WriteInodeData, if_neg zero, if_neg far, if_neg hole]
    simp only [ne_eq, zero, far, hole, not_false_eq_true, true_and, false_and, false_or]
    cases allocated with
    | false =>
      refine iff_of_true ⟨_, rfl, ?_⟩ (.inl rfl)
      exact allOrNothing_of_unwritten rfl (fun count none => by cases none) ⟨rfl, rfl, rfl⟩
    | true =>
      rw [writeBack_allOrNothing_iff outcomes (Nat.pos_of_ne_zero zero) blockWord word]
      exact ⟨Or.inr, fun either => either.resolve_left (by decide)⟩

/-- The device that refuses every block. -/
def refusingBlocks (fs : Fs) : BlockIo (ℕ → Bytes) :=
  { idealBlocks fs with writeBlock := fun world _ _ => (-1, world) }

/-- One byte for a block that is there, which is read, changed, and refused by the device. -/
theorem ext4WriteInodeData_allOrNothing_refused :
    ∃ after,
      ext4WriteInodeData (refusingBlocks smallFs) smallFs true (fun _ => 0) numberedBlocks.block
        ⟨500, 400, 1000⟩ (fun _ => 7) 0 1 (fun _ => 9) = some after ∧
      AllOrNothing id numberedBlocks.block ⟨500, 400, 1000⟩ (fun _ => 7) after :=
  (ext4WriteInodeData_allOrNothing_iff (fun _ _ _ => .inl rfl) (by decide) (by decide)).mpr
    ⟨by decide, .inr (.inr ⟨by decide, .inr ⟨by decide, rfl, rfl⟩⟩)⟩

/-- The block is written, and the call returns -1. -/
theorem written_block_counts_as_failed :
    ∃ after,
      ext4WriteInodeData (idealBlocks smallFs) smallFs true (fun _ => 0) numberedBlocks.block
        ⟨500, 400, 1000⟩ (fun _ => 7) 0 1 (fun _ => 9) = some after ∧
      after.result = -1 ∧ after.blockWrite = some 2 ∧ after.world 7 = [9, 7] :=
  ⟨_, rfl, by decide, by decide, by decide⟩

end Writing

end RamOS.Ext4
