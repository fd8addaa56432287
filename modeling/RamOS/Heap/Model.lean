import RamOS.Lib.Memory
import RamOS.Lib.Word32

/-!
# The kernel heap allocator

This file models `mm/heap.c`. The allocator keeps its whole state in the memory it hands out:
every block begins with a 16-byte `heap_block_t` header, and the headers form a list that starts
at `heap_start`.

The loops over the list take a fuel argument and return `none` when it runs out, so that a list
that never ends is visible in the result.
-/

namespace RamOS.Heap

open ByteMemory

def heapMagic : ℕ := 0xDEADBEEF

def headerSize : ℕ := 16

def heapSize : ℕ := 1024 * 1024

/-- The memory of the heap: not at the null address, and with an end that is a 32-bit address. -/
structure Region where
  start : ℕ
  start_pos : 0 < start
  fits : start + heapSize < 2 ^ 32

def magic (memory : Memory) (block : ℕ) : ℕ := read32 memory block

def size (memory : Memory) (block : ℕ) : ℕ := read32 memory (block + 4)

def isFree (memory : Memory) (block : ℕ) : UInt8 := memory (block + 8)

def next (memory : Memory) (block : ℕ) : ℕ := read32 memory (block + 12)

def setMagic (memory : Memory) (block value : ℕ) : Memory := write32 memory block value

def setSize (memory : Memory) (block value : ℕ) : Memory := write32 memory (block + 4) value

def setIsFree (memory : Memory) (block : ℕ) (value : UInt8) : Memory :=
  write8 memory (block + 8) value

def setNext (memory : Memory) (block value : ℕ) : Memory := write32 memory (block + 12) value

/-- The four stores that create a free block, in the order of the source. -/
def putFreeBlock (memory : Memory) (block blockSize following : ℕ) : Memory :=
  setNext (setIsFree (setSize (setMagic memory block heapMagic) block blockSize) block 1)
    block following

def heapInit (region : Region) (memory : Memory) : Memory :=
  putFreeBlock memory region.start (Word32.sub heapSize headerSize) 0

/-- Split the block when the rest is worth a block of its own, and mark it used. -/
def takeBlock (memory : Memory) (current request : ℕ) : Memory :=
  let memory :=
    if size memory current > Word32.add (Word32.add request headerSize) 16 then
      let newBlock := Word32.add (Word32.add current headerSize) request
      let rest := Word32.sub (Word32.sub (size memory current) request) headerSize
      let memory := putFreeBlock memory newBlock rest (next memory current)
      setNext (setSize memory current request) current newBlock
    else memory
  setIsFree memory current 0

def kmallocLoop (memory : Memory) (request : ℕ) : ℕ → ℕ → Option (Memory × ℕ)
  | 0, current => if current = 0 then some (memory, 0) else none
  | fuel + 1, current =>
    if current = 0 then some (memory, 0)
    else if magic memory current ≠ heapMagic then some (memory, 0)
    else if isFree memory current ≠ 0 ∧ size memory current ≥ request then
      some (takeBlock memory current request, Word32.add current headerSize)
    else kmallocLoop memory request fuel (next memory current)

/-- `kmalloc` on a heap that starts at `heapStart`; the null pointer is `0`. -/
def kmalloc (fuel heapStart : ℕ) (memory : Memory) (request : ℕ) : Option (Memory × ℕ) :=
  if request = 0 then some (memory, 0)
  else kmallocLoop memory (Word32.add request 3 &&& Word32.not 3) fuel heapStart

def kmallocAligned (fuel heapStart : ℕ) (memory : Memory) (request alignment : ℕ) :
    Option (Memory × ℕ) :=
  match kmalloc fuel heapStart memory (Word32.add request alignment) with
  | none => none
  | some (memory, pointer) =>
    if pointer = 0 then some (memory, 0)
    else
      some (memory, Word32.sub (Word32.add pointer alignment) 1 &&&
        Word32.not (Word32.sub alignment 1))

def kfree (memory : Memory) (pointer : ℕ) : Memory :=
  if pointer = 0 then memory
  else
    let block := Word32.sub pointer headerSize
    if magic memory block ≠ heapMagic then memory
    else
      let memory := setIsFree memory block 1
      if next memory block ≠ 0 ∧ isFree memory (next memory block) ≠ 0 then
        let memory := setSize memory block
          (Word32.add (size memory block)
            (Word32.add headerSize (size memory (next memory block))))
        setNext memory block (next memory (next memory block))
      else memory

def heapGetUsedLoop (memory : Memory) : ℕ → ℕ → ℕ → Option ℕ
  | 0, used, current => if current = 0 then some used else none
  | fuel + 1, used, current =>
    if current = 0 then some used
    else
      heapGetUsedLoop memory fuel
        (if isFree memory current = 0 then
          Word32.add used (Word32.add (size memory current) headerSize)
        else used)
        (next memory current)

def heapGetUsed (fuel heapStart : ℕ) (memory : Memory) : Option ℕ :=
  heapGetUsedLoop memory fuel 0 heapStart

def heapGetFreeLoop (memory : Memory) : ℕ → ℕ → ℕ → Option ℕ
  | 0, free, current => if current = 0 then some free else none
  | fuel + 1, free, current =>
    if current = 0 then some free
    else
      heapGetFreeLoop memory fuel
        (if isFree memory current ≠ 0 then Word32.add free (size memory current) else free)
        (next memory current)

def heapGetFree (fuel heapStart : ℕ) (memory : Memory) : Option ℕ :=
  heapGetFreeLoop memory fuel 0 heapStart

/-- The addresses met from `current` along the `next` pointers up to the null pointer. -/
def blockList (memory : Memory) : ℕ → ℕ → Option (List ℕ)
  | 0, current => if current = 0 then some [] else none
  | fuel + 1, current =>
    if current = 0 then some []
    else (blockList memory fuel (next memory current)).map (current :: ·)

end RamOS.Heap
