import RamOS.Lib.Bitmap
import RamOS.Lib.Memory

/-!
# The virtual memory manager

This file models `mm/vmm.c`: the frame allocator with its bitmap of 32768 frames,
and the two-level page tables, which live in physical memory. A page directory is
the address of its frame, and the null pointer is `0`.

The functions here reach the tables by their physical addresses, as the processor
does before the last step of `vmm_init` turns paging on. What is stated of them for
later calls (`Vmm.Runs`, `Vmm.FrameOwners`, the clones under `Proc`) is about tables
and frames that are mapped to themselves. `Vmm.Paged` has the accesses that go
through the page tables, and says when they are the same.
-/

namespace RamOS.Vmm

open ByteMemory

def pageSize : ℕ := 4096

def maxFrames : ℕ := 32768

def pagePresent : ℕ := 0x1

def pageWrite : ℕ := 0x2

def pageUser : ℕ := 0x4

def pageDirectoryIndex (address : ℕ) : ℕ := address >>> 22

def pageTableIndex (address : ℕ) : ℕ := (address >>> 12) &&& 0x3FF

def physicalAddress (entry : ℕ) : ℕ := entry &&& Word32.not 0xFFF

structure State where
  memory : Memory
  frameBitmap : ℕ → ℕ
  nextFreeFrame : ℕ
  currentPageDirectory : ℕ
  kernelPageDirectory : ℕ

def frameUsed (state : State) (frame : ℕ) : Bool := Bitmap.test state.frameBitmap frame

def markFrame (state : State) (frame : ℕ) : State :=
  { state with frameBitmap := Bitmap.set state.frameBitmap frame }

def allocFrameLoop (state : State) : ℕ → ℕ → ℕ × State
  | 0, _ => (0, state)
  | remaining + 1, i =>
    let frame := (state.nextFreeFrame + i) % maxFrames
    if state.frameBitmap (frame / 32) &&& 1 <<< (frame % 32) = 0 then
      (frame * pageSize,
        { markFrame state frame with nextFreeFrame := (frame + 1) % maxFrames })
    else allocFrameLoop state remaining (i + 1)

def allocFrame (state : State) : ℕ × State := allocFrameLoop state maxFrames 0

def freeFrame (state : State) (address : ℕ) : State :=
  let frame := address / pageSize
  if frame ≥ maxFrames then state
  else { state with frameBitmap := Bitmap.clear state.frameBitmap frame }

def vmmGetPage (state : State) (virtual : ℕ) (create : Bool) (directory : ℕ) : ℕ × State :=
  if directory = 0 then (0, state)
  else
    let slot := directory + 4 * pageDirectoryIndex virtual
    let offset := 4 * pageTableIndex virtual
    if read32 state.memory slot &&& pagePresent = 0 then
      if create = false then (0, state)
      else
        match allocFrame state with
        | (table, state) =>
          if table = 0 then (0, state)
          else
            let cleared := fillWords state.memory table 0 1024
            let memory := write32 cleared slot (table ||| pagePresent ||| pageWrite)
            (physicalAddress (read32 memory slot) + offset, { state with memory := memory })
    else (physicalAddress (read32 state.memory slot) + offset, state)

def vmmMapPage (state : State) (virtual physical flags : ℕ) : State :=
  match vmmGetPage state virtual true state.currentPageDirectory with
  | (page, state) =>
    if page = 0 then state
    else
      { state with
        memory := write32 state.memory page
          ((physical &&& Word32.not 0xFFF) ||| (flags &&& 0xFFF) ||| pagePresent) }

def vmmUnmapPage (state : State) (virtual : ℕ) : State :=
  match vmmGetPage state virtual false state.currentPageDirectory with
  | (page, state) =>
    if page = 0 then state
    else
      let physical := physicalAddress (read32 state.memory page)
      let state := if physical = 0 then state else freeFrame state physical
      { state with memory := write32 state.memory page 0 }

def vmmGetPhysical (state : State) (virtual : ℕ) : ℕ :=
  match vmmGetPage state virtual false state.currentPageDirectory with
  | (page, state) =>
    if page = 0 ∨ read32 state.memory page &&& pagePresent = 0 then 0
    else physicalAddress (read32 state.memory page) ||| (virtual &&& 0xFFF)

def vmmCreatePageDirectory (state : State) : ℕ × State :=
  match allocFrame state with
  | (directory, state) =>
    if directory = 0 then (0, state)
    else
      let cleared := fillWords state.memory directory 0 1024
      let memory :=
        if state.kernelPageDirectory = 0 then cleared
        else copyWords cleared directory state.kernelPageDirectory 512
      (directory, { state with memory := memory })

def vmmClonePage (sourceTable newTable index : ℕ) (state : State) : State :=
  if read32 state.memory (sourceTable + 4 * index) &&& pagePresent = 0 then
    { state with memory := write32 state.memory (newTable + 4 * index) 0 }
  else
    match allocFrame state with
    | (frame, state) =>
      if frame = 0 then
        { state with memory := write32 state.memory (newTable + 4 * index) 0 }
      else
        let page := physicalAddress (read32 state.memory (sourceTable + 4 * index))
        let copied := copyWords state.memory frame page 1024
        { state with
          memory := write32 copied (newTable + 4 * index)
            (frame ||| (read32 copied (sourceTable + 4 * index) &&& 0xFFF)) }

def vmmClonePages (sourceTable newTable : ℕ) (state : State) : State :=
  Nat.fold 1024 (fun index _ state => vmmClonePage sourceTable newTable index state) state

def vmmCloneTable (source directory slot : ℕ) (state : State) : State :=
  if read32 state.memory (source + 4 * slot) &&& pagePresent = 0 then state
  else
    let sourceTable := physicalAddress (read32 state.memory (source + 4 * slot))
    match allocFrame state with
    | (table, state) =>
      if table = 0 then state
      else
        let pages := vmmClonePages sourceTable table state
        { pages with
          memory := write32 pages.memory (directory + 4 * slot)
            (table ||| (read32 pages.memory (source + 4 * slot) &&& 0xFFF)) }

def vmmCloneTables (source directory : ℕ) (state : State) : State :=
  Nat.fold 512 (fun index _ state => vmmCloneTable source directory (512 + index) state) state

def vmmClonePageDirectory (state : State) (source : ℕ) : ℕ × State :=
  if source = 0 then (0, state)
  else
    match vmmCreatePageDirectory state with
    | (directory, state) =>
      if directory = 0 then (0, state)
      else (directory, vmmCloneTables source directory state)

/-- The state in which `vmm_init` asks for its first frame: the first 4 MB are marked. -/
def initialFrames (state : State) : State :=
  let cleared := { state with frameBitmap := fun _ => 0 }
  let marked := Nat.fold (0x400000 / pageSize) (fun frame _ state => markFrame state frame) cleared
  { marked with nextFreeFrame := 0x400000 / pageSize }

/-- The last step of `vmm_init`, which turns paging on, changes how later calls reach the tables
and not the state. -/
def vmmInit (state : State) : State :=
  match allocFrame (initialFrames state) with
  | (directory, state) =>
    if directory = 0 then state
    else
      let prepared :=
        { state with
          memory := fillWords state.memory directory 0 1024
          kernelPageDirectory := directory
          currentPageDirectory := directory }
      Nat.fold (0x800000 / pageSize)
        (fun page _ state =>
          vmmMapPage state (page * pageSize) (page * pageSize) (pagePresent ||| pageWrite))
        prepared

end RamOS.Vmm
