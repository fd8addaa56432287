import RamOS.Heap.Model
import RamOS.Proc.Model
import RamOS.Vmm.Model

/-!
# Forking on the machine

`process_fork` takes the child's structure from the heap and its page directory from the frame
allocator, and copies page tables and pages into heap memory.

The runs carry a flag that says whether every allocation so far has succeeded, since
`clone_page_directory_deep` itself goes on after a failure.
-/

namespace RamOS.Proc

open ByteMemory
open Vmm (physicalAddress pagePresent pageSize)

def searchFuel : ℕ := 65536

def kmalloc (region : Heap.Region) (state : Vmm.State) (request : ℕ) : ℕ × Vmm.State :=
  match Heap.kmalloc searchFuel region.start state.memory request with
  | some (memory, pointer) => (pointer, { state with memory := memory })
  | none => (0, state)

def kmallocAligned (region : Heap.Region) (state : Vmm.State) (request alignment : ℕ) :
    ℕ × Vmm.State :=
  match Heap.kmallocAligned searchFuel region.start state.memory request alignment with
  | some (memory, pointer) => (pointer, { state with memory := memory })
  | none => (0, state)

def kfree (state : Vmm.State) (pointer : ℕ) : Vmm.State :=
  { state with memory := Heap.kfree state.memory pointer }

def processSize : ℕ := 368

def allocBlocks (region : Heap.Region) (state : Vmm.State) : Option Allocation × Vmm.State :=
  match kmalloc region state processSize with
  | (process, state) =>
    if process = 0 then (none, state)
    else
      let cleared := { state with memory := fill state.memory process 0 processSize }
      match kmalloc region cleared (4 * maxFdPerProcess) with
      | (fdTable, state) =>
        if fdTable = 0 then (none, kfree state process)
        else
          (some ⟨process, fdTable⟩,
            { state with memory := fill state.memory fdTable 0 (4 * maxFdPerProcess) })

def clonePage (region : Heap.Region) (sourceTable newTable index : ℕ) :
    Vmm.State × Bool → Vmm.State × Bool
  | (state, succeeded) =>
    let entry := read32 state.memory (sourceTable + 4 * index)
    if entry &&& pagePresent = 0 then
      ({ state with memory := write32 state.memory (newTable + 4 * index) 0 }, succeeded)
    else
      match kmallocAligned region state 4096 4096 with
      | (page, state) =>
        if page = 0 then
          ({ state with memory := write32 state.memory (newTable + 4 * index) 0 }, false)
        else
          let copied := copy state.memory page (physicalAddress entry) 4096
          ({ state with
            memory := write32 copied (newTable + 4 * index)
              ((page &&& Word32.not 0xFFF) ||| (entry &&& 0xFFF)) }, succeeded)

def clonePages (region : Heap.Region) (sourceTable newTable : ℕ) (run : Vmm.State × Bool) :
    Vmm.State × Bool :=
  Nat.fold 1024 (fun index _ run => clonePage region sourceTable newTable index run) run

def cloneTable (region : Heap.Region) (source directory slot : ℕ) :
    Vmm.State × Bool → Vmm.State × Bool
  | (state, succeeded) =>
    let entry := read32 state.memory (source + 4 * slot)
    if entry &&& pagePresent = 0 then
      ({ state with memory := write32 state.memory (directory + 4 * slot) 0 }, succeeded)
    else
      match kmallocAligned region state 4096 4096 with
      | (table, state) =>
        if table = 0 then (state, false)
        else
          let pages := clonePages region (physicalAddress entry) table (state, succeeded)
          ({ pages.1 with
            memory := write32 pages.1.memory (directory + 4 * slot)
              ((table &&& Word32.not 0xFFF) ||| (entry &&& 0xFFF)) }, pages.2)

def cloneTables (region : Heap.Region) (source directory : ℕ) (run : Vmm.State × Bool) :
    Vmm.State × Bool :=
  Nat.fold 768 (fun index _ run => cloneTable region source directory (256 + index) run) run

/-- `clone_page_directory_deep`: slots below 256 are shared, the others are copied. -/
def clonePageDirectoryDeep (region : Heap.Region) (state : Vmm.State) (source : ℕ) :
    ℕ × Vmm.State × Bool :=
  if source = 0 then (0, state, false)
  else
    match Vmm.vmmCreatePageDirectory state with
    | (directory, state) =>
      if directory = 0 then (0, state, false)
      else
        let shared := { state with memory := copyWords state.memory directory source 256 }
        (directory, cloneTables region source directory (shared, true))

/-- What a fork leaves behind. -/
structure Forked where
  child : Option ℕ
  state : Vmm.State
  table : Table
  succeeded : Bool

/-- `process_fork` on the machine; the process table changes as `processFork` says. -/
def forkOnMachine (region : Heap.Region) (state : Vmm.State) (table : Table)
    (parent ticks : ℕ) : Forked :=
  match allocBlocks region state with
  | (none, state) =>
    match processFork table parent none 0 ticks with
    | (child, table) => ⟨child, state, table, false⟩
  | (some blocks, state) =>
    match clonePageDirectoryDeep region state (table.record parent).pageDirectory with
    | (directory, state, succeeded) =>
      match processFork table parent (some blocks) directory ticks with
      | (none, table) => ⟨none, kfree (kfree state blocks.fdTable) blocks.process, table, false⟩
      | (some child, table) => ⟨some child, state, table, succeeded⟩

end RamOS.Proc
