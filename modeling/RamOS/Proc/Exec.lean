import RamOS.Proc.Fork

/-!
# Executing on the machine

`process_exec` loads a program, gives it two pages of stack and notes the addresses of its
arguments in a block of the heap that it frees again. The stack pages are mapped with
`vmm_map_page`, in whatever directory is current.

A flag says whether every allocation of a page or of a page table has succeeded, since
`process_exec` goes on after a failure.
-/

namespace RamOS.Proc

open ByteMemory
open Vmm (pagePresent pageSize pageUser pageWrite)

def userStackSize : ℕ := 8192

def servesTable (state : Vmm.State) (address : ℕ) : Bool :=
  state.currentPageDirectory = 0 ||
    (Vmm.vmmGetPage state address true state.currentPageDirectory).1 ≠ 0

def mapStackPage (region : Heap.Region) (address : ℕ) : Vmm.State × Bool → Vmm.State × Bool
  | (state, succeeded) =>
    match kmallocAligned region state 4096 4096 with
    | (page, state) =>
      if page = 0 then (state, false)
      else
        let mapped :=
          Vmm.vmmMapPage state address page (pagePresent ||| pageWrite ||| pageUser)
        ({ mapped with memory := fill mapped.memory page 0 4096 },
          succeeded && servesTable state address)

def mapStack (region : Heap.Region) (run : Vmm.State × Bool) : Vmm.State × Bool :=
  Nat.fold (userStackSize / pageSize)
    (fun index _ run =>
      mapStackPage region (userStackTop - userStackSize + pageSize * index) run) run

/-- The loop over the strings, from the last one on, with the stores to `arg_ptrs`. -/
def pushStrings (pointers : ℕ) : ℕ → List Bytes → Memory → Memory × ℕ
  | _, [], memory => (memory, userStackTop)
  | index, text :: rest, memory =>
    match pushStrings pointers (index + 1) rest memory with
    | (memory, stack) =>
      let stack := Word32.sub stack (text.length + 1)
      (write32 memory (pointers + 4 * index) stack, stack)

/-- The part of `process_exec` for an argument vector. A block that was refused is used all the
same, at the null address. -/
def storeArguments (region : Heap.Region) (state : Vmm.State) (arguments : List Bytes) :
    Vmm.State :=
  match kmalloc region state (4 * (arguments.length + 1) % 2 ^ 32) with
  | (pointers, state) =>
    kfree { state with memory := (pushStrings pointers 0 arguments state.memory).1 } pointers

/-- What `process_exec` leaves behind. -/
structure Executed where
  result : ℤ
  state : Vmm.State
  table : Table
  succeeded : Bool

/-- `process_exec` on the machine, with the entry point that `elf_load` returns and the memory that
it leaves; the process table changes as `processExec` says. -/
def execOnMachine (region : Heap.Region) (state : Vmm.State) (table : Table)
    (process entry : ℕ) (loaded : Memory) (argv : Option (List Bytes)) : Executed :=
  match processExec table process entry argv with
  | (result, table) =>
    if entry = 0 then ⟨result, { state with memory := loaded }, table, true⟩
    else
      match mapStack region ({ state with memory := loaded }, true) with
      | (state, succeeded) =>
        match argv with
        | none => ⟨result, state, table, succeeded⟩
        | some arguments => ⟨result, storeArguments region state arguments, table, succeeded⟩

end RamOS.Proc
