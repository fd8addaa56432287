import Mathlib.Data.List.Basic
import RamOS.Lib.Word32
import RamOS.Lib.Memory

/-!
# The process table

This file models `proc/process.c` and the system calls that reach it. Process structures live at
the addresses that `kmalloc` gave them. What the allocators, the loader and the timer answer is
a parameter of each call: `none` or the null address `0` where they fail. Console output and the
descriptors closed by `process_exit` are left out.
-/

namespace RamOS.Proc

open Word32 (toInt)

inductive ProcessState
  | ready
  | running
  | blocked
  | zombie
  | dead
  deriving DecidableEq, Repr

/-- `process_t`. The words behind `fd_table` are its `descriptors`. -/
structure Process where
  pid : ℕ
  parentPid : ℕ
  state : ProcessState
  pageDirectory : ℕ
  esp : ℕ
  ebp : ℕ
  eip : ℕ
  name : Bytes
  cwd : Bytes
  exitCode : ℤ
  startTime : ℕ
  fdTable : ℕ
  descriptors : List ℕ

/-- The static variables of `process.c`, and the process structures in memory. -/
structure Table where
  record : ℕ → Process
  processList : List ℕ
  currentProcess : Option ℕ
  nextPid : ℕ

def maxFdPerProcess : ℕ := 32

def userStackTop : ℕ := 0xC0000000

structure Allocation where
  process : ℕ
  fdTable : ℕ
deriving DecidableEq

def Table.modify (table : Table) (address : ℕ) (change : Process → Process) : Table :=
  { table with
    record := Function.update table.record address (change (table.record address)) }

def clearedProcess (fdTable : ℕ) : Process :=
  { pid := 0, parentPid := 0, state := .ready, pageDirectory := 0, esp := 0, ebp := 0, eip := 0
    name := [], cwd := [], exitCode := 0, startTime := 0, fdTable := fdTable
    descriptors := List.replicate maxFdPerProcess 0 }

def allocProcess (table : Table) : Option Allocation → Option ℕ × Table
  | none => (none, table)
  | some allocation =>
    (some allocation.process,
      table.modify allocation.process fun _ => clearedProcess allocation.fdTable)

def currentPid (table : Table) : ℕ :=
  match table.currentProcess with
  | some current => (table.record current).pid
  | none => 0

def processCreate (table : Table) (name : Bytes) (allocation : Option Allocation)
    (directory ticks : ℕ) : Option ℕ × Table :=
  match allocProcess table allocation with
  | (none, table) => (none, table)
  | (some process, table) =>
    let created := table.modify process fun record =>
      { record with
        pid := table.nextPid, parentPid := currentPid table, state := .ready
        pageDirectory := directory, esp := 0, ebp := 0, eip := 0, name := name.take 64
        cwd := [0x2F], exitCode := 0, startTime := ticks }
    (some process,
      { created with
        nextPid := Word32.add table.nextPid 1
        processList := process :: table.processList })

def processInit (record : ℕ → Process) (allocation : Allocation)
    (directory kernelDirectory ticks : ℕ) : Table :=
  let empty : Table := { record, processList := [], currentProcess := none, nextPid := 1 }
  let name : Bytes := [0x6B, 0x65, 0x72, 0x6E, 0x65, 0x6C]
  match processCreate empty name (some allocation) directory ticks with
  | (none, table) => table
  | (some kernel, table) =>
    { table.modify kernel fun record =>
        { record with pid := 0, state := .running, pageDirectory := kernelDirectory } with
      currentProcess := some kernel }

/-- Null where the parent has no directory, and otherwise what the allocations allow. -/
def clonedDirectory (source : Process) (clone : ℕ) : ℕ :=
  if source.pageDirectory = 0 then 0 else clone

/-- `process_fork`. A child without a directory is freed; its pid is not given back. -/
def processFork (table : Table) (parent : ℕ) (allocation : Option Allocation)
    (clone ticks : ℕ) : Option ℕ × Table :=
  match allocProcess table allocation with
  | (none, table) => (none, table)
  | (some child, table) =>
    let source := table.record parent
    let directory := clonedDirectory source clone
    let numbered :=
      { table.modify child fun record =>
          { record with
            pid := table.nextPid, parentPid := source.pid, state := .ready
            name := source.name.take 64, cwd := source.cwd, startTime := ticks
            exitCode := 0, pageDirectory := directory } with
        nextPid := Word32.add table.nextPid 1 }
    if directory = 0 then (none, numbered)
    else
      let copied := numbered.modify child fun record =>
        { record with
          esp := source.esp, ebp := source.ebp, eip := source.eip
          descriptors :=
            if source.fdTable = 0 then record.descriptors else source.descriptors }
      (some child, { copied with processList := child :: table.processList })

/-- The stack pointer that `process_exec` leaves below the arguments. -/
def pushArguments (argv : List Bytes) : ℕ :=
  let strings := argv.foldr (fun text stack => Word32.sub stack (text.length + 1)) userStackTop
  let aligned := strings &&& Word32.not 0xF
  let pointers := (argv.foldr (fun _ stack => Word32.sub stack 4) (Word32.sub aligned 4))
  Word32.sub (Word32.sub pointers 4) 4

/-- `process_exec`; `entry` is what `elf_load` returns. -/
def processExec (table : Table) (process entry : ℕ) (argv : Option (List Bytes)) :
    ℤ × Table :=
  if entry = 0 then (-1, table)
  else
    let stack :=
      match argv with
      | some arguments => pushArguments arguments
      | none => userStackTop
    (0, table.modify process fun record =>
      { record with eip := entry, esp := stack, ebp := stack, state := .ready })

def processGetByPid (table : Table) (pid : ℕ) : Option ℕ :=
  table.processList.find? fun address => (table.record address).pid = pid

def reparent (table : Table) (pid : ℕ) : Table :=
  table.processList.foldl
    (fun table address =>
      if (table.record address).parentPid = pid then
        table.modify address fun record => { record with parentPid := 1 }
      else table)
    table

def wakeParent (table : Table) (parentPid : ℕ) : Table :=
  if parentPid = 0 then table
  else
    match processGetByPid table parentPid with
    | none => table
    | some parent =>
      if (table.record parent).state = .blocked then
        table.modify parent fun record => { record with state := .ready }
      else table

def processExit (table : Table) (process : ℕ) : Table :=
  let exited := table.modify process fun record => { record with state := .zombie }
  let woken := wakeParent exited (exited.record process).parentPid
  let orphaned := reparent woken (woken.record process).pid
  if orphaned.currentProcess = some process then { orphaned with currentProcess := none }
  else orphaned

def zombieChild (table : Table) (pid address : ℕ) : Bool :=
  (table.record address).parentPid = pid ∧ (table.record address).state = .zombie

/-- `process_wait`: the result, the status if one is stored, and the table. -/
def processWait (table : Table) (process : ℕ) : ℤ × Option ℤ × Table :=
  let pid := (table.record process).pid
  match table.processList.find? (zombieChild table pid) with
  | some child =>
    (toInt (table.record child).pid, some (table.record child).exitCode,
      { table with processList := table.processList.eraseP (zombieChild table pid) })
  | none =>
    if table.processList.any fun address => (table.record address).parentPid = pid then
      (0, none, table.modify process fun record => { record with state := .blocked })
    else (-1, none, table)

def processSwitch (table : Table) (next : ℕ) : Table :=
  let saved :=
    match table.currentProcess with
    | some previous =>
      if previous ≠ next ∧ (table.record previous).state = ProcessState.running then
        table.modify previous fun record => { record with state := .ready }
      else table
    | none => table
  { saved.modify next fun record => { record with state := .running } with
    currentProcess := some next }

def processKill (table : Table) (pid : ℕ) (signal : ℤ) : ℤ × Table :=
  match processGetByPid table pid with
  | none => (-1, table)
  | some process =>
    (0, processExit (table.modify process fun record => { record with exitCode := signal })
      process)

def sysExit (table : Table) (code : ℤ) : ℤ × Table :=
  match table.currentProcess with
  | none => (0, table)
  | some current =>
    (0, processExit (table.modify current fun record => { record with exitCode := code }) current)

def sysFork (table : Table) (allocation : Option Allocation) (clone ticks : ℕ) : ℤ × Table :=
  match table.currentProcess with
  | none => (-1, table)
  | some current =>
    match processFork table current allocation clone ticks with
    | (none, table) => (-1, table)
    | (some child, table) => (toInt (table.record child).pid, table)

def sysExec (table : Table) (entry : ℕ) (argv : Option (List Bytes)) : ℤ × Table :=
  match table.currentProcess with
  | none => (-1, table)
  | some current => processExec table current entry argv

def sysWait (table : Table) : ℤ × Option ℤ × Table :=
  match table.currentProcess with
  | none => (-1, none, table)
  | some current => processWait table current

def sysKill (table : Table) (pid : ℕ) (signal : ℤ) : ℤ × Table :=
  if pid = 0 then (-1, table)
  else
    match processGetByPid table pid with
    | none => (-1, table)
    | some _ => processKill table pid signal

end RamOS.Proc
