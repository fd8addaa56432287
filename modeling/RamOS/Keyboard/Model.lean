import RamOS.Lib.CString
import RamOS.Lib.RingBuffer
import RamOS.Lib.Word32

/-!
# Line input from the keyboard

The interrupt handler fills a ring of 256 cells, `keyboard_get_char` empties it,
`keyboard_read_line` edits a line in the kernel, and `readln` edits one in user space.

The machine carries the characters that key presses are still going to produce. A reader that
waits when none is left has no result.
-/

namespace RamOS.Keyboard

open ByteMemory CString

instance capacityNeZero : NeZero 256 := ⟨by decide⟩

/-- The state that the input path uses. -/
structure Machine where
  memory : Memory
  kbBuffer : RingBuffer UInt8 256
  incoming : Bytes
  console : Bytes

/-- The end of `keyboard_handler`: put a character into the ring, if there is one and there is
room. -/
def insertChar (kbBuffer : RingBuffer UInt8 256) (char : UInt8) : RingBuffer UInt8 256 :=
  if char ≠ 0 then kbBuffer.push char else kbBuffer

def keyboardHasChar (kbBuffer : RingBuffer UInt8 256) : Prop := kbBuffer.HasItem

instance : DecidablePred keyboardHasChar := fun kbBuffer =>
  inferInstanceAs (Decidable kbBuffer.HasItem)

def waitForChar : RingBuffer UInt8 256 → Bytes → Option (RingBuffer UInt8 256 × Bytes)
  | kbBuffer, [] => if keyboardHasChar kbBuffer then some (kbBuffer, []) else none
  | kbBuffer, char :: incoming =>
    if keyboardHasChar kbBuffer then some (kbBuffer, char :: incoming)
    else waitForChar (insertChar kbBuffer char) incoming

def keyboardGetChar (machine : Machine) : Option (UInt8 × Machine) :=
  (waitForChar machine.kbBuffer machine.incoming).map fun (kbBuffer, incoming) =>
    (kbBuffer.front, { machine with kbBuffer := kbBuffer.advance, incoming := incoming })

namespace Machine

def store (machine : Machine) (address : ℕ) (char : UInt8) : Machine :=
  { machine with memory := write8 machine.memory address char }

def print (machine : Machine) (text : Bytes) : Machine :=
  { machine with console := machine.console ++ text }

end Machine

def editChar (machine : Machine) (buffer pos : ℕ) (char : UInt8) : Machine × ℕ :=
  if char = '\x08'.toUInt8 then
    if 0 < pos then (machine.print (ascii "\x08 \x08"), pos - 1) else (machine, pos)
  else if 32 ≤ char ∧ char ≤ 126 then
    ((machine.store (buffer + pos) char).print [char], pos + 1)
  else if 128 ≤ char then
    ((machine.store (buffer + pos) char).print [char], pos + 1)
  else (machine, pos)

def readLineLoop (buffer limit : ℕ) : ℕ → Machine → ℕ → Option (Machine × ℕ)
  | 0, _, _ => none
  | fuel + 1, machine, pos =>
    if pos < limit then
      match keyboardGetChar machine with
      | none => none
      | some (char, machine) =>
        if char = '\n'.toUInt8 then some (machine.print (ascii "\n"), pos)
        else
          let edited := editChar machine buffer pos char
          readLineLoop buffer limit fuel edited.1 edited.2
    else some (machine, pos)

def keyboardReadLine (fuel : ℕ) (machine : Machine) (buffer maxLen : ℕ) : Option Machine :=
  (readLineLoop buffer (Word32.sub maxLen 1) fuel machine 0).map fun (machine, pos) =>
    machine.store (buffer + pos) 0

/-- What `vfs_read` does with a descriptor, a pointer and a count. -/
abbrev VfsRead := Machine → ℤ → ℕ → ℕ → Option (ℤ × Machine)

def sysRead (vfsRead : VfsRead) (fuel : ℕ) (machine : Machine) (fd : ℤ) (buf count : ℕ) :
    Option (ℤ × Machine) :=
  if fd = 0 then
    (keyboardReadLine fuel machine buf count).bind fun machine =>
      (strlen fuel machine.memory buf).map fun length => (length, machine)
  else vfsRead machine fd buf count

def readlnChar (machine : Machine) (buf pos : ℕ) (char : UInt8) : Machine × ℕ :=
  if char = '\x08'.toUInt8 then
    if 0 < pos then (machine.print (ascii "\x08 \x08"), pos - 1) else (machine, pos)
  else if 32 ≤ char ∧ char ≤ 126 then
    ((machine.store (buf + pos) char).print [char], pos + 1)
  else (machine, pos)

/-- The loop of `readln`, whose local variable `c` lives at the address `cell`. -/
def readlnLoop (vfsRead : VfsRead) (cell buf limit : ℕ) : ℕ → Machine → ℕ → Option (Machine × ℕ)
  | 0, _, _ => none
  | fuel + 1, machine, pos =>
    if pos < limit then
      match sysRead vfsRead fuel machine 0 cell 1 with
      | none => none
      | some (received, machine) =>
        if received ≤ 0 then some (machine, pos)
        else if machine.memory cell = '\n'.toUInt8 then some (machine, pos)
        else
          let edited := readlnChar machine buf pos (machine.memory cell)
          readlnLoop vfsRead cell buf limit fuel edited.1 edited.2
    else some (machine, pos)

def readln (vfsRead : VfsRead) (fuel : ℕ) (machine : Machine) (cell buf max : ℕ) :
    Option (ℕ × Machine) :=
  (readlnLoop vfsRead cell buf (Word32.sub max 1) fuel machine 0).map fun (machine, pos) =>
    (pos, (machine.store (buf + pos) 0).print (ascii "\n"))

end RamOS.Keyboard
