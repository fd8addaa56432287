import Mathlib.Data.List.Infix
import RamOS.Keyboard.Model

/-!
# Kernel and user-space line input

A reader sees the ring and the key presses to come as one stream. `keyboard_read_line` stores
the edited line. `readln` asks the kernel for one character at a time, and the kernel answers
each such request as one for a line that has room for its terminator only: nothing is read, and
`readln` returns at once with the empty line.
-/

namespace RamOS.Keyboard

open ByteMemory CString

def Machine.pending (machine : Machine) : Bytes :=
  machine.kbBuffer.contents ++ machine.incoming.filter (· ≠ 0)

theorem waitForChar_pending {kbBuffer : RingBuffer UInt8 256} {incoming rest : Bytes}
    {char : UInt8}
    (waiting : kbBuffer.contents ++ incoming.filter (· ≠ 0) = char :: rest) :
    ∃ filled later, waitForChar kbBuffer incoming = some (filled, later) ∧
      filled.front = char ∧ filled.advance.contents ++ later.filter (· ≠ 0) = rest := by
  induction incoming generalizing kbBuffer with
  | nil =>
    by_cases hasChar : keyboardHasChar kbBuffer
    · rw [RingBuffer.contents_eq_cons hasChar, List.cons_append, List.cons.injEq] at waiting
      exact ⟨kbBuffer, [], by simp [waitForChar, hasChar], waiting⟩
    · simp [RingBuffer.contents_eq_nil hasChar] at waiting
  | cons first incoming ih =>
    by_cases hasChar : keyboardHasChar kbBuffer
    · rw [RingBuffer.contents_eq_cons hasChar, List.cons_append, List.cons.injEq] at waiting
      exact ⟨kbBuffer, first :: incoming, by simp [waitForChar, hasChar], waiting⟩
    · have empty := RingBuffer.contents_eq_nil hasChar
      have stream : (insertChar kbBuffer first).contents ++ incoming.filter (· ≠ 0) =
          char :: rest := by
        by_cases none : first = 0
        · simpa [insertChar, none] using waiting
        · have room : ¬ kbBuffer.Full := by
            rw [keyboardHasChar, RingBuffer.HasItem, not_not] at hasChar
            rw [RingBuffer.Full, hasChar]
            simp
          simpa [insertChar, none, RingBuffer.contents_push room, empty] using waiting
      rw [waitForChar, if_neg hasChar]
      exact ih stream

theorem keyboardGetChar_pending {machine : Machine} {char : UInt8} {rest : Bytes}
    (waiting : machine.pending = char :: rest) :
    ∃ next, keyboardGetChar machine = some (char, next) ∧ next.pending = rest ∧
      next.memory = machine.memory := by
  rcases waitForChar_pending waiting with ⟨filled, later, waited, front, remaining⟩
  refine ⟨{ machine with kbBuffer := filled.advance, incoming := later }, ?_, remaining, rfl⟩
  simp [keyboardGetChar, waited, front]

def editStep (line : Bytes) (char : UInt8) : Bytes :=
  if char = '\x08'.toUInt8 then line.dropLast
  else if (32 ≤ char ∧ char ≤ 126) ∨ 128 ≤ char then line ++ [char]
  else line

def edit (typed : Bytes) : Bytes := typed.foldl editStep []

def Stores (memory : Memory) (address : ℕ) (text : Bytes) : Prop :=
  load memory address (text ++ [0]).length = text ++ [0]

theorem editChar_spec {machine : Machine} {buffer : ℕ} {line : Bytes} (char : UInt8)
    (held : load machine.memory buffer line.length = line) :
    ∃ edited,
      editChar machine buffer line.length char = (edited, (editStep line char).length) ∧
      load edited.memory buffer (editStep line char).length = editStep line char ∧
      edited.pending = machine.pending := by
  have appended : load (write8 machine.memory (buffer + line.length) char) buffer
      (line ++ [char]).length = line ++ [char] := by
    rw [List.length_append, List.length_singleton, load_write8_append, held]
  by_cases backspace : char = '\x08'.toUInt8
  · have shorter : load machine.memory buffer line.dropLast.length = line.dropLast := by
      rw [List.length_dropLast, ← take_load (Nat.sub_le line.length 1), held,
        List.dropLast_eq_take]
    rw [editStep, if_pos backspace]
    cases line with
    | nil => exact ⟨machine, by simp [editChar, backspace], shorter, rfl⟩
    | cons first line =>
      exact ⟨machine.print (ascii "\x08 \x08"), by simp [editChar, backspace], shorter, rfl⟩
  · by_cases kept : (32 ≤ char ∧ char ≤ 126) ∨ 128 ≤ char
    · rw [editStep, if_neg backspace, if_pos kept]
      refine ⟨(machine.store (buffer + line.length) char).print [char], ?_, appended, rfl⟩
      rw [editChar, if_neg backspace, List.length_append, List.length_singleton]
      rcases kept with printable | extended
      · rw [if_pos printable]
      · rw [if_pos extended, ite_self]
    · rw [editStep, if_neg backspace, if_neg kept]
      rw [not_or] at kept
      exact ⟨machine, by rw [editChar, if_neg backspace, if_neg kept.1, if_neg kept.2], held, rfl⟩

theorem readLineLoop_typed {buffer limit fuel : ℕ} {typed rest line : Bytes}
    {machine : Machine} (waiting : machine.pending = typed ++ '\n'.toUInt8 :: rest)
    (noNewline : '\n'.toUInt8 ∉ typed) (held : load machine.memory buffer line.length = line)
    (fits : ∀ start, start <+: typed → (start.foldl editStep line).length < limit)
    (enough : typed.length < fuel) :
    ∃ after,
      readLineLoop buffer limit fuel machine line.length =
        some (after, (typed.foldl editStep line).length) ∧
      load after.memory buffer (typed.foldl editStep line).length = typed.foldl editStep line := by
  induction typed generalizing machine line fuel with
  | nil =>
    rcases fuel with _ | fuel
    · omega
    rcases keyboardGetChar_pending waiting with ⟨next, got, -, sameMemory⟩
    have below : line.length < limit := fits [] List.nil_prefix
    refine ⟨next.print (ascii "\n"), ?_, ?_⟩
    · rw [readLineLoop, if_pos below, got]
      simp
    · simpa [Machine.print, sameMemory] using held
  | cons char typed ih =>
    rcases fuel with _ | fuel
    · omega
    rcases keyboardGetChar_pending waiting with ⟨next, got, remaining, sameMemory⟩
    rw [List.mem_cons, not_or] at noNewline
    have below : line.length < limit := fits [] List.nil_prefix
    rw [← sameMemory] at held
    rcases editChar_spec char held with ⟨edited, edits, editedHeld, samePending⟩
    rcases @ih fuel (editStep line char) edited (samePending.trans remaining) noNewline.2
      editedHeld
      (fun start isPrefix => fits (char :: start) (List.cons_prefix_cons.mpr ⟨rfl, isPrefix⟩))
      (by simpa using enough) with ⟨after, runs, stored⟩
    refine ⟨after, ?_, stored⟩
    rw [readLineLoop, if_pos below, got]
    dsimp only
    rw [if_neg (Ne.symm noNewline.1), edits, runs, List.foldl_cons]

theorem keyboardReadLine_typed {fuel buffer maxLen : ℕ} {typed rest : Bytes}
    {machine : Machine} (waiting : machine.pending = typed ++ '\n'.toUInt8 :: rest)
    (noNewline : '\n'.toUInt8 ∉ typed)
    (fits : ∀ start, start <+: typed → (edit start).length < Word32.sub maxLen 1)
    (enough : typed.length < fuel) :
    ∃ after, keyboardReadLine fuel machine buffer maxLen = some after ∧
      Stores after.memory buffer (edit typed) := by
  rcases @readLineLoop_typed buffer _ fuel typed rest [] machine waiting noNewline rfl fits enough
    with ⟨after, runs, stored⟩
  refine ⟨after.store (buffer + (edit typed).length) 0, ?_, ?_⟩
  · rw [List.length_nil] at runs
    rw [keyboardReadLine, runs, Option.map_some, edit]
  · rw [Stores, List.length_append, List.length_singleton]
    exact (load_write8_append _ _ _ _).trans (congrArg (· ++ [0]) stored)

theorem sysRead_one_char (vfsRead : VfsRead) (fuel : ℕ) (machine : Machine) (cell : ℕ) :
    sysRead vfsRead (fuel + 1) machine 0 cell 1 = some (0, machine.store cell 0) := by
  have noRoom : Word32.sub 1 1 = 0 := by decide
  simp [sysRead, keyboardReadLine, noRoom, readLineLoop, strlen, Machine.store]

theorem readln_eq {vfsRead : VfsRead} {fuel cell buf max : ℕ} {machine : Machine}
    (room : 0 < Word32.sub max 1) :
    readln vfsRead (fuel + 2) machine cell buf max =
      some (0, ((machine.store cell 0).store buf 0).print (ascii "\n")) := by
  simp [readln, readlnLoop, room, sysRead_one_char]

theorem stores_empty_iff {memory : Memory} {address : ℕ} {text : Bytes}
    (ended : memory address = 0) (noZero : 0 ∉ text) : Stores memory address text ↔ text = [] := by
  cases text with
  | nil => simp [Stores, load, ended]
  | cons first text =>
    simp only [List.mem_cons, not_or] at noZero
    simp [Stores, load, ended, noZero.1]

theorem zero_notMem_edit {typed : Bytes} (noZero : 0 ∉ typed) : 0 ∉ edit typed := by
  have step (line typed : Bytes) (lineNoZero : 0 ∉ line) (noZero : 0 ∉ typed) :
      0 ∉ typed.foldl editStep line := by
    induction typed generalizing line with
    | nil => exact lineNoZero
    | cons char typed ih =>
      rw [List.mem_cons, not_or] at noZero
      refine ih _ ?_ noZero.2
      rw [editStep]
      split
      · exact fun zero => lineNoZero (List.dropLast_subset _ zero)
      split
      · simp [lineNoZero, noZero.1]
      · exact lineNoZero
  exact step [] typed (by simp) noZero

/-- For printable characters and backspaces up to a newline that keep the line below `max - 1`
characters, both calls return, the kernel stores the edited line, and `readln` returns it exactly
when it is empty. -/
theorem readln_agrees_iff {vfsRead : VfsRead} {fuel cell buf max : ℕ} {typed rest : Bytes}
    {machine : Machine} (waiting : machine.pending = typed ++ '\n'.toUInt8 :: rest)
    (typable : ∀ char ∈ typed, (32 ≤ char ∧ char ≤ 126) ∨ char = '\x08'.toUInt8)
    (atLeast : 2 ≤ max) (word : max < 2 ^ 32)
    (fits : ∀ start, start <+: typed → (edit start).length ≤ max - 2)
    (enough : typed.length + 2 ≤ fuel) :
    ∃ user kernel returned,
      readln vfsRead fuel machine cell buf max = some (returned, user) ∧
      keyboardReadLine fuel machine buf max = some kernel ∧
      Stores kernel.memory buf (edit typed) ∧
      ((Stores user.memory buf (edit typed) ∧ returned = (edit typed).length) ↔
        edit typed = []) := by
  have limit : Word32.sub max 1 = max - 1 := Word32.sub_eq (by omega) word
  have noNewline : '\n'.toUInt8 ∉ typed := by
    intro newline
    exact absurd (typable _ newline) (by decide)
  have noZero : 0 ∉ typed := by
    intro zero
    exact absurd (typable _ zero) (by decide)
  rcases @keyboardReadLine_typed fuel buf max typed rest machine waiting noNewline
    (fun start isPrefix => by have := fits start isPrefix; omega) (by omega) with
    ⟨kernel, reads, stored⟩
  rcases Nat.exists_eq_add_of_le' (by omega : 2 ≤ fuel) with ⟨spare, rfl⟩
  refine ⟨_, kernel, 0, readln_eq (by omega), reads, stored, ?_⟩
  have ended : (((machine.store cell 0).store buf 0).print (ascii "\n")).memory buf = 0 := by
    simp [Machine.print, Machine.store]
  rw [stores_empty_iff ended (zero_notMem_edit noZero)]
  constructor
  · exact fun agrees => agrees.1
  · intro empty
    exact ⟨empty, by rw [empty]; rfl⟩

def typingMachine : Machine where
  memory := fun _ => 0
  kbBuffer := { cells := fun _ => 0, readPos := 0, writePos := 0 }
  incoming := ascii "hi\n"
  console := []

theorem typingMachine_pending :
    typingMachine.pending = ascii "hi" ++ '\n'.toUInt8 :: [] := by decide

theorem typable_hi : ∀ char ∈ ascii "hi", (32 ≤ char ∧ char ≤ 126) ∨ char = '\x08'.toUInt8 := by
  have letters : ascii "hi" = [104, 105] := by decide
  rw [letters]
  intro char isLetter
  rcases List.mem_pair.mp isLetter with rfl | rfl
  · exact Or.inl ⟨by decide, by decide⟩
  · exact Or.inl ⟨by decide, by decide⟩

theorem edit_prefix_hi : ∀ start, start <+: ascii "hi" → (edit start).length ≤ 14 := by
  intro start isPrefix
  have bounded : ∀ start ∈ (ascii "hi").inits, (edit start).length ≤ 14 := by decide
  exact bounded start ((List.mem_inits start _).mpr isPrefix)

theorem readln_agrees_iff_hi :
    ∃ user kernel returned,
      readln (fun _ _ _ _ => none) 10 typingMachine 0x2000 0x1000 16 = some (returned, user) ∧
      keyboardReadLine 10 typingMachine 0x1000 16 = some kernel ∧
      Stores kernel.memory 0x1000 (edit (ascii "hi")) ∧
      ((Stores user.memory 0x1000 (edit (ascii "hi")) ∧ returned = (edit (ascii "hi")).length) ↔
        edit (ascii "hi") = []) :=
  readln_agrees_iff typingMachine_pending typable_hi (by decide) (by decide) edit_prefix_hi
    (by decide)

/-- Typing `hi`: the kernel's line is `hi`, and `readln` returns the empty line. -/
theorem readln_loses_hi :
    ∃ user kernel,
      readln (fun _ _ _ _ => none) 10 typingMachine 0x2000 0x1000 16 = some (0, user) ∧
      keyboardReadLine 10 typingMachine 0x1000 16 = some kernel ∧
      Stores kernel.memory 0x1000 (ascii "hi") ∧ ¬ Stores user.memory 0x1000 (ascii "hi") := by
  have limit : Word32.sub 16 1 = 15 := by decide
  rcases @keyboardReadLine_typed 10 0x1000 16 _ [] _ typingMachine_pending (by decide)
    (fun start isPrefix => by have := edit_prefix_hi start isPrefix; omega) (by decide) with
    ⟨kernel, reads, stored⟩
  refine ⟨_, kernel, @readln_eq _ 8 _ _ _ _ (by omega), reads, stored, ?_⟩
  rw [stores_empty_iff (by simp [Machine.print, Machine.store]) (by decide)]
  decide

end RamOS.Keyboard
