import RamOS.Keyboard.LineInput
import RamOS.Lib.ShortestPrefix

/-!
# `keyboard_read_line` as a line editor

The reader stops on a newline, or when the edited line has reached its limit. It
has then taken the shortest prefix of the stream that does one of the two, it
has stored the line which that prefix edits, and the rest of the stream is still
to be read. A stream without such a prefix leaves it waiting.
-/

namespace RamOS.Keyboard

open ByteMemory CString ShortestPrefix

/-- The typed text ends in a newline, or fills a line that was `line` before. -/
def StopsFrom (limit : ℕ) (line typed : Bytes) : Prop :=
  typed.getLast? = some '\n'.toUInt8 ∨ (typed.foldl editStep line).length = limit

/-- What has been typed since the start ends in a newline, or edits a line of the largest
length. -/
def Stops (limit : ℕ) (typed : Bytes) : Prop := StopsFrom limit [] typed

theorem stopsFrom_nil {limit : ℕ} {line : Bytes} :
    StopsFrom limit line [] ↔ line.length = limit := by
  simp [StopsFrom]

theorem stopsFrom_newline (limit : ℕ) (line : Bytes) :
    StopsFrom limit line ['\n'.toUInt8] := Or.inl rfl

theorem stopsFrom_cons {limit : ℕ} {line : Bytes} {char : UInt8}
    (noNewline : char ≠ '\n'.toUInt8) :
    (fun typed => StopsFrom limit line (char :: typed)) = StopsFrom limit (editStep line char) := by
  funext typed
  cases typed with
  | nil => simp [StopsFrom, noNewline]
  | cons next typed => simp [StopsFrom]

theorem length_editStep_le (line : Bytes) (char : UInt8) :
    (editStep line char).length ≤ line.length + 1 := by
  rw [editStep]
  split
  · simp
    omega
  split
  · simp
  · simp

theorem editStep_newline (line : Bytes) : editStep line '\n'.toUInt8 = line := by
  rw [editStep, if_neg (by decide), if_neg (by decide)]

theorem waitForChar_eq_none {kbBuffer : RingBuffer UInt8 256} {incoming : Bytes}
    (silent : kbBuffer.contents ++ incoming.filter (· ≠ 0) = []) :
    waitForChar kbBuffer incoming = none := by
  induction incoming generalizing kbBuffer with
  | nil =>
    have nothing : ¬ keyboardHasChar kbBuffer := by
      intro hasChar
      simp [RingBuffer.contents_eq_cons hasChar] at silent
    rw [waitForChar, if_neg nothing]
  | cons first incoming ih =>
    have nothing : ¬ keyboardHasChar kbBuffer := by
      intro hasChar
      simp [RingBuffer.contents_eq_cons hasChar] at silent
    rw [List.append_eq_nil_iff, List.filter_cons] at silent
    have noChar : first = 0 := by
      by_contra isChar
      simp [isChar] at silent
    rw [waitForChar, if_neg nothing]
    apply ih
    simpa [insertChar, noChar] using silent

theorem keyboardGetChar_eq_none {machine : Machine} (silent : machine.pending = []) :
    keyboardGetChar machine = none := by
  rw [keyboardGetChar, waitForChar_eq_none silent, Option.map_none]

theorem editChar_eqOn (machine : Machine) (buffer pos : ℕ) (char : UInt8) :
    Set.EqOn (editChar machine buffer pos char).1.memory machine.memory {buffer + pos}ᶜ := by
  intro address outside
  have stored : (machine.store (buffer + pos) char).memory address = machine.memory address :=
    write8_apply_of_ne outside
  rw [editChar]
  split
  · split <;> rfl
  split
  · exact stored
  split
  · exact stored
  · rfl

/-- The loop takes the shortest stopping prefix, edits the line with it and
stores below its limit only. -/
theorem readLineLoop_reads {buffer limit fuel : ℕ} {line taken rest : Bytes}
    {machine : Machine} (reads : Reads (StopsFrom limit line) machine.pending taken rest)
    (held : load machine.memory buffer line.length = line) (below : line.length ≤ limit)
    (enough : taken.length < fuel) :
    ∃ after,
      readLineLoop buffer limit fuel machine line.length =
        some (after, (taken.foldl editStep line).length) ∧
      load after.memory buffer (taken.foldl editStep line).length = taken.foldl editStep line ∧
      (taken.foldl editStep line).length ≤ limit ∧
      Set.EqOn after.memory machine.memory (range buffer limit)ᶜ ∧ after.pending = rest := by
  induction taken generalizing machine line fuel with
  | nil =>
    rcases fuel with _ | fuel
    · omega
    have full := stopsFrom_nil.mp reads.stops
    refine ⟨machine, ?_, held, below, Set.eqOn_refl _ _, reads.split⟩
    rw [readLineLoop, if_neg (by omega), List.foldl_nil]
  | cons char taken ih =>
    rcases fuel with _ | fuel
    · omega
    have continues : ¬ StopsFrom limit line [] :=
      reads.shortest [] List.nil_prefix (List.cons_ne_nil _ _).symm
    have room : line.length < limit := by
      rw [stopsFrom_nil] at continues
      omega
    have stream : machine.pending = char :: (taken ++ rest) := reads.split
    rcases keyboardGetChar_pending stream with ⟨next, got, remaining, sameMemory⟩
    rw [stream, reads_cons_iff continues] at reads
    rcases reads with ⟨later, same, reads⟩
    rw [List.cons.injEq] at same
    rcases same with ⟨-, rfl⟩
    rw [readLineLoop, if_pos room, got]
    by_cases newline : char = '\n'.toUInt8
    · subst newline
      rcases (reads_iff_of_stops (stopsFrom_newline limit line)).mp reads with ⟨rfl, -⟩
      refine ⟨next.print (ascii "\n"), ?_, ?_⟩
      · simp [editStep_newline]
      · simp only [List.foldl_cons, List.foldl_nil, editStep_newline, Machine.print, sameMemory]
        exact ⟨held, below, Set.eqOn_refl _ _, remaining⟩
    · rw [stopsFrom_cons newline] at reads
      rw [← sameMemory] at held
      rcases editChar_spec char held with ⟨edited, edits, editedHeld, samePending⟩
      rw [← remaining, ← samePending] at reads
      have stillBelow := (length_editStep_le line char).trans room
      rcases @ih fuel (editStep line char) edited reads editedHeld stillBelow
        (by simpa using enough) with ⟨after, runs, stored, fits, unchanged, unread⟩
      refine ⟨after, ?_, stored, fits, ?_, unread⟩
      · dsimp only
        rw [if_neg newline, edits, runs, List.foldl_cons]
      · intro address outside
        have elsewhere : address ≠ buffer + line.length := by
          rintro rfl
          exact outside (mem_range.mpr ⟨by omega, by omega⟩)
        have step := editChar_eqOn next buffer line.length char elsewhere
        rw [edits] at step
        rw [unchanged outside, step, sameMemory]

/-- Without a stopping prefix the loop waits for ever. -/
theorem readLineLoop_waits {buffer limit : ℕ} {line : Bytes} {machine : Machine}
    (never : ∀ taken rest, ¬ Reads (StopsFrom limit line) machine.pending taken rest)
    (held : load machine.memory buffer line.length = line) (below : line.length ≤ limit)
    (fuel : ℕ) : readLineLoop buffer limit fuel machine line.length = none := by
  induction fuel generalizing machine line with
  | zero => rfl
  | succ fuel ih =>
    have continues : ¬ StopsFrom limit line [] := by
      intro stops
      exact never [] _ ((reads_iff_of_stops stops).mpr ⟨rfl, rfl⟩)
    have room : line.length < limit := by
      rw [stopsFrom_nil] at continues
      omega
    rw [readLineLoop, if_pos room]
    cases stream : machine.pending with
    | nil => rw [keyboardGetChar_eq_none stream]
    | cons char rest =>
      rcases keyboardGetChar_pending stream with ⟨next, got, remaining, sameMemory⟩
      have later : ∀ taken after,
          ¬ Reads (fun typed => StopsFrom limit line (char :: typed)) rest taken after := by
        intro taken after reads
        apply never (char :: taken) after
        rw [stream]
        exact (reads_cons_iff continues).mpr ⟨taken, rfl, reads⟩
      have noNewline : char ≠ '\n'.toUInt8 := by
        rintro rfl
        exact later [] rest
          ((reads_iff_of_stops (stopsFrom_newline limit line)).mpr ⟨rfl, rfl⟩)
      rw [stopsFrom_cons noNewline] at later
      rw [← sameMemory] at held
      rcases editChar_spec char held with ⟨edited, edits, editedHeld, samePending⟩
      rw [← remaining, ← samePending] at later
      have stillBelow := (length_editStep_le line char).trans room
      rw [got]
      dsimp only
      rw [if_neg noNewline, edits]
      exact ih later editedHeld stillBelow

/-- `keyboard_read_line` takes the shortest prefix of the stream that ends in a newline or fills
the line, stores the line it edits with a terminator and nothing behind the buffer, and leaves the
rest unread; without such a prefix it does not return. -/
theorem keyboardReadLine_edits {machine : Machine} {buffer maxLen : ℕ} (atLeast : 1 ≤ maxLen)
    (word : maxLen < 2 ^ 32) :
    (∀ taken rest, Reads (Stops (maxLen - 1)) machine.pending taken rest →
      ∀ fuel, taken.length < fuel →
        ∃ after, keyboardReadLine fuel machine buffer maxLen = some after ∧
          Stores after.memory buffer (edit taken) ∧
          Set.EqOn after.memory machine.memory (range buffer maxLen)ᶜ ∧
          after.pending = rest) ∧
    ((∀ taken rest, ¬ Reads (Stops (maxLen - 1)) machine.pending taken rest) →
      ∀ fuel, keyboardReadLine fuel machine buffer maxLen = none) := by
  have limit : Word32.sub maxLen 1 = maxLen - 1 := Word32.sub_eq atLeast word
  constructor
  · intro taken rest reads fuel enough
    rcases @readLineLoop_reads buffer _ fuel [] taken rest machine reads rfl (Nat.zero_le _) enough
      with ⟨after, runs, stored, fits, unchanged, unread⟩
    rw [List.length_nil] at runs
    refine ⟨after.store (buffer + (edit taken).length) 0, ?_, ?_, ?_, unread⟩
    · rw [keyboardReadLine, limit, runs, Option.map_some, edit]
    · rw [Stores, List.length_append, List.length_singleton]
      exact (load_write8_append _ _ _ _).trans (congrArg (· ++ [0]) stored)
    · intro address outside
      have elsewhere : address ≠ buffer + (edit taken).length := by
        rintro rfl
        apply outside
        rw [mem_range]
        rw [← edit] at fits
        omega
      have outsideLine : address ∈ (range buffer (maxLen - 1))ᶜ := by
        intro inside
        apply outside
        exact range_subset_range (le_refl _) (by omega) inside
      exact (write8_apply_of_ne elsewhere).trans (unchanged outsideLine)
  · intro never fuel
    have waits := @readLineLoop_waits buffer _ [] machine never rfl (Nat.zero_le _) fuel
    rw [List.length_nil] at waits
    rw [keyboardReadLine, limit, waits, Option.map_none]

theorem reads_hi : Reads (Stops (3 - 1)) typingMachine.pending (ascii "hi") ['\n'.toUInt8] := by
  refine ⟨typingMachine_pending, Or.inr (by decide), ?_⟩
  have continues : ∀ shorter ∈ (ascii "hi").inits, shorter ≠ ascii "hi" →
      ¬ (shorter.getLast? = some '\n'.toUInt8 ∨ (edit shorter).length = 2) := by decide
  intro shorter isPrefix apart
  exact continues shorter ((List.mem_inits _ _).mpr isPrefix) apart

/-- A buffer of three bytes is full after `hi`, and the newline is left for the next reader. -/
theorem keyboardReadLine_edits_hi :
    ∃ after, keyboardReadLine 3 typingMachine 0x1000 3 = some after ∧
      Stores after.memory 0x1000 (ascii "hi") ∧
      Set.EqOn after.memory typingMachine.memory (range 0x1000 3)ᶜ ∧
      after.pending = ['\n'.toUInt8] :=
  (@keyboardReadLine_edits typingMachine 0x1000 3 (by decide) (by decide)).1 _ _ reads_hi 3
    (by decide)

end RamOS.Keyboard
