import RamOS.Console.Kprintf

/-!
# Formatted output of the applications

`printf` collects its output in a buffer and stops reading the format once 1023
characters are there. Like `kprintf` it knows only the letters of the conversions,
and what is between a `%` and a letter it does not know puts the conversions and the
arguments out of step.
-/

namespace RamOS.Libsys

open CString FormatString
open RamOS.Console (digitLoop decimalDigit kprintf kprintf_inStep)

def lowerHexDigit (digit : ℕ) : UInt8 := (ascii "0123456789abcdef").getD digit 0

def uintText (n : ℕ) : Bytes :=
  if n = 0 then ascii "0" else (digitLoop 10 decimalDigit 11 n).reverse

/-- To negate the least integer is undefined in C. It is taken to wrap around, so that the text is
the sign alone. -/
def intText (n : ℤ) : Bytes :=
  let sign := if n < 0 then ascii "-" else []
  let magnitude := if n < 0 then Word32.toInt (Word32.ofInt (-n)) else n
  if magnitude = 0 then sign ++ ascii "0"
  else sign ++ (digitLoop 10 decimalDigit 11 magnitude.toNat).reverse

def hexText (n : ℕ) : Bytes :=
  ascii "0x" ++ if n = 0 then ascii "0" else (digitLoop 16 lowerHexDigit 8 n).reverse

/-- The characters `buffer[0]` to `buffer[pos - 1]`, and the arguments used. The digits of a
number may go past the end of the array. -/
structure Printf where
  buffer : Bytes
  progress : Progress

def Printf.put (state : Printf) (text : Bytes) : Printf :=
  { state with buffer := state.buffer ++ text }

section

variable (strings : ℕ → Bytes) (args : ℕ → UInt32)

/-- A `case` that prints the argument `args[arg_index++]`. -/
def Printf.apply (kind : Kind) (text : ℕ → Bytes) (state : Printf) : Printf :=
  ⟨state.buffer ++ text (args state.progress.argIndex).toNat, state.progress.apply kind⟩

/-- The `switch` over the character behind a `%`. Only a string is cut where the buffer ends. -/
def printfDirective (state : Printf) (c : UInt8) : Printf :=
  if c = 's'.toUInt8 then
    state.apply args .string fun word => (strings word).take (1023 - state.buffer.length)
  else if c = 'd'.toUInt8 then state.apply args .signed fun word => intText (Word32.toInt word)
  else if c = 'u'.toUInt8 then state.apply args .unsigned uintText
  else if c = 'x'.toUInt8 then state.apply args .hex hexText
  else if c = 'c'.toUInt8 then state.apply args .char fun word => [UInt8.ofNat word]
  else if c = '%'.toUInt8 then state.put (ascii "%")
  else state

def full (state : Printf) : Bool := decide (1023 ≤ state.buffer.length)

/-- The loop of `printf`. The buffer is then written up to its first NUL. -/
def printf (fmt : Bytes) : Printf :=
  interpret full (fun state c => state.put [c]) (printfDirective strings args) fmt ⟨[], .start⟩

theorem printf_tracks :
    Tracks (fun state c => Printf.put state [c]) (printfDirective strings args)
      Printf.progress := by
  refine ⟨fun _ _ => rfl, fun state kind => ?_, fun state char noLetter => ?_⟩
  · cases kind
    all_goals rfl
  · rcases ne_letters noLetter with ⟨notString, notSigned, notUnsigned, notHex, notChar⟩
    simp only [printfDirective, notString, notSigned, notUnsigned, notHex, notChar, if_false]
    split
    · rfl
    · rfl

def conversionText : Kind → ℕ → Bytes
  | .signed, word => intText (Word32.toInt word)
  | .unsigned, word => uintText word
  | .hex, word => hexText word
  | .string, word => strings word
  | .char, word => [UInt8.ofNat word]

/-- The text that a format of plain conversions stands for, from an argument on. -/
def rendered : ℕ → List Piece → Bytes
  | _, [] => []
  | index, .literal char _ :: pieces => char :: rendered index pieces
  | index, .percent :: pieces => '%'.toUInt8 :: rendered index pieces
  | index, .conversion spec :: pieces =>
    conversionText strings spec.kind (args index).toNat ++ rendered (index + 1) pieces

theorem printfDirective_length (state : Printf) (kind : Kind) (more : ℕ) :
    1023 ≤ (printfDirective strings args state kind.letter).buffer.length + more ↔
      1023 ≤ state.buffer.length +
        (conversionText strings kind (args state.progress.argIndex).toNat).length + more := by
  cases kind with
  | string =>
    change 1023 ≤
      (state.buffer ++ (strings _).take (1023 - state.buffer.length)).length + more ↔ _
    rw [List.length_append, List.length_take, conversionText]
    omega
  | signed => exact Iff.of_eq (congrArg (1023 ≤ · + more) List.length_append)
  | unsigned => exact Iff.of_eq (congrArg (1023 ≤ · + more) List.length_append)
  | hex => exact Iff.of_eq (congrArg (1023 ≤ · + more) List.length_append)
  | char => exact Iff.of_eq (congrArg (1023 ≤ · + more) List.length_append)

theorem full_interpret_iff {pieces : List Piece}
    (plain : ∀ spec, Piece.conversion spec ∈ pieces → spec.Plain) (state : Printf) :
    full (interpret full (fun state c => Printf.put state [c]) (printfDirective strings args)
        (format pieces) state) ↔
      1023 ≤ state.buffer.length +
        (rendered strings args state.progress.argIndex pieces).length := by
  induction pieces generalizing state with
  | nil => simp [format, interpret, full, rendered]
  | cons piece pieces ih =>
    rw [interpret_format_cons]
    by_cases stopped : full state
    · rw [interpret_of_stop stopped, interpret_of_stop stopped]
      have long : 1023 ≤ state.buffer.length := of_decide_eq_true stopped
      exact iff_of_true stopped (by omega)
    · rw [ih fun spec listed => plain spec (List.mem_cons_of_mem piece listed)]
      cases piece with
      | literal char isLiteral =>
        rw [Piece.text, interpret_literal stopped isLiteral.1]
        simp only [interpret, Printf.put, rendered, List.length_append, List.length_cons,
          List.length_nil]
        omega
      | percent =>
        rw [Piece.text, interpret_directive stopped]
        have put : printfDirective strings args state '%'.toUInt8 = state.put (ascii "%") := rfl
        rw [put]
        simp only [interpret, Printf.put, rendered, List.length_append, List.length_cons,
          show (ascii "%").length = 1 from rfl]
        omega
      | conversion spec =>
        have isPlain := plain spec List.mem_cons_self
        have text : (Piece.conversion spec).text = ['%'.toUInt8, spec.kind.letter] := by
          rw [Piece.text, Conversion.modifiers_eq_nil_iff.mpr isPlain]
          rfl
        have next := (printf_tracks strings args).letter state spec.kind
        rw [text, interpret_directive stopped, interpret, next, printfDirective_length,
          rendered, List.length_append, Nat.add_assoc]
        rfl

end

/-- `kprintf` applies the conversions to the arguments in order exactly if none has flags or a
width, and `printf` exactly if in addition the text in front of each has less than 1023
characters. -/
theorem directives_inStep_iff (strings : ℕ → Bytes) (args : ℕ → UInt32)
    (console : Console.State) (pieces : List Piece) :
    (InStep pieces (kprintf strings args (format pieces) console).progress ↔
        ∀ spec, Piece.conversion spec ∈ pieces → spec.Plain) ∧
      (InStep pieces (printf strings args (format pieces)).progress ↔
        (∀ spec, Piece.conversion spec ∈ pieces → spec.Plain) ∧
          ∀ before spec after, pieces = before ++ .conversion spec :: after →
            (rendered strings args 0 before).length < 1023) := by
  refine ⟨kprintf_inStep strings args pieces console, ?_⟩
  refine ((printf_tracks strings args).applied_iff pieces).trans ?_
  have room {before after : List Piece} {spec : Conversion}
      (plain : ∀ spec, Piece.conversion spec ∈ pieces → spec.Plain)
      (shape : pieces = before ++ .conversion spec :: after) :=
    @full_interpret_iff strings args before
      (fun spec listed => plain spec (shape ▸ List.mem_append_left _ listed)) ⟨[], .start⟩
  constructor
  · intro all
    have plain : ∀ spec, Piece.conversion spec ∈ pieces → spec.Plain := by
      intro spec listed
      rcases List.append_of_mem listed with ⟨before, after, shape⟩
      exact (all before spec after shape).1
    refine ⟨plain, fun before spec after shape => ?_⟩
    have going := (all before spec after shape).2
    rw [room plain shape, List.length_nil, Nat.zero_add] at going
    exact Nat.lt_of_not_le going
  · rintro ⟨plain, short⟩ before spec after shape
    refine ⟨plain spec (shape ▸ List.mem_append_right before List.mem_cons_self), ?_⟩
    rw [room plain shape, List.length_nil, Nat.zero_add]
    exact Nat.not_le_of_lt (short before spec after shape)

def literals (text : Bytes) : List Piece :=
  text.filterMap fun char =>
    if isLiteral : char ≠ '%'.toUInt8 ∧ char ≠ 0 then some (.literal char isLiteral) else none

def processLine : List Piece :=
  literals (ascii "  ") ++ [.conversion ⟨[.minus], [4], .signed⟩] ++ literals (ascii " ") ++
    [.conversion ⟨[.minus], [4], .signed⟩] ++ literals (ascii "  ") ++
    [.conversion ⟨[], [], .string⟩] ++ literals (ascii "  ") ++ [.conversion ⟨[], [], .string⟩] ++
    literals (ascii "\n")

def editorLine : List Piece :=
  [.conversion ⟨[], [4], .signed⟩] ++ literals (ascii ": ") ++ [.conversion ⟨[], [], .string⟩] ++
    literals (ascii "\n")

/-- The first `%s` of the process list is applied to the process number, and that of the editor's
list to the line number. -/
theorem string_applied_to_number :
    format processLine = ascii "  %-4d %-4d  %s  %s\n" ∧
      (kinds processLine)[0]? = some .signed ∧
      (kprintf (fun _ => []) (fun _ => 1) (format processLine)
        ⟨fun _ => 0, 0, 0, 7, []⟩).progress.applied = [(.string, 0), (.string, 1)] ∧
      format editorLine = ascii "%4d: %s\n" ∧
      (kinds editorLine)[0]? = some .signed ∧
      (printf (fun _ => []) (fun _ => 1) (format editorLine)).progress.applied =
        [(.string, 0)] := by
  refine ⟨by decide, by decide, by decide, by decide, by decide, by decide⟩

end RamOS.Libsys
