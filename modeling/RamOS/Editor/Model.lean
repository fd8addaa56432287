import RamOS.Lib.ArrayList
import RamOS.Lib.CString
import RamOS.Lib.TextLines

/-!
# The text editor

The lines of the text are the rows of an array, each a string of at most 255 characters. The
file name stands in an array of 128 bytes right in front of the flag `modified`, so that a
longer name loses the rest when the flag is cleared, and gets the character 1 behind its first
128 when the flag is set.
-/

namespace RamOS.Editor

open CString TextLines ArrayList

def maxLines : ℕ := 1000

/-- `editor_state_t`; the file name ends at the first zero of its array. -/
structure State where
  lines : ℕ → Bytes
  lineCount : ℕ
  currentLine : ℤ
  filename : Bytes
  modified : Bool

namespace State

def text (editor : State) : List Bytes := toList editor.lines editor.lineCount

def contents (editor : State) : Bytes := join '\n'.toUInt8 editor.text

def name (editor : State) : Bytes :=
  if editor.filename.length = 128 ∧ editor.modified then editor.filename ++ [1]
  else editor.filename

/-- `strcpy(editor.filename, filename)` followed by `editor.modified = 0`. -/
def setFilename (editor : State) (filename : Bytes) : State :=
  { editor with filename := filename.take 128, modified := false }

end State

def editorInit : State where
  lines := fun _ => []
  lineCount := 1
  currentLine := 0
  filename := ascii "untitled.txt"
  modified := false

def appendLine (editor : State) (input : Bytes) : State :=
  if editor.lineCount < maxLines then
    { editor with
      lines := Function.update editor.lines editor.lineCount (input.take 255)
      lineCount := editor.lineCount + 1
      modified := true }
  else editor

def insertIndex (editor : State) (atLine : ℤ) : ℕ :=
  if atLine < 0 ∨ (editor.lineCount : ℤ) < atLine then editor.lineCount else atLine.toNat

def insertLine (editor : State) (atLine : ℤ) (text : Bytes) : State :=
  if maxLines ≤ editor.lineCount then editor
  else
    let index := insertIndex editor atLine
    { editor with
      lines := Function.update (shiftDown editor.lines index (editor.lineCount - index)) index
        (text.take 255)
      lineCount := editor.lineCount + 1
      modified := true }

def deleteLine (editor : State) (lineNum : ℤ) : State :=
  if lineNum < 0 ∨ (editor.lineCount : ℤ) ≤ lineNum then editor
  else
    let lines := shiftUp editor.lines lineNum.toNat (editor.lineCount - 1 - lineNum.toNat)
    if editor.lineCount - 1 = 0 then
      { editor with lines := Function.update lines 0 [], lineCount := 1, modified := true }
    else { editor with lines := lines, lineCount := editor.lineCount - 1, modified := true }

/-- Whether a save can open the file, and how many bytes of each write are stored. -/
structure SaveOutcome where
  opens : Bool
  accepted : ℕ → ℕ

abbrev Disk := Bytes → Option Bytes

def writes (text : List Bytes) : List Bytes :=
  text.flatMap fun line => [line, ascii "\n"]

def stored (buffers : List Bytes) (accepted : ℕ → ℕ) : Bytes :=
  buffers.zipIdx.flatMap fun buffer => buffer.1.take (accepted buffer.2)

/-- `save_file`. The results of the write calls are not looked at. -/
def saveFile (outcome : SaveOutcome) (filename : Bytes) (editor : State) (disk : Disk) :
    ℤ × State × Disk :=
  if outcome.opens then
    (0, editor.setFilename filename,
      Function.update disk filename (some (stored (writes editor.text) outcome.accepted)))
  else (-1, editor, disk)

inductive LoadOutcome
  | unopened
  | unreadable
  | read (bytes : Bytes)

/-- The loop of `load_file`: the lines, their count, and the line that has not ended yet. -/
def loadLoop : Bytes → (ℕ → Bytes) → ℕ → Bytes →
    (ℕ → Bytes) × ℕ × Bytes
  | [], lines, lineCount, line => (lines, lineCount, line)
  | char :: bytes, lines, lineCount, line =>
    if maxLines ≤ lineCount then (lines, lineCount, line)
    else if char = '\n'.toUInt8 ∨ char = 0 then
      loadLoop bytes (Function.update lines lineCount line) (lineCount + 1) []
    else if line.length < 255 then loadLoop bytes lines lineCount (line ++ [char])
    else loadLoop bytes lines lineCount line

def endLoad (editor : State) (loop : (ℕ → Bytes) × ℕ × Bytes) : State :=
  if loop.2.2 ≠ [] ∧ loop.2.1 < maxLines then
    { editor with
      lines := Function.update loop.1 loop.2.1 loop.2.2
      lineCount := loop.2.1 + 1 }
  else { editor with lines := loop.1, lineCount := if loop.2.1 = 0 then 1 else loop.2.1 }

/-- `load_file`, which reads at most 4095 bytes. -/
def loadFile (outcome : LoadOutcome) (filename : Bytes) (editor : State) : ℤ × State :=
  match outcome with
  | .unopened => (-1, editor)
  | .unreadable => (-1, { editor with lineCount := 0 })
  | .read bytes =>
    (0, (endLoad editor (loadLoop (bytes.take 4095) editor.lines 0 [])).setFilename filename)

theorem text_appendLine {editor : State} (room : editor.lineCount < maxLines)
    (input : Bytes) : (appendLine editor input).text = editor.text ++ [input.take 255] := by
  rw [appendLine, if_pos room]
  exact toList_push

theorem insertIndex_le (editor : State) (atLine : ℤ) :
    insertIndex editor atLine ≤ editor.lineCount := by
  rw [insertIndex]
  split
  · exact le_rfl
  · omega

theorem text_insertLine {editor : State} (room : editor.lineCount < maxLines) (atLine : ℤ)
    (text : Bytes) :
    (insertLine editor atLine text).text =
      editor.text.insertIdx (insertIndex editor atLine) (text.take 255) := by
  rw [insertLine, if_neg (Nat.not_le_of_lt room)]
  exact toList_insert (insertIndex_le editor atLine)

theorem text_deleteLine {editor : State} {lineNum : ℤ} (nonnegative : 0 ≤ lineNum)
    (listed : lineNum < editor.lineCount) :
    (deleteLine editor lineNum).text =
      if editor.lineCount = 1 then [[]] else editor.text.eraseIdx lineNum.toNat := by
  simp only [deleteLine]
  rw [if_neg (by omega)]
  by_cases only : editor.lineCount = 1
  · rw [if_pos (by omega), if_pos only]
    rfl
  · rw [if_neg (by omega), if_neg only]
    exact toList_erase (by omega)

def Complete (buffers : List Bytes) (accepted : ℕ → ℕ) : Prop :=
  ∀ index buffer, buffers[index]? = some buffer → buffer.length ≤ accepted index

theorem stored_cons (buffer : Bytes) (buffers : List Bytes) (accepted : ℕ → ℕ) :
    stored (buffer :: buffers) accepted =
      buffer.take (accepted 0) ++ stored buffers fun index => accepted (index + 1) := by
  rw [stored, List.zipIdx_cons', List.flatMap_cons, List.flatMap_map]
  rfl

theorem complete_cons {buffer : Bytes} {buffers : List Bytes} {accepted : ℕ → ℕ} :
    Complete (buffer :: buffers) accepted ↔
      buffer.length ≤ accepted 0 ∧ Complete buffers fun index => accepted (index + 1) := by
  constructor
  · intro complete
    exact ⟨complete 0 buffer rfl, fun index other found => complete (index + 1) other found⟩
  · rintro ⟨first, others⟩ index other found
    cases index with
    | zero =>
      cases found
      exact first
    | succ index => exact others index other found

theorem length_stored_le (buffers : List Bytes) (accepted : ℕ → ℕ) :
    (stored buffers accepted).length ≤ buffers.flatten.length := by
  induction buffers generalizing accepted with
  | nil => exact le_rfl
  | cons buffer buffers ih =>
    have rest := ih fun index => accepted (index + 1)
    rw [stored_cons, List.flatten_cons, List.length_append, List.length_append, List.length_take]
    omega

theorem stored_eq_flatten_iff {buffers : List Bytes} {accepted : ℕ → ℕ} :
    stored buffers accepted = buffers.flatten ↔ Complete buffers accepted := by
  induction buffers generalizing accepted with
  | nil => exact iff_of_true rfl fun _ _ found => by simp at found
  | cons buffer buffers ih =>
    rw [stored_cons, List.flatten_cons, complete_cons, ← ih]
    constructor
    · intro same
      have rest := length_stored_le buffers fun index => accepted (index + 1)
      have lengths := congrArg List.length same
      rw [List.length_append, List.length_append, List.length_take] at lengths
      have whole : buffer.length ≤ accepted 0 := by omega
      rw [List.take_of_length_le whole] at same
      exact ⟨whole, List.append_cancel_left same⟩
    · rintro ⟨whole, rest⟩
      rw [List.take_of_length_le whole, rest]

theorem flatten_writes (text : List Bytes) :
    (writes text).flatten = join '\n'.toUInt8 text := by
  induction text with
  | nil => rfl
  | cons line text ih =>
    have shape : writes (line :: text) = line :: ascii "\n" :: writes text := rfl
    have joined : join '\n'.toUInt8 (line :: text) =
        line ++ ['\n'.toUInt8] ++ join '\n'.toUInt8 text := rfl
    rw [shape, List.flatten_cons, List.flatten_cons, ih, joined, List.append_assoc]
    rfl

end RamOS.Editor
