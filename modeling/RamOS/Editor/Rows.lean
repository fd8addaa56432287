import RamOS.Editor.RoundTrip
import RamOS.Lib.StringEdits

/-!
# The rows of the editor

The text of the editor is an array of 1000 rows of 256 bytes. Inserting and deleting a line copy
one row after another with `strcpy`, and a new line is stored with `strncpy`. Every row stays
terminated within its 256 bytes, and the rows read as strings are the lines of
`RamOS.Editor.Model`.
-/

namespace RamOS.Editor

open ByteMemory CString StringEdits ArrayList

def maxLineLen : ℕ := 256

def row (base index : ℕ) : ℕ := base + maxLineLen * index

structure Rows where
  memory : Memory
  lineCount : ℕ

def initRows (base : ℕ) (memory : Memory) : Rows where
  memory := fill memory base 0 (maxLineLen * maxLines)
  lineCount := 1

/-- `strncpy` into a row, and the terminator at the end of the row. -/
def storeRow (memory : Memory) (dest : ℕ) (text : Bytes) : Memory :=
  write8 (strncpy memory dest text (maxLineLen - 1)) (dest + (maxLineLen - 1)) 0

/-- The loop `for (i = index + count; i > index; i--) strcpy(lines[i], lines[i - 1])`. -/
def shiftRowsDown (fuel base index : ℕ) : ℕ → Memory → Option Memory
  | 0, memory => some memory
  | count + 1, memory =>
    (strcpyAt fuel memory (row base (index + count + 1)) (row base (index + count))).bind
      (shiftRowsDown fuel base index count)

/-- The loop `for (i = index; i < index + count; i++) strcpy(lines[i], lines[i + 1])`. -/
def shiftRowsUp (fuel base : ℕ) : ℕ → ℕ → Memory → Option Memory
  | _, 0, memory => some memory
  | index, count + 1, memory =>
    (strcpyAt fuel memory (row base index) (row base (index + 1))).bind
      (shiftRowsUp fuel base (index + 1) count)

def appendRow (base : ℕ) (rows : Rows) (input : Bytes) : Rows :=
  if rows.lineCount < maxLines then
    { memory := storeRow rows.memory (row base rows.lineCount) input
      lineCount := rows.lineCount + 1 }
  else rows

def insertRow (fuel base : ℕ) (rows : Rows) (atLine : ℤ) (text : Bytes) : Option Rows :=
  if maxLines ≤ rows.lineCount then some rows
  else
    let index :=
      if atLine < 0 ∨ (rows.lineCount : ℤ) < atLine then rows.lineCount else atLine.toNat
    (shiftRowsDown fuel base index (rows.lineCount - index) rows.memory).map fun memory =>
      { memory := storeRow memory (row base index) text
        lineCount := rows.lineCount + 1 }

def deleteRow (fuel base : ℕ) (rows : Rows) (lineNum : ℤ) : Option Rows :=
  if lineNum < 0 ∨ (rows.lineCount : ℤ) ≤ lineNum then some rows
  else
    (shiftRowsUp fuel base lineNum.toNat (rows.lineCount - 1 - lineNum.toNat) rows.memory).map
      fun memory =>
        if rows.lineCount - 1 = 0 then { memory := write8 memory (row base 0) 0, lineCount := 1 }
        else { memory := memory, lineCount := rows.lineCount - 1 }

def Edit.runRows (fuel base : ℕ) (rows : Rows) : Edit → Option Rows
  | append input => some (appendRow base rows input)
  | insert atLine text => insertRow fuel base rows atLine text
  | delete lineNum => deleteRow fuel base rows lineNum

def rowsAfter (fuel base : ℕ) (memory : Memory) (edits : List Edit) : Option Rows :=
  edits.foldlM (Edit.runRows fuel base) (initRows base memory)

def Rows.text (base : ℕ) (rows : Rows) : List Bytes :=
  toList (fun index => stringIn rows.memory (row base index) maxLineLen) rows.lineCount

def Edit.apply (text : List Bytes) : Edit → List Bytes
  | append input => if text.length < 1000 then text ++ [input] else text
  | insert atLine line =>
    if 1000 ≤ text.length then text
    else if atLine < 0 ∨ (text.length : ℤ) < atLine then text ++ [line]
    else text.insertIdx atLine.toNat line
  | delete lineNum =>
    if lineNum < 0 ∨ (text.length : ℤ) ≤ lineNum then text
    else if text.length = 1 then [[]]
    else text.eraseIdx lineNum.toNat

def Edit.Fits : Edit → Prop
  | append input => input.length ≤ 255 ∧ 0 ∉ input
  | insert _ text => text.length ≤ 255 ∧ 0 ∉ text
  | delete _ => True

def HoldsRows (base : ℕ) (memory : Memory) (lines : ℕ → Bytes) : Prop :=
  ∀ index < maxLines, StringAt memory (row base index) (lines index) ∧ (lines index).length ≤ 255

section Memory

variable {base index : ℕ} {memory changed : Memory} {lines : ℕ → Bytes} {text : Bytes}

theorem HoldsRows.update (holds : HoldsRows base memory lines)
    (unchanged : Set.EqOn changed memory (range (row base index) maxLineLen)ᶜ)
    (stored : StringAt changed (row base index) text) (short : text.length ≤ 255) :
    HoldsRows base changed (Function.update lines index text) := by
  intro other inside
  by_cases same : other = index
  · rw [same, Function.update_self]
    exact ⟨stored, short⟩
  · rw [Function.update_of_ne same]
    rcases holds other inside with ⟨held, fits⟩
    refine ⟨held.congr (unchanged.mono ?_), fits⟩
    intro location within
    rw [mem_range, row, maxLineLen] at within
    rw [mem_compl_range, row, maxLineLen]
    rcases Nat.lt_or_gt_of_ne same with before | behind
    · omega
    · omega

theorem row_subset (inside : index < maxLines) :
    range (row base index) maxLineLen ⊆ range base (maxLineLen * maxLines) := by
  apply range_subset_range
  · rw [row]
    omega
  · rw [row, maxLineLen] at *
    rw [maxLines] at *
    omega

theorem storeRow_eqOn (memory : Memory) (dest : ℕ) (text : Bytes) :
    Set.EqOn (storeRow memory dest text) memory (range dest maxLineLen)ᶜ := by
  intro location outside
  have elsewhere : location ≠ dest + (maxLineLen - 1) := by
    rintro rfl
    exact outside (by rw [mem_range, maxLineLen]; omega)
  rw [storeRow, write8_apply_of_ne elsewhere]
  exact strncpy_eqOn _ _ _ _ outside

theorem storeRow_stringAt (memory : Memory) (dest : ℕ) (short : text.length ≤ 255)
    (noZero : 0 ∉ text) : StringAt (storeRow memory dest text) dest text := by
  apply StringAt.of_apply
  · intro offset inside
    rw [storeRow, maxLineLen, write8_apply_of_ne (by omega), strncpy_apply (by omega)]
  · rw [storeRow, maxLineLen]
    by_cases full : text.length = 255
    · rw [full, write8_same]
    · rw [write8_apply_of_ne (by omega), strncpy_apply (by omega)]
      simp
  · exact noZero

theorem HoldsRows.copy {fuel source : ℕ} (holds : HoldsRows base memory lines)
    (enough : 256 ≤ fuel) (inside : source < maxLines) (target : index < maxLines)
    (apart : index ≠ source) :
    ∃ copied, strcpyAt fuel memory (row base index) (row base source) = some copied ∧
      HoldsRows base copied (Function.update lines index (lines source)) ∧
      Set.EqOn copied memory (range base (maxLineLen * maxLines))ᶜ := by
  rcases holds source inside with ⟨held, short⟩
  have distant : row base index + (lines source).length < row base source ∨
      row base source + (lines source).length < row base index := by
    rw [row, row, maxLineLen]
    omega
  have copies := held.strcpyAt distant (lt_of_le_of_lt short enough)
  have unchanged : Set.EqOn (strcpy memory (row base index) (lines source)) memory
      (range (row base index) maxLineLen)ᶜ := by
    apply (strcpy_eqOn memory (row base index) (lines source)).mono
    apply Set.compl_subset_compl.mpr
    exact range_subset_range (le_refl _) (by rw [maxLineLen]; omega)
  exact ⟨_, copies, holds.update unchanged (StringAt.of_strcpy _ _ held.noZero) short,
    unchanged.mono (Set.compl_subset_compl.mpr (row_subset target))⟩

end Memory

section Loops

variable {fuel base index count : ℕ} {memory : Memory} {lines : ℕ → Bytes}

theorem HoldsRows.shiftDown (holds : HoldsRows base memory lines) (enough : 256 ≤ fuel)
    (inside : index + count < maxLines) :
    ∃ shifted, shiftRowsDown fuel base index count memory = some shifted ∧
      HoldsRows base shifted (ArrayList.shiftDown lines index count) ∧
      Set.EqOn shifted memory (range base (maxLineLen * maxLines))ᶜ := by
  induction count generalizing memory lines with
  | zero => exact ⟨memory, rfl, holds, Set.eqOn_refl _ _⟩
  | succ count ih =>
    have target : index + count + 1 < maxLines := inside
    rcases holds.copy enough (by omega : index + count < maxLines) target
      (by omega : index + count + 1 ≠ index + count) with
      ⟨copied, copies, copiedHolds, unchanged⟩
    rcases ih copiedHolds (by omega) with ⟨shifted, shifts, shiftedHolds, outside⟩
    refine ⟨shifted, ?_, shiftedHolds, outside.trans unchanged⟩
    rw [shiftRowsDown, copies, Option.bind_some, shifts]

theorem HoldsRows.shiftUp (holds : HoldsRows base memory lines) (enough : 256 ≤ fuel)
    (inside : index + count < maxLines) :
    ∃ shifted, shiftRowsUp fuel base index count memory = some shifted ∧
      HoldsRows base shifted (ArrayList.shiftUp lines index count) ∧
      Set.EqOn shifted memory (range base (maxLineLen * maxLines))ᶜ := by
  induction count generalizing memory lines index with
  | zero => exact ⟨memory, rfl, holds, Set.eqOn_refl _ _⟩
  | succ count ih =>
    rcases holds.copy enough (by omega : index + 1 < maxLines) (by omega : index < maxLines)
      (by omega : index ≠ index + 1) with
      ⟨copied, copies, copiedHolds, unchanged⟩
    have onward : index + 1 + count < maxLines := by omega
    rcases ih copiedHolds onward with ⟨shifted, shifts, shiftedHolds, outside⟩
    refine ⟨shifted, ?_, shiftedHolds, outside.trans unchanged⟩
    rw [shiftRowsUp, copies, Option.bind_some, shifts]

end Loops

structure Represents (base : ℕ) (rows : Rows) (editor : State) : Prop where
  count : rows.lineCount = editor.lineCount
  holds : HoldsRows base rows.memory editor.lines

structure Mirrors (base : ℕ) (before after : Rows) (editor : State) : Prop where
  represents : Represents base after editor
  outside : Set.EqOn after.memory before.memory (range base (maxLineLen * maxLines))ᶜ

section Changes

variable {fuel base : ℕ} {rows : Rows} {editor : State} {text : Bytes}

theorem initRows_represents (base : ℕ) (memory : Memory) :
    Represents base (initRows base memory) editorInit := by
  refine ⟨rfl, ?_⟩
  intro index inside
  have within : maxLineLen * index < maxLineLen * maxLines :=
    Nat.mul_lt_mul_of_pos_left inside (by decide)
  have empty : StringAt (initRows base memory).memory (row base index) [] := by
    simp only [StringAt, initRows, row]
    rw [fill_apply within]
  exact ⟨empty, Nat.zero_le _⟩

theorem initRows_outside (base : ℕ) (memory : Memory) :
    Set.EqOn (initRows base memory).memory memory (range base (maxLineLen * maxLines))ᶜ := by
  simp only [initRows]
  apply fill_eqOn

theorem HoldsRows.store {memory : Memory} {lines : ℕ → Bytes} {index : ℕ}
    (holds : HoldsRows base memory lines) (short : text.length ≤ 255) (noZero : 0 ∉ text) :
    HoldsRows base (storeRow memory (row base index) text)
      (Function.update lines index (text.take 255)) := by
  rw [List.take_of_length_le short]
  exact holds.update (storeRow_eqOn _ _ _) (storeRow_stringAt _ _ short noZero) short

theorem storeRow_outside {memory : Memory} {index : ℕ} (inside : index < maxLines) :
    Set.EqOn (storeRow memory (row base index) text) memory
      (range base (maxLineLen * maxLines))ᶜ :=
  (storeRow_eqOn _ _ _).mono (Set.compl_subset_compl.mpr (row_subset inside))

theorem appendRow_mirrors (represents : Represents base rows editor) (short : text.length ≤ 255)
    (noZero : 0 ∉ text) :
    Mirrors base rows (appendRow base rows text) (appendLine editor text) := by
  rw [appendRow, appendLine, represents.count]
  by_cases room : editor.lineCount < maxLines
  · rw [if_pos room, if_pos room]
    exact ⟨⟨rfl, represents.holds.store short noZero⟩, storeRow_outside room⟩
  · rw [if_neg room, if_neg room]
    exact ⟨represents, Set.eqOn_refl _ _⟩

theorem insertRow_mirrors (represents : Represents base rows editor) (enough : 256 ≤ fuel)
    (atLine : ℤ) (short : text.length ≤ 255) (noZero : 0 ∉ text) :
    ∃ after, insertRow fuel base rows atLine text = some after ∧
      Mirrors base rows after (insertLine editor atLine text) := by
  rw [insertRow, insertLine, represents.count]
  by_cases full : maxLines ≤ editor.lineCount
  · rw [if_pos full, if_pos full]
    exact ⟨rows, rfl, represents, Set.eqOn_refl _ _⟩
  · rw [if_neg full, if_neg full]
    dsimp only
    rw [← insertIndex]
    have place := insertIndex_le editor atLine
    rcases represents.holds.shiftDown enough
      (by omega : insertIndex editor atLine + (editor.lineCount - insertIndex editor atLine) <
        maxLines) with ⟨shifted, shifts, holds, outside⟩
    rw [shifts, Option.map_some]
    refine ⟨_, rfl, ⟨rfl, holds.store short noZero⟩, ?_⟩
    exact (storeRow_outside (by omega)).trans outside

theorem deleteRow_mirrors (represents : Represents base rows editor) (enough : 256 ≤ fuel)
    (atMost : editor.lineCount ≤ maxLines) (lineNum : ℤ) :
    ∃ after, deleteRow fuel base rows lineNum = some after ∧
      Mirrors base rows after (deleteLine editor lineNum) := by
  rw [deleteRow, deleteLine, represents.count]
  by_cases invalid : lineNum < 0 ∨ (editor.lineCount : ℤ) ≤ lineNum
  · rw [if_pos invalid, if_pos invalid]
    exact ⟨rows, rfl, represents, Set.eqOn_refl _ _⟩
  · rw [if_neg invalid, if_neg invalid]
    rcases represents.holds.shiftUp enough
      (by omega : lineNum.toNat + (editor.lineCount - 1 - lineNum.toNat) < maxLines) with
      ⟨shifted, shifts, holds, outside⟩
    rw [shifts, Option.map_some]
    dsimp only
    by_cases only : editor.lineCount - 1 = 0
    · rw [if_pos only, if_pos only]
      have unchanged : Set.EqOn (write8 shifted (row base 0) 0) shifted
          (range (row base 0) maxLineLen)ᶜ := by
        apply write8_eqOn
        rw [Set.mem_compl_iff, not_not, mem_range, maxLineLen]
        omega
      refine ⟨_, rfl, ⟨rfl, holds.update unchanged (write8_same _ _ _) (Nat.zero_le _)⟩, ?_⟩
      exact (unchanged.mono (Set.compl_subset_compl.mpr (row_subset (by decide)))).trans outside
    · rw [if_neg only, if_neg only]
      exact ⟨_, rfl, ⟨rfl, holds⟩, outside⟩

end Changes

structure Bounded (editor : State) : Prop where
  nonempty : 0 < editor.lineCount
  atMost : editor.lineCount ≤ maxLines

section Lists

variable {editor : State}

theorem Edit.run_bounded (bounded : Bounded editor) (edit : Edit) : Bounded (edit.run editor) := by
  rcases bounded with ⟨nonempty, atMost⟩
  cases edit with
  | append input =>
    rw [Edit.run, appendLine]
    split
    · exact ⟨Nat.succ_pos _, by assumption⟩
    · exact ⟨nonempty, atMost⟩
  | insert atLine text =>
    rw [Edit.run, insertLine]
    split
    · exact ⟨nonempty, atMost⟩
    next room => exact ⟨Nat.succ_pos _, Nat.lt_of_not_le room⟩
  | delete lineNum =>
    rw [Edit.run, deleteLine]
    split
    · exact ⟨nonempty, atMost⟩
    · dsimp only
      split
      · exact ⟨Nat.one_pos, Nat.le_trans nonempty atMost⟩
      next more => exact ⟨Nat.pos_of_ne_zero more, (Nat.sub_le _ _).trans atMost⟩

theorem Edit.text_run {edit : Edit} (fits : edit.Fits) :
    (edit.run editor).text = edit.apply editor.text := by
  cases edit with
  | append input =>
    rw [Edit.run, Edit.apply, length_text, ← maxLines]
    by_cases room : editor.lineCount < maxLines
    · rw [text_appendLine room, List.take_of_length_le fits.1, if_pos room]
    · rw [appendLine, if_neg room, if_neg room]
  | insert atLine text =>
    rw [Edit.run, Edit.apply, length_text, ← maxLines]
    by_cases room : editor.lineCount < maxLines
    · rw [text_insertLine room, List.take_of_length_le fits.1, insertIndex,
        if_neg (Nat.not_le_of_lt room)]
      split
      · rw [← length_text, List.insertIdx_length_self]
      · rfl
    · rw [insertLine, if_pos (Nat.le_of_not_lt room), if_pos (Nat.le_of_not_lt room)]
  | delete lineNum =>
    rw [Edit.run, Edit.apply, length_text]
    by_cases invalid : lineNum < 0 ∨ (editor.lineCount : ℤ) ≤ lineNum
    · rw [deleteLine, if_pos invalid, if_pos invalid]
    · rw [text_deleteLine (by omega) (by omega), if_neg invalid]

end Lists

theorem Represents.text {base : ℕ} {rows : Rows} {editor : State}
    (represents : Represents base rows editor) (atMost : editor.lineCount ≤ maxLines) :
    rows.text base = editor.text := by
  rw [Rows.text, State.text, represents.count]
  apply toList_congr
  intro index listed
  rcases represents.holds index (lt_of_lt_of_le listed atMost) with ⟨held, short⟩
  rw [held.stringIn, List.take_of_length_le (by rw [maxLineLen]; omega)]

section Runs

variable {fuel base : ℕ} {rows : Rows} {editor : State} {edits : List Edit}

theorem Edit.runRows_mirrors {edit : Edit} (represents : Represents base rows editor)
    (enough : 256 ≤ fuel) (bounded : Bounded editor) (fits : edit.Fits) :
    ∃ after, edit.runRows fuel base rows = some after ∧
      Mirrors base rows after (edit.run editor) := by
  cases edit with
  | append input => exact ⟨_, rfl, appendRow_mirrors represents fits.1 fits.2⟩
  | insert atLine text => exact insertRow_mirrors represents enough atLine fits.1 fits.2
  | delete lineNum => exact deleteRow_mirrors represents enough bounded.atMost lineNum

theorem runRows_mirrors (represents : Represents base rows editor) (enough : 256 ≤ fuel)
    (bounded : Bounded editor) (fits : ∀ edit ∈ edits, edit.Fits) :
    ∃ after, edits.foldlM (Edit.runRows fuel base) rows = some after ∧
      Mirrors base rows after (edits.foldl Edit.run editor) ∧
      Bounded (edits.foldl Edit.run editor) := by
  induction edits generalizing rows editor with
  | nil => exact ⟨rows, rfl, ⟨represents, Set.eqOn_refl _ _⟩, bounded⟩
  | cons edit edits ih =>
    rw [List.forall_mem_cons] at fits
    rcases Edit.runRows_mirrors represents enough bounded fits.1 with ⟨next, runs, mirrors⟩
    rcases ih mirrors.represents (edit.run_bounded bounded) fits.2 with
      ⟨after, continues, later, stillBounded⟩
    refine ⟨after, ?_, ⟨later.represents, later.outside.trans mirrors.outside⟩, stillBounded⟩
    rw [List.foldlM_cons, runs]
    exact continues

theorem text_foldl_run (fits : ∀ edit ∈ edits, edit.Fits) :
    (edits.foldl Edit.run editor).text = edits.foldl Edit.apply editor.text := by
  induction edits generalizing editor with
  | nil => rfl
  | cons edit edits ih =>
    rw [List.forall_mem_cons] at fits
    rw [List.foldl_cons, List.foldl_cons, ih fits.2, Edit.text_run fits.1]

end Runs

/-- After any changes, the rows read as strings are the lines of the list, at most 1000, each
terminated within its 256 bytes, and nothing outside the array has changed. -/
theorem rows_refine_lines {fuel base : ℕ} {memory : Memory} {edits : List Edit}
    (enough : 256 ≤ fuel) (fits : ∀ edit ∈ edits, edit.Fits) :
    ∃ rows, rowsAfter fuel base memory edits = some rows ∧
      rows.text base = edits.foldl Edit.apply [[]] ∧
      1 ≤ rows.lineCount ∧ rows.lineCount ≤ 1000 ∧
      (∀ index < 1000, ∃ offset < 256, rows.memory (row base index + offset) = 0) ∧
      Set.EqOn rows.memory memory (range base (256 * 1000))ᶜ := by
  have start : Bounded editorInit := ⟨Nat.one_pos, by decide⟩
  rcases runRows_mirrors (initRows_represents base memory) enough start fits with
    ⟨rows, runs, mirrors, bounded⟩
  have count := mirrors.represents.count
  refine ⟨rows, runs, ?_, ?_, ?_, ?_, ?_⟩
  · rw [mirrors.represents.text bounded.atMost, text_foldl_run fits]
    rfl
  · rw [count]
    exact bounded.nonempty
  · rw [count]
    exact bounded.atMost
  · intro index inside
    rcases mirrors.represents.holds index inside with ⟨held, short⟩
    refine ⟨_, Nat.lt_succ_of_le short, ?_⟩
    rw [← List.append_nil ((edits.foldl Edit.run editorInit).lines index)] at held
    exact held.suffix
  · exact mirrors.outside.trans (initRows_outside base memory)

def shortEdits : List Edit := [.append (ascii "world"), .insert 0 (ascii "hello"), .delete 1]

theorem shortEdits_fit : ∀ edit ∈ shortEdits, edit.Fits := by
  intro edit listed
  simp only [shortEdits, List.mem_cons, List.not_mem_nil, or_false] at listed
  rcases listed with rfl | rfl | rfl
  · exact ⟨by decide, by decide⟩
  · exact ⟨by decide, by decide⟩
  · trivial

theorem rows_refine_lines_hello :
    ∃ rows, rowsAfter 256 0x1000 (fun _ => 0) shortEdits = some rows ∧
      rows.text 0x1000 = [ascii "hello", ascii "world"] ∧
      1 ≤ rows.lineCount ∧ rows.lineCount ≤ 1000 ∧
      (∀ index < 1000, ∃ offset < 256, rows.memory (row 0x1000 index + offset) = 0) ∧
      Set.EqOn rows.memory (fun _ => 0) (range 0x1000 (256 * 1000))ᶜ :=
  rows_refine_lines (le_refl _) shortEdits_fit

end RamOS.Editor
