import Mathlib.Data.List.InsertIdx
import RamOS.Editor.Model

/-!
# Saving and loading a text

`save_file` writes any number of lines, and `load_file` reads 4095 bytes. A text comes
back if it is not longer, and also if only its last newline is cut off and the last line
is not empty.
-/

namespace RamOS.Editor

open CString TextLines ArrayList

inductive Edit
  | append (input : Bytes)
  | insert (atLine : ℤ) (text : Bytes)
  | delete (lineNum : ℤ)

structure ValidLine (line : Bytes) : Prop where
  short : line.length ≤ 255
  noNewline : '\n'.toUInt8 ∉ line
  noZero : 0 ∉ line

namespace Edit

def run (editor : State) : Edit → State
  | append input => appendLine editor input
  | insert atLine text => insertLine editor atLine text
  | delete lineNum => deleteLine editor lineNum

def Valid : Edit → Prop
  | append input => ValidLine input
  | insert _ text => ValidLine text
  | delete _ => True

end Edit

def editorAfter (edits : List Edit) : State := edits.foldl Edit.run editorInit

/-- What a store that keeps what was written gives to a load. -/
def reading (disk : Disk) (filename : Bytes) : LoadOutcome :=
  match disk filename with
  | none => .unopened
  | some bytes => .read bytes

structure WellFormed (editor : State) : Prop where
  nonempty : 0 < editor.lineCount
  atMost : editor.lineCount ≤ maxLines
  valid : ∀ line ∈ editor.text, ValidLine line

theorem length_text (editor : State) : editor.text.length = editor.lineCount :=
  length_toList editor.lines editor.lineCount

theorem text_eq_text_iff {left right : State} :
    left.text = right.text ↔
      left.lineCount = right.lineCount ∧
        ∀ i < right.lineCount, left.lines i = right.lines i := by
  constructor
  · intro same
    have sameCount : left.lineCount = right.lineCount := by
      rw [← length_text left, same, length_text]
    refine ⟨sameCount, fun i listed => ?_⟩
    have here := congrArg (·[i]?) same
    simp only [State.text, getElem?_toList] at here
    rw [if_pos (by omega), if_pos listed] at here
    exact Option.some.inj here
  · rintro ⟨sameCount, sameLines⟩
    rw [State.text, State.text, sameCount]
    exact toList_congr sameLines

variable {line : Bytes} {editor : State} {count : ℕ}

theorem take_line (valid : ValidLine line) : line.take 255 = line :=
  List.take_of_length_le valid.short

theorem WellFormed.of_text {editor : State} {count : ℕ} (length : editor.text.length = count)
    (positive : 0 < count) (atMost : count ≤ maxLines)
    (valid : ∀ line ∈ editor.text, ValidLine line) : WellFormed editor := by
  rw [length_text] at length
  exact ⟨by omega, by omega, valid⟩

theorem validLine_nil : ValidLine [] := ⟨by simp, List.not_mem_nil, List.not_mem_nil⟩

theorem WellFormed.append (wellFormed : WellFormed editor) {input : Bytes}
    (valid : ValidLine input) : WellFormed (appendLine editor input) := by
  by_cases room : editor.lineCount < maxLines
  · have text := text_appendLine room input
    rw [take_line valid] at text
    refine @of_text _ (editor.lineCount + 1) ?_ (by omega) room fun line listed => ?_
    · rw [text, List.length_append, length_text, List.length_singleton]
    · rw [text] at listed
      rcases List.mem_append.mp listed with earlier | last
      · exact wellFormed.valid line earlier
      · rw [List.mem_singleton.mp last]
        exact valid
  · rw [appendLine, if_neg room]
    exact wellFormed

theorem WellFormed.insert (wellFormed : WellFormed editor) (atLine : ℤ) {text : Bytes}
    (valid : ValidLine text) : WellFormed (insertLine editor atLine text) := by
  by_cases room : editor.lineCount < maxLines
  · have inserted := text_insertLine room atLine text
    rw [take_line valid] at inserted
    have place : insertIndex editor atLine ≤ editor.text.length := by
      rw [length_text]
      exact insertIndex_le editor atLine
    refine @of_text _ (editor.lineCount + 1) ?_ (by omega) room fun line listed => ?_
    · rw [inserted, List.length_insertIdx_of_le_length place, length_text]
    · rw [inserted] at listed
      rcases List.eq_or_mem_of_mem_insertIdx listed with rfl | earlier
      · exact valid
      · exact wellFormed.valid line earlier
  · rw [insertLine, if_pos (Nat.le_of_not_lt room)]
    exact wellFormed

theorem WellFormed.delete (wellFormed : WellFormed editor) (lineNum : ℤ) :
    WellFormed (deleteLine editor lineNum) := by
  by_cases listed : 0 ≤ lineNum ∧ lineNum < editor.lineCount
  · have deleted := text_deleteLine listed.1 listed.2
    have atMost := wellFormed.atMost
    by_cases only : editor.lineCount = 1
    · rw [if_pos only] at deleted
      refine @of_text _ 1 (by rw [deleted]; rfl) one_pos (by decide) fun line isLine => ?_
      rw [deleted] at isLine
      rw [List.mem_singleton.mp isLine]
      exact validLine_nil
    · rw [if_neg only] at deleted
      have positive := wellFormed.nonempty
      refine @of_text _ (editor.lineCount - 1) ?_ (by omega) (by omega) fun line isLine => ?_
      · rw [deleted, List.length_eraseIdx, length_text, if_pos (by omega)]
      · rw [deleted] at isLine
        exact wellFormed.valid line (List.mem_of_mem_eraseIdx isLine)
  · rw [deleteLine, if_pos (by omega)]
    exact wellFormed

theorem Edit.run_wellFormed (wellFormed : WellFormed editor) {edit : Edit} (valid : edit.Valid) :
    WellFormed (edit.run editor) := by
  cases edit with
  | append input => exact wellFormed.append valid
  | insert atLine text => exact wellFormed.insert atLine valid
  | delete lineNum => exact wellFormed.delete lineNum

theorem editorAfter_wellFormed {edits : List Edit} (valid : ∀ edit ∈ edits, edit.Valid) :
    WellFormed (editorAfter edits) := by
  have initially : WellFormed editorInit := by
    refine ⟨by decide, by decide, fun line listed => ?_⟩
    rw [List.mem_singleton.mp listed]
    exact validLine_nil
  rw [editorAfter]
  generalize editorInit = editor at initially
  induction edits generalizing editor with
  | nil => exact initially
  | cons edit edits ih =>
    exact ih (fun other listed => valid other (List.mem_cons_of_mem edit listed)) _
      (Edit.run_wellFormed initially (valid edit List.mem_cons_self))

theorem loadLoop_line {line part rest : Bytes} {lines : ℕ → Bytes} {count : ℕ}
    (room : count < maxLines) (noNewline : '\n'.toUInt8 ∉ line) (noZero : 0 ∉ line)
    (short : part.length + line.length ≤ 255) :
    loadLoop (line ++ rest) lines count part = loadLoop rest lines count (part ++ line) := by
  induction line generalizing part with
  | nil => rw [List.nil_append, List.append_nil]
  | cons char line ih =>
    simp only [List.mem_cons, not_or] at noNewline noZero
    rw [List.length_cons] at short
    have inLine : ¬ (char = '\n'.toUInt8 ∨ char = 0) := by
      rintro (isNewline | isZero)
      · exact noNewline.1 isNewline.symm
      · exact noZero.1 isZero.symm
    rw [List.cons_append, loadLoop, if_neg (Nat.not_le_of_lt room), if_neg inLine,
      if_pos (by omega), ih noNewline.2 noZero.2 (by simp; omega), List.append_assoc,
      List.singleton_append]

theorem loadLoop_join {text : List Bytes} {rest : Bytes} {lines : ℕ → Bytes}
    {count : ℕ} (valid : ∀ line ∈ text, ValidLine line) (room : count + text.length ≤ maxLines) :
    ∃ after, loadLoop (join '\n'.toUInt8 text ++ rest) lines count [] =
        loadLoop rest after (count + text.length) [] ∧
      toList after (count + text.length) = toList lines count ++ text := by
  induction text generalizing lines count with
  | nil => exact ⟨lines, rfl, by rw [List.append_nil]; rfl⟩
  | cons line text ih =>
    have isValid := valid line List.mem_cons_self
    rw [List.length_cons] at room ⊢
    have shape : join '\n'.toUInt8 (line :: text) ++ rest =
        line ++ '\n'.toUInt8 :: (join '\n'.toUInt8 text ++ rest) := by
      simp [join]
    rcases @ih (Function.update lines count line) (count + 1)
      (fun other listed => valid other (List.mem_cons_of_mem line listed)) (by omega) with
      ⟨after, looped, stored⟩
    refine ⟨after, ?_, ?_⟩
    · rw [shape, loadLoop_line (by omega) isValid.noNewline isValid.noZero
          (by simpa using isValid.short), loadLoop, if_neg (by omega), if_pos (.inl rfl),
          List.nil_append, looped]
      congr 1
      omega
    · have sameCount : count + 1 + text.length = count + (text.length + 1) := by omega
      rw [sameCount, toList_push, List.append_assoc, List.singleton_append] at stored
      exact stored

theorem text_endLoad {text : List Bytes} {last : Bytes} (editor : State)
    (valid : ∀ line ∈ text, ValidLine line) (lastValid : ValidLine last)
    (room : text.length < maxLines ∨ text.length = maxLines ∧ last = [])
    (nonempty : text ≠ [] ∨ last ≠ []) :
    (endLoad editor (loadLoop (join '\n'.toUInt8 text ++ last) editor.lines 0 [])).text =
      text ++ if last = [] then [] else [last] := by
  have atMost : 0 + text.length ≤ maxLines := by omega
  rcases @loadLoop_join text last editor.lines 0 valid atMost with ⟨after, looped, stored⟩
  rw [Nat.zero_add] at looped stored
  have collected : loadLoop last after text.length [] = (after, text.length, last) := by
    by_cases ended : last = []
    · rw [ended, loadLoop]
    · have step := @loadLoop_line last [] [] after text.length (by tauto) lastValid.noNewline
        lastValid.noZero (by simpa using lastValid.short)
      rw [List.append_nil, List.nil_append, loadLoop] at step
      exact step
  have noLines : toList editor.lines 0 = [] := rfl
  rw [noLines, List.nil_append] at stored
  rw [looped, collected, endLoad]
  by_cases ended : last = []
  · have positive : text.length ≠ 0 := by
      have listed : text ≠ [] := by tauto
      exact fun none => listed (List.length_eq_zero_iff.mp none)
    rw [if_neg (fun both => both.1 ended), if_pos ended, List.append_nil, State.text]
    simp only [if_neg positive]
    exact stored
  · rw [if_pos ⟨ended, by tauto⟩, if_neg ended]
    refine toList_push.trans ?_
    rw [stored]

theorem length_loadLoop_le (bytes : Bytes) (lines : ℕ → Bytes) (count : ℕ)
    (line : Bytes) :
    (join '\n'.toUInt8 (toList (loadLoop bytes lines count line).1
        (loadLoop bytes lines count line).2.1)).length +
      (loadLoop bytes lines count line).2.2.length ≤
      (join '\n'.toUInt8 (toList lines count)).length + line.length + bytes.length := by
  fun_induction loadLoop bytes lines count line with
  | case1 => exact le_rfl
  | case2 => exact Nat.add_le_add_left (Nat.zero_le _) _
  | case3 char bytes lines count line room ends ih =>
    refine ih.trans ?_
    rw [toList_push]
    simp only [join, List.flatMap_append, List.flatMap_singleton, List.length_append,
      List.length_nil, List.length_cons]
    omega
  | case4 char bytes lines count line room inside short ih =>
    refine ih.trans ?_
    rw [List.length_append, List.length_singleton, List.length_cons]
    omega
  | case5 char bytes lines count line room inside full ih =>
    exact ih.trans (by rw [List.length_cons]; omega)

theorem loadLoop_nonempty {bytes : Bytes} {lines : ℕ → Bytes}
    (some : 0 < count ∨ line ≠ []) :
    0 < (loadLoop bytes lines count line).2.1 ∨ (loadLoop bytes lines count line).2.2 ≠ [] := by
  fun_induction loadLoop bytes lines count line with
  | case1 | case2 => exact some
  | case3 _ _ _ _ _ _ _ ih => exact ih (.inl (by omega))
  | case4 _ _ _ _ _ _ _ _ ih => exact ih (.inr (by simp))
  | case5 _ _ _ _ _ _ _ _ ih => exact ih some

theorem length_contents_endLoad_le {bytes : Bytes} (editor : State) (nonempty : bytes ≠ []) :
    (endLoad editor (loadLoop bytes editor.lines 0 [])).contents.length ≤ bytes.length + 1 := by
  have bound := length_loadLoop_le bytes editor.lines 0 []
  have some : 0 < (loadLoop bytes editor.lines 0 []).2.1 ∨
      (loadLoop bytes editor.lines 0 []).2.2 ≠ [] := by
    rcases List.exists_cons_of_ne_nil nonempty with ⟨char, rest, rfl⟩
    rw [loadLoop, if_neg (by decide)]
    split
    · exact loadLoop_nonempty (.inl (by omega))
    · exact loadLoop_nonempty (.inr (by simp))
  generalize loadLoop bytes editor.lines 0 [] = loop at bound some
  have start : (join '\n'.toUInt8 (toList editor.lines 0)).length = 0 := rfl
  rw [start, List.length_nil] at bound
  rw [endLoad]
  split
  · have stored : (join '\n'.toUInt8 (toList loop.1 loop.2.1 ++ [loop.2.2])).length =
        (join '\n'.toUInt8 (toList loop.1 loop.2.1)).length + (loop.2.2.length + 1) := by
      simp [join]
    rw [State.contents, State.text, toList_push, stored]
    omega
  next noLast =>
    have counted : loop.2.1 ≠ 0 := by
      intro none
      rcases some with positive | unfinished
      · omega
      · exact noLast ⟨unfinished, by rw [none]; decide⟩
    rw [State.contents, State.text]
    simp only [if_neg counted]
    omega

theorem text_concat (isCount : editor.lineCount = count + 1) :
    editor.text = toList editor.lines count ++ [editor.lines count] := by
  rw [State.text, isCount, toList, List.range_succ, List.map_append]
  rfl

theorem contents_concat (isCount : editor.lineCount = count + 1) :
    editor.contents =
      join '\n'.toUInt8 (toList editor.lines count) ++ editor.lines count ++ ['\n'.toUInt8] := by
  rw [State.contents, text_concat isCount]
  simp [join]

theorem text_reload_short (wellFormed : WellFormed editor) (loading : State)
    (short : editor.contents.length ≤ 4095) :
    (endLoad loading (loadLoop (editor.contents.take 4095) loading.lines 0 [])).text =
      editor.text := by
  have atMost := wellFormed.atMost
  have whole : editor.contents = join '\n'.toUInt8 editor.text ++ [] := (List.append_nil _).symm
  have room : editor.text.length < maxLines ∨
      editor.text.length = maxLines ∧ ([] : Bytes) = [] := by
    rw [length_text]
    rcases Nat.lt_or_eq_of_le atMost with below | full
    · exact .inl below
    · exact .inr ⟨full, rfl⟩
  have nonempty : editor.text ≠ [] := by
    rw [← List.length_pos_iff, length_text]
    exact wellFormed.nonempty
  rw [List.take_of_length_le short, whole,
    text_endLoad loading wellFormed.valid validLine_nil room (.inl nonempty), if_pos rfl,
    List.append_nil]

theorem text_reload_exact (wellFormed : WellFormed editor) (loading : State)
    (exactly : editor.contents.length = 4096) :
    (endLoad loading (loadLoop (editor.contents.take 4095) loading.lines 0 [])).text =
        editor.text ↔ editor.lines (editor.lineCount - 1) ≠ [] := by
  rcases Nat.exists_eq_add_one_of_ne_zero wellFormed.nonempty.ne' with ⟨count, isCount⟩
  have atMost := wellFormed.atMost
  have text := text_concat isCount
  have contents := contents_concat isCount
  have length := congrArg List.length contents
  rw [List.length_append, List.length_singleton] at length
  have valid : ∀ line ∈ toList editor.lines count, ValidLine line := fun line listed =>
    wellFormed.valid line (by rw [text]; exact List.mem_append_left _ listed)
  have lastValid : ValidLine (editor.lines count) :=
    wellFormed.valid _ (by rw [text]; exact List.mem_append_right _ List.mem_cons_self)
  have cutOff : editor.contents.take 4095 =
      join '\n'.toUInt8 (toList editor.lines count) ++ editor.lines count := by
    rw [contents]
    exact List.take_left' (by omega)
  have below : (toList editor.lines count).length < maxLines := by
    rw [length_toList]
    omega
  have nonempty : toList editor.lines count ≠ [] ∨ editor.lines count ≠ [] := by
    by_contra none
    simp only [ne_eq, not_or, not_not] at none
    rw [none.1, none.2] at length
    simp [join] at length
    omega
  rw [cutOff, text_endLoad loading valid lastValid (.inl below) nonempty, text, isCount,
    Nat.add_sub_cancel]
  constructor
  · intro same empty
    rw [if_pos empty, List.append_right_inj] at same
    exact absurd same.symm (List.cons_ne_nil _ _)
  · intro nonempty
    rw [if_neg nonempty]

/-- A text is restored exactly if at most its last newline is cut off, and not behind an empty
line. -/
theorem text_reload_iff (wellFormed : WellFormed editor) (loading : State) :
    (endLoad loading (loadLoop (editor.contents.take 4095) loading.lines 0 [])).text = editor.text ↔
      editor.contents.length ≤ 4095 ∨
        editor.contents.length = 4096 ∧ editor.lines (editor.lineCount - 1) ≠ [] := by
  rcases Nat.lt_trichotomy editor.contents.length 4096 with short | exactly | long
  · exact iff_of_true (text_reload_short wellFormed loading (by omega)) (.inl (by omega))
  · rw [text_reload_exact wellFormed loading exactly]
    constructor
    · exact fun nonempty => .inr ⟨exactly, nonempty⟩
    · rintro (short | ⟨-, nonempty⟩)
      · omega
      · exact nonempty
  · refine iff_of_false (fun same => ?_) (by omega)
    have nonempty : editor.contents.take 4095 ≠ [] := by
      rw [← List.length_pos_iff, List.length_take]
      omega
    have bound := length_contents_endLoad_le loading nonempty
    rw [State.contents, same, ← State.contents, List.length_take] at bound
    omega

theorem text_save_load (filename : Bytes) (editor : State) (disk : Disk)
    {outcome : SaveOutcome} (opens : outcome.opens = true)
    (complete : Complete (writes editor.text) outcome.accepted) :
    let saved := saveFile outcome filename editor disk
    (loadFile (reading saved.2.2 filename) filename saved.2.1).2.text =
      (endLoad saved.2.1 (loadLoop (editor.contents.take 4095) saved.2.1.lines 0 [])).text := by
  intro saved
  have onDisk : reading saved.2.2 filename = .read editor.contents := by
    simp only [saved, saveFile, opens, if_true, reading, Function.update_self]
    rw [stored_eq_flatten_iff.mpr complete, flatten_writes]
    rfl
  rw [onDisk]
  rfl

/-- A text is restored exactly if it has at most 4095 bytes, or 4096 and its last line is not
empty. -/
theorem save_load_restores_iff {edits : List Edit} (valid : ∀ edit ∈ edits, edit.Valid)
    (filename : Bytes) (disk : Disk) {outcome : SaveOutcome} (opens : outcome.opens = true)
    (complete : Complete (writes (editorAfter edits).text) outcome.accepted) :
    let editor := editorAfter edits
    let saved := saveFile outcome filename editor disk
    let loaded := (loadFile (reading saved.2.2 filename) filename saved.2.1).2
    (loaded.lineCount = editor.lineCount ∧
        ∀ i < editor.lineCount, loaded.lines i = editor.lines i) ↔
      editor.contents.length ≤ 4095 ∨
        editor.contents.length = 4096 ∧ editor.lines (editor.lineCount - 1) ≠ [] := by
  intro editor saved loaded
  rw [← text_eq_text_iff, text_save_load filename editor disk opens complete]
  exact text_reload_iff (editorAfter_wellFormed valid) saved.2.1

def goodSave : SaveOutcome := ⟨true, fun _ => 255⟩

theorem complete_goodSave {buffers : List Bytes}
    (short : ∀ buffer ∈ buffers, buffer.length ≤ 255) : Complete buffers goodSave.accepted :=
  fun _ buffer found => short buffer (List.mem_of_getElem? found)

theorem save_load_restores_hello :
    let editor := editorAfter [.append (ascii "hello")]
    let saved := saveFile goodSave (ascii "a.txt") editor fun _ => none
    let loaded := (loadFile (reading saved.2.2 (ascii "a.txt")) (ascii "a.txt") saved.2.1).2
    editor.text = [[], ascii "hello"] ∧ loaded.lineCount = editor.lineCount ∧
      ∀ i < editor.lineCount, loaded.lines i = editor.lines i := by
  intro editor saved loaded
  have valid : ∀ edit ∈ [Edit.append (ascii "hello")], edit.Valid := by
    intro edit listed
    rw [List.mem_singleton.mp listed]
    exact ⟨by decide, by decide, by decide⟩
  have restores := @save_load_restores_iff _ valid (ascii "a.txt") (fun _ => none) goodSave rfl
    (complete_goodSave (by decide))
  exact ⟨by decide, restores.mpr (.inl (by decide))⟩

theorem text_appends (valid : ValidLine line) (room : count < maxLines) :
    (editorAfter (List.replicate count (.append line))).text = [] :: List.replicate count line := by
  induction count with
  | zero => rfl
  | succ count ih =>
    have earlier := ih (by omega)
    have counted := congrArg List.length earlier
    rw [length_text, List.length_cons, List.length_replicate] at counted
    have appended : editorAfter (List.replicate (count + 1) (.append line)) =
        appendLine (editorAfter (List.replicate count (.append line))) line := by
      rw [editorAfter, List.replicate_succ', List.foldl_append]
      rfl
    rw [appended, text_appendLine (by omega), take_line valid, earlier, List.cons_append,
      ← List.replicate_succ']

def fullLine : Bytes := List.replicate 255 'a'.toUInt8

theorem length_fullLine : fullLine.length = 255 := List.length_replicate

/-- Seventeen full lines behind the empty one are saved, and are not all there after the load. -/
theorem long_text_not_restored :
    let editor := editorAfter (List.replicate 17 (.append fullLine))
    let saved := saveFile goodSave (ascii "a.txt") editor fun _ => none
    let loaded := (loadFile (reading saved.2.2 (ascii "a.txt")) (ascii "a.txt") saved.2.1).2
    editor.text = [] :: List.replicate 17 fullLine ∧ loaded.text ≠ editor.text := by
  intro editor saved loaded
  have valid : ValidLine fullLine := by
    refine ⟨length_fullLine.le, ?_, ?_⟩
    · intro listed
      exact absurd (List.eq_of_mem_replicate listed) (by decide)
    · intro listed
      exact absurd (List.eq_of_mem_replicate listed) (by decide)
  have text : editor.text = [] :: List.replicate 17 fullLine := text_appends valid (by decide)
  have edits : ∀ edit ∈ List.replicate 17 (Edit.append fullLine), edit.Valid := by
    intro edit listed
    rw [List.eq_of_mem_replicate listed]
    exact valid
  have length : editor.contents.length = 4353 := by
    rw [State.contents, text, join, List.length_flatMap]
    simp [length_fullLine]
  have complete : Complete (writes editor.text) goodSave.accepted := by
    apply complete_goodSave
    intro buffer listed
    rw [text, writes] at listed
    rcases List.mem_flatMap.mp listed with ⟨line, isLine, isBuffer⟩
    have short : line.length ≤ 255 := by
      rcases List.mem_cons.mp isLine with rfl | isFull
      · exact Nat.zero_le 255
      · rw [List.eq_of_mem_replicate isFull, length_fullLine]
    rcases List.mem_cons.mp isBuffer with rfl | isNewline
    · exact short
    · rw [List.mem_singleton.mp isNewline]
      decide
  refine ⟨text, ?_⟩
  rw [text_save_load (ascii "a.txt") editor (fun _ => none) rfl complete, Ne,
    text_reload_iff (editorAfter_wellFormed edits), length]
  omega

end RamOS.Editor
