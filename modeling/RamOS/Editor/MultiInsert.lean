import RamOS.Editor.RoundTrip
import RamOS.Editor.Session

/-!
# Inserting several lines

The command `:i` inserts the lines typed behind it one after the other and adds one to its
target line each time. `insert_line` takes a target that is negative or behind the end for the
end. A negative target therefore puts lines at the end until it has been counted up to zero, and
from then on at the beginning.
-/

namespace RamOS.Editor

open CString ArrayList
open Libsys (atoi)
open Word32 (int IsInt isInt_int int_eq)

/-- A text that `readln` can have read and that does not end the command. -/
structure IsTyped (text : Bytes) : Prop where
  nonempty : text ≠ []
  short : text.length ≤ 255
  noZero : 0 ∉ text

def insertTexts : State → ℤ → List Bytes → State
  | editor, _, [] => editor
  | editor, lineNum, text :: texts =>
    insertTexts (insertLine editor lineNum text) (int (lineNum + 1)) texts

def targetAfter : ℤ → ℕ → ℤ
  | lineNum, 0 => lineNum
  | lineNum, count + 1 => targetAfter (int (lineNum + 1)) count

def insertInputs (outcome : SaveOutcome) (cmd : Bytes) (texts : List Bytes) :
    List Input :=
  ((':'.toUInt8 :: cmd) :: (texts ++ [[]])).map fun line => { line, outcome }

def KeepsOrder (session : Session) (outcome : SaveOutcome) (cmd : Bytes)
    (texts : List Bytes) : Prop :=
  ∃ before after, session.editor.text = before ++ after ∧
    ((insertInputs outcome cmd texts).foldl Session.step session).editor.text =
      before ++ texts ++ after

section Texts

variable {editor : State} {lineNum : ℤ} {text : Bytes} {texts : List Bytes}

theorem lineCount_insertLine (room : editor.lineCount < maxLines) :
    (insertLine editor lineNum text).lineCount = editor.lineCount + 1 := by
  rw [insertLine, if_neg (Nat.not_le_of_lt room)]

theorem text_insertLine_inside {before after : List Bytes}
    (room : editor.lineCount < maxLines) (typed : IsTyped text)
    (split : editor.text = before ++ after) :
    (insertLine editor before.length text).text = before ++ text :: after := by
  have place : insertIndex editor before.length = before.length := by
    have lengths := congrArg List.length split
    rw [length_text, List.length_append] at lengths
    rw [insertIndex, if_neg (by omega), Int.toNat_natCast]
  rw [text_insertLine room, place, List.take_of_length_le typed.short, split,
    insertIdx_append]

theorem text_insertLine_end (room : editor.lineCount < maxLines) (typed : IsTyped text)
    (atEnd : lineNum < 0 ∨ (editor.lineCount : ℤ) < lineNum) :
    (insertLine editor lineNum text).text = editor.text ++ [text] := by
  rw [text_insertLine room, insertIndex, if_pos atEnd, List.take_of_length_le typed.short,
    ← length_text, List.insertIdx_length_self]

/-- From a line of the text on, or from behind the last one, the texts come in order. -/
theorem text_insertTexts_inside {before after : List Bytes}
    (split : editor.text = before ++ after) (room : editor.lineCount + texts.length ≤ maxLines)
    (typed : ∀ text ∈ texts, IsTyped text) :
    (insertTexts editor before.length texts).text = before ++ texts ++ after := by
  induction texts generalizing editor before with
  | nil => rw [insertTexts, split, List.append_nil]
  | cons text texts ih =>
    rw [List.length_cons] at room
    rw [List.forall_mem_cons] at typed
    have lengths := congrArg List.length split
    rw [length_text, List.length_append] at lengths
    have next : int ((before.length : ℤ) + 1) = ((before ++ [text]).length : ℤ) := by
      have isInt : IsInt ((before.length : ℤ) + 1) := by
        rw [IsInt]
        rw [maxLines] at room
        omega
      rw [int_eq isInt]
      simp
    have inserted := text_insertLine_inside (by omega) typed.1 split
    rw [insertTexts, next, ih (by rw [inserted]; simp) ?_ typed.2]
    · simp
    · rw [lineCount_insertLine (by omega)]
      omega

/-- Far behind the end, or in front of the beginning, every text goes to the
end. -/
theorem text_insertTexts_end (isInt : IsInt lineNum)
    (atEnd : lineNum + texts.length ≤ 0 ∨ (editor.lineCount : ℤ) < lineNum)
    (room : editor.lineCount + texts.length ≤ maxLines) (typed : ∀ text ∈ texts, IsTyped text) :
    (insertTexts editor lineNum texts).text = editor.text ++ texts := by
  induction texts generalizing editor lineNum with
  | nil => rw [insertTexts, List.append_nil]
  | cons text texts ih =>
    rw [List.length_cons] at room atEnd
    rw [List.forall_mem_cons] at typed
    have count : (insertLine editor lineNum text).lineCount = editor.lineCount + 1 :=
      lineCount_insertLine (by omega)
    have inserted := text_insertLine_end (by omega) typed.1
      (by omega : lineNum < 0 ∨ (editor.lineCount : ℤ) < lineNum)
    have stillAtEnd : int (lineNum + 1) + texts.length ≤ 0 ∨
        ((insertLine editor lineNum text).lineCount : ℤ) < int (lineNum + 1) := by
      rw [count]
      by_cases last : lineNum = 2 ^ 31 - 1
      · rw [last, show int (2 ^ 31 - 1 + 1) = -2 ^ 31 by decide]
        rw [maxLines] at room
        omega
      · have isNext : IsInt (lineNum + 1) := by
          rw [IsInt] at isInt ⊢
          omega
        rw [int_eq isNext]
        omega
    rw [insertTexts, ih (isInt_int _) stillAtEnd (by omega) typed.2, inserted]
    simp

theorem lineCount_insertTexts (room : editor.lineCount + texts.length ≤ maxLines) :
    (insertTexts editor lineNum texts).lineCount = editor.lineCount + texts.length := by
  induction texts generalizing editor lineNum with
  | nil => rfl
  | cons text texts ih =>
    rw [List.length_cons] at room ⊢
    have count : (insertLine editor lineNum text).lineCount = editor.lineCount + 1 :=
      lineCount_insertLine (by omega)
    rw [insertTexts, ih (by omega), count]
    omega

theorem insertTexts_append (first later : List Bytes) :
    insertTexts editor lineNum (first ++ later) =
      insertTexts (insertTexts editor lineNum first) (targetAfter lineNum first.length) later := by
  induction first generalizing editor lineNum with
  | nil => rfl
  | cons text first ih => exact ih

theorem targetAfter_neg {count : ℕ} (isInt : IsInt lineNum) (reaches : lineNum + count = 0) :
    targetAfter lineNum count = 0 := by
  induction count generalizing lineNum with
  | zero => rw [targetAfter]; omega
  | succ count ih =>
    have isNext : IsInt (lineNum + 1) := by
      rw [IsInt] at isInt ⊢
      omega
    rw [targetAfter, int_eq isNext]
    exact ih isNext (by omega)

/-- More texts than a negative target counts: some go to the end, the others to the beginning. -/
theorem text_insertTexts_split {first later : List Bytes} (isInt : IsInt lineNum)
    (reaches : lineNum + first.length = 0)
    (room : editor.lineCount + (first ++ later).length ≤ maxLines)
    (typed : ∀ text ∈ first ++ later, IsTyped text) :
    (insertTexts editor lineNum (first ++ later)).text = later ++ (editor.text ++ first) := by
  rw [List.forall_mem_append] at typed
  rw [List.length_append] at room
  have firstText : (insertTexts editor lineNum first).text = [] ++ (editor.text ++ first) :=
    text_insertTexts_end isInt (Or.inl (le_of_eq reaches)) (by omega) typed.1
  rw [insertTexts_append, targetAfter_neg isInt reaches]
  refine (text_insertTexts_inside firstText ?_ typed.2).trans rfl
  rw [lineCount_insertTexts (by omega)]
  omega

end Texts

section Sessions

variable {session : Session} {outcome : SaveOutcome} {cmd : Bytes}
  {texts : List Bytes}

theorem step_typed {text : Bytes} {lineNum : ℤ} (running : session.quit = none)
    (typed : IsTyped text) (inserting : session.inserting = some lineNum) :
    session.step { line := text, outcome } =
      { session with
        editor := insertLine session.editor lineNum text
        inserting := some (int (lineNum + 1)) } := by
  have isText : text.headD 0 ≠ 0 := by
    rcases List.exists_cons_of_ne_nil typed.nonempty with ⟨first, rest, rfl⟩
    intro zero
    have noZero := typed.noZero
    rw [List.mem_cons, not_or] at noZero
    exact noZero.1 zero.symm
  simp only [Session.step, running, inserting]
  rw [if_neg isText]

theorem foldl_step_typed {lineNum : ℤ} (running : session.quit = none)
    (typed : ∀ text ∈ texts, IsTyped text) (inserting : session.inserting = some lineNum) :
    ((texts.map fun line => ({ line, outcome } : Input)).foldl Session.step session).editor =
        insertTexts session.editor lineNum texts := by
  induction texts generalizing session lineNum with
  | nil => rfl
  | cons text texts ih =>
    rw [List.forall_mem_cons] at typed
    rw [List.map_cons, List.foldl_cons, step_typed running typed.1 inserting]
    exact ih running typed.2 rfl

theorem processCommand_insert (isInsert : cmd.headD 0 = 'i'.toUInt8) :
    session.processCommand outcome cmd =
      (0, { session with inserting := some (session.lineArgument cmd) }) := by
  have notWrite : cmd.headD 0 ≠ 'w'.toUInt8 := by rw [isInsert]; decide
  have notQuit : cmd.headD 0 ≠ 'q'.toUInt8 := by rw [isInsert]; decide
  have notDelete : cmd.headD 0 ≠ 'd'.toUInt8 := by rw [isInsert]; decide
  rw [Session.processCommand, if_neg notWrite, if_neg notQuit, if_neg (strncmp_wq notWrite),
    if_neg notDelete, if_pos isInsert]

theorem editor_step_empty (session : Session) (outcome : SaveOutcome) :
    (session.step { line := [], outcome }).editor = session.editor := by
  rw [Session.step]
  split
  · rfl
  · rfl
  · rfl

theorem editor_insertInputs (running : session.quit = none) (idle : session.inserting = none)
    (isInsert : cmd.headD 0 = 'i'.toUInt8) (typed : ∀ text ∈ texts, IsTyped text) :
    ((insertInputs outcome cmd texts).foldl Session.step session).editor =
      insertTexts session.editor (session.lineArgument cmd) texts := by
  have starts : session.step { line := ':'.toUInt8 :: cmd, outcome } =
      { session with inserting := some (session.lineArgument cmd) } := by
    simp only [Session.step, running, idle, List.headD_cons, List.drop_one, List.tail_cons,
      processCommand_insert isInsert]
    rw [if_neg (by decide), if_pos trivial, if_neg (by simp)]
  rw [insertInputs, List.map_cons, List.map_append, List.foldl_cons, List.foldl_append, starts,
    List.map_singleton, List.foldl_cons, List.foldl_nil, editor_step_empty]
  exact foldl_step_typed running typed rfl

theorem lineArgument_isInt (isInt : IsInt session.editor.currentLine) (cmd : Bytes) :
    IsInt (session.lineArgument cmd) := by
  rw [Session.lineArgument]
  split
  · exact isInt_int _
  · exact isInt

end Sessions

theorem exists_inside_insertTexts {editor : State} {lineNum : ℤ} {texts : List Bytes}
    (isInt : IsInt lineNum) (nonnegative : 0 ≤ lineNum)
    (room : editor.lineCount + texts.length ≤ maxLines) (typed : ∀ text ∈ texts, IsTyped text) :
    ∃ before after, editor.text = before ++ after ∧
      (insertTexts editor lineNum texts).text = before ++ texts ++ after := by
  by_cases behind : (editor.lineCount : ℤ) < lineNum
  · refine ⟨editor.text, [], (List.append_nil _).symm, ?_⟩
    rw [text_insertTexts_end isInt (Or.inr behind) room typed, List.append_nil]
  · have split := (List.take_append_drop lineNum.toNat editor.text).symm
    have place : lineNum = ((editor.text.take lineNum.toNat).length : ℤ) := by
      rw [List.length_take, length_text]
      omega
    refine ⟨_, _, split, ?_⟩
    have inside := text_insertTexts_inside split room typed
    rwa [← place] at inside

theorem exists_typed_ne (line : Option Bytes) :
    ∃ first later, IsTyped first ∧ IsTyped later ∧ first ≠ later ∧ some later ≠ line := by
  have letterA : IsTyped (ascii "a") := ⟨by decide, by decide, by decide⟩
  have letterB : IsTyped (ascii "b") := ⟨by decide, by decide, by decide⟩
  have apart : ascii "a" ≠ ascii "b" := by decide
  by_cases taken : line = some (ascii "b")
  · refine ⟨ascii "b", ascii "a", letterB, letterA, apart.symm, ?_⟩
    rw [taken]
    simpa using apart
  · exact ⟨ascii "a", ascii "b", letterA, letterB, apart, Ne.symm taken⟩

/-- After any command `:i`, the texts stay in order exactly when the target line is not negative
or is not counted up to zero. -/
theorem insert_keepsOrder_iff {session : Session} {outcome : SaveOutcome} {cmd : Bytes}
    {count : ℕ} (running : session.quit = none) (idle : session.inserting = none)
    (isInsert : cmd.headD 0 = 'i'.toUInt8) (currentInt : IsInt session.editor.currentLine)
    (room : session.editor.lineCount + count ≤ 1000) :
    (∀ texts, texts.length = count → (∀ text ∈ texts, IsTyped text) →
        KeepsOrder session outcome cmd texts) ↔
      0 ≤ session.lineArgument cmd ∨ session.lineArgument cmd + count ≤ 0 := by
  have isInt := lineArgument_isInt currentInt cmd
  constructor
  · intro keeps
    by_contra negative
    rw [not_or, not_le, not_le] at negative
    -- texts that differ before and behind the place where the target becomes zero
    rcases exists_typed_ne session.editor.text.head? with
      ⟨first, later, firstTyped, laterTyped, apart, notHead⟩
    rcases Nat.exists_eq_succ_of_ne_zero
      (by omega : (-session.lineArgument cmd).toNat ≠ 0) with ⟨firsts, isFirsts⟩
    rcases Nat.exists_eq_add_of_lt (by omega : firsts + 1 < count) with ⟨laters, rfl⟩
    have typed : ∀ text ∈ List.replicate (firsts + 1) first ++ List.replicate (laters + 1) later,
        IsTyped text := by
      intro text listed
      rcases List.mem_append.mp listed with isFirst | isLater
      · exact List.eq_of_mem_replicate isFirst ▸ firstTyped
      · exact List.eq_of_mem_replicate isLater ▸ laterTyped
    have length : (List.replicate (firsts + 1) first ++ List.replicate (laters + 1) later).length =
        firsts + 1 + laters + 1 := by
      simp
      omega
    rcases keeps _ length typed with ⟨before, after, split, inserted⟩
    rw [editor_insertInputs running idle isInsert typed,
      text_insertTexts_split isInt (by simp; omega) (by rw [length]; exact room) typed,
      List.replicate_succ, List.replicate_succ] at inserted
    cases before with
    | nil => exact apart (List.cons.inj inserted).1.symm
    | cons line before =>
      apply notHead
      rw [split, (List.cons.inj inserted).1]
      rfl
  · rintro target texts rfl typed
    rw [KeepsOrder, editor_insertInputs running idle isInsert typed]
    rcases target with nonnegative | short
    · exact exists_inside_insertTexts isInt nonnegative room typed
    · refine ⟨session.editor.text, [], (List.append_nil _).symm, ?_⟩
      rw [text_insertTexts_end isInt (Or.inl short) room typed, List.append_nil]

def freshSession : Session where
  editor := editorInit
  disk := fun _ => none
  inserting := none
  quit := none
  saves := []

theorem insert_keepsOrder_two_lines :
    (∀ texts, texts.length = 2 → (∀ text ∈ texts, IsTyped text) →
        KeepsOrder freshSession ⟨true, fun _ => 255⟩ (ascii "i 1") texts) ↔
      0 ≤ freshSession.lineArgument (ascii "i 1") ∨
        freshSession.lineArgument (ascii "i 1") + (2 : ℕ) ≤ 0 :=
  insert_keepsOrder_iff rfl rfl (by decide) ⟨by decide, by decide⟩ (by decide)

/-- After `:i 0` the first line goes to the end and the second one to the
beginning. -/
theorem insert_zero_reverses :
    ((insertInputs ⟨true, fun _ => 255⟩ (ascii "i 0") [ascii "a", ascii "b"]).foldl Session.step
        freshSession).editor.text = [ascii "b", [], ascii "a"] ∧
      ¬ KeepsOrder freshSession ⟨true, fun _ => 255⟩ (ascii "i 0") [ascii "a", ascii "b"] := by
  have result : ((insertInputs ⟨true, fun _ => 255⟩ (ascii "i 0") [ascii "a", ascii "b"]).foldl
      Session.step freshSession).editor.text = [ascii "b", [], ascii "a"] := by decide
  refine ⟨result, ?_⟩
  rintro ⟨before, after, split, inserted⟩
  rw [result] at inserted
  cases before with
  | nil => exact absurd (List.cons.inj inserted).1 (by decide)
  | cons line before =>
    have empty : [] = line := (List.cons.inj split).1
    rw [← empty] at inserted
    exact absurd (List.cons.inj inserted).1 (by decide)

end RamOS.Editor
