import RamOS.Editor.Model
import RamOS.Libsys.Itoa

/-!
# Sessions of the editor

A session is a sequence of input lines. The main loop ends when `process_command` returns
anything but 0, and that is also what a save returns whose file cannot be opened. The
flag `modified` is cleared by every save whose file can be opened, whatever its write calls
have stored.
-/

namespace RamOS.Editor

open CString TextLines ArrayList
open Libsys (atoi)
open Word32 (int)

/-- A line of input, and what the open and the write calls do if it saves the text. -/
structure Input where
  line : Bytes
  outcome : SaveOutcome

structure Save where
  filename : Bytes
  text : List Bytes
  accepted : ℕ → ℕ

def Save.bytes (save : Save) : Bytes := stored (writes save.text) save.accepted

/-- The editor, the files, where typed lines go, and the command that has ended the main loop. The
list of saves, the last one first, is not part of the code. -/
structure Session where
  editor : State
  disk : Disk
  inserting : Option ℤ
  quit : Option Bytes
  saves : List Save

namespace Session

def save (session : Session) (outcome : SaveOutcome) (filename : Bytes) : ℤ × Session :=
  let result := saveFile outcome filename session.editor session.disk
  (result.1,
    { session with
      editor := result.2.1
      disk := result.2.2
      saves :=
        if outcome.opens then ⟨filename, session.editor.text, outcome.accepted⟩ :: session.saves
        else session.saves })

def lineArgument (session : Session) (cmd : Bytes) : ℤ :=
  if cmd.getD 1 0 = ' '.toUInt8 then int (atoi (cmd.drop 2) - 1) else session.editor.currentLine

/-- `process_command`. What `:i` reads are the next lines of the input. -/
def processCommand (session : Session) (outcome : SaveOutcome) (cmd : Bytes) : ℤ × Session :=
  if cmd.headD 0 = 'w'.toUInt8 then
    session.save outcome
      (if cmd.getD 1 0 = ' '.toUInt8 ∧ cmd.getD 2 0 ≠ 0 then cmd.drop 2 else session.editor.name)
  else if cmd.headD 0 = 'q'.toUInt8 then
    if cmd.getD 1 0 = '!'.toUInt8 then (1, session)
    else if session.editor.modified then (0, session)
    else (1, session)
  else if strncmp cmd (ascii "wq") 2 = 0 then
    let result := session.save outcome session.editor.name
    (if result.1 = 0 then 1 else 0, result.2)
  else if cmd.headD 0 = 'd'.toUInt8 then
    (0, { session with editor := deleteLine session.editor (session.lineArgument cmd) })
  else if cmd.headD 0 = 'i'.toUInt8 then
    (0, { session with inserting := some (session.lineArgument cmd) })
  -- The other commands, and what is not a command, only print.
  else (0, session)

def step (session : Session) (input : Input) : Session :=
  match session.quit, session.inserting with
  | some _, _ => session
  | none, some lineNum =>
    if input.line.headD 0 = 0 then { session with inserting := none }
    else
      { session with
        editor := insertLine session.editor lineNum input.line
        inserting := some (int (lineNum + 1)) }
  | none, none =>
    if input.line.headD 0 = 0 then session
    else if input.line.headD 0 = ':'.toUInt8 then
      let result := session.processCommand input.outcome (input.line.drop 1)
      if result.1 ≠ 0 then { result.2 with quit := some input.line } else result.2
    else { session with editor := appendLine session.editor input.line }

end Session

/-- The start of `main`, with the argument and what loading it gives. -/
def startSession (argument : Option (Bytes × LoadOutcome)) (disk : Disk) : Session where
  editor :=
    match argument with
    | none => editorInit
    | some (filename, outcome) => (loadFile outcome filename editorInit).2
  disk := disk
  inserting := none
  quit := none
  saves := []

def sessionAfter (argument : Option (Bytes × LoadOutcome)) (disk : Disk)
    (inputs : List Input) : Session :=
  inputs.foldl Session.step (startSession argument disk)

def NeverChanged (argument : Option (Bytes × LoadOutcome)) (disk : Disk)
    (inputs : List Input) : Prop :=
  ∀ k, (sessionAfter argument disk (inputs.take k)).editor.text =
    (startSession argument disk).editor.text

def HoldsText (session : Session) : Prop :=
  session.disk session.editor.name = some session.editor.contents

def recorded (disk : Disk) (saves : List Save) : Disk :=
  saves.foldr (fun save disk => Function.update disk save.filename (some save.bytes)) disk

inductive Effect (before after : Session) : Prop
  | kept (editor : after.editor = before.editor) (disk : after.disk = before.disk)
      (saves : after.saves = before.saves)
  | edited (modified : after.editor.modified = true) (disk : after.disk = before.disk)
      (saves : after.saves = before.saves)
  | saved (save : Save) (text : save.text = before.editor.text)
      (editor : after.editor = before.editor.setFilename save.filename)
      (disk : after.disk = Function.update before.disk save.filename (some save.bytes))
      (saves : after.saves = save :: before.saves)

theorem Effect.refl (session : Session) : Effect session session := .kept rfl rfl rfl

theorem effect_edit {before after : Session}
    (edited : after.editor = before.editor ∨ after.editor.modified = true)
    (disk : after.disk = before.disk) (saves : after.saves = before.saves) :
    Effect before after := by
  rcases edited with same | modified
  · exact .kept same disk saves
  · exact .edited modified disk saves

theorem appendLine_cases (editor : State) (input : Bytes) :
    appendLine editor input = editor ∨ (appendLine editor input).modified = true := by
  rw [appendLine]
  split
  · exact .inr rfl
  · exact .inl rfl

theorem insertLine_cases (editor : State) (atLine : ℤ) (text : Bytes) :
    insertLine editor atLine text = editor ∨ (insertLine editor atLine text).modified = true := by
  rw [insertLine]
  split
  · exact .inl rfl
  · exact .inr rfl

theorem deleteLine_cases (editor : State) (lineNum : ℤ) :
    deleteLine editor lineNum = editor ∨ (deleteLine editor lineNum).modified = true := by
  rw [deleteLine]
  split
  · exact .inl rfl
  · right
    dsimp only
    split
    · rfl
    · rfl

theorem Session.save_cases (session : Session) (outcome : SaveOutcome) (filename : Bytes) :
    outcome.opens = false ∧ session.save outcome filename = (-1, session) ∨
      outcome.opens = true ∧ (session.save outcome filename).1 = 0 ∧
        Effect session (session.save outcome filename).2 ∧
        (session.save outcome filename).2.quit = session.quit := by
  cases opens : outcome.opens with
  | false => exact .inl ⟨rfl, by simp [Session.save, saveFile, opens]⟩
  | true =>
    right
    simp only [Session.save, saveFile, opens, if_true, and_true, true_and]
    exact .saved ⟨filename, session.editor.text, outcome.accepted⟩ rfl rfl rfl rfl

theorem strncmp_wq {cmd : Bytes} (notWrite : ¬ cmd.headD 0 = 'w'.toUInt8) :
    ¬ strncmp cmd (ascii "wq") 2 = 0 := by
  intro same
  rcases (@strncmp_length_eq_zero cmd (ascii "wq") (by decide)).mp same with ⟨rest, rfl⟩
  exact notWrite rfl

inductive Ends (session : Session) (cmd : Bytes) : Prop
  | write (isWrite : cmd.headD 0 = 'w'.toUInt8)
  | forced (isQuit : cmd.headD 0 = 'q'.toUInt8) (isForced : cmd.getD 1 0 = '!'.toUInt8)
  | clean (isQuit : cmd.headD 0 = 'q'.toUInt8) (unmodified : session.editor.modified = false)

/-- The effects of a command. One that ends the main loop is a write or a quit and changes
nothing. -/
theorem Session.processCommand_cases (session : Session) (outcome : SaveOutcome)
    (cmd : Bytes) :
    (session.processCommand outcome cmd).1 ≠ 0 ∧
        (session.processCommand outcome cmd).2 = session ∧ Ends session cmd ∨
      (session.processCommand outcome cmd).1 = 0 ∧
        Effect session (session.processCommand outcome cmd).2 ∧
        (session.processCommand outcome cmd).2.quit = session.quit := by
  fun_cases processCommand session outcome cmd with
  | case1 isWrite =>
    rcases session.save_cases outcome
      (if cmd.getD 1 0 = ' '.toUInt8 ∧ cmd.getD 2 0 ≠ 0 then cmd.drop 2 else session.editor.name)
      with ⟨-, failed⟩ | ⟨-, returned, effect, quit⟩
    · rw [failed]
      exact .inl ⟨(by decide : (-1 : ℤ) ≠ 0), rfl, .write isWrite⟩
    · exact .inr ⟨returned, effect, quit⟩
  | case2 _ isQuit isForced => exact .inl ⟨one_ne_zero, rfl, .forced isQuit isForced⟩
  | case4 _ isQuit _ unmodified =>
    exact .inl ⟨one_ne_zero, rfl, .clean isQuit (Bool.eq_false_iff.mpr unmodified)⟩
  | case5 notWrite _ isWq => exact absurd isWq (strncmp_wq notWrite)
  | case6 => exact .inr ⟨rfl, effect_edit (deleteLine_cases _ _) rfl rfl, rfl⟩
  | case7 => exact .inr ⟨rfl, .kept rfl rfl rfl, rfl⟩
  | case3 | case8 => exact .inr ⟨rfl, .refl session, rfl⟩

def EndedBy (session : Session) (line : Bytes) : Prop :=
  line.headD 0 = ':'.toUInt8 ∧ Ends session (line.drop 1)

/-- The effects of a line of input. The main loop has ended before, or the line has ended it and
changed nothing. -/
theorem Session.step_cases (session : Session) (input : Input) :
    Effect session (session.step input) ∧
      ((session.step input).quit = session.quit ∨
        (session.step input).quit = some input.line ∧
          (session.step input).editor = session.editor ∧ EndedBy session input.line) := by
  fun_cases step session input with
  | case1 | case4 => exact ⟨.refl session, .inl rfl⟩
  | case2 => exact ⟨.kept rfl rfl rfl, .inl rfl⟩
  | case3 => exact ⟨effect_edit (insertLine_cases _ _ _) rfl rfl, .inl rfl⟩
  | case5 _ _ _ isCommand _ returned after =>
    rcases session.processCommand_cases input.outcome (input.line.drop 1) with
      ⟨-, same, ends⟩ | ⟨zero, -⟩
    · have unchanged : after = session := same
      rw [unchanged]
      exact ⟨.kept rfl rfl rfl, .inr ⟨rfl, rfl, isCommand, ends⟩⟩
    · exact absurd zero returned
  | case6 _ _ _ _ _ returned =>
    rcases session.processCommand_cases input.outcome (input.line.drop 1) with
      ⟨nonzero, -⟩ | ⟨-, effect, quit⟩
    · exact absurd nonzero returned
    · exact ⟨effect, .inl quit⟩
  | case7 => exact ⟨effect_edit (appendLine_cases _ _) rfl rfl, .inl rfl⟩

section Runs

variable (argument : Option (Bytes × LoadOutcome)) (disk : Disk)

theorem sessionAfter_concat (inputs : List Input) (input : Input) :
    sessionAfter argument disk (inputs ++ [input]) =
      (sessionAfter argument disk inputs).step input := by
  rw [sessionAfter, List.foldl_append]
  rfl

theorem neverChanged_concat {inputs : List Input} {input : Input}
    (before : NeverChanged argument disk inputs)
    (same : (sessionAfter argument disk (inputs ++ [input])).editor.text =
      (sessionAfter argument disk inputs).editor.text) :
    NeverChanged argument disk (inputs ++ [input]) := by
  have whole := before inputs.length
  rw [List.take_length] at whole
  intro k
  by_cases inside : k ≤ inputs.length
  · rw [List.take_append_of_le_length inside]
    exact before k
  · rw [List.take_of_length_le (by simp; omega), same]
    exact whole

structure UpToDate (session : Session) (save : Save) (earlier : List Save) : Prop where
  last : session.saves = save :: earlier
  text : save.text = session.editor.text
  filename : session.editor.filename = save.filename.take 128

structure Follows (inputs : List Input) : Prop where
  files : (sessionAfter argument disk inputs).disk =
    recorded disk (sessionAfter argument disk inputs).saves
  unmodified : (sessionAfter argument disk inputs).editor.modified = false →
    NeverChanged argument disk inputs ∨
      ∃ save earlier, UpToDate (sessionAfter argument disk inputs) save earlier
  ended : ∀ command, (sessionAfter argument disk inputs).quit = some command →
    EndedBy (sessionAfter argument disk inputs) command

theorem recorded_cons (save : Save) (saves : List Save) :
    recorded disk (save :: saves) =
      Function.update (recorded disk saves) save.filename (some save.bytes) := rfl

theorem EndedBy.congr {before after : Session} {line : Bytes}
    (same : after.editor = before.editor) (ended : EndedBy before line) : EndedBy after line := by
  rcases ended with ⟨isCommand, ends⟩
  refine ⟨isCommand, ?_⟩
  cases ends with
  | write isWrite => exact .write isWrite
  | forced isQuit isForced => exact .forced isQuit isForced
  | clean isQuit unmodified => exact .clean isQuit (by rw [same]; exact unmodified)

theorem Session.step_of_quit {session : Session} {command : Bytes}
    (quit : session.quit = some command) (input : Input) : session.step input = session := by
  simp only [step, quit]

theorem follows_start : Follows argument disk [] := by
  refine ⟨rfl, fun _ => .inl fun k => ?_, fun command quit => ?_⟩
  · rw [List.take_nil]
    rfl
  · cases quit

theorem follows_step {inputs : List Input} (follows : Follows argument disk inputs)
    (input : Input) : Follows argument disk (inputs ++ [input]) := by
  have concat := sessionAfter_concat argument disk inputs input
  rcases (sessionAfter argument disk inputs).step_cases input with ⟨effect, quitCases⟩
  rw [← concat] at effect quitCases
  have ended : ∀ command, (sessionAfter argument disk (inputs ++ [input])).quit = some command →
      EndedBy (sessionAfter argument disk (inputs ++ [input])) command := by
    intro command quit
    rcases quitCases with same | ⟨isLine, kept, endedBy⟩
    · rw [same] at quit
      have stopped := (sessionAfter argument disk inputs).step_of_quit quit input
      rw [concat, stopped]
      exact follows.ended command quit
    · rw [isLine] at quit
      cases quit
      exact endedBy.congr kept
  cases effect with
  | kept editor sameDisk saves =>
    refine ⟨by rw [sameDisk, saves]; exact follows.files, fun unmodified => ?_, ended⟩
    rw [editor] at unmodified
    rcases follows.unmodified unmodified with never | ⟨save, earlier, upToDate⟩
    · exact .inl (neverChanged_concat argument disk never (by rw [editor]))
    · refine .inr ⟨save, earlier, saves.trans upToDate.last, ?_, ?_⟩
      · rw [editor]
        exact upToDate.text
      · rw [editor]
        exact upToDate.filename
  | edited modified sameDisk saves =>
    refine ⟨by rw [sameDisk, saves]; exact follows.files, fun unmodified => ?_, ended⟩
    rw [modified] at unmodified
    cases unmodified
  | saved save text editor newDisk saves =>
    refine ⟨by rw [newDisk, saves, recorded_cons, follows.files], fun _ => .inr ?_, ended⟩
    refine ⟨save, _, saves, ?_, ?_⟩
    · rw [editor]
      exact text
    · rw [editor]
      rfl

theorem follows (inputs : List Input) : Follows argument disk inputs := by
  induction inputs using List.reverseRecOn with
  | nil => exact follows_start argument disk
  | append_singleton inputs input ih => exact follows_step argument disk ih input

end Runs

/-- The write calls of a save have stored a text: all of it if that is what was saved, or else just
so much of another one. -/
def Save.Stores (save : Save) (text : List Bytes) : Prop :=
  save.text = text ∧ Complete (writes save.text) save.accepted ∨
    save.text ≠ text ∧ stored (writes save.text) save.accepted = join '\n'.toUInt8 text

/-- The last save under a name has stored the text, or there was none and the file had these
contents from the start. -/
def LastStores (disk : Disk) (session : Session) (name : Bytes) : Prop :=
  match session.saves.find? fun save => save.filename = name with
  | some save => save.Stores session.editor.text
  | none => disk name = some session.editor.contents

/-- The last save has stored the whole text, under the 128 characters that the editor keeps of its
name. -/
def SavedWhole (disk : Disk) (session : Session) : Prop :=
  ∃ save earlier, session.saves = save :: earlier ∧
    (save.filename.length ≤ 128 → Complete (writes save.text) save.accepted) ∧
    (128 < save.filename.length → LastStores disk session (save.filename.take 128))

theorem Save.stores_iff {save : Save} {text : List Bytes} :
    save.Stores text ↔ save.bytes = join '\n'.toUInt8 text := by
  rw [Stores, Save.bytes]
  by_cases same : save.text = text
  · rw [← same, ← stored_eq_flatten_iff, flatten_writes]
    simp
  · simp [same]

theorem recorded_eq (disk : Disk) (saves : List Save) (name : Bytes) :
    recorded disk saves name =
      match saves.find? fun save => save.filename = name with
      | some save => some save.bytes
      | none => disk name := by
  induction saves with
  | nil => rfl
  | cons save saves ih =>
    rw [recorded_cons, List.find?_cons]
    by_cases here : save.filename = name
    · simp [here]
    · simp [here, Function.update_of_ne (Ne.symm here), ih]

theorem lastStores_iff {disk : Disk} {session : Session} {name : Bytes} :
    LastStores disk session name ↔
      recorded disk session.saves name = some session.editor.contents := by
  rw [LastStores, recorded_eq]
  cases session.saves.find? fun save => save.filename = name with
  | none => exact Iff.rfl
  | some save => exact Save.stores_iff.trans (Option.some.injEq _ _).symm.to_iff

theorem exists_cons_of_headD {line : Bytes} {char : UInt8} (nonzero : char ≠ 0)
    (head : line.headD 0 = char) : ∃ rest, line = char :: rest := by
  cases line with
  | nil => exact absurd head.symm nonzero
  | cons first rest => exact ⟨rest, by rw [← head]; rfl⟩

theorem EndedBy.cases {session : Session} {line : Bytes} (ended : EndedBy session line)
    (unforced : ¬ ascii ":q!" <+: line) :
    ascii ":w" <+: line ∧ ¬ ascii ":q" <+: line ∨
      ascii ":q" <+: line ∧ ¬ ascii ":w" <+: line ∧ session.editor.modified = false := by
  rcases ended with ⟨isCommand, ends⟩
  rcases exists_cons_of_headD (by decide) isCommand with ⟨cmd, rfl⟩
  rw [List.drop_one, List.tail_cons] at ends
  cases ends with
  | write isWrite =>
    rcases exists_cons_of_headD (by decide) isWrite with ⟨rest, rfl⟩
    refine .inl ⟨⟨rest, rfl⟩, fun isQuit => ?_⟩
    rcases isQuit with ⟨other, shape⟩
    exact absurd (List.cons.inj (List.cons.inj shape).2).1 (by decide)
  | forced isQuit isForced =>
    rcases exists_cons_of_headD (by decide) isQuit with ⟨rest, rfl⟩
    have head : rest.headD 0 = '!'.toUInt8 := by
      cases rest with
      | nil => exact isForced
      | cons first rest => exact isForced
    rcases exists_cons_of_headD (by decide) head with ⟨others, rfl⟩
    exact absurd ⟨others, rfl⟩ unforced
  | clean isQuit unmodified =>
    rcases exists_cons_of_headD (by decide) isQuit with ⟨rest, rfl⟩
    refine .inr ⟨⟨rest, rfl⟩, fun isWrite => ?_, unmodified⟩
    rcases isWrite with ⟨other, shape⟩
    exact absurd (List.cons.inj (List.cons.inj shape).2).1 (by decide)

theorem UpToDate.holdsText_iff {disk : Disk} {session : Session} {save : Save}
    {earlier : List Save} (upToDate : UpToDate session save earlier)
    (files : session.disk = recorded disk session.saves)
    (unmodified : session.editor.modified = false) :
    HoldsText session ↔ SavedWhole disk session := by
  have name : session.editor.name = save.filename.take 128 := by
    rw [State.name, unmodified, ← upToDate.filename]
    simp
  have savedWhole_iff : SavedWhole disk session ↔
      (save.filename.length ≤ 128 → Complete (writes save.text) save.accepted) ∧
        (128 < save.filename.length → LastStores disk session (save.filename.take 128)) := by
    constructor
    · rintro ⟨other, others, last, whole⟩
      rw [upToDate.last] at last
      rcases List.cons.inj last with ⟨rfl, -⟩
      exact whole
    · intro whole
      exact ⟨save, earlier, upToDate.last, whole⟩
  rw [savedWhole_iff, HoldsText, files, name]
  by_cases short : save.filename.length ≤ 128
  · have contents : session.editor.contents = (writes save.text).flatten := by
      rw [flatten_writes, upToDate.text]
      rfl
    rw [List.take_of_length_le short, upToDate.last, recorded_cons, Function.update_self,
      Option.some.injEq, Save.bytes, contents, stored_eq_flatten_iff]
    constructor
    · intro complete
      exact ⟨fun _ => complete, fun long => by omega⟩
    · intro whole
      exact whole.1 short
  · constructor
    · intro holds
      exact ⟨fun isShort => absurd isShort short, fun _ => lastStores_iff.mpr holds⟩
    · intro whole
      exact lastStores_iff.mp (whole.2 (by omega))

/-- When anything but `:q!` has ended the main loop, the file holds the text exactly if it was
`:q` after a whole save, or `:w` without a file and the last save under its name has stored this
text. -/
theorem quit_keeps_text_iff (argument : Option (Bytes × LoadOutcome)) (disk : Disk)
    (inputs : List Input) {command : Bytes}
    (ended : (sessionAfter argument disk inputs).quit = some command)
    (unforced : ¬ ascii ":q!" <+: command) :
    (HoldsText (sessionAfter argument disk inputs) ∨ NeverChanged argument disk inputs) ↔
      NeverChanged argument disk inputs ∨
        ascii ":q" <+: command ∧ SavedWhole disk (sessionAfter argument disk inputs) ∨
        ascii ":w" <+: command ∧ LastStores disk (sessionAfter argument disk inputs)
          (sessionAfter argument disk inputs).editor.name := by
  have run := follows argument disk inputs
  by_cases never : NeverChanged argument disk inputs
  · exact iff_of_true (.inr never) (.inl never)
  · simp only [never, or_false, false_or]
    rcases (run.ended command ended).cases unforced with
      ⟨isWrite, notQuit⟩ | ⟨isQuit, notWrite, unmodified⟩
    · simp only [isWrite, notQuit, true_and, false_and, false_or]
      rw [lastStores_iff, HoldsText, run.files]
    · simp only [isQuit, notWrite, true_and, false_and, or_false]
      rcases (run.unmodified unmodified).resolve_left never with ⟨save, earlier, upToDate⟩
      exact upToDate.holdsText_iff run.files unmodified

def opening (accepted : ℕ) : SaveOutcome := ⟨true, fun _ => accepted⟩

def refusing : SaveOutcome := ⟨false, fun _ => 0⟩

def savingSession (outcome : SaveOutcome) : List Input :=
  [⟨ascii "hello", outcome⟩, ⟨ascii ":w", outcome⟩, ⟨ascii ":q", outcome⟩]

theorem quit_keeps_text_saved :
    (sessionAfter none (fun _ => none) (savingSession (opening 255))).quit = some (ascii ":q") ∧
      (HoldsText (sessionAfter none (fun _ => none) (savingSession (opening 255))) ∨
        NeverChanged none (fun _ => none) (savingSession (opening 255))) := by
  have ended : (sessionAfter none (fun _ => none) (savingSession (opening 255))).quit =
      some (ascii ":q") := by decide
  refine ⟨ended, (quit_keeps_text_iff none _ _ ended (by decide)).mpr (.inr (.inl ⟨by decide, ?_⟩))⟩
  refine ⟨⟨ascii "untitled.txt", [[], ascii "hello"], fun _ => 255⟩, [], rfl, fun _ => ?_, ?_⟩
  · exact stored_eq_flatten_iff.mp (by decide)
  · intro long
    exact absurd long (by decide)

/-- A line is added. `:w` without a file leaves the editor, and so does `:q` after a save that has
stored nothing; the text is in no file either way. -/
theorem failed_save_quits :
    ((sessionAfter none (fun _ => none) (savingSession refusing)).quit = some (ascii ":w") ∧
      ¬ HoldsText (sessionAfter none (fun _ => none) (savingSession refusing)) ∧
      ¬ NeverChanged none (fun _ => none) (savingSession refusing)) ∧
    (sessionAfter none (fun _ => none) (savingSession (opening 0))).quit = some (ascii ":q") ∧
      ¬ HoldsText (sessionAfter none (fun _ => none) (savingSession (opening 0))) ∧
      ¬ NeverChanged none (fun _ => none) (savingSession (opening 0)) := by
  refine ⟨⟨by decide, ?_, fun never => ?_⟩, by decide, ?_, fun never => ?_⟩
  · rw [HoldsText]
    decide
  · exact absurd (never 1) (by decide)
  · rw [HoldsText]
    decide
  · exact absurd (never 1) (by decide)

end RamOS.Editor
