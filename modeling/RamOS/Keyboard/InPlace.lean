import RamOS.Keyboard.LayoutLines
import RamOS.Lib.StringEdits

/-!
# Reading a layout in place

`parse_layout_file` reads the file into one buffer and copies it line by line into another
one, where it trims the line, cuts it at its marks, and trims the pieces. This file models
the function on the memory of the two buffers, and shows that it reads the same layout as
the function on texts does.
-/

namespace RamOS.Keyboard.Layouts

open ByteMemory CString StringEdits TextLines

def lineSize : ℕ := 256

def bufferSize : ℕ := 4096

structure Buffers where
  buffer : ℕ
  currentLine : ℕ
  apart : Disjoint (range buffer bufferSize) (range currentLine lineSize)

def trimLine (fuel : ℕ) (memory : Memory) (str : ℕ) : Option Memory :=
  trimAt isBlank isSpace fuel memory str

def Parser.mapAt (parser : Parser) (fuel : ℕ) (memory : Memory) (key value : ℕ) :
    Option (Memory × Parser) := do
  let scancode := (parseHex (stringIn memory key lineSize)).toNat
  let pipe ← findMark '|'.toUInt8 memory fuel value
  if memory pipe ≠ '|'.toUInt8 then some (memory, parser)
  else
    let memory := write8 memory pipe 0
    let normal := stringIn memory value lineSize
    let shifted := stringIn memory (pipe + 1) lineSize
    let keys := Function.update parser.layout.keys scancode (parseEscape normal).1
    some (memory, { parser with
      layout :=
        { parser.layout with
          keys := Function.update keys (128 + scancode) (parseEscape shifted).1 } })

def Parser.readEntryAt (parser : Parser) (fuel : ℕ) (memory : Memory) (key value : ℕ) :
    Option (Memory × Parser) := do
  let memory ← trimLine fuel memory key
  let memory ← trimLine fuel memory value
  if parser.inMetadata then
    some (memory, { parser with
      layout :=
        { parser.layout with
          toLayoutInfo := parser.layout.toLayoutInfo.store (stringIn memory key lineSize)
            (stringIn memory value lineSize) } })
  else if parser.inLayout then parser.mapAt fuel memory key value
  else some (memory, parser)

def Parser.readLineAt (parser : Parser) (fuel : ℕ) (memory : Memory) (currentLine : ℕ) :
    Option (Memory × Parser) := do
  let memory ← trimLine fuel memory currentLine
  if memory currentLine = 0 ∨ memory currentLine = '#'.toUInt8 then some (memory, parser)
  else if strcmp (stringIn memory currentLine lineSize) (ascii "[metadata]") = 0 then
    some (memory, { parser with inMetadata := true, inLayout := false })
  else if strcmp (stringIn memory currentLine lineSize) (ascii "[layout]") = 0 then
    some (memory, { parser with inMetadata := false, inLayout := true })
  else
    let equals ← findMark '='.toUInt8 memory fuel currentLine
    if memory equals ≠ '='.toUInt8 then some (memory, parser)
    else parser.readEntryAt fuel (write8 memory equals 0) currentLine (equals + 1)

def Parser.readLinesAt (fuel currentLine : ℕ) :
    ℕ → Memory → ℕ → Parser → Option Parser
  | 0, _, _, _ => none
  | rounds + 1, memory, line, parser =>
    if memory line = 0 then some parser
    else
      let (memory, stop) := copyLine '\n'.toUInt8 maxLine memory line currentLine
      let behind := if memory stop = '\n'.toUInt8 then stop + 1 else stop
      match parser.readLineAt fuel memory currentLine with
      | none => none
      | some (memory, parser) => readLinesAt fuel currentLine rounds memory behind parser

def parseLayoutFileAt (fuel : ℕ) (buffers : Buffers) (memory : Memory)
    (file : Option Bytes) (layout : Layout) : Option (ℤ × Layout) :=
  match file with
  | none => some (-1, layout)
  | some contents =>
    let bytes := contents.take (bufferSize - 1)
    if bytes = [] then some (-1, layout.cleared)
    else
      (Parser.readLinesAt fuel buffers.currentLine fuel
        (strcpy memory buffers.buffer bytes) buffers.buffer (Parser.initial layout)).map
          fun parser => (0, parser.layout)

variable {memory : Memory} {fuel : ℕ} {parser : Parser} {text : Bytes}

theorem length_trim_le (text : Bytes) : (trim text).length ≤ text.length :=
  ((List.rdropWhile_prefix _ _).length_le).trans (List.length_dropWhile_le _ _)

theorem stringAt_trimLine {address : ℕ} (held : StringAt memory address text)
    (enough : text.length < fuel) :
    ∃ changed, trimLine fuel memory address = some changed ∧
      StringAt changed address (trim text) ∧
      Set.EqOn changed memory (range address (text.length + 1))ᶜ :=
  held.trimAt (by decide) enough

theorem stringIn_line {address : ℕ} (held : StringAt memory address text)
    (short : text.length < lineSize) : stringIn memory address lineSize = text := by
  rw [held.stringIn, List.take_of_length_le short.le]

theorem eqOn_compl_trans {first second third : Memory} {start outer : ℕ} {inner : Set ℕ}
    (later : Set.EqOn third second innerᶜ)
    (inside : inner ⊆ range start outer)
    (earlier : Set.EqOn second first (range start outer)ᶜ) :
    Set.EqOn third first (range start outer)ᶜ :=
  (later.mono (Set.compl_subset_compl.mpr inside)).trans earlier

theorem mapAt_eq {key value : ℕ} {keyText valueText : Bytes}
    (keyHeld : StringAt memory key keyText) (valueHeld : StringAt memory value valueText)
    (keyShort : keyText.length < lineSize) (valueShort : valueText.length < lineSize)
    (enough : valueText.length < fuel) :
    ∃ changed, parser.mapAt fuel memory key value =
        some (changed, parser.map keyText valueText) ∧
      Set.EqOn changed memory (range value (valueText.length + 1))ᶜ := by
  cases isCut : cut '|'.toUInt8 valueText with
  | none =>
    rcases valueHeld.findMark_none (by decide) isCut enough with ⟨stop, found, other⟩
    refine ⟨memory, ?_, fun _ _ => rfl⟩
    simp [Parser.mapAt, Parser.map, found, other, isCut]
  | some pieces =>
    rcases pieces with ⟨left, right⟩
    rcases valueHeld.findMark_some isCut enough with ⟨found, isMark, normal, shifted⟩
    have shape := congrArg List.length (eq_append_of_cut isCut).1
    rw [List.length_append, List.length_cons] at shape
    refine ⟨write8 memory (value + left.length) 0, ?_, write8_eqOn ?_⟩
    · simp [Parser.mapAt, Parser.map, found, isMark, isCut, stringIn_line keyHeld keyShort,
        stringIn_line normal (by omega), stringIn_line shifted (by omega)]
    · rw [mem_compl_range]
      omega

theorem readEntryAt_eq {key : ℕ} {left right : Bytes} (keyHeld : StringAt memory key left)
    (valueHeld : StringAt memory (key + left.length + 1) right)
    (short : left.length + right.length + 1 < lineSize) (enough : lineSize ≤ fuel) :
    ∃ changed, parser.readEntryAt fuel memory key (key + left.length + 1) =
        some (changed, parser.enter (trim left) (trim right)) ∧
      Set.EqOn changed memory (range key (left.length + right.length + 2))ᶜ := by
  have shorterKey := length_trim_le left
  have shorterValue := length_trim_le right
  have enoughKey : left.length < fuel := by omega
  have enoughValue : right.length < fuel := by omega
  rcases stringAt_trimLine keyHeld enoughKey with ⟨first, runFirst, keyTrimmed, frameFirst⟩
  have valueKept : StringAt first (key + left.length + 1) right := by
    refine valueHeld.congr (frameFirst.mono fun location inside => ?_)
    simp only [mem_compl_range, mem_range] at inside ⊢
    omega
  rcases stringAt_trimLine valueKept enoughValue with ⟨second, runSecond, valueTrimmed, frameSecond⟩
  have keyKept : StringAt second key (trim left) := by
    refine keyTrimmed.congr (frameSecond.mono fun location inside => ?_)
    simp only [mem_compl_range, mem_range] at inside ⊢
    omega
  have frame : Set.EqOn second memory (range key (left.length + right.length + 2))ᶜ := by
    refine eqOn_compl_trans frameSecond (range_subset_range (by omega) (by omega)) ?_
    refine frameFirst.mono (Set.compl_subset_compl.mpr ?_)
    exact range_subset_range le_rfl (by omega)
  rw [Parser.readEntryAt, runFirst, Option.bind_eq_bind, Option.bind_some, runSecond,
    Option.bind_some, Parser.enter]
  split
  next =>
    rw [stringIn_line keyKept (by omega), stringIn_line valueTrimmed (by omega)]
    exact ⟨second, rfl, frame⟩
  next =>
    split
    next =>
      rcases mapAt_eq keyKept valueTrimmed (by omega) (by omega)
        (shorterValue.trans_lt enoughValue) with
        ⟨changed, run, frameMap⟩
      refine ⟨changed, run, eqOn_compl_trans frameMap ?_ frame⟩
      exact range_subset_range (by omega) (by omega)
    next => exact ⟨second, rfl, frame⟩

theorem readLineAt_eq {currentLine : ℕ} (held : StringAt memory currentLine text)
    (short : text.length < lineSize) (enough : lineSize ≤ fuel) :
    ∃ changed, parser.readLineAt fuel memory currentLine =
        some (changed, parser.readLine text) ∧
      Set.EqOn changed memory (range currentLine lineSize)ᶜ := by
  have shorter := length_trim_le text
  have enoughText : text.length < fuel := short.trans_le enough
  have enoughTrimmed : (trim text).length < fuel := shorter.trans_lt enoughText
  rcases stringAt_trimLine held enoughText with ⟨trimmed, run, trimmedHeld, trimFrame⟩
  have frame : Set.EqOn trimmed memory (range currentLine lineSize)ᶜ :=
    trimFrame.mono (Set.compl_subset_compl.mpr (range_subset_range le_rfl (by omega)))
  rw [Parser.readLineAt, run, Option.bind_eq_bind, Option.bind_some, trimmedHeld.apply,
    stringIn_line trimmedHeld (by omega), Parser.readLine]
  dsimp only
  split
  next => exact ⟨trimmed, rfl, frame⟩
  split
  next => exact ⟨trimmed, rfl, frame⟩
  split
  next => exact ⟨trimmed, rfl, frame⟩
  cases isCut : cut '='.toUInt8 (trim text) with
  | none =>
    rcases trimmedHeld.findMark_none (by decide) isCut enoughTrimmed with ⟨stop, found, other⟩
    rw [found, Option.bind_eq_bind, Option.bind_some, if_pos other]
    exact ⟨trimmed, rfl, frame⟩
  | some pieces =>
    rcases pieces with ⟨left, right⟩
    rcases trimmedHeld.findMark_some isCut enoughTrimmed with ⟨found, isMark, key, value⟩
    have shape := congrArg List.length (eq_append_of_cut isCut).1
    rw [List.length_append, List.length_cons] at shape
    rcases @readEntryAt_eq _ fuel parser _ left right key value (by omega) enough with
      ⟨changed, runEntry, entryFrame⟩
    rw [found, Option.bind_eq_bind, Option.bind_some, if_neg (not_not.mpr isMark), runEntry]
    refine ⟨changed, rfl, eqOn_compl_trans entryFrame ?_ ?_⟩
    · exact range_subset_range le_rfl (by omega)
    · refine Set.EqOn.trans (write8_eqOn ?_) frame
      rw [mem_compl_range]
      omega

theorem stringAt_afterLine {start : ℕ} (held : StringAt memory start text) :
    ∃ behind, (if memory (start + (line '\n'.toUInt8 maxLine text).length) = '\n'.toUInt8 then
        start + (line '\n'.toUInt8 maxLine text).length + 1
      else start + (line '\n'.toUInt8 maxLine text).length) = behind ∧
      StringAt memory behind (afterLine '\n'.toUInt8 maxLine text) ∧
      behind + (afterLine '\n'.toUInt8 maxLine text).length = start + text.length := by
  have shape := line_append_drop '\n'.toUInt8 maxLine text
  have total := congrArg List.length shape
  rw [afterLine]
  generalize line '\n'.toUInt8 maxLine text = first at shape total ⊢
  rw [← shape] at held
  have rest := held.suffix
  rw [List.length_append] at total
  generalize text.drop first.length = behind at rest total ⊢
  cases behind with
  | nil =>
    have ended : memory (start + first.length) = 0 := rest
    rw [if_neg (by rw [ended]; decide), if_neg (by simp)]
    exact ⟨_, rfl, rest, by omega⟩
  | cons byte behind =>
    rw [List.length_cons] at total
    rw [rest.1, List.head?_cons]
    by_cases isNewline : byte = '\n'.toUInt8
    · rw [if_pos isNewline, if_pos (congrArg some isNewline), List.tail_cons]
      exact ⟨_, rfl, rest.2.2, by omega⟩
    · rw [if_neg isNewline, if_neg (fun same => isNewline (Option.some.inj same)),
        List.length_cons]
      exact ⟨_, rfl, rest, by omega⟩

theorem readLinesAt_eq {currentLine start rounds : ℕ} (held : StringAt memory start text)
    (apart : Disjoint (range start (text.length + 1)) (range currentLine lineSize))
    (enough : lineSize ≤ fuel) (enoughRounds : text.length < rounds) :
    Parser.readLinesAt fuel currentLine rounds memory start parser =
      some ((lines '\n'.toUInt8 maxLine text).foldl Parser.readLine parser) := by
  induction rounds generalizing memory start text parser with
  | zero => omega
  | succ rounds ih =>
    rw [Parser.readLinesAt, held.apply]
    by_cases empty : text = []
    · subst empty
      exact if_pos rfl
    · have nonzero : text.headD 0 ≠ 0 := by
        rcases List.exists_cons_of_ne_nil empty with ⟨first, rest, rfl⟩
        exact held.2.1
      have shorter := @length_afterLine_lt _ _ '\n'.toUInt8 maxLine text (by decide) empty
      rcases @StringAt.copyLine memory text '\n'.toUInt8 maxLine start currentLine held apart with
        ⟨stop, copied, copyFrame⟩
      have lineShort : (line '\n'.toUInt8 maxLine text).length < lineSize :=
        Nat.lt_succ_of_le (length_line_le _ _ _)
      have unread : StringAt (copyLine '\n'.toUInt8 maxLine memory start currentLine).1 start
          text := by
        refine held.congr (copyFrame.mono ?_)
        exact Set.subset_compl_iff_disjoint_right.mpr apart
      rcases stringAt_afterLine unread with ⟨behind, isBehind, restHeld, restEnd⟩
      rcases @readLineAt_eq _ fuel parser _ _ copied lineShort enough with ⟨changed, run, frame⟩
      rw [if_neg nonzero, lines_eq_cons (by decide) empty, List.foldl_cons]
      dsimp only
      rw [stop, isBehind, run]
      -- The rest of the text lies within the text, and thus outside of the line's buffer.
      have restApart : Disjoint (range behind ((afterLine '\n'.toUInt8 maxLine text).length + 1))
          (range currentLine lineSize) :=
        apart.mono_left (range_subset_range (by omega) (by omega))
      refine ih (restHeld.congr (frame.mono ?_)) restApart (by omega)
      exact Set.subset_compl_iff_disjoint_right.mpr restApart

/-- On its buffers, wherever they are and whatever they held, `parse_layout_file` does what it
does to the text. -/
theorem parseLayoutFileAt_eq (buffers : Buffers) (memory : Memory) (file : Option Bytes)
    (layout : Layout) (enough : bufferSize ≤ fuel) :
    parseLayoutFileAt fuel buffers memory file layout = some (parseLayoutFile file layout) := by
  cases file with
  | none => rfl
  | some contents =>
    have most : (contents.take 4095).length ≤ 4095 := List.length_take_le _ _
    have isString : (contents.take 4095 ++ [0]).takeWhile (· ≠ 0) = readString 4095 contents := by
      rw [readString, List.takeWhile_append]
      split
      next whole =>
        rw [(List.takeWhile_prefix _).eq_of_length whole]
        simp
      next => rfl
    have held := StringAt.of_load (load_strcpy memory buffers.buffer (contents.take 4095))
      (List.mem_append_right _ (List.mem_singleton_self 0))
    rw [isString] at held
    have short : (readString 4095 contents).length ≤ 4095 :=
      (List.takeWhile_prefix _).length_le.trans most
    have size : bufferSize - 1 = 4095 := rfl
    simp only [parseLayoutFileAt, parseLayoutFile, size]
    split
    next => rfl
    next =>
      rw [readLinesAt_eq held (buffers.apart.mono_left ?_) ?_ ?_]
      · rfl
      · exact range_subset_range le_rfl (by simp only [bufferSize]; omega)
      · exact le_trans (by decide) enough
      · simp only [bufferSize] at enough
        omega

end RamOS.Keyboard.Layouts
