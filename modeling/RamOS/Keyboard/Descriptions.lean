import RamOS.Keyboard.LayoutBounds

/-!
# What a layout file says of itself

The kernel and the tool `kbmap` both read the description of a layout from the lines `key=value`
of its metadata, and a later line for a key takes the place of an earlier one. They differ in what
they take for such a line. The kernel trims a line and its key at both ends and knows the titles
`[metadata]` and `[layout]`. The tool skips blanks at the front only, so that a blank before the
`=` or a carriage return behind a title hides them from it, and any other line that starts with
`[` ends the metadata. This file says what a text gives for a key under either reading, and that
the scanners find just this.
-/

namespace RamOS.Keyboard.Layouts

open CString TextLines

structure Scanner where
  inMetadata : Bool
  info : LayoutInfo

def Scanner.readLine (scanner : Scanner) (text : Bytes) : Scanner :=
  let start := text.dropWhile isBlank
  if strcmp start (ascii "[metadata]") = 0 then { scanner with inMetadata := true }
  else if start.headD 0 = '['.toUInt8 then { scanner with inMetadata := false }
  else if scanner.inMetadata = false ∨ start.headD 0 = '#'.toUInt8 ∨ start.headD 0 = 0 then scanner
  else
    match cut '='.toUInt8 start with
    | none => scanner
    | some (key, value) => { scanner with info := scanner.info.store key (trim value) }

section Readings

/-- How much of a file is read, which lines stand in the metadata, by the lines before, and what
is taken for the key of a line. -/
structure Reading where
  count : ℕ
  inside : List Bytes → Bool
  key : Bytes → Bytes

def kernelReading : Reading where
  count := 4095
  inside := fun earlier => sectionAt earlier = .metadata
  key := trim

def kbmapSection (inside : Bool) (text : Bytes) : Bool :=
  if text.dropWhile isBlank = ascii "[metadata]" then true
  else if (text.dropWhile isBlank).head? = some '['.toUInt8 then false
  else inside

def kbmapReading : Reading where
  count := 2047
  inside := fun earlier => earlier.foldl kbmapSection false
  key := fun left => left.dropWhile isBlank

variable (reading : Reading)

def Reading.lines (contents : Bytes) : List Bytes :=
  fileLines reading.count contents

/-- A line of the metadata, behind `earlier`, that is written for a key. -/
def Reading.Assigns (earlier : List Bytes) (text : Bytes) (key : MetadataKey)
    (value : Bytes) : Prop :=
  reading.inside earlier ∧ ∃ left right, text = left ++ '='.toUInt8 :: right ∧
    reading.key left = key.text ∧ value = trim right

/-- The last line for a key has this value. -/
def Reading.Last (texts : List Bytes) (key : MetadataKey) (value : Bytes) : Prop :=
  ∃ earlier text later, texts = earlier ++ text :: later ∧
    reading.Assigns earlier text key value ∧
    ∀ before other after, later = before ++ other :: after →
      ∀ value, ¬reading.Assigns (earlier ++ text :: before) other key value

/-- What the lines give for a key: its last value, as far as it fits into the field. -/
def Reading.Gives (texts : List Bytes) (key : MetadataKey) (value : Bytes) : Prop :=
  (∃ written, reading.Last texts key written ∧ value = written.take key.limit) ∨
    (∀ written, ¬reading.Last texts key written) ∧ value = []

variable {reading} {texts : List Bytes} {text value : Bytes} {key : MetadataKey}

theorem Reading.last_concat : reading.Last (texts ++ [text]) key value ↔
    reading.Assigns texts text key value ∨
      (∀ other, ¬reading.Assigns texts text key other) ∧ reading.Last texts key value := by
  constructor
  · rintro ⟨earlier, line, later, shape, assigns, latest⟩
    rcases later.eq_nil_or_concat' with rfl | ⟨before, last, rfl⟩
    · rcases List.append_inj' shape rfl with ⟨rfl, same⟩
      cases same
      exact Or.inl assigns
    · rw [← List.cons_append, ← List.append_assoc] at shape
      rcases List.append_inj' shape rfl with ⟨rfl, same⟩
      cases same
      refine Or.inr ⟨latest before text [] rfl, earlier, line, before, rfl, assigns, ?_⟩
      rintro first other after rfl
      exact latest first other (after ++ [text]) (by simp)
  · rintro (assigns | ⟨none, earlier, line, later, rfl, assigns, latest⟩)
    · exact ⟨texts, text, [], rfl, assigns, by simp⟩
    · refine ⟨earlier, line, later ++ [text], by simp, assigns, ?_⟩
      intro before other after shape
      rcases after.eq_nil_or_concat' with rfl | ⟨middle, last, rfl⟩
      · rcases List.append_inj' shape rfl with ⟨rfl, same⟩
        cases same
        exact none
      · rw [← List.cons_append, ← List.append_assoc] at shape
        exact latest before other middle (List.append_inj' shape rfl).1

/-- A scanner that has collected `info` of the lines so far goes by a reading. -/
structure Reading.Tracks (reading : Reading) (info : List Bytes → LayoutInfo) : Prop where
  start : info [] = LayoutInfo.zeroed
  enters : ∀ {texts text key value}, (∀ line ∈ texts ++ [text], 0 ∉ line) →
    reading.Assigns texts text key value → (info (texts ++ [text])).get key = value.take key.limit
  keeps : ∀ {texts text key}, (∀ line ∈ texts ++ [text], 0 ∉ line) →
    (∀ value, ¬reading.Assigns texts text key value) →
    (info (texts ++ [text])).get key = (info texts).get key

theorem Reading.Tracks.gives_iff {info : List Bytes → LayoutInfo}
    (tracks : reading.Tracks info) (noZero : ∀ line ∈ texts, 0 ∉ line) :
    reading.Gives texts key value ↔ (info texts).get key = value := by
  induction texts using List.reverseRecOn with
  | nil =>
    have nothing (written : Bytes) : ¬reading.Last [] key written := by
      rintro ⟨earlier, text, later, shape, _⟩
      simp at shape
    have zeroed : (info []).get key = [] := by
      rw [tracks.start]
      cases key <;> rfl
    simp [Reading.Gives, nothing, zeroed, eq_comm]
  | append_singleton texts text ih =>
    by_cases assigned : ∃ written, reading.Assigns texts text key written
    · have last (written : Bytes) : reading.Last (texts ++ [text]) key written ↔
          reading.Assigns texts text key written := by
        rw [Reading.last_concat, or_iff_left]
        exact fun other => not_exists.mpr other.1 assigned
      simp only [Reading.Gives, last]
      constructor
      · rintro (⟨written, assigns, rfl⟩ | ⟨none, _⟩)
        · exact tracks.enters noZero assigns
        · exact absurd assigned (not_exists.mpr none)
      · rintro rfl
        rcases assigned with ⟨written, assigns⟩
        exact Or.inl ⟨written, assigns, tracks.enters noZero assigns⟩
    · have none := not_exists.mp assigned
      have last (written : Bytes) : reading.Last (texts ++ [text]) key written ↔
          reading.Last texts key written := by
        rw [Reading.last_concat, or_iff_right (none written)]
        exact and_iff_right none
      rw [tracks.keeps noZero none,
        ← ih fun line listed => noZero line (List.mem_append_left _ listed)]
      simp only [Reading.Gives, last]

end Readings

section Kernel

variable {parser : Parser} {texts : List Bytes} {text value : Bytes}
  {key : MetadataKey}

theorem classify_eq_key_iff (noZero : 0 ∉ text) : classify text = .entry key.text value ↔
    ∃ left right, text = left ++ '='.toUInt8 :: right ∧ trim left = key.text ∧
      value = trim right := by
  rw [classify_eq_entry_iff noZero]
  constructor
  · rintro ⟨left, right, rfl, _, _, isKey, rfl⟩
    exact ⟨left, right, rfl, isKey.symm, rfl⟩
  · rintro ⟨left, right, rfl, isKey, rfl⟩
    have noMark : '='.toUInt8 ∉ left := by
      rw [← mem_trim_iff (by decide), isKey]
      cases key <;> decide
    refine ⟨left, right, rfl, noMark, fun starts => ?_, isKey.symm, rfl⟩
    -- A comment would be a key that starts with its mark.
    have hash : '#'.toUInt8 ∈ left := by
      apply (List.dropWhile_suffix isBlank).subset
      cases shape : left.dropWhile isBlank with
      | nil =>
        rw [shape] at starts
        exact absurd starts (by decide)
      | cons first rest =>
        rw [shape, List.headD_cons] at starts
        rw [starts]
        exact List.mem_cons_self
    rw [← mem_trim_iff (by decide), isKey] at hash
    revert hash
    cases key <;> decide

theorem toLayoutInfo_readLine : (parser.readLine text).layout.toLayoutInfo =
    match classify text with
    | .entry written value =>
      if parser.inMetadata then parser.layout.toLayoutInfo.store written value
      else parser.layout.toLayoutInfo
    | _ => parser.layout.toLayoutInfo := by
  rw [readLine_eq_classify]
  cases classify text with
  | skipped => rfl
  | metadata => rfl
  | layout => rfl
  | entry written value =>
    simp only [Parser.enter, Parser.map]
    cases cut '|'.toUInt8 value <;> split_ifs <;> rfl

theorem kernelReading_tracks (layout : Layout) : kernelReading.Tracks fun texts =>
    (texts.foldl Parser.readLine (Parser.initial layout)).layout.toLayoutInfo where
  start := rfl
  enters := by
    intro texts text key value noZero assigns
    have isIn := @foldl_readLine_in layout texts fun line listed =>
      noZero line (List.mem_append_left _ listed)
    have isEntry := (classify_eq_key_iff (noZero text (by simp))).mpr assigns.2
    have inside : decide (sectionAt texts = .metadata) = true := assigns.1
    rw [List.foldl_concat, toLayoutInfo_readLine, isEntry, isIn.metadata]
    dsimp only
    rw [if_pos inside, get_store, if_pos rfl]
  keeps := by
    intro texts text key noZero none
    have isIn := @foldl_readLine_in layout texts fun line listed =>
      noZero line (List.mem_append_left _ listed)
    rw [List.foldl_concat, toLayoutInfo_readLine]
    cases kind : classify text with
    | skipped => rfl
    | metadata => rfl
    | layout => rfl
    | entry written value =>
      dsimp only
      split
      next inside =>
        rw [isIn.metadata] at inside
        have textNoZero := noZero text (by simp)
        rcases (classify_eq_entry_iff textNoZero).mp kind with ⟨left, right, rfl, _, _, rfl, rfl⟩
        apply get_store_of_ne
        · exact zero_notMem_trim fun zero => textNoZero (List.mem_append_left _ zero)
        · exact fun isKey => none _ ⟨inside, left, right, rfl, isKey, rfl⟩
      next => rfl

end Kernel

section Tool

variable {scanner : Scanner} {texts : List Bytes} {text value : Bytes}
  {key : MetadataKey}

def Scanner.initial : Scanner where
  inMetadata := false
  info := LayoutInfo.zeroed

theorem Scanner.inMetadata_readLine (noZero : 0 ∉ text) :
    (scanner.readLine text).inMetadata = kbmapSection scanner.inMetadata text := by
  have startNoZero : 0 ∉ text.dropWhile isBlank := fun zero =>
    noZero ((List.dropWhile_suffix _).subset zero)
  have opens : (text.dropWhile isBlank).headD 0 = '['.toUInt8 ↔
      (text.dropWhile isBlank).head? = some '['.toUInt8 := by
    cases text.dropWhile isBlank with
    | nil => decide
    | cons first rest => simp
  rw [Scanner.readLine, kbmapSection,
    if_congr (strcmp_eq_zero startNoZero (by decide)) rfl (if_congr opens rfl rfl)]
  cases cut '='.toUInt8 (text.dropWhile isBlank) <;> split_ifs <;> rfl

theorem foldl_scanner_inMetadata (noZero : ∀ line ∈ texts, 0 ∉ line) :
    (texts.foldl Scanner.readLine Scanner.initial).inMetadata = kbmapReading.inside texts := by
  induction texts using List.reverseRecOn with
  | nil => rfl
  | append_singleton texts text ih =>
    rw [List.foldl_concat, Scanner.inMetadata_readLine (noZero text (by simp)),
      ih fun line listed => noZero line (List.mem_append_left _ listed)]
    exact (List.foldl_concat _ _ _ _).symm

/-- A line for a key is stored. -/
theorem Scanner.info_readLine_key {left right : Bytes}
    (isKey : left.dropWhile isBlank = key.text) (inside : scanner.inMetadata = true) :
    (scanner.readLine (left ++ '='.toUInt8 :: right)).info =
      scanner.info.store key.text (trim right) := by
  rcases key.text_eq_cons with ⟨first, rest, shape, _, notComment⟩
  have start : (left ++ '='.toUInt8 :: right).dropWhile isBlank =
      key.text ++ '='.toUInt8 :: right := by
    rw [List.dropWhile_append, isKey, shape]
    rfl
  have noTitle : strcmp (key.text ++ '='.toUInt8 :: right) (ascii "[metadata]") ≠ 0 := by
    cases key <;> exact of_decide_eq_true rfl
  have notBracket : (key.text ++ '='.toUInt8 :: right).headD 0 ≠ '['.toUInt8 := by
    cases key <;> exact of_decide_eq_true rfl
  have visible : ¬(scanner.inMetadata = false ∨
      (key.text ++ '='.toUInt8 :: right).headD 0 = '#'.toUInt8 ∨
      (key.text ++ '='.toUInt8 :: right).headD 0 = 0) := by
    rw [inside]
    cases key <;> exact of_decide_eq_true rfl
  have noMark : '='.toUInt8 ∉ key.text := by cases key <;> decide
  rw [Scanner.readLine, start, if_neg noTitle, if_neg notBracket, if_neg visible,
    cut_append noMark]

/-- Every other line leaves the value of the key. -/
theorem Scanner.get_readLine_other (noZero : 0 ∉ text)
    (other : scanner.inMetadata = true → ∀ left right, text = left ++ '='.toUInt8 :: right →
      left.dropWhile isBlank ≠ key.text) :
    (scanner.readLine text).info.get key = scanner.info.get key := by
  rw [Scanner.readLine]
  split_ifs with title bracket skipped
  · rfl
  · rfl
  · rfl
  · cases isCut : cut '='.toUInt8 (text.dropWhile isBlank) with
    | none => rfl
    | some pieces =>
      rcases pieces with ⟨written, right⟩
      have whole : text.takeWhile isBlank ++ text.dropWhile isBlank = text :=
        List.takeWhile_append_dropWhile
      rw [(eq_append_of_cut isCut).1, ← List.append_assoc] at whole
      rw [not_or, Bool.not_eq_false] at skipped
      apply get_store_of_ne
      · intro zero
        apply noZero
        rw [← whole]
        simp [zero]
      · rintro rfl
        refine other skipped.1 _ right whole.symm ?_
        rw [List.dropWhile_append_of_pos fun char listed =>
          List.all_eq_true.mp List.all_takeWhile char listed]
        cases key <;> rfl

theorem kbmapReading_tracks : kbmapReading.Tracks fun texts =>
    (texts.foldl Scanner.readLine Scanner.initial).info where
  start := rfl
  enters := by
    rintro texts _ key _ noZero ⟨inside, left, right, rfl, isKey, rfl⟩
    rw [← foldl_scanner_inMetadata fun line listed =>
      noZero line (List.mem_append_left _ listed)] at inside
    rw [List.foldl_concat, Scanner.info_readLine_key isKey inside, get_store, if_pos rfl]
  keeps := by
    intro texts text key noZero none
    rw [List.foldl_concat]
    apply Scanner.get_readLine_other (noZero text (by simp))
    intro inside left right shape isKey
    rw [foldl_scanner_inMetadata fun line listed =>
      noZero line (List.mem_append_left _ listed)] at inside
    exact none _ ⟨inside, left, right, shape, isKey, rfl⟩

end Tool

end RamOS.Keyboard.Layouts
