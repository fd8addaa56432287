import RamOS.Keyboard.Layouts

/-!
# The lines of a layout file

The loop of `parse_layout_file` trims a line, skips it if it is empty or a comment, compares
it with the titles of the sections, and cuts it at its first `=`. None of this depends on the
lines before. This file separates what a line is taken for from what is done about it, and
says when a line is taken for a key with a value.
-/

namespace RamOS.Keyboard.Layouts

open CString TextLines

variable {parser : Parser} {content left right : Bytes}

theorem isBlank_imp_isSpace {char : UInt8} (blank : isBlank char) : isSpace char := by
  simp only [isBlank, isSpace, Bool.decide_or, Bool.or_eq_true, decide_eq_true_eq] at blank ⊢
  exact blank.imp_right Or.inl

theorem trim_subset : trim content ⊆ content := fun _ listed =>
  (List.dropWhile_suffix _).subset ((List.rdropWhile_prefix _ _).subset listed)

theorem zero_notMem_trim (noZero : 0 ∉ content) : 0 ∉ trim content :=
  fun listed => noZero (trim_subset listed)

theorem trim_mark {mark : UInt8} (notSpace : ¬isSpace mark) (left right : Bytes) :
    trim (left ++ mark :: right) = left.dropWhile isBlank ++ mark :: right.rdropWhile isSpace :=
  strip_mark (fun blank => notSpace (isBlank_imp_isSpace blank)) notSpace

theorem mem_trim_iff {mark : UInt8} (notSpace : ¬isSpace mark) :
    mark ∈ trim content ↔ mark ∈ content := by
  refine ⟨fun listed => trim_subset listed, fun listed => ?_⟩
  rcases List.append_of_mem listed with ⟨left, right, rfl⟩
  rw [trim_mark notSpace]
  simp

theorem headD_append_cons (left right : Bytes) (mark : UInt8) :
    (left ++ mark :: right).headD 0 = left.headD mark := by
  cases left with
  | nil => rfl
  | cons first rest => rfl

inductive Line
  | skipped
  | metadata
  | layout
  | entry (key value : Bytes)
deriving DecidableEq

def classify (text : Bytes) : Line :=
  let currentLine := trim text
  if currentLine.headD 0 = 0 ∨ currentLine.headD 0 = '#'.toUInt8 then .skipped
  else if strcmp currentLine (ascii "[metadata]") = 0 then .metadata
  else if strcmp currentLine (ascii "[layout]") = 0 then .layout
  else
    match cut '='.toUInt8 currentLine with
    | none => .skipped
    | some (left, right) => .entry (trim left) (trim right)

def Parser.enter (parser : Parser) (key value : Bytes) : Parser :=
  if parser.inMetadata then
    { parser with
      layout :=
        { parser.layout with toLayoutInfo := parser.layout.toLayoutInfo.store key value } }
  else if parser.inLayout then parser.map key value
  else parser

theorem readLine_eq_classify : parser.readLine content =
    match classify content with
    | .skipped => parser
    | .metadata => { parser with inMetadata := true, inLayout := false }
    | .layout => { parser with inMetadata := false, inLayout := true }
    | .entry key value => parser.enter key value := by
  rw [Parser.readLine, classify]
  dsimp only
  cases cut '='.toUInt8 (trim content) with
  | none => split_ifs <;> rfl
  | some pieces =>
    dsimp only
    rw [← Parser.enter]
    split_ifs <;> rfl

theorem classify_of_trim_nil (empty : trim content = []) : classify content = .skipped := by
  rw [classify, empty]
  rfl

theorem classify_comment (starts : (trim content).headD 0 = '#'.toUInt8) :
    classify content = .skipped := by
  rw [classify]
  exact if_pos (Or.inr starts)

theorem classify_entry (noMark : '='.toUInt8 ∉ left) (noZero : 0 ∉ left ++ '='.toUInt8 :: right)
    (starts : (left.dropWhile isBlank).headD '='.toUInt8 ≠ '#'.toUInt8) :
    classify (left ++ '='.toUInt8 :: right) = .entry (trim left) (trim right) := by
  have trimmed := @trim_mark '='.toUInt8 (by decide) left right
  have trimmedNoZero := zero_notMem_trim noZero
  rw [trimmed] at trimmedNoZero
  have inLeft {char : UInt8} (listed : char ∈ left.dropWhile isBlank) : char ∈ left :=
    (List.dropWhile_suffix _).subset listed
  have visible : ¬((left.dropWhile isBlank).headD '='.toUInt8 = 0 ∨
      (left.dropWhile isBlank).headD '='.toUInt8 = '#'.toUInt8) := by
    rw [or_iff_left starts]
    cases shape : left.dropWhile isBlank with
    | nil => decide
    | cons first rest =>
      rintro rfl
      exact noZero (List.mem_append_left _ (inLeft (by simp [shape])))
  have noSection {title : Bytes} (titleNoZero : 0 ∉ title) (plain : '='.toUInt8 ∉ title) :
      strcmp (left.dropWhile isBlank ++ '='.toUInt8 :: right.rdropWhile isSpace) title ≠ 0 := by
    intro same
    rw [strcmp_eq_zero trimmedNoZero titleNoZero] at same
    rw [← same] at plain
    exact plain (by simp)
  have key : trim (left.dropWhile isBlank) = trim left := strip_dropWhile left
  have value : trim (right.rdropWhile isSpace) = trim right := strip_rdropWhile right
  rw [classify, trimmed, headD_append_cons, if_neg visible,
    if_neg (noSection (by decide) (by decide)), if_neg (noSection (by decide) (by decide)),
    cut_append fun listed => noMark (inLeft listed)]
  dsimp only
  rw [key, value]

theorem readLine_skipped (skipped : classify content = .skipped) :
    parser.readLine content = parser := by
  rw [readLine_eq_classify, skipped]

theorem readLine_entry (noMark : '='.toUInt8 ∉ left) (noZero : 0 ∉ left ++ '='.toUInt8 :: right)
    (starts : (left.dropWhile isBlank).headD '='.toUInt8 ≠ '#'.toUInt8) :
    parser.readLine (left ++ '='.toUInt8 :: right) = parser.enter (trim left) (trim right) := by
  rw [readLine_eq_classify, classify_entry noMark noZero starts]

inductive MetadataKey
  | name
  | code
  | variant
  | description
deriving DecidableEq

namespace MetadataKey

def text : MetadataKey → Bytes
  | name => ascii "name"
  | code => ascii "code"
  | variant => ascii "variant"
  | description => ascii "description"

def limit : MetadataKey → ℕ
  | name => 63
  | code => 31
  | variant => 31
  | description => 127

theorem text_eq_cons (key : MetadataKey) :
    ∃ first rest, key.text = first :: rest ∧ ¬isBlank first ∧ first ≠ '#'.toUInt8 := by
  cases key
  all_goals exact ⟨_, _, rfl, by decide, by decide⟩

end MetadataKey

def LayoutInfo.get (info : LayoutInfo) : MetadataKey → Bytes
  | .name => info.name
  | .code => info.code
  | .variant => info.variant
  | .description => info.description

theorem store_other {info : LayoutInfo} {key value : Bytes} (noZero : 0 ∉ key)
    (other : ∀ known : MetadataKey, key ≠ known.text) : info.store key value = info := by
  have differs (known : MetadataKey) (knownNoZero : 0 ∉ known.text) :
      ¬strcmp key known.text = 0 := by
    rw [strcmp_eq_zero noZero knownNoZero]
    exact other known
  have notName : ¬strcmp key (ascii "name") = 0 := differs .name (by decide)
  have notCode : ¬strcmp key (ascii "code") = 0 := differs .code (by decide)
  have notVariant : ¬strcmp key (ascii "variant") = 0 := differs .variant (by decide)
  have notDescription : ¬strcmp key (ascii "description") = 0 := differs .description (by decide)
  rw [LayoutInfo.store, if_neg notName, if_neg notCode, if_neg notVariant, if_neg notDescription]

theorem get_store (info : LayoutInfo) (key other : MetadataKey) (value : Bytes) :
    (info.store key.text value).get other =
      if other = key then value.take key.limit else info.get other := by
  cases key <;> cases other <;> rfl

theorem get_store_of_ne {info : LayoutInfo} {key : MetadataKey} {written : Bytes}
    (noZero : 0 ∉ written) (other : written ≠ key.text) (value : Bytes) :
    (info.store written value).get key = info.get key := by
  by_cases known : ∃ found : MetadataKey, written = found.text
  · rcases known with ⟨found, rfl⟩
    rw [get_store, if_neg fun same => other (by rw [same])]
  · rw [store_other noZero (not_exists.mp known)]

theorem LayoutInfo.ext_get {left right : LayoutInfo} (same : ∀ key, left.get key = right.get key) :
    left = right := by
  rcases left with ⟨name, code, variant, description⟩
  rcases right with ⟨name', code', variant', description'⟩
  rw [LayoutInfo.mk.injEq]
  exact ⟨same .name, same .code, same .variant, same .description⟩

theorem readString_eq {text : Bytes} {count : ℕ} (short : text.length ≤ count)
    (noZero : 0 ∉ text) : readString count text = text := by
  rw [readString, List.take_of_length_le short, takeWhile_of_absent noZero]

end RamOS.Keyboard.Layouts
