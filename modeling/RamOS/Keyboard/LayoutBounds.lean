import RamOS.Keyboard.LayoutLines

/-!
# Where a layout file stores its mappings

A line `key=value` of the section `[layout]` stores into `normal` and `shifted` at the number
that `parse_hex` reads from its key. The number is a byte and the tables have 128 entries, with
no test in between. This file says for which texts every store stays inside of the tables.
-/

namespace RamOS.Keyboard.Layouts

open CString TextLines

section Numbers

/-- The characters that `parse_hex` takes for digits. -/
def IsHexDigit (char : UInt8) : Prop :=
  '0'.toUInt8 ≤ char ∧ char ≤ '9'.toUInt8 ∨ 'a'.toUInt8 ≤ char ∧ char ≤ 'f'.toUInt8 ∨
    'A'.toUInt8 ≤ char ∧ char ≤ 'F'.toUInt8

instance : DecidablePred IsHexDigit := fun _ => inferInstanceAs (Decidable (_ ∨ _))

def digitValue (char : UInt8) : ℕ :=
  if char ≤ '9'.toUInt8 then char.toNat - '0'.toUInt8.toNat
  else if 'a'.toUInt8 ≤ char then char.toNat - 'a'.toUInt8.toNat + 10
  else char.toNat - 'A'.toUInt8.toNat + 10

/-- The number read on from `number`. A character that is no digit ends it and counts as a last
digit 0. -/
def hexFrom (number : ℕ) (text : Bytes) : ℕ :=
  let digits := text.takeWhile (fun char => decide (IsHexDigit char))
  let total := digits.foldl (fun number digit => 16 * number + digitValue digit) number
  if digits = text then total else 16 * total

/-- The number that a key stands for, in however many digits it is written. -/
def hexNumber (key : Bytes) : ℕ :=
  if key.take 2 = ascii "0x" ∨ key.take 2 = ascii "0X" then hexFrom 0 (key.drop 2)
  else hexFrom 0 key

variable {char : UInt8} {number : ℕ} {str : Bytes}

theorem hexFrom_digit (isDigit : IsHexDigit char) :
    hexFrom number (char :: str) = hexFrom (16 * number + digitValue char) str := by
  simp [hexFrom, isDigit]

theorem hexFrom_other (noDigit : ¬IsHexDigit char) :
    hexFrom number (char :: str) = 16 * number := by
  simp [hexFrom, noDigit]

theorem parseHexLoop_digit (isDigit : IsHexDigit char) (val : UInt8) :
    ∃ next : UInt8, parseHexLoop val (char :: str) = parseHexLoop next str ∧
      next.toNat = (16 * val.toNat + digitValue char) % 256 := by
  have shift (digit : UInt8) :
      (val <<< 4 + digit).toNat = (16 * val.toNat + digit.toNat) % 256 := by
    simp [UInt8.toNat_add, UInt8.toNat_shiftLeft, Nat.shiftLeft_eq]
    omega
  rcases isDigit with decimal | lower | upper
  · refine ⟨_, by rw [parseHexLoop, if_pos decimal], ?_⟩
    rw [shift, digitValue, if_pos decimal.2, UInt8.toNat_sub_of_le _ _ decimal.1]
  · have notDecimal : ¬char ≤ '9'.toUInt8 :=
      fun decimal => absurd (UInt8.le_trans lower.1 decimal) (by decide)
    refine ⟨_, by rw [parseHexLoop, if_neg (fun both => notDecimal both.2), if_pos lower], ?_⟩
    rw [shift, digitValue, if_neg notDecimal, if_pos lower.1, UInt8.toNat_add,
      UInt8.toNat_sub_of_le _ _ lower.1, Nat.add_mod_mod]
    rfl
  · have notDecimal : ¬char ≤ '9'.toUInt8 :=
      fun decimal => absurd (UInt8.le_trans upper.1 decimal) (by decide)
    have notLower : ¬ 'a'.toUInt8 ≤ char :=
      fun lower => absurd (UInt8.le_trans lower upper.2) (by decide)
    refine ⟨_, by rw [parseHexLoop, if_neg (fun both => notDecimal both.2),
      if_neg (fun both => notLower both.1), if_pos upper], ?_⟩
    rw [shift, digitValue, if_neg notDecimal, if_neg notLower, UInt8.toNat_add,
      UInt8.toNat_sub_of_le _ _ upper.1, Nat.add_mod_mod]
    rfl

theorem parseHexLoop_other (noDigit : ¬IsHexDigit char) (val : UInt8) :
    parseHexLoop val (char :: str) = val <<< 4 := by
  simp only [IsHexDigit, not_or] at noDigit
  rw [parseHexLoop, if_neg noDigit.1, if_neg noDigit.2.1, if_neg noDigit.2.2]

theorem toNat_parseHexLoop {val : UInt8} (start : val.toNat = number % 256) :
    (parseHexLoop val str).toNat = hexFrom number str % 256 := by
  induction str generalizing val number with
  | nil => exact start
  | cons char str ih =>
    by_cases isDigit : IsHexDigit char
    · rcases @parseHexLoop_digit char str isDigit val with ⟨next, step, value⟩
      rw [step, hexFrom_digit isDigit]
      apply ih
      omega
    · rw [parseHexLoop_other isDigit, hexFrom_other isDigit, UInt8.toNat_shiftLeft,
        Nat.shiftLeft_eq]
      simp
      omega

theorem toNat_parseHex (key : Bytes) : (parseHex key).toNat = hexNumber key % 256 := by
  have marked : (key.headD 0 = '0'.toUInt8 ∧
      (key.getD 1 0 = 'x'.toUInt8 ∨ key.getD 1 0 = 'X'.toUInt8)) ↔
      key.take 2 = ascii "0x" ∨ key.take 2 = ascii "0X" := by
    have small : ascii "0x" = ['0'.toUInt8, 'x'.toUInt8] := rfl
    have capital : ascii "0X" = ['0'.toUInt8, 'X'.toUInt8] := rfl
    rcases key with _ | ⟨first, _ | ⟨second, rest⟩⟩
    · decide
    · simp only [small, capital, List.headD_cons, List.getD_cons_succ, List.getD_nil]
      exact ⟨fun both => absurd both.2 (by decide), by simp⟩
    · simp [small, capital, and_or_left]
  rw [parseHex, hexNumber, if_congr marked rfl rfl]
  split_ifs
  · exact toNat_parseHexLoop rfl
  · exact toNat_parseHexLoop rfl

end Numbers

section Lines

variable {parser : Parser} {text key : Bytes}

inductive Section
  | outside
  | metadata
  | layout
deriving DecidableEq

def Section.after (current : Section) (text : Bytes) : Section :=
  if trim text = ascii "[metadata]" then .metadata
  else if trim text = ascii "[layout]" then .layout
  else current

def sectionAt (earlier : List Bytes) : Section := earlier.foldl Section.after .outside

/-- A line of the form `key=normal|shifted` that is no comment. -/
def MappingLine (text key : Bytes) : Prop :=
  ∃ left right, text = left ++ '='.toUInt8 :: right ∧ '='.toUInt8 ∉ left ∧ '|'.toUInt8 ∈ right ∧
    (left.dropWhile isBlank).headD '='.toUInt8 ≠ '#'.toUInt8 ∧ key = trim left

/-- `layout->normal[index] = normal` and `layout->shifted[index] = shifted`. -/
structure Store where
  index : ℕ
  normal : UInt8
  shifted : UInt8
deriving DecidableEq

def Store.apply (store : Store) (keys : ℕ → UInt8) : ℕ → UInt8 :=
  Function.update (Function.update keys store.index store.normal) (128 + store.index) store.shifted

def Parser.stores (parser : Parser) (text : Bytes) : Option Store :=
  match classify text with
  | .entry key value =>
    if parser.inMetadata then none
    else if parser.inLayout then
      (cut '|'.toUInt8 value).map fun pieces =>
        { index := (parseHex key).toNat
          normal := (parseEscape pieces.1).1
          shifted := (parseEscape pieces.2).1 }
    else none
  | _ => none

theorem keys_readLine : (parser.readLine text).layout.keys =
    (parser.stores text).elim parser.layout.keys fun store => store.apply parser.layout.keys := by
  rw [readLine_eq_classify, Parser.stores]
  cases classify text with
  | skipped => rfl
  | metadata => rfl
  | layout => rfl
  | entry key value =>
    simp only [Parser.enter, Parser.map]
    cases cut '|'.toUInt8 value <;> split_ifs <;> rfl

theorem Store.apply_of_ne {store : Store} {keys : ℕ → UInt8} {place : ℕ}
    (notNormal : place ≠ store.index) (notShifted : place ≠ 128 + store.index) :
    store.apply keys place = keys place := by
  rw [Store.apply, Function.update_of_ne notShifted, Function.update_of_ne notNormal]

theorem Section.after_eq (noZero : 0 ∉ text) (current : Section) :
    current.after text =
      match classify text with
      | .metadata => .metadata
      | .layout => .layout
      | _ => current := by
  have same {title : Bytes} (titleNoZero : 0 ∉ title) :
      strcmp (trim text) title = 0 ↔ trim text = title :=
    strcmp_eq_zero (zero_notMem_trim noZero) titleNoZero
  rw [Section.after, classify]
  by_cases isMetadata : trim text = ascii "[metadata]"
  · rw [if_pos isMetadata, isMetadata]
    rfl
  by_cases isLayout : trim text = ascii "[layout]"
  · rw [if_neg isMetadata, if_pos isLayout, isLayout]
    rfl
  rw [if_neg isMetadata, if_neg isLayout, if_neg (mt (same (by decide)).mp isMetadata),
    if_neg (mt (same (by decide)).mp isLayout)]
  cases cut '='.toUInt8 (trim text) <;> split_ifs <;> rfl

theorem classify_eq_entry_iff {value : Bytes} (noZero : 0 ∉ text) :
    classify text = .entry key value ↔
      ∃ left right, text = left ++ '='.toUInt8 :: right ∧ '='.toUInt8 ∉ left ∧
        (left.dropWhile isBlank).headD '='.toUInt8 ≠ '#'.toUInt8 ∧ key = trim left ∧
        value = trim right := by
  constructor
  · intro kind
    have hasMark : '='.toUInt8 ∈ trim text := by
      rw [classify] at kind
      by_contra noMark
      rw [cut_eq_none_iff.mpr noMark] at kind
      dsimp only at kind
      split_ifs at kind
    rcases List.eq_append_cons_of_mem (trim_subset hasMark) with ⟨left, right, rfl, noMark⟩
    by_cases starts : (left.dropWhile isBlank).headD '='.toUInt8 = '#'.toUInt8
    · have isComment : classify (left ++ '='.toUInt8 :: right) = .skipped := by
        apply classify_comment
        rw [trim_mark (by decide), headD_append_cons, starts]
      rw [isComment] at kind
      cases kind
    · rw [classify_entry noMark noZero starts] at kind
      injection kind with sameKey sameValue
      exact ⟨left, right, rfl, noMark, starts, sameKey.symm, sameValue.symm⟩
  · rintro ⟨left, right, rfl, noMark, starts, rfl, rfl⟩
    exact classify_entry noMark noZero starts

structure Parser.In (parser : Parser) (current : Section) : Prop where
  metadata : parser.inMetadata = decide (current = .metadata)
  layout : parser.inLayout = decide (current = .layout)

theorem Parser.In.readLine {current : Section} (isIn : parser.In current) (noZero : 0 ∉ text) :
    (parser.readLine text).In (current.after text) := by
  rw [readLine_eq_classify, current.after_eq noZero]
  cases classify text with
  | skipped => exact isIn
  | metadata => exact ⟨rfl, rfl⟩
  | layout => exact ⟨rfl, rfl⟩
  | entry key value =>
    simp only [Parser.enter, Parser.map]
    split_ifs
    · exact ⟨isIn.metadata, isIn.layout⟩
    · cases cut '|'.toUInt8 value with
      | none => exact isIn
      | some pieces => exact ⟨isIn.metadata, isIn.layout⟩
    · exact isIn

theorem exists_stores_iff {current : Section} {index : ℕ} (isIn : parser.In current)
    (noZero : 0 ∉ text) :
    (∃ store ∈ parser.stores text, store.index = index) ↔
      current = .layout ∧ ∃ key, MappingLine text key ∧ (parseHex key).toNat = index := by
  constructor
  · rintro ⟨store, member, rfl⟩
    rw [Option.mem_def, Parser.stores] at member
    split at member
    next key value kind =>
      split_ifs at member with inMetadata inLayout
      rcases Option.map_eq_some_iff.mp member with ⟨pieces, isCut, rfl⟩
      rcases (classify_eq_entry_iff noZero).mp kind with
        ⟨left, right, rfl, noMark, starts, rfl, rfl⟩
      have bar : '|'.toUInt8 ∈ trim right := by
        by_contra noBar
        rw [cut_eq_none_iff.mpr noBar] at isCut
        cases isCut
      rw [isIn.layout, decide_eq_true_eq] at inLayout
      refine ⟨inLayout, trim left, ?_, rfl⟩
      exact ⟨left, right, rfl, noMark, (mem_trim_iff (by decide)).mp bar, starts, rfl⟩
    next => cases member
  · rintro ⟨rfl, key, ⟨left, right, rfl, noMark, bar, starts, rfl⟩, rfl⟩
    cases isCut : cut '|'.toUInt8 (trim right) with
    | none => exact absurd ((mem_trim_iff (by decide)).mpr bar) (cut_eq_none_iff.mp isCut)
    | some pieces =>
      refine ⟨⟨_, (parseEscape pieces.1).1, (parseEscape pieces.2).1⟩, ?_, rfl⟩
      simp [Parser.stores, classify_entry noMark noZero starts, isIn.metadata, isIn.layout, isCut]

end Lines

section Files

/-- The lines of the first bytes of a file. -/
def fileLines (count : ℕ) (contents : Bytes) : List Bytes :=
  lines '\n'.toUInt8 maxLine (readString count contents)

/-- A line stores below 128 only, and changes at most one entry of each table. -/
structure Parser.StaysInside (parser : Parser) (text : Bytes) : Prop where
  below : ∀ store ∈ parser.stores text, store.index < 128
  changes : ∃ scancode < 128, ∀ place, place ≠ scancode → place ≠ 128 + scancode →
    (parser.readLine text).layout.keys place = parser.layout.keys place

def StoresInside (contents : Bytes) (layout : Layout) : Prop :=
  ∀ earlier text later, fileLines 4095 contents = earlier ++ text :: later →
    (earlier.foldl Parser.readLine (Parser.initial layout)).StaysInside text

def MapsKey (contents key : Bytes) : Prop :=
  ∃ earlier text later, fileLines 4095 contents = earlier ++ text :: later ∧
    sectionAt earlier = .layout ∧ MappingLine text key

variable {contents : Bytes} {layout : Layout}

theorem zero_notMem_fileLines {count : ℕ} : ∀ text ∈ fileLines count contents, 0 ∉ text := by
  intro text listed inside
  have read : 0 ∈ readString count contents := subset_of_mem_linesFrom listed inside
  exact absurd (List.mem_takeWhile_imp read) (by decide)

theorem foldl_readLine_in {earlier : List Bytes} (noZero : ∀ text ∈ earlier, 0 ∉ text) :
    (earlier.foldl Parser.readLine (Parser.initial layout)).In (sectionAt earlier) := by
  induction earlier using List.reverseRecOn with
  | nil => exact ⟨rfl, rfl⟩
  | append_singleton earlier text ih =>
    rw [sectionAt, List.foldl_concat, List.foldl_concat]
    apply Parser.In.readLine
    · exact ih fun text listed => noZero text (List.mem_append_left _ listed)
    · exact noZero text (by simp)

theorem staysInside_iff {parser : Parser} {text : Bytes} :
    parser.StaysInside text ↔ ∀ store ∈ parser.stores text, store.index < 128 := by
  refine ⟨Parser.StaysInside.below, fun below => ⟨below, ?_⟩⟩
  cases stored : parser.stores text with
  | none => exact ⟨0, by decide, fun place _ _ => by rw [keys_readLine, stored]; rfl⟩
  | some store =>
    refine ⟨store.index, below store stored, fun place notNormal notShifted => ?_⟩
    rw [keys_readLine, stored]
    exact Store.apply_of_ne notNormal notShifted

theorem exists_stores_at_iff {earlier later : List Bytes} {text : Bytes} {index : ℕ}
    (shape : fileLines 4095 contents = earlier ++ text :: later) :
    (∃ store ∈ (earlier.foldl Parser.readLine (Parser.initial layout)).stores text,
        store.index = index) ↔
      sectionAt earlier = .layout ∧ ∃ key, MappingLine text key ∧ hexNumber key % 256 = index := by
  have noZero := @zero_notMem_fileLines contents 4095
  rw [shape] at noZero
  have isIn := @foldl_readLine_in layout earlier fun text listed =>
    noZero text (List.mem_append_left _ listed)
  simp only [exists_stores_iff isIn (noZero text (by simp)), toNat_parseHex]

/-- `parse_layout_file` stays inside of its tables just when the last byte of the number of each
mapped key is below 128. -/
theorem storesInside_iff (contents : Bytes) (layout : Layout) :
    StoresInside contents layout ↔ ∀ key, MapsKey contents key → hexNumber key % 256 < 128 := by
  constructor
  · rintro inside key ⟨earlier, text, later, shape, isLayout, mapping⟩
    rcases (exists_stores_at_iff shape).mpr ⟨isLayout, key, mapping, rfl⟩ with ⟨store, member, same⟩
    rw [← same]
    exact (inside earlier text later shape).below store member
  · intro small earlier text later shape
    rw [staysInside_iff]
    intro store member
    rcases (exists_stores_at_iff shape).mp ⟨store, member, rfl⟩ with ⟨isLayout, key, mapping, same⟩
    rw [← same]
    exact small key ⟨earlier, text, later, shape, isLayout, mapping⟩

/-- `0x80=a|b` enters its first character for scancode 0 and its second one behind the layout. -/
theorem layout_stores_behind_tables :
    ¬StoresInside (ascii "[layout]\n0x80=a|b\n") Layout.zeroed ∧
      (parseLayoutFile (some (ascii "[layout]\n0x80=a|b\n")) Layout.zeroed).2.shifted 0 =
        'a'.toUInt8 ∧
      (parseLayoutFile (some (ascii "[layout]\n0x80=a|b\n")) Layout.zeroed).2.keys 256 =
        'b'.toUInt8 := by
  refine ⟨fun inside => ?_, by decide, by decide⟩
  have line := inside [ascii "[layout]"] (ascii "0x80=a|b") [] (by decide)
  exact absurd (line.below ⟨128, 'a'.toUInt8, 'b'.toUInt8⟩ (by decide)) (by decide)

end Files

end RamOS.Keyboard.Layouts
