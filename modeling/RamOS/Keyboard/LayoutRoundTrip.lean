import RamOS.Keyboard.LayoutLines

/-!
# Layouts written and read back

A table of keys is written in the format of the layout files, in which a byte stands for itself
if it is printable and is written as a hexadecimal escape otherwise.

A blank at the end of a line or at the front of a value is trimmed, a lone backslash starts an
escape, and the digits of a hexadecimal escape are read from the backslash on. In each of these
cases the byte is read as zero.
-/

namespace RamOS.Keyboard.Layouts

open CString TextLines

structure KeyEntry where
  scancode : UInt8
  normal : UInt8
  shifted : UInt8
  positive : 1 ≤ scancode
  atMost : scancode ≤ 0x7F
  normalNonzero : normal ≠ 0
  shiftedNonzero : shifted ≠ 0

structure KeyTable where
  entries : List KeyEntry
  distinct : (entries.map KeyEntry.scancode).Nodup

def hexDigit (value : ℕ) : UInt8 := (ascii "0123456789ABCDEF").getD value 0

def hexByte (byte : UInt8) : Bytes := [hexDigit (byte.toNat / 16), hexDigit (byte.toNat % 16)]

def Printable (byte : UInt8) : Prop := 0x20 ≤ byte ∧ byte ≤ 0x7E ∧ byte ≠ '|'.toUInt8

instance (byte : UInt8) : Decidable (Printable byte) := inferInstanceAs (Decidable (_ ∧ _))

def writeByte (byte : UInt8) : Bytes :=
  if Printable byte then [byte] else '\\'.toUInt8 :: 'x'.toUInt8 :: hexByte byte

def writeKey (scancode : UInt8) : Bytes := '0'.toUInt8 :: 'x'.toUInt8 :: hexByte scancode

def writeEntry (entry : KeyEntry) : Bytes :=
  writeKey entry.scancode ++ '='.toUInt8 :: (writeByte entry.normal ++
    '|'.toUInt8 :: writeByte entry.shifted)

def writeTable (table : KeyTable) : Bytes :=
  join '\n'.toUInt8 (ascii "[layout]" :: table.entries.map writeEntry)

def Plain (byte : UInt8) : Prop :=
  Printable byte ∧ byte ≠ ' '.toUInt8 ∧ byte ≠ '\\'.toUInt8

instance (byte : UInt8) : Decidable (Plain byte) := inferInstanceAs (Decidable (_ ∧ _))

def strippedByte (byte : UInt8) : Bytes := if byte = ' '.toUInt8 then [] else writeByte byte

def blanks (byte : UInt8) : Bytes := if byte = ' '.toUInt8 then [' '.toUInt8] else []

def readBack (byte : UInt8) : UInt8 := if Plain byte then byte else 0

variable {byte char : UInt8}

theorem mem_hexByte (listed : char ∈ hexByte byte) :
    char ∈ ascii "0123456789ABCDEF" := by
  have digits : ∀ value : Fin 16, hexDigit value ∈ ascii "0123456789ABCDEF" := by decide
  have small := byte.toNat_lt
  rcases List.mem_pair.mp listed with rfl | rfl
  · exact digits ⟨byte.toNat / 16, by omega⟩
  · exact digits ⟨byte.toNat % 16, by omega⟩

theorem parseHexLoop_hexDigit (val : UInt8) (str : Bytes) (digit : Fin 16) :
    parseHexLoop val (hexDigit digit :: str) =
      parseHexLoop (val <<< 4 + UInt8.ofNat digit) str := by
  have kinds : ∀ digit : Fin 16,
      (('0'.toUInt8 ≤ hexDigit digit ∧ hexDigit digit ≤ '9'.toUInt8) ∧
        hexDigit digit - '0'.toUInt8 = UInt8.ofNat digit) ∨
      (¬('0'.toUInt8 ≤ hexDigit digit ∧ hexDigit digit ≤ '9'.toUInt8) ∧
        ¬('a'.toUInt8 ≤ hexDigit digit ∧ hexDigit digit ≤ 'f'.toUInt8) ∧
        ('A'.toUInt8 ≤ hexDigit digit ∧ hexDigit digit ≤ 'F'.toUInt8) ∧
        hexDigit digit - 'A'.toUInt8 + 10 = UInt8.ofNat digit) := by decide
  rcases kinds digit with ⟨decimal, value⟩ | ⟨notDecimal, notLower, upper, value⟩
  · rw [parseHexLoop, if_pos decimal, value]
  · rw [parseHexLoop, if_neg notDecimal, if_neg notLower, if_pos upper, value]

theorem parseHex_writeKey (byte : UInt8) : parseHex (writeKey byte) = byte := by
  have small := byte.toNat_lt
  have high := parseHexLoop_hexDigit 0 [hexDigit (byte.toNat % 16)] ⟨byte.toNat / 16, by omega⟩
  have low := parseHexLoop_hexDigit ((0 : UInt8) <<< 4 + UInt8.ofNat (byte.toNat / 16)) []
    ⟨byte.toNat % 16, by omega⟩
  have marked : parseHex (writeKey byte) = parseHexLoop 0 (hexByte byte) := rfl
  rw [marked, hexByte, high, low, parseHexLoop]
  apply UInt8.toNat_inj.mp
  simp [UInt8.toNat_add, UInt8.toNat_shiftLeft, Nat.shiftLeft_eq]
  omega

def Visible (char : UInt8) : Prop := 0x21 ≤ char ∧ char ≤ 0x7E

instance (char : UInt8) : Decidable (Visible char) := inferInstanceAs (Decidable (_ ∧ _))

theorem Visible.not_isBlank (visible : Visible char) : ¬isBlank char := by
  have blanks : ∀ char : UInt8, isBlank char → ¬Visible char := by
    intro char blank
    simp only [isBlank, Bool.decide_or, Bool.or_eq_true, decide_eq_true_eq] at blank
    rcases blank with rfl | rfl <;> decide
  exact fun blank => blanks char blank visible

theorem Visible.not_isSpace (visible : Visible char) : ¬isSpace char := by
  have spaces : ∀ char : UInt8, isSpace char → ¬Visible char := by
    intro char space
    simp only [isSpace, Bool.decide_or, Bool.or_eq_true, decide_eq_true_eq] at space
    rcases space with rfl | rfl | rfl | rfl <;> decide
  exact fun space => spaces char space visible

theorem digit_visible (isDigit : char ∈ ascii "0123456789ABCDEF") :
    Visible char ∧ char ≠ '='.toUInt8 ∧ char ≠ '|'.toUInt8 := by
  have all : (ascii "0123456789ABCDEF").all
      (fun char => Visible char ∧ char ≠ '='.toUInt8 ∧ char ≠ '|'.toUInt8) = true := by decide
  exact of_decide_eq_true (List.all_eq_true.mp all char isDigit)

theorem mem_writeKey {scancode : UInt8} (listed : char ∈ writeKey scancode) :
    Visible char ∧ char ≠ '='.toUInt8 := by
  rcases List.mem_cons.mp listed with rfl | listed
  · decide
  rcases List.mem_cons.mp listed with rfl | listed
  · decide
  exact ⟨(digit_visible (mem_hexByte listed)).1, (digit_visible (mem_hexByte listed)).2.1⟩

theorem mem_writeByte (listed : char ∈ writeByte byte) :
    (Visible char ∨ byte = ' '.toUInt8 ∧ char = ' '.toUInt8) ∧ char ≠ '|'.toUInt8 := by
  rw [writeByte] at listed
  split at listed
  next printable =>
    rw [List.mem_singleton] at listed
    subst listed
    refine ⟨?_, printable.2.2⟩
    by_cases space : char = ' '.toUInt8
    · exact Or.inr ⟨space, space⟩
    · have above : ' '.toUInt8 < char := UInt8.lt_of_le_of_ne printable.1 (Ne.symm space)
      exact Or.inl ⟨above, printable.2.1⟩
  next =>
    rcases List.mem_cons.mp listed with rfl | listed
    · exact ⟨Or.inl (by decide), by decide⟩
    rcases List.mem_cons.mp listed with rfl | listed
    · exact ⟨Or.inl (by decide), by decide⟩
    have digit := digit_visible (mem_hexByte listed)
    exact ⟨Or.inl digit.1, digit.2.2⟩

theorem mem_strippedByte (listed : char ∈ strippedByte byte) :
    Visible char ∧ char ≠ '|'.toUInt8 := by
  rw [strippedByte] at listed
  split at listed
  next => cases listed
  next other =>
    rcases mem_writeByte listed with ⟨visible | ⟨space, _⟩, noMark⟩
    · exact ⟨visible, noMark⟩
    · exact absurd space other

theorem writeByte_eq (byte : UInt8) :
    writeByte byte = blanks byte ++ strippedByte byte ∧
      writeByte byte = strippedByte byte ++ blanks byte := by
  by_cases space : byte = ' '.toUInt8
  · subst space
    decide
  · simp [blanks, strippedByte, space]

theorem mem_blanks (listed : char ∈ blanks byte) : char = ' '.toUInt8 := by
  rw [blanks] at listed
  split at listed
  next => exact List.mem_singleton.mp listed
  next => cases listed

theorem parseEscape_hex (digits : Bytes) :
    (parseEscape ('\\'.toUInt8 :: 'x'.toUInt8 :: digits)).1 = 0 := by
  have noDigit : parseHex ('\\'.toUInt8 :: 'x'.toUInt8 :: digits) = 0 := rfl
  have escape : parseEscape ('\\'.toUInt8 :: 'x'.toUInt8 :: digits) =
      if digits.getD 0 0 ≠ 0 ∧ digits.getD 1 0 ≠ 0 then
        (parseHex ('\\'.toUInt8 :: 'x'.toUInt8 :: digits), 4)
      else (0, 2) := rfl
  rw [escape, noDigit]
  split <;> rfl

theorem parseEscape_strippedByte (byte : UInt8) :
    (parseEscape (strippedByte byte)).1 = readBack byte := by
  by_cases space : byte = ' '.toUInt8
  · subst space
    decide
  rw [strippedByte, if_neg space, writeByte]
  by_cases printable : Printable byte
  · rw [if_pos printable]
    by_cases backslash : byte = '\\'.toUInt8
    · subst backslash
      decide
    · have plain : Plain byte := ⟨printable, space, backslash⟩
      rw [readBack, if_pos plain, parseEscape, if_pos (by simpa using backslash)]
      rfl
  · have notPlain : ¬Plain byte := fun plain => printable plain.1
    rw [if_neg printable, readBack, if_neg notPlain, parseEscape_hex]

theorem trim_visible {text : Bytes} (nonempty : text ≠ [])
    (visible : ∀ char ∈ text, Visible char) : trim text = text := by
  have trimmed := @strip_append _ isBlank isSpace [] text [] nonempty (by simp)
    (fun char first => (visible char (List.mem_of_mem_head? first)).not_isBlank)
    (fun char last => (visible char (List.mem_of_getLast? last)).not_isSpace) (by simp)
  rwa [List.nil_append, List.append_nil] at trimmed

theorem trim_value (normal shifted : UInt8) :
    trim (writeByte normal ++ '|'.toUInt8 :: writeByte shifted) =
      strippedByte normal ++ '|'.toUInt8 :: strippedByte shifted := by
  have front : (writeByte normal).dropWhile isBlank = strippedByte normal := by
    rw [(writeByte_eq normal).1, List.dropWhile_append_of_pos, List.dropWhile_eq_self_iff]
    · intro nonempty
      exact (mem_strippedByte (List.getElem_mem nonempty)).1.not_isBlank
    · intro char listed
      rw [mem_blanks listed]
      decide
  have back : (writeByte shifted).rdropWhile isSpace = strippedByte shifted := by
    rw [List.rdropWhile, (writeByte_eq shifted).2, List.reverse_append,
      List.dropWhile_append_of_pos, List.dropWhile_eq_self_iff.mpr, List.reverse_reverse]
    · intro nonempty
      exact (mem_strippedByte (List.mem_reverse.mp (List.getElem_mem nonempty))).1.not_isSpace
    · intro char listed
      rw [mem_blanks (List.mem_reverse.mp listed)]
      decide
  rw [trim_mark (by decide), front, back]

theorem mem_writeEntry {entry : KeyEntry} (listed : char ∈ writeEntry entry) :
    Visible char ∨ char = ' '.toUInt8 := by
  have ofByte {byte : UInt8} (listed : char ∈ writeByte byte) :
      Visible char ∨ char = ' '.toUInt8 := by
    rcases (mem_writeByte listed).1 with visible | ⟨_, space⟩
    · exact Or.inl visible
    · exact Or.inr space
  rcases List.mem_append.mp listed with inKey | listed
  · exact Or.inl (mem_writeKey inKey).1
  rcases List.mem_cons.mp listed with rfl | listed
  · exact Or.inl (by decide)
  rcases List.mem_append.mp listed with inNormal | listed
  · exact ofByte inNormal
  rcases List.mem_cons.mp listed with rfl | inShifted
  · exact Or.inl (by decide)
  · exact ofByte inShifted

theorem zero_notMem_writeEntry (entry : KeyEntry) : 0 ∉ writeEntry entry := by
  intro zero
  rcases mem_writeEntry zero with visible | space
  · revert visible
    decide
  · revert space
    decide

def Layout.setKey (layout : Layout) (entry : KeyEntry) : Layout :=
  { layout with
    keys := Function.update
      (Function.update layout.keys entry.scancode.toNat (readBack entry.normal))
      (128 + entry.scancode.toNat) (readBack entry.shifted) }

theorem readLine_writeEntry {parser : Parser} (noMetadata : parser.inMetadata = false)
    (inLayout : parser.inLayout = true) (entry : KeyEntry) :
    parser.readLine (writeEntry entry) =
      { parser with layout := parser.layout.setKey entry } := by
  have key : trim (writeKey entry.scancode) = writeKey entry.scancode :=
    trim_visible (by simp [writeKey]) fun char listed => (mem_writeKey listed).1
  have noMark : '='.toUInt8 ∉ writeKey entry.scancode := fun listed => (mem_writeKey listed).2 rfl
  have starts : ((writeKey entry.scancode).dropWhile isBlank).headD '='.toUInt8 ≠
      '#'.toUInt8 := by
    rw [writeKey, List.dropWhile_cons_of_neg (by decide), List.headD_cons]
    decide
  have cutValue := @cut_append _ _ '|'.toUInt8 (strippedByte entry.normal)
    (strippedByte entry.shifted) fun listed => (mem_strippedByte listed).2 rfl
  rw [writeEntry, readLine_entry noMark (zero_notMem_writeEntry entry) starts, key, trim_value,
    Parser.enter, if_neg (by rw [noMetadata]; decide), if_pos inLayout, Parser.map,
    parseHex_writeKey, cutValue]
  dsimp only
  rw [parseEscape_strippedByte, parseEscape_strippedByte, Layout.setKey]

section Keys

variable (layout : Layout) (entry : KeyEntry)

theorem Layout.normal_setKey :
    (layout.setKey entry).normal entry.scancode.toNat = readBack entry.normal := by
  simp only [Layout.normal, Layout.setKey]
  rw [Function.update_of_ne (by omega), Function.update_self]

theorem Layout.shifted_setKey :
    (layout.setKey entry).shifted entry.scancode.toNat = readBack entry.shifted := by
  simp only [Layout.shifted, Layout.setKey, Function.update_self]

variable {layout entry}

theorem Layout.setKey_of_ne {scancode : ℕ} (word : scancode < 128)
    (other : scancode ≠ entry.scancode.toNat) :
    (layout.setKey entry).normal scancode = layout.normal scancode ∧
      (layout.setKey entry).shifted scancode = layout.shifted scancode := by
  have small : entry.scancode.toNat < 128 := Nat.lt_succ_of_le entry.atMost
  simp only [Layout.normal, Layout.shifted, Layout.setKey]
  constructor
  · rw [Function.update_of_ne (by omega), Function.update_of_ne other]
  · rw [Function.update_of_ne (by omega), Function.update_of_ne (by omega)]

end Keys

theorem foldl_readLine {entries : List KeyEntry} (distinct : (entries.map KeyEntry.scancode).Nodup)
    {parser : Parser} (noMetadata : parser.inMetadata = false) (inLayout : parser.inLayout = true) :
    ∃ layout, ((entries.map writeEntry).foldl Parser.readLine parser).layout = layout ∧
      (∀ entry ∈ entries, layout.normal entry.scancode.toNat = readBack entry.normal ∧
        layout.shifted entry.scancode.toNat = readBack entry.shifted) ∧
      ∀ scancode < 128, (∀ entry ∈ entries, scancode ≠ entry.scancode.toNat) →
        layout.normal scancode = parser.layout.normal scancode ∧
          layout.shifted scancode = parser.layout.shifted scancode := by
  induction entries generalizing parser with
  | nil => exact ⟨_, rfl, by simp, fun _ _ _ => ⟨rfl, rfl⟩⟩
  | cons entry entries ih =>
    rw [List.map_cons, List.nodup_cons] at distinct
    rw [List.map_cons, List.foldl_cons, readLine_writeEntry noMetadata inLayout]
    rcases @ih distinct.2 { parser with layout := parser.layout.setKey entry } noMetadata
      inLayout with ⟨layout, result, entered, kept⟩
    have fresh : ∀ later ∈ entries, entry.scancode.toNat ≠ later.scancode.toNat := by
      intro later listed same
      exact distinct.1 (List.mem_map.mpr ⟨later, listed, (UInt8.toNat_inj.mp same).symm⟩)
    refine ⟨layout, result, ?_, ?_⟩
    · intro found listed
      rcases List.mem_cons.mp listed with rfl | listed
      · have own := kept found.scancode.toNat (Nat.lt_succ_of_le found.atMost) fresh
        rw [own.1, own.2]
        exact ⟨Layout.normal_setKey _ _, Layout.shifted_setKey _ _⟩
      · exact entered found listed
    · intro scancode word others
      have later := kept scancode word fun entry listed =>
        others entry (List.mem_cons_of_mem _ listed)
      have own := @Layout.setKey_of_ne parser.layout entry scancode word
        (others entry List.mem_cons_self)
      exact ⟨later.1.trans own.1, later.2.trans own.2⟩

theorem length_writeByte_le (byte : UInt8) : (writeByte byte).length ≤ 4 := by
  rw [writeByte]
  split <;> simp [hexByte]

theorem length_writeEntry_le (entry : KeyEntry) : (writeEntry entry).length ≤ maxLine := by
  have normal := length_writeByte_le entry.normal
  have shifted := length_writeByte_le entry.shifted
  simp only [writeEntry, writeKey, hexByte, List.length_append, List.length_cons, List.length_nil,
    maxLine]
  omega

theorem lines_writeTable (table : KeyTable) :
    lines '\n'.toUInt8 maxLine (writeTable table) =
      ascii "[layout]" :: table.entries.map writeEntry := by
  refine lines_join (by decide) ?_
  intro part listed
  rcases List.mem_cons.mp listed with rfl | listed
  · decide
  · rcases List.mem_map.mp listed with ⟨entry, _, rfl⟩
    refine ⟨fun newline => ?_, length_writeEntry_le entry⟩
    rcases mem_writeEntry newline with visible | space
    · revert visible
      decide
    · revert space
      decide

theorem zero_notMem_writeTable (table : KeyTable) : 0 ∉ writeTable table := by
  intro zero
  rcases List.mem_flatMap.mp zero with ⟨part, listed, zero⟩
  rcases List.mem_append.mp zero with zero | zero
  · rcases List.mem_cons.mp listed with rfl | listed
    · revert zero
      decide
    · rcases List.mem_map.mp listed with ⟨entry, _, rfl⟩
      exact zero_notMem_writeEntry entry zero
  · revert zero
    decide

theorem parseLayoutFile_writeTable {table : KeyTable} (short : (writeTable table).length < 4096)
    (layout : Layout) :
    ∃ read, parseLayoutFile (some (writeTable table)) layout = (0, read) ∧
      (∀ entry ∈ table.entries, read.normal entry.scancode.toNat = readBack entry.normal ∧
        read.shifted entry.scancode.toNat = readBack entry.shifted) ∧
      ∀ scancode < 128, (∀ entry ∈ table.entries, scancode ≠ entry.scancode.toNat) →
        read.normal scancode = 0 ∧ read.shifted scancode = 0 := by
  have nonempty : (writeTable table).take 4095 ≠ [] := by
    rw [List.take_of_length_le (by omega)]
    exact List.cons_ne_nil _ _
  have titleLine : (Parser.initial layout).readLine (ascii "[layout]") =
      { Parser.initial layout with inLayout := true } := rfl
  rcases @foldl_readLine table.entries table.distinct
    { Parser.initial layout with inLayout := true } rfl rfl with ⟨read, result, entered, kept⟩
  refine ⟨read, ?_, entered, fun scancode word others => ?_⟩
  · rw [parseLayoutFile, if_neg nonempty,
      readString_eq (by omega) (zero_notMem_writeTable table), lines_writeTable, List.foldl_cons,
      titleLine, result]
  · rw [(kept scancode word others).1, (kept scancode word others).2]
    exact ⟨if_pos (by omega), if_pos (by omega)⟩

theorem readBack_eq_iff (nonzero : byte ≠ 0) :
    readBack byte = byte ↔ Plain byte := by
  rw [readBack]
  split
  next plain => exact ⟨fun _ => plain, fun _ => rfl⟩
  next notPlain => exact ⟨fun zero => absurd zero.symm nonzero, fun plain => absurd plain notPlain⟩

/-- A written table is read back exactly if every byte in it is a printable character other than a
blank, a bar and a backslash. -/
theorem parseLayoutFile_roundTrip_iff (table : KeyTable) (short : (writeTable table).length < 4096)
    (layout : Layout) :
    (∃ read, parseLayoutFile (some (writeTable table)) layout = (0, read) ∧
      (∀ entry ∈ table.entries, read.normal entry.scancode.toNat = entry.normal ∧
        read.shifted entry.scancode.toNat = entry.shifted) ∧
      ∀ scancode < 128, (∀ entry ∈ table.entries, scancode ≠ entry.scancode.toNat) →
        read.normal scancode = 0 ∧ read.shifted scancode = 0) ↔
      ∀ entry ∈ table.entries, Plain entry.normal ∧ Plain entry.shifted := by
  rcases parseLayoutFile_writeTable short layout with ⟨read, result, entered, kept⟩
  constructor
  · rintro ⟨other, sameResult, returned, _⟩ entry listed
    have same : read = other := by
      rw [result, Prod.mk.injEq] at sameResult
      exact sameResult.2
    subst same
    rw [← readBack_eq_iff entry.normalNonzero, ← readBack_eq_iff entry.shiftedNonzero,
      ← (entered entry listed).1, ← (entered entry listed).2]
    exact returned entry listed
  · intro plain
    refine ⟨read, result, ?_, kept⟩
    intro entry listed
    rw [(entered entry listed).1, (entered entry listed).2]
    exact ⟨(readBack_eq_iff entry.normalNonzero).mpr (plain entry listed).1,
      (readBack_eq_iff entry.shiftedNonzero).mpr (plain entry listed).2⟩

def letterTable : KeyTable where
  entries :=
    [⟨0x1E, 'a'.toUInt8, 'A'.toUInt8, by decide, by decide, by decide, by decide⟩,
      ⟨0x0D, '='.toUInt8, '+'.toUInt8, by decide, by decide, by decide, by decide⟩]
  distinct := by decide

theorem letterTable_roundTrip :
    ∃ read, parseLayoutFile (some (writeTable letterTable)) Layout.zeroed = (0, read) ∧
      (∀ entry ∈ letterTable.entries, read.normal entry.scancode.toNat = entry.normal ∧
        read.shifted entry.scancode.toNat = entry.shifted) ∧
      ∀ scancode < 128, (∀ entry ∈ letterTable.entries, scancode ≠ entry.scancode.toNat) →
        read.normal scancode = 0 ∧ read.shifted scancode = 0 :=
  (parseLayoutFile_roundTrip_iff letterTable (by decide) Layout.zeroed).mpr (by decide)

/-- The keys of the layout files for the blank, the backslash and escape. -/
def shippedTable : KeyTable where
  entries :=
    [⟨0x39, ' '.toUInt8, ' '.toUInt8, by decide, by decide, by decide, by decide⟩,
      ⟨0x2B, '\\'.toUInt8, '!'.toUInt8, by decide, by decide, by decide, by decide⟩,
      ⟨0x01, 0x1B, 0x1B, by decide, by decide, by decide, by decide⟩]
  distinct := by decide

/-- None of the three keys is read back: each gives zero. -/
theorem shippedTable_lost :
    (writeTable shippedTable).length < 4096 ∧
      (parseLayoutFile (some (writeTable shippedTable)) Layout.zeroed).1 = 0 ∧
      ∀ entry ∈ shippedTable.entries,
        (parseLayoutFile (some (writeTable shippedTable)) Layout.zeroed).2.normal
          entry.scancode.toNat = 0 ∧ entry.normal ≠ 0 := by
  decide

end RamOS.Keyboard.Layouts
