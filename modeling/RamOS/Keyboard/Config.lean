import RamOS.Keyboard.LayoutLines
import RamOS.Libsys.Snprintf

/-!
# The saved choice of a keyboard layout

The kernel and `kbmap` both write the code of the layout in use to
`/etc/keyboard/active.conf`, and both read it back from there. Each program has its
own writer and its own reader. The kernel's reader copies 31 bytes into an array of 32
and leaves the last byte as it was, which is always zero.
-/

namespace RamOS.Keyboard.Layouts

open ByteMemory CString TextLines
open Snprintf (expand)

/-- `current_layout_code`, an array of 32 bytes whose last byte stays zero. -/
structure CodeArray where
  bytes : Memory
  terminated : bytes 31 = 0

namespace CodeArray

def text (array : CodeArray) : Bytes := stringIn array.bytes 0 32

def initial : CodeArray := ⟨place 0 (ascii "en_US"), rfl⟩

def reset (array : CodeArray) : CodeArray where
  bytes := strcpy array.bytes 0 (ascii "en_US")
  terminated := by
    have behind : (31 : ℕ) ∉ range 0 ((ascii "en_US").length + 1) := by
      rw [mem_range]
      decide
    rw [strcpy_eqOn array.bytes 0 (ascii "en_US") behind]
    exact array.terminated

def copy (array : CodeArray) (src : Bytes) : CodeArray where
  bytes := strncpy array.bytes 0 src 31
  terminated := by
    by_cases short : src.length < 31
    · exact @strncpy_apply_end array.bytes 0 31 src short
    · exact (@strncpy_apply_of_le array.bytes 0 31 src (by omega)).trans array.terminated

end CodeArray

/-- The loop of `my_snprintf`, from the text that is already in the buffer. -/
def mySnprintfLoop (size : ℕ) : Bytes → List Bytes → Bytes → Bytes
  | [], _, str => str
  | [char], _, str => if str.length < size - 1 then str ++ [char] else str
  | char :: next :: format, args, str =>
    if str.length < size - 1 then
      if char = '%'.toUInt8 ∧ next = 's'.toUInt8 then
        mySnprintfLoop size format args.tail
          (str ++ (args.headD []).take (size - 1 - str.length))
      else mySnprintfLoop size (next :: format) args (str ++ [char])
    else str

/-- `keyboard_save_config`: the returned code, and what is written if the file opens. -/
def keyboardSaveConfig (opens : Bool) (currentLayoutCode : CodeArray) : ℤ × Option Bytes :=
  if opens then
    (0, some (mySnprintfLoop 256 (ascii "# ramOS Keyboard Configuration\nlayout=%s\n")
      [currentLayoutCode.text] []))
  else (-1, none)

/-- `keyboard_set_active_layout` for the codes of the loaded layouts. -/
def keyboardSetActiveLayout (codes : List Bytes) (code : Bytes)
    (currentLayoutCode : CodeArray) : ℤ × CodeArray :=
  if codes.any fun loaded => strcmp loaded code = 0 then (0, currentLayoutCode.copy code)
  else (-1, currentLayoutCode)

def setLayout (codes : List Bytes) (opens : Bool) (code : Bytes) :
    ℤ × Option Bytes :=
  if codes.any fun listed => strcmp listed code = 0 then
    if opens then
      (0, some (ascii "# ramOS Keyboard Configuration\nlayout=" ++ code ++ ascii "\n"))
    else (-1, none)
  else (-1, none)

def nextLine (text : Bytes) : Bytes := (text.dropWhile (· ≠ '\n'.toUInt8)).drop 1

theorem length_nextLine_le (text : Bytes) : (nextLine text).length ≤ text.length - 1 := by
  have shorter := (List.dropWhile_sublist (l := text) (· ≠ '\n'.toUInt8)).length_le
  rw [nextLine, List.length_drop]
  omega

def layoutValue (text : Bytes) : Option Bytes :=
  if _more : text = [] then none
  else if strncmp text (ascii "layout=") 7 = 0 then
    some ((text.drop 7).takeWhile fun char => char ≠ '\n'.toUInt8 ∧ char ≠ '\r'.toUInt8)
  else layoutValue (nextLine text)
termination_by text.length
decreasing_by
  have positive := List.length_pos_iff.mpr _more
  have shorter := length_nextLine_le text
  omega

def keyboardLoadConfig (file : Option Bytes) (currentLayoutCode : CodeArray) : CodeArray :=
  match file with
  | none => currentLayoutCode.reset
  | some contents =>
    if contents.take 255 = [] then currentLayoutCode
    else
      match layoutValue (readString 255 contents) with
      | none => currentLayoutCode
      | some value => currentLayoutCode.copy (trim value)

def getCurrentLayout (file : Option Bytes) (codeBuf : Memory) (size : ℕ) : Memory :=
  match file with
  | none => strcpy codeBuf 0 (ascii "en_US")
  | some contents =>
    if contents.take 255 = [] then strcpy codeBuf 0 (ascii "en_US")
    else
      match layoutValue (readString 255 contents) with
      | none => strcpy codeBuf 0 (ascii "en_US")
      | some value =>
        write8 (strncpy codeBuf 0 (value.dropWhile isBlank) (size - 1)) (size - 1) 0

/-- At most 31 characters, none of which ends a line or is removed by the readers. -/
structure ValidCode (code : Bytes) : Prop where
  short : code.length ≤ 31
  noZero : 0 ∉ code
  noSpace : ∀ char ∈ code, isSpace char = false

def configText (code : Bytes) : Bytes :=
  ascii "# ramOS Keyboard Configuration\nlayout=" ++ code ++ ascii "\n"

def WrittenFor (code text : Bytes) : Prop :=
  (∃ array : CodeArray, array.text = code ∧ (keyboardSaveConfig true array).2 = some text) ∨
    ∃ codes, (setLayout codes true code).2 = some text

theorem mySnprintfLoop_eq (size : ℕ) (format : Bytes) (args : List Bytes)
    (str : Bytes) : mySnprintfLoop size format args str =
      str ++ (expand format args).take (size - 1 - str.length) := by
  fun_induction expand format args generalizing str with
  | case1 args => simp [mySnprintfLoop]
  | case2 char args =>
    rw [mySnprintfLoop]
    by_cases room : str.length < size - 1
    · rw [if_pos room, List.take_of_length_le (by simp; omega)]
    · rw [if_neg room, Nat.sub_eq_zero_of_le (by omega), List.take_zero, List.append_nil]
  | case3 char next format args isDirective ih =>
    rw [mySnprintfLoop, if_pos isDirective]
    by_cases room : str.length < size - 1
    · have rest : size - 1 - (str.length + min (size - 1 - str.length) (args.headD []).length) =
          size - 1 - str.length - (args.headD []).length := by omega
      rw [if_pos room, ih, List.take_append, List.append_assoc, List.length_append,
        List.length_take, rest]
    · rw [if_neg room, Nat.sub_eq_zero_of_le (by omega), List.take_zero, List.append_nil]
  | case4 char next format args literal ih =>
    rw [mySnprintfLoop, if_neg literal]
    by_cases room : str.length < size - 1
    · have count : size - 1 - str.length = size - 1 - (str.length + 1) + 1 := by omega
      rw [if_pos room, ih, List.append_assoc, List.singleton_append, List.length_append,
        List.length_singleton, count, List.take_succ_cons]
    · rw [if_neg room, Nat.sub_eq_zero_of_le (by omega), List.take_zero, List.append_nil]

theorem keyboardSaveConfig_eq (array : CodeArray) (short : array.text.length ≤ 31) :
    keyboardSaveConfig true array = (0, some (configText array.text)) := by
  have expanded : expand (ascii "# ramOS Keyboard Configuration\nlayout=%s\n") [array.text] =
      configText array.text := rfl
  have fits : (configText array.text).length ≤ 256 - 1 - ([] : Bytes).length := by
    simp only [configText, List.length_append]
    exact Nat.le_trans (Nat.add_le_add_right (Nat.add_le_add_left short _) _) (by decide)
  rw [keyboardSaveConfig, if_pos rfl, mySnprintfLoop_eq, expanded, List.nil_append,
    List.take_of_length_le fits]

variable {code : Bytes}

theorem WrittenFor.text_eq {text : Bytes} (written : WrittenFor code text)
    (short : code.length ≤ 31) : text = configText code := by
  rcases written with ⟨array, rfl, saved⟩ | ⟨codes, stored⟩
  · rw [keyboardSaveConfig_eq array short] at saved
    exact (Option.some.inj saved).symm
  · rw [setLayout] at stored
    split at stored
    next => exact (Option.some.inj stored).symm
    next => exact absurd stored (by simp)

theorem configText_eq (code : Bytes) :
    configText code = ascii "# ramOS Keyboard Configuration" ++
      '\n'.toUInt8 :: (ascii "layout=" ++ code ++ ascii "\n") := by
  have header : ascii "# ramOS Keyboard Configuration\nlayout=" =
      ascii "# ramOS Keyboard Configuration" ++ '\n'.toUInt8 :: ascii "layout=" := by decide
  rw [configText, header, List.append_assoc, List.append_assoc, List.cons_append,
    List.append_assoc]

theorem nextLine_append {part rest : Bytes} (noNewline : '\n'.toUInt8 ∉ part) :
    nextLine (part ++ '\n'.toUInt8 :: rest) = rest := by
  rw [nextLine, List.dropWhile_append_of_pos (ne_of_absent noNewline)]
  simp

theorem layoutValue_configText (valid : ValidCode code) :
    layoutValue (configText code) = some code := by
  have inLine : ∀ char ∈ code,
      decide (char ≠ '\n'.toUInt8 ∧ char ≠ '\r'.toUInt8) = true := by
    intro char listed
    have kept := valid.noSpace char listed
    simp only [isSpace, decide_eq_false_iff_not, not_or] at kept
    exact decide_eq_true ⟨kept.2.2.1, kept.2.2.2⟩
  have keyLength : 7 = (ascii "layout=").length := by decide
  have comment : ¬ strncmp (configText code) (ascii "layout=") 7 = 0 := by
    rw [keyLength, strncmp_length_eq_zero (by decide)]
    rintro ⟨rest, shape⟩
    have heads : some 'l'.toUInt8 = some '#'.toUInt8 := congrArg List.head? shape
    exact absurd heads (by decide)
  have setting : strncmp (ascii "layout=" ++ code ++ ascii "\n") (ascii "layout=") 7 = 0 := by
    rw [keyLength, strncmp_length_eq_zero (by decide), List.append_assoc]
    exact List.prefix_append _ _
  have value : (ascii "layout=" ++ code ++ ascii "\n").drop 7 = code ++ ascii "\n" := rfl
  have first : configText code ≠ [] := List.cons_ne_nil _ _
  have second : ascii "layout=" ++ code ++ ascii "\n" ≠ [] := List.cons_ne_nil _ _
  rw [layoutValue, dif_neg first, if_neg comment, configText_eq, nextLine_append (by decide),
    layoutValue, dif_neg second, if_pos setting, value, List.takeWhile_append_of_pos inLine]
  exact congrArg some (List.append_nil code)

theorem readString_configText (valid : ValidCode code) :
    (configText code).take 255 ≠ [] ∧ readString 255 (configText code) = configText code := by
  have fits : (configText code).length ≤ 255 := by
    have short := valid.short
    have lengths : (configText code).length = 38 + (code.length + 1) := by
      simp only [configText_eq, List.length_append, List.length_cons]
      have first : (ascii "# ramOS Keyboard Configuration").length = 30 := by decide
      have second : (ascii "layout=").length = 7 := by decide
      have last : (ascii "\n").length = 1 := by decide
      omega
    omega
  have noZero : 0 ∉ configText code := by
    intro listed
    simp only [configText_eq, List.mem_append, List.mem_cons] at listed
    rcases listed with first | isNewline | (second | inCode) | last
    · exact absurd first (by decide)
    · exact absurd isNewline (by decide)
    · exact absurd second (by decide)
    · exact valid.noZero inCode
    · exact absurd last (by decide)
  rw [List.take_of_length_le fits]
  exact ⟨List.cons_ne_nil _ _, readString_eq fits noZero⟩

theorem ValidCode.not_isBlank (valid : ValidCode code) {char : UInt8} (listed : char ∈ code) :
    ¬isBlank char := by
  intro blank
  have space := isBlank_imp_isSpace blank
  rw [valid.noSpace char listed] at space
  cases space

theorem ValidCode.dropWhile_isBlank (valid : ValidCode code) :
    code.dropWhile isBlank = code := by
  cases code with
  | nil => rfl
  | cons char code => exact List.dropWhile_cons_of_neg (valid.not_isBlank List.mem_cons_self)

theorem ValidCode.trim_eq (valid : ValidCode code) : trim code = code := by
  rw [trim, strip, valid.dropWhile_isBlank, List.rdropWhile_eq_self_iff]
  intro nonempty
  rw [valid.noSpace _ (List.getLast_mem nonempty)]
  exact Bool.false_ne_true

theorem stringIn_field {bytes : Memory} (valid : ValidCode code)
    (filled : ∀ offset < 31, bytes offset = code.getD offset 0) (ended : bytes 31 = 0) :
    stringIn bytes 0 32 = code := by
  have short := valid.short
  refine stringIn_eq (load_eq fun offset inside => ?_) valid.noZero (by omega)
  rw [List.length_append, List.length_singleton] at inside
  rw [Nat.zero_add, getD_append_zero]
  by_cases last : offset = 31
  · have absent : code.length ≤ offset := by omega
    rw [List.getD_eq_getElem?_getD, List.getElem?_eq_none absent, last]
    exact ended
  · exact filled offset (by omega)

/-- Whichever program has written the text for a code, the kernel and `kbmap` both read that code
from it, whatever array and buffer held before. -/
theorem layout_code_round_trip {code text : Bytes} (valid : ValidCode code)
    (written : WrittenFor code text) (earlier : CodeArray) (codeBuf : Memory) :
    (keyboardLoadConfig (some text) earlier).text = code ∧
      stringIn (getCurrentLayout (some text) codeBuf 32) 0 32 = code := by
  rcases readString_configText valid with ⟨nonempty, whole⟩
  rw [written.text_eq valid.short]
  simp only [keyboardLoadConfig, getCurrentLayout, if_neg nonempty, whole,
    layoutValue_configText valid, valid.trim_eq, valid.dropWhile_isBlank]
  constructor
  · refine stringIn_field valid (fun offset inside => ?_) (earlier.copy code).terminated
    have copied := @strncpy_apply earlier.bytes 0 offset 31 code inside
    rwa [Nat.zero_add] at copied
  · refine stringIn_field valid (fun offset inside => ?_) (write8_same _ _ _)
    have copied := @strncpy_apply codeBuf 0 offset 31 code inside
    rw [Nat.zero_add] at copied
    exact (write8_apply_of_ne (by omega)).trans copied

def longCode : Bytes := ascii "en_US_variant_with_a_longer_cod"

theorem layout_code_round_trip_longCode :
    ValidCode longCode ∧ WrittenFor longCode (configText longCode) ∧
      (keyboardLoadConfig (some (configText longCode)) .initial).text = longCode ∧
      stringIn (getCurrentLayout (some (configText longCode)) (fun _ => 7) 32) 0 32 = longCode := by
  have printable : longCode.all (fun char => !isSpace char) = true := by decide
  have valid : ValidCode longCode := by
    refine ⟨by decide, by decide, fun char listed => ?_⟩
    simpa using List.all_eq_true.mp printable char listed
  have written : WrittenFor longCode (configText longCode) := .inr ⟨[longCode], by decide⟩
  exact ⟨valid, written, layout_code_round_trip valid written .initial fun _ => 7⟩

end RamOS.Keyboard.Layouts
