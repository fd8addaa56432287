import RamOS.Lib.CString
import RamOS.Lib.TextLines

/-!
# Reading a keyboard layout

`parse_layout_file` reads a layout from a text of sections and of lines `key=value`. A string in
a buffer is the list of the bytes before its terminator. The two tables of a layout are kept as
one range of bytes: a scancode from 128 on goes from the first table into the second, and from
the second one behind the layout.
-/

namespace RamOS.Keyboard.Layouts

open CString TextLines

/-- The description of a layout: the first fields of `keyboard_layout_runtime_t`. -/
structure LayoutInfo where
  name : Bytes
  code : Bytes
  variant : Bytes
  description : Bytes
deriving DecidableEq, Repr

/-- `keyboard_layout_runtime_t`; `keys` are the bytes from `normal` on. -/
structure Layout extends LayoutInfo where
  keys : ℕ → UInt8

def Layout.normal (layout : Layout) (scancode : ℕ) : UInt8 := layout.keys scancode

def Layout.shifted (layout : Layout) (scancode : ℕ) : UInt8 := layout.keys (128 + scancode)

def LayoutInfo.zeroed : LayoutInfo where
  name := []
  code := []
  variant := []
  description := []

def Layout.zeroed : Layout where
  toLayoutInfo := LayoutInfo.zeroed
  keys := fun _ => 0

/-- `memset(layout, 0, sizeof(*layout))`: what lies behind the tables is no part of the layout. -/
def Layout.cleared (layout : Layout) : Layout where
  toLayoutInfo := LayoutInfo.zeroed
  keys := fun index => if index < 256 then 0 else layout.keys index

def LayoutInfo.store (info : LayoutInfo) (key value : Bytes) : LayoutInfo :=
  if strcmp key (ascii "name") = 0 then { info with name := value.take 63 }
  else if strcmp key (ascii "code") = 0 then { info with code := value.take 31 }
  else if strcmp key (ascii "variant") = 0 then { info with variant := value.take 31 }
  else if strcmp key (ascii "description") = 0 then { info with description := value.take 127 }
  else info

/-- The loop of `parse_hex`: a character that is no digit ends it after the shift. -/
def parseHexLoop : UInt8 → Bytes → UInt8
  | val, [] => val
  | val, char :: str =>
    if '0'.toUInt8 ≤ char ∧ char ≤ '9'.toUInt8 then
      parseHexLoop (val <<< 4 + (char - '0'.toUInt8)) str
    else if 'a'.toUInt8 ≤ char ∧ char ≤ 'f'.toUInt8 then
      parseHexLoop (val <<< 4 + (char - 'a'.toUInt8 + 10)) str
    else if 'A'.toUInt8 ≤ char ∧ char ≤ 'F'.toUInt8 then
      parseHexLoop (val <<< 4 + (char - 'A'.toUInt8 + 10)) str
    else val <<< 4

def parseHex (str : Bytes) : UInt8 :=
  if str.headD 0 = '0'.toUInt8 ∧
      (str.getD 1 0 = 'x'.toUInt8 ∨ str.getD 1 0 = 'X'.toUInt8) then
    parseHexLoop 0 (str.drop 2)
  else parseHexLoop 0 str

/-- `parse_escape`: the character, and the length that is stored through `len`. -/
def parseEscape (str : Bytes) : UInt8 × ℕ :=
  if str.headD 0 ≠ '\\'.toUInt8 then (str.headD 0, 1)
  else
    let escaped := str.getD 1 0
    if escaped = 'n'.toUInt8 then ('\n'.toUInt8, 2)
    else if escaped = 't'.toUInt8 then ('\t'.toUInt8, 2)
    else if escaped = 'r'.toUInt8 then ('\r'.toUInt8, 2)
    else if escaped = 'b'.toUInt8 then ('\x08'.toUInt8, 2)
    else if escaped = '0'.toUInt8 then (0, 2)
    else if escaped = '\\'.toUInt8 then ('\\'.toUInt8, 2)
    else if escaped = 'x'.toUInt8 then
      if str.getD 2 0 ≠ 0 ∧ str.getD 3 0 ≠ 0 then (parseHex str, 4) else (0, 2)
    else (escaped, 2)

def isBlank (char : UInt8) : Bool := char = ' '.toUInt8 ∨ char = '\t'.toUInt8

def isSpace (char : UInt8) : Bool :=
  char = ' '.toUInt8 ∨ char = '\t'.toUInt8 ∨ char = '\n'.toUInt8 ∨ char = '\r'.toUInt8

def trim (str : Bytes) : Bytes := strip isBlank isSpace str

structure Parser where
  inMetadata : Bool
  inLayout : Bool
  layout : Layout

def Parser.initial (layout : Layout) : Parser where
  inMetadata := false
  inLayout := false
  layout := layout.cleared

/-- Enter the mapping of a scancode, `0x1E=a|A`. -/
def Parser.map (parser : Parser) (key value : Bytes) : Parser :=
  let scancode := (parseHex key).toNat
  match cut '|'.toUInt8 value with
  | none => parser
  | some (normal, shifted) =>
    let keys := Function.update parser.layout.keys scancode (parseEscape normal).1
    { parser with
      layout :=
        { parser.layout with
          keys := Function.update keys (128 + scancode) (parseEscape shifted).1 } }

def Parser.readLine (parser : Parser) (text : Bytes) : Parser :=
  let currentLine := trim text
  if currentLine.headD 0 = 0 ∨ currentLine.headD 0 = '#'.toUInt8 then parser
  else if strcmp currentLine (ascii "[metadata]") = 0 then
    { parser with inMetadata := true, inLayout := false }
  else if strcmp currentLine (ascii "[layout]") = 0 then
    { parser with inMetadata := false, inLayout := true }
  else
    match cut '='.toUInt8 currentLine with
    | none => parser
    | some (left, right) =>
      let key := trim left
      let value := trim right
      if parser.inMetadata then
        { parser with
          layout :=
            { parser.layout with
              toLayoutInfo := parser.layout.toLayoutInfo.store key value } }
      else if parser.inLayout then parser.map key value
      else parser

/-- The string that `vfs_read` of at most `count` bytes leaves in a buffer. -/
def readString (count : ℕ) (contents : Bytes) : Bytes :=
  (contents.take count).takeWhile (· ≠ 0)

def maxLine : ℕ := 255

def parseLayoutFile (file : Option Bytes) (layout : Layout) : ℤ × Layout :=
  match file with
  | none => (-1, layout)
  | some contents =>
    if contents.take 4095 = [] then (-1, layout.cleared)
    else
      (0, ((lines '\n'.toUInt8 maxLine (readString 4095 contents)).foldl Parser.readLine
        (Parser.initial layout)).layout)

end RamOS.Keyboard.Layouts
