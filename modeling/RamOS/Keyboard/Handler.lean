import Mathlib.Data.List.Infix
import RamOS.Keyboard.Layouts
import RamOS.Keyboard.Model

/-!
# The interrupt handler and the modifier keys

`keyboard_handler` keeps one flag for each modifier and turns every other press into a character
of the layout. A single flag stands for both shift keys: the release of either clears it,
whether or not the other is still held.
-/

namespace RamOS.Keyboard

open CString Layouts

def keyLshiftPress : UInt8 := 0x2A

def keyRshiftPress : UInt8 := 0x36

def keyLshiftRelease : UInt8 := 0xAA

def keyRshiftRelease : UInt8 := 0xB6

def keyLctrlPress : UInt8 := 0x1D

def keyLctrlRelease : UInt8 := 0x9D

def keyLaltPress : UInt8 := 0x38

def keyLaltRelease : UInt8 := 0xB8

def keyCapslock : UInt8 := 0x3A

/-- `en_us_normal`; a zero stands for `NULL`, also behind the last entry. -/
def enUsNormal : Bytes :=
  ascii "\x00\x1b1234567890-=\x08\tqwertyuiop[]\n\x00asdfghjkl;'`\x00\\zxcvbnm,./\x00*\x00 \x00"

def enUsShifted : Bytes :=
  ascii ("\x00\x1b!@#$%^&*()_+\x08\tQWERTYUIOP\x7b\x7d\n\x00ASDFGHJKL:\"~\x00|ZXCVBNM<>?" ++
    "\x00*\x00 \x00")

/-- `keyboard_layout_get_char`; `layout_en_us` is the only layout ever set. -/
def keyboardLayoutGetChar (scancode : UInt8) (shifted : Bool) : UInt8 :=
  if 128 ≤ scancode then 0
  else if shifted then enUsShifted.getD scancode.toNat 0
  else enUsNormal.getD scancode.toNat 0

structure Driver where
  shiftPressed : Bool
  ctrlPressed : Bool
  altPressed : Bool
  capslockActive : Bool
  activeRuntimeLayout : Option Layout
  kbBuffer : RingBuffer UInt8 256

def Driver.layoutChar (driver : Driver) (scancode : UInt8) : UInt8 :=
  match driver.activeRuntimeLayout with
  | some layout =>
    if scancode < 128 then
      if driver.shiftPressed then layout.shifted scancode.toNat else layout.normal scancode.toNat
    else keyboardLayoutGetChar scancode driver.shiftPressed
  | none => keyboardLayoutGetChar scancode driver.shiftPressed

def Driver.applyCapslock (driver : Driver) (c : UInt8) : UInt8 :=
  if driver.capslockActive ∧ ¬ driver.shiftPressed ∧ 'a'.toUInt8 ≤ c ∧ c ≤ 'z'.toUInt8 then
    c - 'a'.toUInt8 + 'A'.toUInt8
  else if driver.capslockActive ∧ driver.shiftPressed ∧ 'A'.toUInt8 ≤ c ∧ c ≤ 'Z'.toUInt8 then
    c - 'A'.toUInt8 + 'a'.toUInt8
  else c

def keyboardHandler (driver : Driver) (scancode : UInt8) : Driver :=
  if scancode = keyLshiftPress ∨ scancode = keyRshiftPress then
    { driver with shiftPressed := true }
  else if scancode = keyLshiftRelease ∨ scancode = keyRshiftRelease then
    { driver with shiftPressed := false }
  else if scancode = keyLctrlPress then { driver with ctrlPressed := true }
  else if scancode = keyLctrlRelease then { driver with ctrlPressed := false }
  else if scancode = keyLaltPress then { driver with altPressed := true }
  else if scancode = keyLaltRelease then { driver with altPressed := false }
  else if scancode = keyCapslock then
    { driver with capslockActive := !driver.capslockActive }
  -- the release of any other key
  else if scancode &&& 0x80 ≠ 0 then driver
  else
    { driver with
      kbBuffer := insertChar driver.kbBuffer
        (driver.applyCapslock (driver.layoutChar scancode)) }

def releaseCode (press : UInt8) : UInt8 := press ||| 0x80

@[simp]
theorem releaseCode_keyLshiftPress : releaseCode keyLshiftPress = keyLshiftRelease := rfl

@[simp]
theorem releaseCode_keyRshiftPress : releaseCode keyRshiftPress = keyRshiftRelease := rfl

def keyAfter (press : UInt8) (down : Bool) (scancode : UInt8) : Bool :=
  if scancode = press then true else if scancode = releaseCode press then false else down

/-- Whether a key is down after some scancodes, all keys being up before them. -/
def isDown (press : UInt8) (scancodes : Bytes) : Bool :=
  scancodes.foldl (keyAfter press) false

/-- A press comes when its key is up, and a release when it is down. -/
def Alternates (scancodes : Bytes) : Prop :=
  ∀ position < scancodes.length,
    isDown (scancodes.getD position 0 &&& 0x7F) (scancodes.take position) =
      decide (128 ≤ scancodes.getD position 0)

instance (scancodes : Bytes) : Decidable (Alternates scancodes) :=
  inferInstanceAs (Decidable (∀ _ < _, _))

def ShiftDown (scancodes : Bytes) : Prop :=
  isDown keyLshiftPress scancodes ∨ isDown keyRshiftPress scancodes

/-- The flag tells after each scancode whether a shift key is down. -/
def TracksShift (driver : Driver) (scancodes : Bytes) : Prop :=
  ∀ start, start <+: scancodes →
    ((start.foldl keyboardHandler driver).shiftPressed ↔ ShiftDown start)

def ReleasesApart (scancodes : Bytes) : Prop :=
  ∀ start scancode, start ++ [scancode] <+: scancodes →
    (scancode = keyLshiftRelease → ¬ isDown keyRshiftPress start) ∧
      (scancode = keyRshiftRelease → ¬ isDown keyLshiftPress start)

theorem keyboardHandler_shiftPressed (driver : Driver) (scancode : UInt8) :
    (keyboardHandler driver scancode).shiftPressed =
      if scancode = keyLshiftPress ∨ scancode = keyRshiftPress then true
      else if scancode = keyLshiftRelease ∨ scancode = keyRshiftRelease then false
      else driver.shiftPressed := by
  simp only [keyboardHandler]
  repeat' split
  all_goals rfl

theorem isDown_append_singleton (press : UInt8) (scancodes : Bytes) (scancode : UInt8) :
    isDown press (scancodes ++ [scancode]) = keyAfter press (isDown press scancodes) scancode := by
  rw [isDown, List.foldl_append, List.foldl_cons, List.foldl_nil, isDown]

theorem shiftPressed_append_iff {driver : Driver} {start : Bytes} {scancode : UInt8}
    (tracked : (start.foldl keyboardHandler driver).shiftPressed ↔ ShiftDown start) :
    (((start ++ [scancode]).foldl keyboardHandler driver).shiftPressed ↔
        ShiftDown (start ++ [scancode])) ↔
      (scancode = keyLshiftRelease → ¬ isDown keyRshiftPress start) ∧
        (scancode = keyRshiftRelease → ¬ isDown keyLshiftPress start) := by
  rw [List.foldl_append, List.foldl_cons, List.foldl_nil, keyboardHandler_shiftPressed, ShiftDown,
    isDown_append_singleton, isDown_append_singleton]
  have apart : keyRshiftRelease ≠ keyLshiftRelease := by decide
  by_cases leftPress : scancode = keyLshiftPress
  · subst leftPress
    simp [keyAfter, keyLshiftPress, keyLshiftRelease, keyRshiftRelease]
  by_cases rightPress : scancode = keyRshiftPress
  · subst rightPress
    simp [keyAfter, keyRshiftPress, keyLshiftRelease, keyRshiftRelease]
  by_cases leftRelease : scancode = keyLshiftRelease
  · subst leftRelease
    simp [keyAfter, leftPress, rightPress, apart.symm]
  by_cases rightRelease : scancode = keyRshiftRelease
  · subst rightRelease
    simp [keyAfter, leftPress, rightPress, apart]
  -- any other scancode leaves the flag and both keys as they are
  simp [keyAfter, leftPress, rightPress, leftRelease, rightRelease, tracked, ShiftDown]

/-- From all keys up, the flag is right after every scancode exactly when no shift key is released
while the other one is down. -/
theorem tracksShift_iff {driver : Driver} {scancodes : Bytes}
    (released : driver.shiftPressed = false) :
    TracksShift driver scancodes ↔ ReleasesApart scancodes := by
  constructor
  · intro tracks start scancode isPrefix
    apply (shiftPressed_append_iff (tracks start ((List.prefix_append _ _).trans isPrefix))).mp
    exact tracks _ isPrefix
  · intro apart start
    induction start using List.reverseRecOn with
    | nil =>
      intro _
      simp [ShiftDown, isDown, released]
    | append_singleton start scancode ih =>
      intro isPrefix
      apply (shiftPressed_append_iff (ih ((List.prefix_append _ _).trans isPrefix))).mpr
      exact apart start scancode isPrefix

def idleDriver : Driver where
  shiftPressed := false
  ctrlPressed := false
  altPressed := false
  capslockActive := false
  activeRuntimeLayout := none
  kbBuffer := { cells := fun _ => 0, readPos := 0, writePos := 0 }

theorem tracksShift_idle :
    idleDriver.shiftPressed = false ∧
      (TracksShift idleDriver [keyLshiftPress, keyLshiftRelease] ↔
        ReleasesApart [keyLshiftPress, keyLshiftRelease]) :=
  ⟨rfl, tracksShift_iff rfl⟩

/-- With both shift keys down the left one is released: the flag is clear while the right one is
held. -/
theorem not_tracksShift_rollover :
    Alternates [keyLshiftPress, keyRshiftPress, keyLshiftRelease] ∧
      ¬ TracksShift idleDriver [keyLshiftPress, keyRshiftPress, keyLshiftRelease] := by
  refine ⟨by decide, ?_⟩
  intro tracks
  have held := (tracks _ List.prefix_rfl).mpr (Or.inr (by decide))
  exact absurd held (by decide)

end RamOS.Keyboard
