import RamOS.Lib.Word32
import RamOS.Lib.Memory

/-!
# The VGA text console

The screen is an array of cells, a character byte and a color byte each, and the
rows follow each other in it. Everything that appears goes through
`console_putchar`, which moves the cursor, wraps it at the right edge and scrolls
the screen when the cursor leaves it at the bottom.
-/

namespace RamOS.Console

def vgaWidth : ℕ := 80

def vgaHeight : ℕ := 25

/-- The buffer, the cursor and the color. The list of written cells is not part of the code. -/
structure State where
  vgaBuffer : ℕ → UInt16
  cursorX : ℕ
  cursorY : ℕ
  currentColor : UInt8
  written : List ℕ

/-- A `char` is signed, so that the conversion to 16 bits extends its sign over the color. -/
def vgaEntry (c color : UInt8) : UInt16 :=
  c.toInt8.toInt16.toUInt16 ||| color.toUInt16 <<< 8

def vgaColor (fg bg : UInt8) : UInt8 := fg ||| bg <<< 4

def State.store (console : State) (index : ℕ) (entry : UInt16) : State :=
  { console with
    vgaBuffer := Function.update console.vgaBuffer index entry
    written := index :: console.written }

def storeRow (entry : State → ℕ → UInt16) (columns : ℕ) (console : State) (y : ℕ) : State :=
  (List.range columns).foldl
    (fun console x => console.store (y * vgaWidth + x) (entry console x)) console

def copyRow (console : State) (y : ℕ) : State :=
  storeRow (fun console x => console.vgaBuffer ((y + 1) * vgaWidth + x)) vgaWidth console y

def blankRow (console : State) (y : ℕ) : State :=
  storeRow (fun console _ => vgaEntry ' '.toUInt8 console.currentColor) vgaWidth console y

def consoleScroll (console : State) : State :=
  { blankRow ((List.range (vgaHeight - 1)).foldl copyRow console) (vgaHeight - 1) with
    cursorY := vgaHeight - 1 }

def consoleClear (console : State) : State :=
  { (List.range vgaHeight).foldl blankRow console with
    cursorX := 0
    cursorY := 0 }

def consoleSetColor (console : State) (fg bg : UInt8) : State :=
  { console with currentColor := vgaColor fg bg }

def consoleInit (console : State) : State :=
  consoleClear (consoleSetColor { console with cursorX := 0, cursorY := 0 } 7 0)

/-- The part of `console_putchar` that depends on the character. -/
def advance (console : State) (c : UInt8) : State :=
  if c = '\n'.toUInt8 then { console with cursorX := 0, cursorY := console.cursorY + 1 }
  else if c = '\r'.toUInt8 then { console with cursorX := 0 }
  else if c = '\t'.toUInt8 then
    { console with cursorX := Word32.add console.cursorX 4 &&& Word32.not 3 }
  else if c = '\x08'.toUInt8 then
    if 0 < console.cursorX then { console with cursorX := console.cursorX - 1 } else console
  else
    { console.store (console.cursorY * vgaWidth + console.cursorX)
        (vgaEntry c console.currentColor) with
      cursorX := console.cursorX + 1 }

def wrap (console : State) : State :=
  if vgaWidth ≤ console.cursorX then
    { console with cursorX := 0, cursorY := console.cursorY + 1 }
  else console

def scrollIfBelow (console : State) : State :=
  if vgaHeight ≤ console.cursorY then consoleScroll console else console

def consolePutchar (console : State) (c : UInt8) : State :=
  scrollIfBelow (wrap (advance console c))

/-- Both `console_write` and `console_writen` put the bytes of a string one by one. -/
def consoleWrite (console : State) (str : Bytes) : State :=
  str.foldl consolePutchar console

def State.cell (console : State) (row column : ℕ) : UInt16 :=
  console.vgaBuffer (row * vgaWidth + column)

/-- The console after shows a picture; otherwise only the list of written cells has grown, by
cells of the screen. -/
structure Redraws (before after : State) (picture : ℕ → ℕ → UInt16) : Prop where
  cursorX : after.cursorX = before.cursorX
  cursorY : after.cursorY = before.cursorY
  currentColor : after.currentColor = before.currentColor
  cell : ∀ row column, column < vgaWidth → after.cell row column = picture row column
  written : ∀ index ∈ after.written, index ∈ before.written ∨ index < vgaHeight * vgaWidth

theorem Redraws.refl (console : State) : Redraws console console console.cell :=
  ⟨rfl, rfl, rfl, fun _ _ _ => rfl, fun _ listed => .inl listed⟩

variable {before after : State} {picture : ℕ → ℕ → UInt16} {y : ℕ}

theorem Redraws.trans {middle : State} {final : ℕ → ℕ → UInt16}
    (first : Redraws before middle picture) (second : Redraws middle after final) :
    Redraws before after final := by
  refine ⟨second.cursorX.trans first.cursorX, second.cursorY.trans first.cursorY,
    second.currentColor.trans first.currentColor, second.cell, fun index listed => ?_⟩
  rcases second.written index listed with earlier | inside
  · exact first.written index earlier
  · exact .inr inside

theorem Redraws.congr {final : ℕ → ℕ → UInt16} (redraws : Redraws before after picture)
    (same : ∀ row column, column < vgaWidth → picture row column = final row column) :
    Redraws before after final :=
  ⟨redraws.cursorX, redraws.cursorY, redraws.currentColor,
    fun row column inside => (redraws.cell row column inside).trans (same row column inside),
    redraws.written⟩

theorem Redraws.setCursorX (redraws : Redraws before after picture) (x : ℕ) :
    Redraws { before with cursorX := x } { after with cursorX := x } picture :=
  ⟨rfl, redraws.cursorY, redraws.currentColor, redraws.cell, redraws.written⟩

theorem Redraws.setCursorY (redraws : Redraws before after picture) (y : ℕ) :
    Redraws { before with cursorY := y } { after with cursorY := y } picture :=
  ⟨redraws.cursorX, rfl, redraws.currentColor, redraws.cell, redraws.written⟩

theorem foldl_redraws {step : State → ℕ → State} (picture : ℕ → ℕ → ℕ → UInt16)
    {console : State} {count : ℕ} (initially : picture 0 = console.cell)
    (keeps : ∀ k < count, ∀ middle, Redraws console middle (picture k) →
      Redraws middle (step middle k) (picture (k + 1))) :
    Redraws console ((List.range count).foldl step console) (picture count) := by
  induction count with
  | zero =>
    rw [initially]
    exact .refl console
  | succ count ih =>
    have before := ih fun k below => keeps k (by omega)
    rw [List.range_succ, List.foldl_append]
    exact before.trans (keeps count (by omega) _ before)

theorem store_cell (console : State) (entry : UInt16) {x row column : ℕ} (inRow : x < vgaWidth)
    (inside : column < vgaWidth) :
    (console.store (y * vgaWidth + x) entry).cell row column =
      if row = y ∧ column = x then entry else console.cell row column := by
  simp only [State.store, State.cell, Function.update_apply]
  have sameCell : row * vgaWidth + column = y * vgaWidth + x ↔ row = y ∧ column = x := by
    simp only [vgaWidth] at inRow inside ⊢
    omega
  simp only [sameCell]

theorem store_redraws (console : State) (entry : UInt16) {x : ℕ} (inRow : x < vgaWidth)
    (onScreen : y < vgaHeight) :
    Redraws console (console.store (y * vgaWidth + x) entry) fun row column =>
      if row = y ∧ column = x then entry else console.cell row column := by
  refine ⟨rfl, rfl, rfl, fun row column inside => store_cell console entry inRow inside, ?_⟩
  intro index listed
  rcases List.mem_cons.mp listed with rfl | earlier
  · right
    simp only [vgaWidth, vgaHeight] at inRow onScreen ⊢
    omega
  · exact .inl earlier

/-- A loop over a row replaces it, if no column depends on the columns before it. -/
theorem storeRow_redraws {entry : State → ℕ → UInt16} {console : State}
    (value : ℕ → UInt16) (onScreen : y < vgaHeight)
    (stores : ∀ middle x, Redraws console middle (fun row column =>
      if row = y ∧ column < x then value column else console.cell row column) →
        x < vgaWidth → entry middle x = value x) :
    Redraws console (storeRow entry vgaWidth console y) fun row column =>
      if row = y then value column else console.cell row column := by
  have looped := @foldl_redraws
    (fun console x => console.store (y * vgaWidth + x) (entry console x))
    (fun x row column => if row = y ∧ column < x then value column else console.cell row column)
    console vgaWidth (by simp) (by
      intro x inRow middle drawn
      rw [stores middle x drawn inRow]
      refine (store_redraws middle (value x) inRow onScreen).congr fun row column inside => ?_
      rw [drawn.cell row column inside]
      by_cases isRow : row = y
      · by_cases isColumn : column = x
        · simp [isRow, isColumn]
        · have passed : column < x + 1 ↔ column < x := by omega
          simp only [isRow, isColumn, and_false, if_false, passed]
      · simp [isRow])
  refine looped.congr fun row column inside => ?_
  simp only [inside, and_true]

theorem copyRow_redraws (console : State) (onScreen : y < vgaHeight) :
    Redraws console (copyRow console y) fun row column =>
      if row = y then console.cell (y + 1) column else console.cell row column := by
  refine storeRow_redraws (fun column => console.cell (y + 1) column) onScreen ?_
  intro middle x drawn inRow
  have below := drawn.cell (y + 1) x inRow
  rw [if_neg (by omega)] at below
  exact below

theorem blankRow_redraws (console : State) (onScreen : y < vgaHeight) :
    Redraws console (blankRow console y) fun row column =>
      if row = y then vgaEntry ' '.toUInt8 console.currentColor else console.cell row column := by
  refine storeRow_redraws (fun _ => vgaEntry ' '.toUInt8 console.currentColor) onScreen ?_
  intro middle x drawn _
  rw [drawn.currentColor]

theorem copyRows_redraws (console : State) :
    Redraws console ((List.range (vgaHeight - 1)).foldl copyRow console) fun row column =>
      if row < vgaHeight - 1 then console.cell (row + 1) column else console.cell row column := by
  refine foldl_redraws
    (fun y row column =>
      if row < y then console.cell (row + 1) column else console.cell row column)
    (by simp) ?_
  intro y below middle drawn
  have onScreen : y < vgaHeight := by omega
  refine (copyRow_redraws middle onScreen).congr fun row column inside => ?_
  rw [drawn.cell row column inside, drawn.cell (y + 1) column inside]
  by_cases isRow : row = y
  · simp [isRow]
  · have passed : row < y + 1 ↔ row < y := by omega
    simp only [isRow, if_false, passed]

theorem consoleScroll_redraws (console : State) :
    Redraws { console with cursorY := vgaHeight - 1 } (consoleScroll console) fun row column =>
      if row < vgaHeight - 1 then console.cell (row + 1) column
      else if row = vgaHeight - 1 then vgaEntry ' '.toUInt8 console.currentColor
      else console.cell row column := by
  have copied := copyRows_redraws console
  have blanked := copied.trans (blankRow_redraws _ (by decide : vgaHeight - 1 < vgaHeight))
  refine (blanked.setCursorY (vgaHeight - 1)).congr fun row column inside => ?_
  rw [copied.cell row column inside, copied.currentColor]
  by_cases last : row = vgaHeight - 1
  · simp [last]
  · simp [last]

theorem consoleClear_redraws (console : State) :
    Redraws { console with cursorX := 0, cursorY := 0 } (consoleClear console) fun row column =>
      if row < vgaHeight then vgaEntry ' '.toUInt8 console.currentColor
      else console.cell row column := by
  have blanked := @foldl_redraws blankRow
    (fun y row column =>
      if row < y then vgaEntry ' '.toUInt8 console.currentColor else console.cell row column)
    console vgaHeight (by simp) (by
      intro y onScreen middle drawn
      refine (blankRow_redraws middle onScreen).congr fun row column inside => ?_
      rw [drawn.cell row column inside, drawn.currentColor]
      by_cases isRow : row = y
      · simp [isRow]
      · have passed : row < y + 1 ↔ row < y := by omega
        simp only [isRow, if_false, passed])
  rw [consoleClear]
  generalize (List.range vgaHeight).foldl blankRow console = cleared at blanked ⊢
  exact (blanked.setCursorY 0).setCursorX 0

theorem vgaEntry_toUInt8 (c color : UInt8) : (vgaEntry c color).toUInt8 = c := by
  have low (high : UInt16) : (high <<< 8).toUInt8 = 0 := by
    apply UInt8.toNat_inj.mp
    simp [Nat.shiftLeft_eq]
  have extended : c.toInt8.toInt16.toUInt16.toUInt8 = c := by
    apply UInt8.toBitVec_inj.mp
    apply BitVec.eq_of_getLsbD_eq
    intro i below
    have inside : i < 16 := by omega
    simp [BitVec.getElem_signExtend, below, inside]
  rw [vgaEntry, UInt16.toUInt8_or, low, extended]
  simp

end RamOS.Console
