import RamOS.Console.Model

/-!
# The console as a window of an unbounded terminal

The terminal never scrolls: it has rows without end, and a row that nothing has been
written to is blank. The screen shows its rows up to the cursor, the last 25 of them
once there are more.
-/

namespace RamOS.Console

structure Terminal where
  cell : ℕ → ℕ → UInt8
  row : ℕ
  column : ℕ

namespace Terminal

def blank : Terminal := ⟨fun _ _ => ' '.toUInt8, 0, 0⟩

/-- The cursor goes on to the next row as soon as it reaches the right edge. -/
def wrap (terminal : Terminal) : Terminal :=
  if vgaWidth ≤ terminal.column then
    { terminal with row := terminal.row + 1, column := 0 }
  else terminal

/-- Newline, carriage return, tab and backspace only move the cursor. -/
def advance (terminal : Terminal) (c : UInt8) : Terminal :=
  if c = '\n'.toUInt8 then { terminal with row := terminal.row + 1, column := 0 }
  else if c = '\r'.toUInt8 then { terminal with column := 0 }
  else if c = '\t'.toUInt8 then { terminal with column := 4 * (terminal.column / 4 + 1) }
  else if c = '\x08'.toUInt8 then { terminal with column := terminal.column - 1 }
  else
    { terminal with
      cell := Function.update terminal.cell terminal.row
        (Function.update (terminal.cell terminal.row) terminal.column c)
      column := terminal.column + 1 }

def put (terminal : Terminal) (c : UInt8) : Terminal := (terminal.advance c).wrap

def top (terminal : Terminal) : ℕ := terminal.row - (vgaHeight - 1)

end Terminal

/-- The screen is the window of the terminal from row `top` on. The window leaves the first row
only when the cursor is in its last one. -/
structure Displays (top : ℕ) (console : State) (terminal : Terminal) : Prop where
  column : console.cursorX = terminal.column
  row : top + console.cursorY = terminal.row
  scrolled : top = 0 ∨ vgaHeight - 1 ≤ console.cursorY
  picture : ∀ row < vgaHeight, ∀ column < vgaWidth,
    (console.cell row column).toUInt8 = terminal.cell (top + row) column
  blankBelow : ∀ row column, top + vgaHeight ≤ row → terminal.cell row column = ' '.toUInt8
  written : ∀ index ∈ console.written, index < vgaHeight * vgaWidth

variable {top : ℕ} {console : State} {terminal : Terminal}

theorem Displays.top_eq (displays : Displays top console terminal)
    (rowBelow : console.cursorY < vgaHeight) :
    terminal.top = top := by
  have row := displays.row
  have scrolled := displays.scrolled
  simp only [Terminal.top]
  simp only [vgaHeight] at rowBelow scrolled ⊢
  omega

theorem tab_eq {x : ℕ} (columnBelow : x < vgaWidth) :
    Word32.add x 4 &&& Word32.not 3 = 4 * (x / 4 + 1) := by
  have small : x + 4 < 2 ^ 32 := by
    simp only [vgaWidth] at columnBelow
    omega
  have masked := @Word32.and_not_low 2 (Word32.add x 4) (by omega) (Word32.add_lt _ _)
  rw [Word32.add_eq small] at masked ⊢
  refine masked.trans ?_
  omega

theorem Displays.moveTo {x y : ℕ} (displays : Displays top console terminal)
    (lower : console.cursorY ≤ y) :
    Displays top { console with cursorX := x, cursorY := y }
      { terminal with column := x, row := top + y } := by
  refine ⟨rfl, rfl, ?_, displays.picture, displays.blankBelow, displays.written⟩
  rcases displays.scrolled with atTop | atBottom
  · exact .inl atTop
  · exact .inr (atBottom.trans lower)

theorem Displays.store (c : UInt8) (displays : Displays top console terminal)
    (columnBelow : console.cursorX < vgaWidth) (rowBelow : console.cursorY < vgaHeight) :
    Displays top
      { console.store (console.cursorY * vgaWidth + console.cursorX)
          (vgaEntry c console.currentColor) with
        cursorX := console.cursorX + 1 }
      { terminal with
        cell := Function.update terminal.cell terminal.row
          (Function.update (terminal.cell terminal.row) terminal.column c)
        column := terminal.column + 1 } := by
  have redraws := store_redraws console (vgaEntry c console.currentColor) columnBelow rowBelow
  have atRow := displays.row
  refine ⟨congrArg (· + 1) displays.column, displays.row, displays.scrolled, ?_, ?_, ?_⟩
  · intro row inScreen column inRow
    refine (congrArg UInt16.toUInt8 (redraws.cell row column inRow)).trans ?_
    have shown := displays.picture row inScreen column inRow
    by_cases isRow : row = console.cursorY
    · have sameRow : top + row = terminal.row := by omega
      rw [sameRow] at shown ⊢
      simp only [Function.update_self]
      by_cases isColumn : column = console.cursorX
      · rw [if_pos ⟨isRow, isColumn⟩, isColumn, displays.column, Function.update_self]
        exact vgaEntry_toUInt8 c console.currentColor
      · rw [if_neg (by tauto), Function.update_of_ne (by rw [← displays.column]; exact isColumn)]
        exact shown
    · rw [if_neg (by tauto)]
      simp only [Function.update_of_ne (by omega : top + row ≠ terminal.row)]
      exact shown
  · intro row column below
    simp only [Function.update_of_ne (by omega : row ≠ terminal.row)]
    exact displays.blankBelow row column below
  · intro index listed
    rcases redraws.written index listed with earlier | inside
    · exact displays.written index earlier
    · exact inside

theorem Displays.advance (c : UInt8) (displays : Displays top console terminal)
    (columnBelow : console.cursorX < vgaWidth) (rowBelow : console.cursorY < vgaHeight) :
    Displays top (advance console c) (terminal.advance c) := by
  have sameColumn := displays.column
  have sameRow := displays.row
  simp only [Console.advance, Terminal.advance]
  split_ifs with isNewline isReturn isTab isBackspace atRight
  · rw [← sameRow]
    exact displays.moveTo (by omega)
  · rw [← sameRow]
    exact displays.moveTo le_rfl
  · rw [tab_eq columnBelow, sameColumn, ← sameRow]
    exact displays.moveTo le_rfl
  · rw [sameColumn, ← sameRow]
    exact displays.moveTo le_rfl
  · have stays : terminal.column - 1 = terminal.column := by omega
    rw [stays]
    exact displays
  · exact displays.store c columnBelow rowBelow

theorem advance_cursor (console : State) (c : UInt8) :
    (advance console c).cursorY = console.cursorY ∨
      (advance console c).cursorY = console.cursorY + 1 ∧ (advance console c).cursorX = 0 := by
  simp only [Console.advance]
  split
  next => exact .inr ⟨rfl, rfl⟩
  next =>
    left
    repeat' split
    all_goals rfl

theorem Displays.wrap (displays : Displays top console terminal) :
    Displays top (wrap console) terminal.wrap := by
  have sameColumn := displays.column
  have sameRow := displays.row
  simp only [Console.wrap, Terminal.wrap, sameColumn]
  split
  next =>
    rw [← sameRow]
    exact displays.moveTo (by omega)
  next => exact displays

theorem wrap_advance_cursor (c : UInt8) (rowBelow : console.cursorY < vgaHeight) :
    (wrap (advance console c)).cursorX < vgaWidth ∧
      (wrap (advance console c)).cursorY ≤ vgaHeight := by
  have positive : 0 < vgaWidth := by decide
  simp only [Console.wrap]
  rcases advance_cursor console c with sameRow | ⟨nextRow, atLeft⟩
  · split
    next => exact ⟨positive, by dsimp only; omega⟩
    next inside => exact ⟨by omega, by omega⟩
  · rw [if_neg (by omega), atLeft, nextRow]
    exact ⟨positive, rowBelow⟩

theorem Displays.scroll (displays : Displays top console terminal)
    (below : console.cursorY = vgaHeight) :
    Displays (top + 1) (consoleScroll console) terminal := by
  have redraws := consoleScroll_redraws console
  have height : vgaHeight - 1 + 1 = vgaHeight := by decide
  refine ⟨redraws.cursorX.trans displays.column, ?_, .inr redraws.cursorY.ge, ?_, ?_, ?_⟩
  · rw [redraws.cursorY, ← displays.row]
    dsimp only
    omega
  · intro row inScreen column inRow
    refine (congrArg UInt16.toUInt8 (redraws.cell row column inRow)).trans ?_
    by_cases last : row = vgaHeight - 1
    · rw [if_neg (by omega), if_pos last, vgaEntry_toUInt8]
      exact (displays.blankBelow (top + 1 + row) column (by omega)).symm
    · rw [if_pos (by omega), displays.picture (row + 1) (by omega) column inRow]
      congr 1
      omega
  · intro row column lower
    exact displays.blankBelow row column (by omega)
  · intro index listed
    rcases redraws.written index listed with earlier | inside
    · exact displays.written index earlier
    · exact inside

structure Shows (console : State) (terminal : Terminal) : Prop where
  displays : Displays terminal.top console terminal
  columnBelow : console.cursorX < vgaWidth
  rowBelow : console.cursorY < vgaHeight

theorem Displays.shows (displays : Displays top console terminal)
    (columnBelow : console.cursorX < vgaWidth) (rowBelow : console.cursorY < vgaHeight) :
    Shows console terminal := by
  refine ⟨?_, columnBelow, rowBelow⟩
  rw [displays.top_eq rowBelow]
  exact displays

theorem Shows.put (shows : Shows console terminal) (c : UInt8) :
    Shows (consolePutchar console c) (terminal.put c) := by
  have moved := (shows.displays.advance c shows.columnBelow shows.rowBelow).wrap
  rcases wrap_advance_cursor c shows.rowBelow with ⟨columnBelow, rowBelow⟩
  simp only [consolePutchar, Terminal.put, scrollIfBelow]
  split
  next below =>
    have redraws := consoleScroll_redraws (Console.wrap (Console.advance console c))
    exact (moved.scroll (by omega)).shows (redraws.cursorX.trans_lt columnBelow)
      (redraws.cursorY.trans_lt (by decide : vgaHeight - 1 < vgaHeight))
  next inside => exact moved.shows columnBelow (by omega)

theorem shows_clear (console : State) :
    Shows (consoleClear { console with written := [] }) Terminal.blank := by
  have redraws := consoleClear_redraws { console with written := [] }
  refine ⟨⟨redraws.cursorX, ?_, .inl rfl, ?_, fun _ _ _ => rfl, ?_⟩,
    redraws.cursorX.trans_lt (by decide : 0 < vgaWidth),
    redraws.cursorY.trans_lt (by decide : 0 < vgaHeight)⟩
  · rw [redraws.cursorY]
    rfl
  · intro row inScreen column inRow
    rw [redraws.cell row column inRow, if_pos inScreen, vgaEntry_toUInt8]
    rfl
  · intro index listed
    rcases redraws.written index listed with earlier | inside
    · exact absurd earlier List.not_mem_nil
    · exact inside

theorem Shows.putAll (shows : Shows console terminal) (bytes : Bytes) :
    Shows (bytes.foldl consolePutchar console) (bytes.foldl Terminal.put terminal) := by
  induction bytes generalizing console terminal with
  | nil => exact shows
  | cons c bytes ih => exact ih (shows.put c)

/-- Whatever is put on a cleared console, the cursor and all stores stay on the screen, which
shows the window of the unbounded terminal that ends at the cursor. -/
theorem putchar_shows_window (console : State) (bytes : Bytes) :
    let shown := bytes.foldl consolePutchar (consoleClear { console with written := [] })
    let terminal := bytes.foldl Terminal.put Terminal.blank
    shown.cursorX < 80 ∧ shown.cursorY < 25 ∧
      (∀ index ∈ shown.written, index < 2000) ∧
      terminal.column = shown.cursorX ∧ terminal.row = terminal.row - 24 + shown.cursorY ∧
      ∀ row < 25, ∀ column < 80,
        (shown.cell row column).toUInt8 = terminal.cell (terminal.row - 24 + row) column := by
  intro shown terminal
  have shows := (shows_clear console).putAll bytes
  exact ⟨shows.columnBelow, shows.rowBelow, shows.displays.written, shows.displays.column.symm,
    shows.displays.row.symm, shows.displays.picture⟩

end RamOS.Console
