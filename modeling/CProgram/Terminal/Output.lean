import CProgram.Terminal.Screen

/-! What the emulations do to the screen: characters, the cursor, and the regions that are erased and
scrolled. The capture file, scripts and the marking of lines as dirty leave no trace in it. -/
namespace CProgram.Terminal
open CProgram.Programs

namespace QEmulation

/-- The emulations in which the cursor stays in the right margin until a second character comes. -/
def wrapsLate : QEmulation → Bool
  | .vt _ => true
  | _ => false

/-- The emulations that erase with the color of the console text. -/
def erasesPlain : QEmulation → Bool
  | .vt e => e.vtxxx
  | _ => false

end QEmulation

namespace Screen

/-- The right margin of a line of that width. -/
def halved (margin : ℤ) (doubleWidth : Bool) : ℤ := if doubleWidth then (margin + 1) / 2 - 1 else margin

/-- The right margin of `print_character`. -/
def printMargin (s : Screen) : ℤ :=
  match s.emulation with
  | .ansi | .avatar | .tty => if s.assume80Columns then 79 else s.width - 1
  | .atascii => if s.atasciiHasWideFont then 39 else 79
  | .petscii => if s.petsciiHasWideFont then 39 else 79
  | _ => if 0 < s.emulationRightMargin then s.emulationRightMargin else s.width - 1

/-- The right margin of the cursor movements. -/
def cursorMargin (s : Screen) : ℤ :=
  if 0 < s.emulationRightMargin then s.emulationRightMargin else s.width - 1

/-- The color in which `fill_line_with_character` erases. -/
def eraseColor (s : Screen) : Attr := if s.emulation.erasesPlain then s.consoleText else s.currentColor.color

end Screen

/-! ### Characters -/

def wrapCurrentLine : ScreenM Unit := do
  let s ← get
  let next ← stepDown s.current
  modify fun s => { s with
    current := next
    cursorY := if s.cursorY < s.rows - 1 then s.cursorY + 1 else s.cursorY
    cursorX := 0 }

/-- The line wrapping conditions of `print_character`; what comes back is `wrap_the_line`. -/
def checkMargin (rightMargin : ℤ) : ScreenM Bool := do
  let s ← get
  if s.cursorX = rightMargin then
    if s.emulation.wrapsLate then
      if s.lineWrap then
        set { s with vt100WrapLineFlag := !s.vt100WrapLineFlag }
        if s.vt100WrapLineFlag then wrapCurrentLine
      pure false
    else pure s.lineWrap
  else
    if s.cursorX < rightMargin then set { s with vt100WrapLineFlag := false }
    pure false

/-- The cursor moves on, unless it waits in the margin. -/
def Screen.advance (rightMargin : ℤ) (s : Screen) : Screen :=
  if s.vt100WrapLineFlag then s
  else { s with cursorX := if rightMargin < s.cursorX + 1 then s.cursorX else s.cursorX + 1 }

/-- The part of `print_character` for a character that shows. -/
def printVisible (character : UInt32) : ScreenM Unit := do
  let s ← get
  let text ← textAt s.current
  let rightMargin := Screen.halved s.printMargin text.doubleWidth
  let wrapTheLine ← checkMargin rightMargin
  let s ← get
  onText s.current (Text.put s.cursorX s.insertMode s.currentColor character)
  modify (Screen.advance rightMargin)
  if wrapTheLine then wrapCurrentLine

def printCharacter (character : UInt32) : ScreenM Unit := do
  let s ← get
  onText s.current (Text.pad s.cursorX s.consoleText)
  -- BEL, and a NUL that is not displayed
  if character = 0x07 ∨ character = 0 ∧ ¬ s.displayNull then pure ()
  else printVisible (if character = 0 then 0x20 else character)

/-! ### Erasing -/

def fillLineWithCharacter (start stop : ℤ) (character : UInt32) (honorProtected : Bool) : ScreenM Unit := do
  let s ← get
  onText s.current
    (Text.fill s.width start stop character honorProtected s.consoleText s.eraseColor)

def eraseLine (start stop : ℤ) (honorProtected : Bool) : ScreenM Unit :=
  fillLineWithCharacter start stop 0x20 honorProtected

/-- The rows of `erase_screen`; no line is appended behind the last row. -/
def eraseRows (startCol endCol : ℤ) (honorProtected : Bool) : ℕ → Option ℕ → ScreenM Unit
  | 0, _ => pure ()
  | below + 1, line => do
    modify fun s => { s with current := line }
    eraseLine startCol endCol honorProtected
    if below = 0 then pure ()
    else eraseRows startCol endCol honorProtected below (← stepDown line)

def eraseScreen (startRow startCol endRow endCol : ℤ) (honorProtected : Bool) : ScreenM Unit := do
  if startRow < 0 ∨ startCol < 0 ∨ endRow < 0 ∨ endCol < 0 ∨ endRow < startRow ∨ endCol < startCol then
    pure ()
  else
    let s ← get
    let startLine ← repeatFrom stepDown startRow.toNat (← findTop)
    eraseRows startCol endCol honorProtected (endRow - startRow + 1).toNat startLine
    modify fun t => { t with current := s.current }

/-! ### Scrolling -/

/-- The loop of `rectangle_scroll_up`, which breaks off where there is no line. -/
def copyUp (left right : ℤ) (color : Attr) : ℕ → Option ℕ → Option ℕ → ScreenM Unit
  | 0, _, _ => pure ()
  | remaining + 1, newTopLine, topLine => do
    let source ← textAt topLine
    onText newTopLine fun t => do
      let t ← if t.length < source.length then t.pad right color else pure t
      Text.copyFrom source left right t
    let newNext ← nextOf newTopLine
    let next ← nextOf topLine
    if next = none then pure () else copyUp left right color remaining newNext next

def rectangleScrollUp (top left bottom right count : ℤ) : ScreenM Unit := do
  if bottom ≤ top then pure ()
  else if right ≤ left then pure ()
  else if bottom + 1 - top ≤ count then eraseScreen top left bottom (right - 1) false
  else
    let s ← get
    let remaining := bottom + 1 - top - count
    let newTopLine ← repeatFrom stepDown top.toNat (← findTop)
    let topLine ← repeatFrom stepDown count.toNat newTopLine
    copyUp left right s.consoleText remaining.toNat newTopLine topLine
    eraseScreen (top + remaining) left bottom (right - 1) false

/-- The loop of `rectangle_scroll_down`. -/
def copyDown (left right : ℤ) (color : Attr) : ℕ → Option ℕ → Option ℕ → ScreenM Unit
  | 0, _, _ => pure ()
  | remaining + 1, newBottomLine, bottomLine => do
    onText newBottomLine fun t => if t.length < left then t.pad right color else pure t
    -- with no rows to scroll by, both are one line, which is padded by now
    let source ← textAt bottomLine
    onText newBottomLine (Text.copyFrom source left right)
    let newPrev ← prevOf newBottomLine
    let prev ← prevOf bottomLine
    copyDown left right color remaining newPrev prev

def rectangleScrollDown (top left bottom right count : ℤ) : ScreenM Unit := do
  if bottom ≤ top then pure ()
  else if right ≤ left then pure ()
  else if bottom + 1 - top ≤ count then eraseScreen top left bottom (right - 1) false
  else
    let s ← get
    let remaining := bottom + 1 - top - count
    let newBottomLine ← repeatFrom stepDown bottom.toNat (← findTop)
    let bottomLine ← repeatFrom stepUp count.toNat newBottomLine
    copyDown left right s.consoleText remaining.toNat newBottomLine bottomLine
    eraseScreen top left (top + count - 1) (right - 1) false

def scrollingRegionScrollUp (regionTop regionBottom count : ℤ) : ScreenM Unit :=
  rectangleScrollUp regionTop 0 regionBottom maxLineLength count

def scrollingRegionScrollDown (regionTop regionBottom count : ℤ) : ScreenM Unit :=
  rectangleScrollDown regionTop 0 regionBottom maxLineLength count

def scrollUp (count : ℤ) : ScreenM Unit := do
  let s ← get
  scrollingRegionScrollUp 0 (s.rows - 1) count

def scrollDown (count : ℤ) : ScreenM Unit := do
  let s ← get
  scrollingRegionScrollDown 0 (s.rows - 1) count

/-! ### The cursor -/

/-- A cursor that is moved does not wait in the margin any more. -/
def Screen.leaveMargin (count : ℤ) (s : Screen) : Screen :=
  { s with vt100WrapLineFlag := s.vt100WrapLineFlag && decide (count ≤ 0) }

/-- One row; a cursor outside the region stays there in all rounds. -/
def upOne (honorScrollRegion : Bool) : ScreenM Unit := do
  let s ← get
  if honorScrollRegion ∧ s.cursorY < s.scrollRegionTop then pure ()
  else if (if honorScrollRegion then s.scrollRegionTop else 0) < s.cursorY then
    let prev ← prevOf s.current
    set { s with cursorY := s.cursorY - 1, current := prev }
  else pure ()

def cursorUp (count : ℤ) (honorScrollRegion : Bool) : ScreenM Unit := do
  modify (Screen.leaveMargin count)
  repeatFrom (fun _ => upOne honorScrollRegion) count.toNat ()

/-- A line that `cursor_down` has appended; the loop writes to the last line, and looks at this one. -/
def padAppended : ScreenM Unit := do
  let s ← get
  let text ← textAt s.current
  if text.length < s.cursorX then
    if s.current = s.last then onText s.last (Text.padColors s.cursorX s.consoleText)
    else throw .column
  else pure ()

def downOne (honorScrollRegion : Bool) : ScreenM Unit := do
  let s ← get
  if honorScrollRegion ∧ s.scrollRegionBottom < s.cursorY then pure ()
  else if s.cursorY < (if honorScrollRegion then s.scrollRegionBottom else s.rows - 1) then
    set { s with cursorY := s.cursorY + 1 }
    let next ← nextOf s.current
    let below ← stepDown s.current
    modify fun t => { t with current := below }
    if next = none then padAppended
  else pure ()

def cursorDown (count : ℤ) (honorScrollRegion : Bool) : ScreenM Unit := do
  modify (Screen.leaveMargin count)
  repeatFrom (fun _ => downOne honorScrollRegion) count.toNat ()

def Screen.outsideRegion (s : Screen) : Bool :=
  decide (s.cursorY < s.scrollRegionTop) || decide (s.scrollRegionBottom < s.cursorY)

/-- One column to the left. -/
def Screen.leftOne (honorScrollRegion : Bool) (s : Screen) : Screen :=
  if honorScrollRegion && s.outsideRegion then s
  else { s with cursorX := if 0 < s.cursorX then s.cursorX - 1 else s.cursorX }

def cursorLeft (count : ℤ) (honorScrollRegion : Bool) : ScreenM Unit := do
  modify (Screen.leaveMargin count)
  repeatFrom (fun _ => modify (Screen.leftOne honorScrollRegion)) count.toNat ()

def rightOne (honorScrollRegion : Bool) (rightMargin : ℤ) : ScreenM Unit := do
  let s ← get
  if honorScrollRegion && s.outsideRegion then pure ()
  else if s.cursorX < rightMargin then
    let text ← textAt s.current
    if text.length ≤ s.cursorX then onText s.current (Text.pushOut s.currentColor)
    modify fun t => { t with cursorX := t.cursorX + 1 }
  else pure ()

def cursorRight (count : ℤ) (honorScrollRegion : Bool) : ScreenM Unit := do
  modify (Screen.leaveMargin count)
  let s ← get
  let text ← textAt s.current
  repeatFrom (fun _ => rightOne honorScrollRegion (Screen.halved s.cursorMargin text.doubleWidth))
    count.toNat ()

/-- The column of `cursor_position`. -/
def Screen.toColumn (col : ℤ) (doubleWidth : Bool) (s : Screen) : Screen :=
  let x := if s.width - 1 < col then s.width - 1 else col
  { s with cursorX :=
      if 0 < s.emulationRightMargin ∧ s.emulationRightMargin < x then
        Screen.halved s.cursorMargin doubleWidth
      else x }

def cursorPosition (row col : ℤ) : ScreenM Unit := do
  if col < 0 ∨ row < 0 then throw .aborted
  else
    let s ← get
    let text ← textAt s.current
    modify (Screen.toColumn col text.doubleWidth)
    let row := if s.originMode then row + s.scrollRegionTop else row
    if s.cursorY < row then cursorDown (row - s.cursorY) false
    else if row < s.cursorY then cursorUp (s.cursorY - row) false
    modify fun t => { t with vt100WrapLineFlag := false }

/-- A linefeed at the bottom of a region that is the whole screen. -/
def pushLine : ScreenM Unit := do
  let s ← get
  let next ← stepDown s.current
  modify fun t => { t with current := next }
  onText next fun t => pure { t with length := if s.reverseVideo then s.width else s.cursorX }

def cursorLinefeed (newLineMode : Bool) : ScreenM Unit := do
  let s ← get
  if s.cursorY < s.scrollRegionBottom then
    set { s with cursorY := s.cursorY + 1 }
    let next ← stepDown s.current
    modify fun t => { t with current := next }
  else if s.scrollRegionBottom = s.rows - 1 ∧ s.scrollRegionTop = 0 then pushLine
  else scrollingRegionScrollUp s.scrollRegionTop s.scrollRegionBottom 1
  modify fun t => { t with
    cursorX := if newLineMode then 0 else t.cursorX
    vt100WrapLineFlag := false }

def cursorCarriageReturn : ScreenM Unit := do
  modify fun s => { s with cursorX := 0 }
  let s ← get
  if s.lineFeedOnCr then cursorLinefeed false
  modify fun s => { s with vt100WrapLineFlag := false }

def cursorFormfeed : ScreenM Unit := do
  let s ← get
  repeatFrom (fun _ => cursorLinefeed false) (2 * (s.rows - 1) - s.cursorY + 1).toNat ()
  eraseScreen 0 0 (s.rows - 1) (s.width - 1) false
  cursorPosition 0 0

/-! ### Characters that move in a line -/

def deleteCharacter (count : ℤ) : ScreenM Unit := do
  let s ← get
  let _ ← textAt s.current
  repeatFrom (fun _ => onText s.current (Text.delete s.cursorX)) count.toNat ()

def insertBlanks (count : ℤ) : ScreenM Unit := do
  let s ← get
  onText s.current (Text.insertBlanks s.cursorX count s.currentColor)

/-! ### The user -/

/-- The loop of `clear_scrollback`; it frees a line in each round, so it has no more rounds than lines
were ever there. -/
def freeUntil (top : Option ℕ) : ℕ → Option ℕ → ScreenM Unit
  | 0, _ => throw .hangs
  | rounds + 1, line =>
    if line = top then pure ()
    else do
      let next ← nextOf line
      xfree line
      modify fun s => { s with scrollbackLines := s.scrollbackLines - 1 }
      freeUntil top rounds next

def clearScrollback : ScreenM Unit := do
  let top ← findTop
  let s ← get
  freeUntil top (s.fresh + 1) s.buffer
  setPrev top none
  modify fun s => { s with buffer := top }

end CProgram.Terminal
