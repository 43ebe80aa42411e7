import CProgram.Terminal.Parser
import CProgram.Lib.Linked
import CProgram.Lib.Programs

/-! The scrollback and the screen at its end: the list of lines, and what the emulations do to it.
A line that is freed never comes back; pointers to it are dangling from then on. -/
namespace CProgram.Terminal
open CProgram.Programs

/-- `Q_EMULATION`; seven of them are served by `vt100`. -/
inductive QEmulation where
  | tty | ansi | avatar | vt52 | petscii | atascii | debug
  | vt (e : Emulation)
deriving DecidableEq, Repr

/-- `attr_t`: a color pair and the attributes that the emulations use. -/
structure Attr where
  pair : ℕ := 0
  bold : Bool := false
  dim : Bool := false
  underline : Bool := false
  blink : Bool := false
  reverse : Bool := false
  protect : Bool := false
  invis : Bool := false
deriving DecidableEq, Repr

/-- `color_to_attr(color_from_attr(attr))`. -/
def Attr.color (attr : Attr) : Attr := { pair := attr.pair }

/-- `Q_MAX_LINE_LENGTH`. -/
def maxLineLength : ℤ := 256

/-- What a line shows. -/
structure Text where
  chars : ℤ → UInt32
  colors : ℤ → Attr
  length : ℤ
  doubleWidth : Bool
  doubleHeight : ℕ
  reverseColor : Bool

/-- `struct q_scrolline_struct`. -/
structure Line extends Links ℕ where
  text : Text

/-- How the terminal can go wrong. -/
inductive Fault where
  /-- A `NULL` is dereferenced. -/
  | null
  /-- A freed line is dereferenced. -/
  | freed
  /-- A column outside `chars` and `colors`. -/
  | column
  /-- `memmove` with a negative length. -/
  | negative
  /-- An index outside another buffer. -/
  | buffer
  /-- `assert` or `abort`. -/
  | aborted
  /-- A loop that never ends. -/
  | hangs
deriving DecidableEq, Repr

structure Screen where
  /-- `HEIGHT - STATUS_HEIGHT`, and `WIDTH`. -/
  rows : ℤ
  width : ℤ
  lines : ℕ → Option Line
  /-- The addresses up to here have been given out. -/
  fresh : ℕ
  buffer : Option ℕ
  last : Option ℕ
  current : Option ℕ
  position : Option ℕ
  scrollbackMax : ℤ
  scrollbackLines : ℤ
  scrollbackEnabled : Bool
  vt100WrapLineFlag : Bool
  emulation : QEmulation
  emulationRightMargin : ℤ
  cursorX : ℤ
  cursorY : ℤ
  scrollRegionTop : ℤ
  scrollRegionBottom : ℤ
  originMode : Bool
  lineWrap : Bool
  insertMode : Bool
  reverseVideo : Bool
  lineFeedOnCr : Bool
  displayNull : Bool
  assume80Columns : Bool
  petsciiHasWideFont : Bool
  atasciiHasWideFont : Bool
  /-- `q_current_color`. -/
  currentColor : Attr
  /-- `scrollback_full_attr(Q_COLOR_CONSOLE_TEXT)`. -/
  consoleText : Attr

abbrev ScreenM (α : Type) := Program Screen Fault α

/-! ### Inside a line -/

namespace Text

/-- The columns from `lo` to before `hi` are there. -/
def checkColumns (lo hi : ℤ) : Except Fault Unit :=
  if hi ≤ lo ∨ 0 ≤ lo ∧ hi ≤ maxLineLength then .ok () else .error .column

/-- A loop over the columns from `lo` to before `hi`. -/
def update (lo hi : ℤ) (f : UInt32 → Attr → UInt32 × Attr) (t : Text) : Except Fault Text := do
  checkColumns lo hi
  pure { t with
    chars := fun i => if lo ≤ i ∧ i < hi then (f (t.chars i) (t.colors i)).1 else t.chars i
    colors := fun i => if lo ≤ i ∧ i < hi then (f (t.chars i) (t.colors i)).2 else t.colors i }

def write (lo hi : ℤ) (ch : UInt32) (color : Attr) (t : Text) : Except Fault Text :=
  t.update lo hi fun _ _ => (ch, color)

/-- `memmove` of `n` columns of `chars` and `colors`. -/
def memmove (dst src n : ℤ) (t : Text) : Except Fault Text :=
  if n < 0 then .error .negative
  else do
    checkColumns dst (dst + n)
    checkColumns src (src + n)
    pure { t with
      chars := fun i => if dst ≤ i ∧ i < dst + n then t.chars (i - dst + src) else t.chars i
      colors := fun i => if dst ≤ i ∧ i < dst + n then t.colors (i - dst + src) else t.colors i }

/-- A line that is too short is padded with spaces up to a column. -/
def pad (start : ℤ) (color : Attr) (t : Text) : Except Fault Text :=
  if t.length < start then do
    let t ← t.write t.length start 0x20 color
    pure { t with length := start }
  else pure t

def lengthen (t : Text) : Text := if t.length < maxLineLength then { t with length := t.length + 1 } else t

/-- A character is printed at the column `x`. -/
def put (x : ℤ) (insertMode : Bool) (color : Attr) (ch : UInt32) (t : Text) : Except Fault Text :=
  if x < t.length then
    if insertMode then do
      let t ← t.memmove (x + 1) x (maxLineLength - x - 1)
      let t ← t.write x (x + 1) ch color
      pure t.lengthen
    else t.write x (x + 1) ch color
  else do
    let t ← t.write t.length (t.length + 1) ch color
    pure { t with length := t.length + 1 }

/-- `fill_line_with_character`, with the color that the emulation erases with. -/
def fill (width start stop : ℤ) (ch : UInt32) (honorProtected : Bool) (consoleText eraseColor : Attr)
    (t : Text) : Except Fault Text :=
  if stop < start then pure t
  else do
    let t ← t.pad start consoleText
    let t ← t.update start (stop + 1) fun old color =>
      if honorProtected ∧ color.protect then (old, color) else (ch, eraseColor)
    let t := if t.length < stop then { t with length := stop + 1 } else t
    pure (if width < t.length then { t with length := width } else t)

/-- One round of `delete_character`. -/
def delete (x : ℤ) (t : Text) : Except Fault Text := do
  let t ← t.memmove x (x + 1) (maxLineLength - x - 1)
  pure (if x < t.length then { t with length := t.length - 1 } else t)

/-- The blanks of `insert_blanks`, which all go into one column. -/
def blanks (x : ℤ) (color : Attr) : ℕ → Text → Except Fault Text
  | 0, t => pure t
  | n + 1, t => do
    let t ← t.write x (x + 1) 0x20 color
    t.lengthen.blanks x color n

def insertBlanks (x count : ℤ) (color : Attr) (t : Text) : Except Fault Text := do
  let t ← t.memmove (x + count) x (maxLineLength - x - count)
  t.blanks x color count.toNat

/-- A column of spaces that `cursor_right` appends. -/
def pushOut (color : Attr) (t : Text) : Except Fault Text := do
  let t ← t.write t.length (t.length + 1) 0x20 color
  pure { t with length := t.length + 1 }

/-- The padding of `cursor_down`, which gives a color to the spaces of a new line. -/
def padColors (x : ℤ) (color : Attr) (t : Text) : Except Fault Text := do
  let t ← t.update t.length x fun ch _ => (ch, color)
  pure { t with length := x }

/-- The columns from `left` to before `right` come from another line, and its other properties too. -/
def copyFrom (source : Text) (left right : ℤ) (t : Text) : Except Fault Text := do
  checkColumns left right
  pure { source with
    chars := fun i => if left ≤ i ∧ i < right then source.chars i else t.chars i
    colors := fun i => if left ≤ i ∧ i < right then source.colors i else t.colors i }

end Text

/-! ### Lines -/

/-- `NULL` and freed lines cannot be dereferenced. -/
def lineAt (p : Option ℕ) : ScreenM Line := do
  let s ← get
  match p with
  | none => throw .null
  | some a =>
    match s.lines a with
    | none => throw .freed
    | some line => pure line

def Screen.setLine (s : Screen) (a : ℕ) (line : Option Line) : Screen :=
  { s with lines := fun b => if b = a then line else s.lines b }

def alter (p : Option ℕ) (f : Line → Line) : ScreenM Unit := do
  let line ← lineAt p
  match p with
  | none => throw .null
  | some a => modify fun s => s.setLine a (some (f line))

def textAt (p : Option ℕ) : ScreenM Text := do
  let line ← lineAt p
  pure line.text

def nextOf (p : Option ℕ) : ScreenM (Option ℕ) := do
  let line ← lineAt p
  pure line.next

def prevOf (p : Option ℕ) : ScreenM (Option ℕ) := do
  let line ← lineAt p
  pure line.prev

def setPrev (p prev : Option ℕ) : ScreenM Unit := alter p fun line => { line with prev := prev }

def setNext (p next : Option ℕ) : ScreenM Unit := alter p fun line => { line with next := next }

def onText (p : Option ℕ) (f : Text → Except Fault Text) : ScreenM Unit := do
  let text ← textAt p
  match f text with
  | .error fault => throw fault
  | .ok text => alter p fun line => { line with text := text }

def xmalloc (line : Line) : ScreenM ℕ := do
  let s ← get
  set { s.setLine s.fresh (some line) with fresh := s.fresh + 1 }
  pure s.fresh

def xfree (p : Option ℕ) : ScreenM Unit := do
  let _ ← lineAt p
  match p with
  | none => throw .null
  | some a => modify fun s => s.setLine a none

namespace Screen

/-- What a new line shows; the lines at the end have a color of their own in the DEBUG emulation. -/
def blankText (s : Screen) (appended : Bool) : Text where
  chars := fun _ => 0x20
  colors := fun _ =>
    if appended ∧ s.emulation = .debug then { s.consoleText with reverse := true }
    else if s.reverseVideo then s.consoleText
    else {}
  length := if s.reverseVideo then s.width else 0
  doubleWidth := false
  doubleHeight := 0
  reverseColor := s.reverseVideo

/-- Whether a new line replaces an old one. -/
def isFull (s : Screen) : Bool :=
  (decide (0 < s.scrollbackMax) && decide (s.scrollbackMax ≤ s.scrollbackLines)) ||
    (!s.scrollbackEnabled && decide (s.rows - 1 < s.scrollbackLines))

/-- The first line of all. -/
def begin (s : Screen) (a : ℕ) : Screen :=
  { s with buffer := some a, position := some a, last := some a, current := some a }

end Screen

/-- Up from a line, so many times or to the first line; the second says which. -/
def climb : ℕ → Option ℕ → ScreenM (Option ℕ × Bool)
  | 0, line => pure (line, true)
  | row + 1, line => do
    match ← prevOf line with
    | none => pure (line, false)
    | some up => climb row (some up)

/-- `find_top_scrollback_line`. -/
def findTop : ScreenM (Option ℕ) := do
  let s ← get
  if s.rows - 1 ≤ 0 then throw .aborted
  else
    let (line, above) ← climb s.rows.toNat s.position
    let next ← nextOf line
    pure (if above ∧ next.isSome then next else line)

/-- The line at the head rolls off. -/
def rollHead : ScreenM Unit := do
  let s ← get
  let next ← nextOf s.buffer
  modify fun s => { s with buffer := next }
  setPrev next none
  xfree s.buffer

/-- The line at the top of the screen is taken out. -/
def rollTop (top : Option ℕ) : ScreenM Unit := do
  let line ← lineAt top
  setPrev line.next line.prev
  if line.prev.isSome then setNext line.prev line.next
  xfree top

/-- The new line is the only one, or the one behind the last; the position moves to it in all the states
in which the terminal is written to. What comes back is the line at the top of the screen. -/
def attach (line : ℕ) : ScreenM (Option ℕ) := do
  let s ← get
  if s.buffer = none then
    set (s.begin line)
    pure none
  else
    let top ← findTop
    setPrev (some line) s.last
    setNext s.last (some line)
    modify fun s => { s with last := some line, position := some line }
    pure top

def newScrollbackLine : ScreenM Unit := do
  let s ← get
  let line ← xmalloc { prev := none, next := none, text := s.blankText true }
  let top ← attach line
  if s.isFull then
    if s.scrollbackEnabled then rollHead else rollTop top
  else modify fun s => { s with scrollbackLines := s.scrollbackLines + 1 }

/-- The line at the tail rolls off. -/
def rollTail : ScreenM Unit := do
  let s ← get
  let line ← lineAt s.last
  modify fun s => { s with last := line.prev }
  setNext line.prev none
  xfree s.last
  if s.position = s.last then
    let position ← prevOf s.position
    modify fun s => { s with position := position }

/-- The new line is the only one, or the one before `insertPoint`. -/
def insertBefore (insertPoint : Option ℕ) (line : ℕ) : ScreenM Unit := do
  let s ← get
  if s.buffer = none then set (s.begin line)
  else
    let prev ← prevOf insertPoint
    alter (some line) fun line => { line with prev := prev, next := insertPoint }
    setPrev insertPoint (some line)
    let position ← prevOf s.position
    modify fun s => { s with position := position }

def insertScrollbackLine (insertPoint : Option ℕ) : ScreenM Unit := do
  if insertPoint = none then throw .aborted
  else
    let s ← get
    let line ← xmalloc { prev := none, next := none, text := s.blankText false }
    insertBefore insertPoint line
    if s.isFull then rollTail
    else modify fun s => { s with scrollbackLines := s.scrollbackLines + 1 }

/-- The next line, which is appended if there is none. -/
def stepDown (line : Option ℕ) : ScreenM (Option ℕ) := do
  let next ← nextOf line
  if next = none then newScrollbackLine
  nextOf line

/-- The line before, which is inserted if there is none. -/
def stepUp (line : Option ℕ) : ScreenM (Option ℕ) := do
  let prev ← prevOf line
  if prev = none then insertScrollbackLine line
  prevOf line

end CProgram.Terminal
