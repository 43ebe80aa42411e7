import CProgram.Terminal.Output
import CProgram.Terminal.Vt100

/-! The handlers of `vt100`: what the sequences do to the screen, and what they keep for later ones. How a
glyph looks and in which color is left open; the character sets and SGR decide about it, and nothing that
moves the cursor depends on them. -/
namespace CProgram.Terminal
open CProgram.Programs

/-! ### The width of lines -/

def setDoubleWidth (doubleWidth : Bool) : ScreenM Unit := do
  let s ← get
  onText s.current fun t => pure { t with doubleWidth := doubleWidth, doubleHeight := 0 }

def setDoubleHeight (doubleHeight : ℕ) : ScreenM Unit := do
  let s ← get
  onText s.current fun t => pure { t with doubleWidth := true, doubleHeight := doubleHeight }

/-- The rows of `set_single_width`. -/
def singleRows : ℕ → Option ℕ → ScreenM Unit
  | 0, _ => pure ()
  | below + 1, line => do
    modify fun s => { s with current := line }
    setDoubleWidth false
    if below = 0 then pure ()
    else singleRows below (← stepDown line)

def setSingleWidth (startRow endRow : ℤ) : ScreenM Unit := do
  if startRow < 0 ∨ endRow < 0 ∨ endRow < startRow then pure ()
  else
    let s ← get
    let startLine ← repeatFrom stepDown startRow.toNat (← findTop)
    singleRows (endRow - startRow + 1).toNat startLine
    modify fun t => { t with current := s.current }

/-- The part of a line behind its end is erased. -/
def eraseTail : ScreenM Unit := do
  let s ← get
  let text ← textAt s.current
  if text.length < s.width then eraseLine text.length (s.width - 1) false
  else pure ()

/-- The rows of `invert_scrollback_colors`. -/
def invertRows : ℕ → ScreenM Unit
  | 0 => pure ()
  | below + 1 => do
    let s ← get
    onText s.current fun t => pure { t with reverseColor := !t.reverseColor }
    eraseTail
    let next ← if below = 0 then nextOf s.current else stepDown s.current
    modify fun t => { t with current := next }
    invertRows below

def invertScrollbackColors : ScreenM Unit := do
  let s ← get
  let top ← findTop
  modify fun t => { t with current := top }
  invertRows s.rows.toNat
  modify fun t => { t with current := s.current }

/-- The rows of DECALN. -/
def alignRow : ScreenM Unit := do
  let s ← get
  onText s.current fun t => do
    let t ← t.write 0 s.width 0x45 s.consoleText
    pure { t with length := s.width }
  cursorDown 1 false

/-! ### The state behind the screen -/

/-- What the character sets and the colors depend on. -/
inductive Event where
  | call (call : Call)
  | glyph (glyph : Glyph)
deriving DecidableEq, Repr

/-- The character that a glyph shows, and the color that a sequence leaves. -/
structure Looks where
  character : List Event → Glyph → UInt32
  color : List Event → Call → Attr → Attr

/-- The screen and the part of `struct vt100_state` that the handlers read. -/
structure Vt extends Screen where
  savedCursorX : ℤ
  savedCursorY : ℤ
  savedOriginMode : Bool
  savedLinewrap : Bool
  savedAttributes : Attr
  tabStops : List ℤ
  statusHeight : ℤ
  /-- `q_vt100_new_line_mode`. -/
  newLineMode : Bool
  repCh : UInt32
  history : List Event

abbrev VtM (α : Type) := Program Vt Fault α

def onScreen {α : Type} (m : ScreenM α) : VtM α := zoom Vt.toScreen (fun s t => { t with toScreen := s }) m

namespace Args

/-- The first parameter, or what stands for none. -/
def given (a : Args) (default : ℤ) : ℤ := if a.paramsN < 0 then default else a.param 0

/-- A count is at least one. -/
def count (a : Args) : ℤ := if a.given 1 ≤ 0 then 1 else a.given 1

/-- A row or a column of CUP. -/
def place (a : Args) (i : ℕ) : ℤ :=
  if a.paramsN < (i : ℤ) then 0 else if a.param i - 1 < 0 then 0 else a.param i - 1

/-- The modes of `set_toggle`. -/
def modes (a : Args) : List ℤ := (List.range (a.paramsN + 1).toNat).map a.param

/-- Whether there is a row of digits. -/
def isEmpty (a : Args) (i : ℕ) : Bool := (a.params.getD i []).isEmpty

end Args

/-! ### Tab stops -/

/-- `reset_tab_stops`. -/
def resetTabStops (width : ℤ) : List ℤ := (List.range ((width + 7) / 8).toNat).map fun i => (8 * i : ℤ)

def advanceToNextTabStop : VtM Unit := do
  let t ← get
  onScreen (cursorRight
    ((t.tabStops.find? fun stop => decide (t.cursorX < stop)).getD (t.width - 1) - t.cursorX) false)

/-- `hts`. -/
def setStop (x : ℤ) : List ℤ → List ℤ
  | [] => [x]
  | stop :: stops =>
    if stop = x then stop :: stops
    else if x < stop then x :: stop :: stops
    else stop :: setStop x stops

/-- `tbc` with a parameter of 0. -/
def clearStop (x : ℤ) : List ℤ → List ℤ
  | [] => []
  | stop :: stops =>
    if x < stop then stop :: stops
    else if stop = x then stops
    else stop :: clearStop x stops

/-- The tab stop that CBT goes back to; the first one is not looked at. -/
def stopBefore (x : ℤ) (stops : List ℤ) : ℤ :=
  let before := stops.takeWhile fun stop => decide (stop < x)
  if before.length ≤ 1 then 0 else before.getLastD 0

/-! ### The handlers -/

/-- `q_emulation_right_margin` in 80 columns; Linux and Xterm have no margin. -/
def rightMargin80 (e : Emulation) : ℤ := if e.console || e.anyXterm then -1 else 79

def vt100Reset (e : Emulation) : VtM Unit := modify fun t => { t with
  savedCursorX := -1
  savedCursorY := -1
  emulationRightMargin := rightMargin80 e
  newLineMode := false
  savedAttributes := t.currentColor
  savedOriginMode := false
  tabStops := resetTabStops t.width
  insertMode := false
  savedLinewrap := t.lineWrap }

def eraseAll : VtM Unit := do
  let t ← get
  onScreen (eraseScreen 0 0 (t.rows - 1) (t.width - 1) false)

def ris (e : Emulation) : VtM Unit := do
  vt100Reset e
  eraseAll

def decsc : VtM Unit := modify fun t => { t with
  savedCursorX := t.cursorX
  savedCursorY := t.cursorY
  savedAttributes := t.currentColor
  savedOriginMode := t.originMode
  savedLinewrap := t.lineWrap }

def decrc (e : Emulation) : VtM Unit := do
  let t ← get
  if t.savedCursorX ≠ -1 then
    onScreen (cursorPosition t.savedCursorY t.savedCursorX)
    modify fun t => { t with
      currentColor := t.savedAttributes
      originMode := t.savedOriginMode
      lineWrap := if e = .vt220 then t.savedLinewrap else t.lineWrap }
  else
    onScreen (cursorPosition 0 0)
    modify fun t => { t with currentColor := t.consoleText, originMode := false }

/-- DECCOLM: the entire screen is cleared, the scrolling region is reset, the cursor goes home. -/
def deccolm (e : Emulation) (value : Bool) : VtM Unit := do
  modify fun t => { t with emulationRightMargin := if value then 131 else rightMargin80 e }
  eraseAll
  modify fun t => { t with scrollRegionTop := 0, scrollRegionBottom := t.rows - 1 }
  onScreen (cursorPosition 0 0)

/-- DECSCNM. -/
def decscnm (value : Bool) : VtM Unit := do
  let t ← get
  if value = t.reverseVideo then pure ()
  else onScreen invertScrollbackColors
  modify fun t => { t with reverseVideo := value }

/-- DECOM. -/
def decom (value : Bool) : VtM Unit := do
  modify fun t => { t with originMode := value }
  onScreen (cursorPosition 0 0)

/-- One mode of `set_toggle`; those that are left out do nothing to the screen. -/
def toggle (e : Emulation) (decPrivateModeFlag value : Bool) (mode : ℤ) : VtM Unit :=
  if decPrivateModeFlag then
    if mode = 3 then deccolm e value
    else if mode = 5 then decscnm value
    else if mode = 6 then decom value
    else if mode = 7 then modify fun t => { t with lineWrap := value }
    else if mode = 1047 ∧ e.anyXterm then onScreen cursorFormfeed
    else if mode = 1048 ∧ e.anyXterm then if value then decsc else decrc e
    else if mode = 1049 ∧ e.anyXterm then
      if value then do decsc; onScreen cursorFormfeed
      else do onScreen cursorFormfeed; decrc e
    else pure ()
  else
    if mode = 4 then modify fun t => { t with insertMode := value }
    else if mode = 20 then modify fun t => { t with newLineMode := value }
    else pure ()

def setToggle (e : Emulation) (a : Args) (value : Bool) : VtM Unit :=
  a.modes.forM (toggle e a.decPrivateModeFlag value)

/-- The margins that `decstbm` is given. -/
def margins (a : Args) (t : Vt) : ℤ × ℤ :=
  let i := if a.isEmpty 0 then 0 else a.param 0 - 1
  let j := if a.isEmpty 1 then t.rows - 1 else a.param 1 - 1
  let height := t.rows + t.statusHeight
  if a.paramsN < 0 then (0, t.rows - 1)
  else if a.paramsN = 0 then (if 0 ≤ i ∧ i ≤ height - 1 then i else t.scrollRegionTop, t.rows - 1)
  else if 0 ≤ i ∧ i ≤ height - 1 ∧ 0 ≤ j ∧ j ≤ height - 1 ∧ i < j then (i, j)
  else (0, t.rows - 1)

/-- If the bottom margin is too big it is brought back, and then the top margin. -/
def sane (rows : ℤ) (region : ℤ × ℤ) : ℤ × ℤ :=
  let bottom := if rows - 1 < region.2 then rows - 1 else region.2
  (if bottom < region.1 then bottom else region.1, bottom)

def decstbm (a : Args) : VtM Unit := do
  if a.decPrivateModeFlag then pure ()
  else
    modify fun t => { t with
      scrollRegionTop := (sane t.rows (margins a t)).1
      scrollRegionBottom := (sane t.rows (margins a t)).2 }
    onScreen (cursorPosition 0 0)

def ind : VtM Unit := do
  let t ← get
  if t.cursorY = t.scrollRegionBottom then
    onScreen (scrollingRegionScrollUp t.scrollRegionTop t.scrollRegionBottom 1)
  onScreen (cursorDown 1 true)

def nel : VtM Unit := do
  ind
  modify fun t => { t with cursorX := 0 }

def ri : VtM Unit := do
  let t ← get
  if t.cursorY = t.scrollRegionTop then
    onScreen (scrollingRegionScrollDown t.scrollRegionTop t.scrollRegionBottom 1)
  onScreen (cursorUp 1 true)

def hts : VtM Unit := modify fun t => { t with tabStops := setStop t.cursorX t.tabStops }

def tbc (a : Args) : VtM Unit := modify fun t => { t with
  tabStops := if a.param 0 = 0 then clearStop t.cursorX t.tabStops else if a.param 0 = 3 then [] else t.tabStops }

def decaln : VtM Unit := do
  let t ← get
  onScreen (cursorPosition 0 0)
  onScreen (repeatFrom (fun _ => alignRow) t.rows.toNat ())
  onScreen (cursorPosition t.cursorY t.cursorX)

def ed (a : Args) (honorProtected : Bool) : VtM Unit := do
  let t ← get
  if a.given 0 = 0 then
    if t.cursorY < t.rows - 1 then
      onScreen (eraseScreen (t.cursorY + 1) 0 (t.rows - 1) (t.width - 1) honorProtected)
      onScreen (setSingleWidth (t.cursorY + 1) (t.rows - 1))
    onScreen (eraseLine t.cursorX (t.width - 1) honorProtected)
    onScreen (setDoubleWidth false)
  else if a.given 0 = 1 then
    onScreen (eraseScreen 0 0 (t.cursorY - 1) (t.width - 1) honorProtected)
    onScreen (eraseLine 0 t.cursorX honorProtected)
    onScreen (setSingleWidth 0 t.cursorY)
    onScreen (setDoubleWidth false)
  else if a.given 0 = 2 then
    onScreen (eraseScreen 0 0 (t.rows - 1) (t.width - 1) honorProtected)
    onScreen (setSingleWidth 0 (t.rows - 1))
  else pure ()

def el (a : Args) (honorProtected : Bool) : VtM Unit := do
  let t ← get
  if a.given 0 = 0 then onScreen (eraseLine t.cursorX (t.width - 1) honorProtected)
  else if a.given 0 = 1 then onScreen (eraseLine 0 t.cursorX honorProtected)
  else if a.given 0 = 2 then onScreen (eraseLine 0 (t.width - 1) honorProtected)
  else pure ()

def ech (a : Args) : VtM Unit := do
  let t ← get
  let count := if a.given 0 = 0 then 1 else a.given 0
  onScreen (eraseLine t.cursorX (t.cursorX + count - 1) false)

/-- IL and DL: a part of the scrolling region is scrolled, from the cursor on. -/
def scrollFromCursor (scroll : ℤ → ℤ → ℤ → ScreenM Unit) (count : ℤ) : VtM Unit := do
  let t ← get
  if t.scrollRegionTop ≤ t.cursorY ∧ t.cursorY ≤ t.scrollRegionBottom then
    onScreen (scroll t.cursorY t.scrollRegionBottom count)
  else pure ()

def il (a : Args) : VtM Unit := scrollFromCursor scrollingRegionScrollDown (a.given 1)

def dl (a : Args) : VtM Unit := scrollFromCursor scrollingRegionScrollUp (a.given 1)

/-- SU and SD. -/
def scrollRegion (scroll : ℤ → ℤ → ℤ → ScreenM Unit) (count : ℤ) : VtM Unit := do
  let t ← get
  onScreen (scroll t.scrollRegionTop t.scrollRegionBottom count)

def su (a : Args) : VtM Unit := scrollRegion scrollingRegionScrollUp a.count

def sd (a : Args) : VtM Unit := scrollRegion scrollingRegionScrollDown a.count

/-- CNL and CPL end in the first column. -/
def toFirstColumn : VtM Unit := do
  let t ← get
  onScreen (cursorLeft t.cursorX true)

def cnl (a : Args) : VtM Unit := do
  onScreen (cursorDown a.count true)
  toFirstColumn

def cpl (a : Args) : VtM Unit := do
  onScreen (cursorUp a.count true)
  toFirstColumn

/-- The row or the column of VPA and CHA, which is not checked. -/
def Args.address (a : Args) : ℤ := if a.paramsN < 0 then 0 else a.param 0 - 1

def cup (a : Args) : VtM Unit := onScreen (cursorPosition (a.place 0) (a.place 1))

def cha (a : Args) : VtM Unit := do
  let t ← get
  onScreen (cursorPosition t.cursorY a.address)

def vpa (a : Args) : VtM Unit := do
  let t ← get
  onScreen (cursorPosition a.address t.cursorX)

def cbtOne : VtM Unit := do
  let t ← get
  onScreen (cursorPosition t.cursorY (stopBefore t.cursorX t.tabStops))

/-- A loop that does the same so many times. -/
def times (n : ℤ) (body : VtM Unit) : VtM Unit := (List.range n.toNat).forM fun _ => body

def cbt (a : Args) : VtM Unit := times a.count cbtOne

def cht (a : Args) : VtM Unit := times a.count advanceToNextTabStop

def repOne : VtM Unit := do
  let t ← get
  onScreen (printCharacter t.repCh)

def rep (a : Args) : VtM Unit := times a.count repOne

/-- `CSI s` and `CSI u` of ANSI.SYS. -/
def saveCursor : VtM Unit := modify fun t => { t with savedCursorX := t.cursorX, savedCursorY := t.cursorY }

def restoreCursor : VtM Unit := do
  let t ← get
  if t.savedCursorX ≠ -1 then onScreen (cursorPosition t.savedCursorY t.savedCursorX)
  else pure ()

def handleControlChar (ch : UInt8) : VtM Unit := do
  let t ← get
  match ch.toNat with
  | 0x00 => if t.displayNull then onScreen (printCharacter 0x20) else pure ()
  | 0x08 => onScreen (cursorLeft 1 false)
  | 0x09 => advanceToNextTabStop
  | 0x0A | 0x0B | 0x0C => onScreen (cursorLinefeed t.newLineMode)
  | 0x0D => onScreen cursorCarriageReturn
  | _ => pure ()

/-- The handlers that do nothing where the private mode flag is set. -/
def unlessPrivate (a : Args) (m : VtM Unit) : VtM Unit := if a.decPrivateModeFlag then pure () else m

/-- `84`, `85`, `88` and `8D`, which have functions of their own. -/
def handleC1 (a : Args) (ch : UInt8) : VtM Unit :=
  match ch.toNat with
  | 0x84 => unlessPrivate a ind
  | 0x85 => unlessPrivate a nel
  | 0x88 => hts
  | 0x8D => unlessPrivate a ri
  | _ => handleControlChar ch

/-- What a handler does; those that are left out answer the remote side, or choose what a glyph looks
like. -/
def handle (looks : Looks) (e : Emulation) (a : Args) : Handler → VtM Unit
  | .printCharacter glyph => do
    let t ← get
    onScreen (printCharacter (looks.character t.history glyph))
  | .handleControlChar ch => handleC1 a ch
  | .decsc => decsc
  | .decrc => decrc e
  | .ind => unlessPrivate a ind
  | .nel => unlessPrivate a nel
  | .hts => hts
  | .ri => unlessPrivate a ri
  | .ris | .decstr => ris e
  | .cursorUp => onScreen (cursorUp 1 false)
  | .cursorDown => onScreen (cursorDown 1 false)
  | .cursorRight => onScreen (cursorRight 1 false)
  | .cursorLeft => onScreen (cursorLeft 1 false)
  | .cursorHome => onScreen (cursorPosition 0 0)
  | .eraseToEndOfScreen => do
    let t ← get
    onScreen (eraseLine t.cursorX (t.width - 1) false)
    onScreen (eraseScreen (t.cursorY + 1) 0 (t.rows - 1) (t.width - 1) false)
  | .eraseToEndOfLine => do
    let t ← get
    onScreen (eraseLine t.cursorX (t.width - 1) false)
  | .cursorAddress line column => onScreen (cursorPosition (line.toNat - 0x20) (column.toNat - 0x20))
  | .dechdl topHalf => do
    onScreen (setDoubleWidth true)
    onScreen (setDoubleHeight (if topHalf then 1 else 2))
  | .decswl => onScreen (setDoubleWidth false)
  | .decdwl => onScreen (setDoubleWidth true)
  | .decaln => decaln
  | .ich => unlessPrivate a (onScreen (insertBlanks (a.given 1)))
  | .cuu => unlessPrivate a (onScreen (cursorUp a.count true))
  | .cud => unlessPrivate a (onScreen (cursorDown a.count true))
  | .cuf => unlessPrivate a (onScreen (cursorRight a.count true))
  | .cub => unlessPrivate a (onScreen (cursorLeft a.count true))
  | .cnl => unlessPrivate a (cnl a)
  | .cpl => unlessPrivate a (cpl a)
  | .cha => unlessPrivate a (cha a)
  | .cup | .hvp => unlessPrivate a (cup a)
  | .cht => unlessPrivate a (cht a)
  | .ed => ed a (e.vt220s && a.decPrivateModeFlag)
  | .el => el a (e.vt220s && a.decPrivateModeFlag)
  | .il => unlessPrivate a (il a)
  | .dl => unlessPrivate a (dl a)
  | .dch => unlessPrivate a (onScreen (deleteCharacter (a.given 1)))
  | .su => unlessPrivate a (su a)
  | .sd => unlessPrivate a (sd a)
  | .ech => unlessPrivate a (ech a)
  | .cbt => unlessPrivate a (cbt a)
  | .rep => unlessPrivate a (rep a)
  | .vpa => unlessPrivate a (vpa a)
  | .tbc => unlessPrivate a (tbc a)
  | .sgr => modify fun t => { t with currentColor := looks.color t.history ⟨.sgr, a⟩ t.currentColor }
  | .decsca => modify fun t => { t with currentColor := looks.color t.history ⟨.decsca, a⟩ t.currentColor }
  | .decstbm => decstbm a
  | .saveCursor => unlessPrivate a saveCursor
  | .restoreCursor => unlessPrivate a restoreCursor
  | .setToggle value => setToggle e a value
  | _ => pure ()

/-- A call, which is remembered for what it does to later glyphs. -/
def perform (looks : Looks) (e : Emulation) (call : Call) : VtM Unit := do
  handle looks e call.args call.handler
  modify fun t => { t with history := t.history ++ [.call call] }

/-- A character that is returned: REP repeats it, and the console prints it. -/
def showGlyph (looks : Looks) (glyph : Glyph) : VtM Unit := do
  let t ← get
  modify fun t => { t with
    repCh := looks.character t.history glyph
    history := t.history ++ [.glyph glyph] }
  onScreen (printCharacter (looks.character t.history glyph))

/-- What a byte has brought about. -/
def process (looks : Looks) (e : Emulation) (outcome : Outcome) : VtM Unit := do
  outcome.calls.forM (perform looks e)
  outcome.glyph.toList.forM (showGlyph looks)

/-- A stream of bytes; what comes back is the parser. -/
def receive (looks : Looks) (e : Emulation) : Parser → List UInt8 → VtM Parser
  | p, [] => pure p
  | p, ch :: bytes => do
    process looks e (p.terminalEmulator e ch)
    receive looks e (p.terminalEmulator e ch).parser bytes

end CProgram.Terminal
