import CProgram.Terminal.Moves
import CProgram.Terminal.Tabs

/-! The ATASCII emulation. Every byte that is not printed is a command of its own; ESC has the byte behind it printed,
whatever it is. -/
namespace CProgram.Terminal.Atascii
open CProgram.Programs Screen

/-- `struct atari_state` and the screen; `reverse` is written to the log alone. -/
structure AtariState extends Screen where
  printControlChar : Bool
  tabs : Tabs

abbrev AtasciiM (α : Type) := Program AtariState Fault α

def screen {α : Type} (m : ScreenM α) : AtasciiM α := zoom AtariState.toScreen (fun s t => { t with toScreen := s }) m

/-- Outside of `tab_stops` nothing can be read or written. -/
def inside {α β : Type} (k : α → AtasciiM β) : Option α → AtasciiM β
  | none => throw .buffer
  | some a => k a

/-- What is done to the list of tab stops. -/
def onTabs (f : ℤ → Tabs → Option Tabs) : AtasciiM Unit := do
  let t ← get
  inside (fun tabs => set { t with tabs := tabs }) (f t.cursorX t.tabs)

/-- `atascii_chars`. -/
def atasciiChars : List UInt32 :=
  [0x2665, 0x251C, 0x23B9, 0x2518, 0x2524, 0x2510, 0x2571, 0x2572,
    0x25E2, 0x2597, 0x25E3, 0x259D, 0x2598, 0x23BA, 0x23BD, 0x2596,
    0x2663, 0x250C, 0x2500, 0x253C, 0x25CF, 0x2584, 0x23B8, 0x252C,
    0x2534, 0x258C, 0x2514, 0x241B, 0x2191, 0x2193, 0x2190, 0x2192,
    0x0020, 0x0021, 0x0022, 0x0023, 0x0024, 0x0025, 0x0026, 0x0027,
    0x0028, 0x0029, 0x002A, 0x002B, 0x002C, 0x002D, 0x002E, 0x002F,
    0x0030, 0x0031, 0x0032, 0x0033, 0x0034, 0x0035, 0x0036, 0x0037,
    0x0038, 0x0039, 0x003A, 0x003B, 0x003C, 0x003D, 0x003E, 0x003F,
    0x0040, 0x0041, 0x0042, 0x0043, 0x0044, 0x0045, 0x0046, 0x0047,
    0x0048, 0x0049, 0x004A, 0x004B, 0x004C, 0x004D, 0x004E, 0x004F,
    0x0050, 0x0051, 0x0052, 0x0053, 0x0054, 0x0055, 0x0056, 0x0057,
    0x0058, 0x0059, 0x005A, 0x005B, 0x005C, 0x005D, 0x005E, 0x005F,
    0x2666, 0x0061, 0x0062, 0x0063, 0x0064, 0x0065, 0x0066, 0x0067,
    0x0068, 0x0069, 0x006A, 0x006B, 0x006C, 0x006D, 0x006E, 0x006F,
    0x0070, 0x0071, 0x0072, 0x0073, 0x0074, 0x0075, 0x0076, 0x0077,
    0x0078, 0x0079, 0x007A, 0x2660, 0x007C, 0x2196, 0x25C0, 0x25B6]

def advanceToNextTabStop : AtasciiM Unit := do
  let t ← get
  inside (fun stop => screen (cursorRight (stop - t.cursorX) false)) (t.tabs.next t.width t.cursorX)

/-- `atascii_reset`. -/
def atasciiReset : AtasciiM Unit := do
  let t ← get
  inside (fun tabs => set { t with printControlChar := false, tabs := tabs }) (t.tabs.reset t.width)

def isControl (ch : UInt8) : Bool := decide (ch &&& 0x7F < 0x20) || decide (ch &&& 0x7F = 0x7F)

/-- `atascii_handle_control_char`; the bell leaves no trace. -/
def handleControlChar (controlChar : UInt8) : AtasciiM Bool :=
  match controlChar with
  | 0x1C => do screen (cursorUp 1 false); pure true
  | 0x1D => do screen (cursorDown 1 false); pure true
  | 0x1E => do screen (cursorLeft 1 false); pure true
  | 0x1F => do screen (cursorRight 1 false); pure true
  | 0x7D => do
    let t ← get
    screen (eraseScreen 0 0 (t.rows - 1) (t.width - 1) false)
    screen (cursorPosition 0 0)
    pure true
  | 0x7E => do
    screen (cursorLeft 1 false)
    screen (deleteCharacter 1)
    pure true
  | 0x7F => do advanceToNextTabStop; pure true
  | 0x9B => do screen (cursorLinefeed true); pure true
  | 0x9C => do
    let t ← get
    screen (eraseLine t.cursorX (t.width - 1) false)
    pure true
  | 0x9D => do
    let t ← get
    screen (scrollingRegionScrollDown t.cursorY (t.rows - 1) 1)
    pure true
  | 0x9E => do onTabs fun x tabs => tabs.tbcFrom x tabs.tabStopsN 0; pure true
  | 0x9F => do onTabs Tabs.hts; pure true
  | 0xFD => pure true
  | 0xFE => do screen (deleteCharacter 1); pure true
  | 0xFF => do screen (insertBlanks 1); pure true
  | _ => pure false

/-- The end of `atascii`: a character goes to the screen. -/
def sendOut (fromModem : UInt8) : AtasciiM (Option UInt32) := do
  modify fun t => { t with
    printControlChar := false
    currentColor := { t.currentColor with reverse := decide (fromModem &&& 0x80 ≠ 0) } }
  pure (some (atasciiChars.getD (fromModem &&& 0x7F).toNat 0))

/-- `set_double_width`, where the font is not known to be wide. -/
def widen : ScreenM Unit := do
  let s ← get
  if s.atasciiHasWideFont = false then setDoubleWidth true

/-- `atascii` where control characters are not printed. -/
def interpret (fromModem : UInt8) : AtasciiM (Option UInt32) := do
  if fromModem = 0x1B then
    modify fun t => { t with printControlChar := true }
    pure none
  else
    let consumed ← handleControlChar fromModem
    if consumed then pure none
    else if isControl fromModem then pure none
    else sendOut fromModem

/-- `atascii`; what comes back is `to_screen`, with `Q_EMUL_FSM_ONE_CHAR`. -/
def atascii (fromModem : UInt8) : AtasciiM (Option UInt32) := do
  screen widen
  let t ← get
  if t.printControlChar && isControl fromModem then sendOut fromModem
  else if t.printControlChar = false then interpret fromModem
  else sendOut fromModem

/-- The console prints what comes back. -/
def printSent : Option UInt32 → AtasciiM Unit
  | some toScreen => screen (printCharacter toScreen)
  | none => pure ()

def receiveByte (fromModem : UInt8) : AtasciiM Unit := atascii fromModem >>= printSent

def receive (bytes : List UInt8) : AtasciiM Unit := bytes.forM receiveByte

/-! ### Commands and characters -/

/-- What a byte is for the screen: nothing, a command, or a character. -/
inductive Act where
  | quiet
  | command (ch : UInt8)
  | shown (ch : UInt8)
deriving DecidableEq, Repr

/-- The bytes that `atascii_handle_control_char` takes. -/
def commands : List UInt8 :=
  [0x1C, 0x1D, 0x1E, 0x1F, 0x7D, 0x7E, 0x7F, 0x9B, 0x9C, 0x9D, 0x9E, 0x9F, 0xFD, 0xFE, 0xFF]

/-- A byte and what the flag is then. -/
def classify (printing : Bool) (ch : UInt8) : Act × Bool :=
  if printing then (.shown ch, false)
  else if ch = 0x1B then (.quiet, true)
  else if ch ∈ commands then (.command ch, false)
  else if isControl ch then (.quiet, false)
  else (.shown ch, false)

def parse : Bool → List UInt8 → List Act × Bool
  | printing, [] => ([], printing)
  | printing, ch :: bytes =>
    let rest := parse (classify printing ch).2 bytes
    ((classify printing ch).1 :: rest.1, rest.2)

/-- The screen and the columns with a tab stop. -/
structure Desk extends Screen where
  stops : List ℤ

abbrev DeskM (α : Type) := Program Desk Fault α

def onDesk {α : Type} (m : ScreenM α) : DeskM α := zoom Desk.toScreen (fun s t => { t with toScreen := s }) m

/-- What the commands do, by their bytes. -/
def perform (ch : UInt8) : DeskM Unit :=
  match ch with
  | 0x1C => onDesk (cursorUp 1 false)
  | 0x1D => onDesk (cursorDown 1 false)
  | 0x1E => onDesk (cursorLeft 1 false)
  | 0x1F => onDesk (cursorRight 1 false)
  | 0x7D => do
    let t ← get
    onDesk (eraseScreen 0 0 (t.rows - 1) (t.width - 1) false)
    onDesk (cursorPosition 0 0)
  | 0x7E => do
    onDesk (cursorLeft 1 false)
    onDesk (deleteCharacter 1)
  | 0x7F => do
    let t ← get
    onDesk (cursorRight
      ((t.stops.find? fun stop => decide (t.cursorX < stop)).getD (t.width - 1) - t.cursorX) false)
  | 0x9B => onDesk (cursorLinefeed true)
  | 0x9C => do
    let t ← get
    onDesk (eraseLine t.cursorX (t.width - 1) false)
  | 0x9D => do
    let t ← get
    onDesk (scrollingRegionScrollDown t.cursorY (t.rows - 1) 1)
  | 0x9E => modify fun t => { t with stops := clearStop t.cursorX t.stops }
  | 0x9F => modify fun t => { t with stops := setStop t.cursorX t.stops }
  | 0xFE => onDesk (deleteCharacter 1)
  | 0xFF => onDesk (insertBlanks 1)
  | _ => pure ()

/-- The color and the character. -/
def print (ch : UInt8) : ScreenM Unit := do
  modify fun s => { s with currentColor := { s.currentColor with reverse := decide (ch &&& 0x80 ≠ 0) } }
  printCharacter (atasciiChars.getD (ch &&& 0x7F).toNat 0)

def body : Act → DeskM Unit
  | .quiet => pure ()
  | .command ch => perform ch
  | .shown ch => onDesk (print ch)

def act (a : Act) : DeskM Unit := onDesk widen >>= fun _ => body a

/-! ### The emulation does what it is told -/

section
variable {α β : Type} {f f' f'' : Bool} {m : AtasciiM α} {n : DeskM α}

def Desk.atari (f : Bool) (d : Desk) : AtariState := { d with printControlChar := f, tabs := Tabs.ofList d.stops }

/-- On the array, `m` is what `n` is on the columns, and takes the flag from `f` to `f'`. -/
def Refines (f f' : Bool) (m : AtasciiM α) (n : DeskM α) : Prop :=
  ∀ d : Desk, m (d.atari f) = Except.map (fun p => (p.1, p.2.atari f')) (n d)

theorem refines_pure {a : α} : Refines f f (pure a) (pure a) := fun _ => rfl

theorem Refines.bind {k : α → AtasciiM β} {l : α → DeskM β} (hm : Refines f f' m n)
    (hk : ∀ a, Refines f' f'' (k a) (l a)) : Refines f f'' (m >>= k) (n >>= l) := by
  intro d
  have hleft : (m >>= k) (d.atari f) = m (d.atari f) >>= fun p => k p.1 p.2 := rfl
  have hright : (n >>= l) d = n d >>= fun p => l p.1 p.2 := rfl
  rw [hleft, hright, hm d]
  cases n d with
  | error e => rfl
  | ok p => exact hk p.1 p.2

theorem refines_screen {m : ScreenM α} : Refines f f (screen m) (onDesk m) := by
  intro d
  have htoScreen : (d.atari f).toScreen = d.toScreen := rfl
  rw [screen, onDesk, zoom, zoom, htoScreen]
  cases m d.toScreen with
  | error e => rfl
  | ok p => rfl

/-- Both begin by looking at the screen. -/
theorem refines_get {k : AtariState → AtasciiM α} {l : Desk → DeskM α}
    (hk : ∀ d : Desk, k (d.atari f) (d.atari f) = Except.map (fun p => (p.1, p.2.atari f')) (l d d)) :
    Refines f f' (get >>= k) (get >>= l) := fun d => hk d

theorem refines_advance : Refines f f advanceToNextTabStop (perform 0x7F) := by
  intro d
  have hleft : advanceToNextTabStop (d.atari f) = inside (fun stop => screen (cursorRight (stop - d.cursorX) false))
      ((Tabs.ofList d.stops).next d.width d.cursorX) (d.atari f) := rfl
  rw [hleft, Tabs.next_ofList]
  exact refines_screen d

theorem refines_onTabs {g : ℤ → Tabs → Option Tabs} {h : ℤ → List ℤ → List ℤ}
    (hg : ∀ x stops, g x (Tabs.ofList stops) = some (Tabs.ofList (h x stops))) :
    Refines f f (onTabs g) (modify fun t => { t with stops := h t.cursorX t.stops }) := by
  intro d
  have hleft : onTabs g (d.atari f) = inside (fun tabs => set { d.atari f with tabs := tabs })
      (g d.cursorX (Tabs.ofList d.stops)) (d.atari f) := rfl
  rw [hleft, hg]
  rfl

theorem refines_command {ch : UInt8} {k : Bool → AtasciiM α} (h : ch ∈ commands) (hk : Refines f f (k true) n) :
    Refines f f (handleControlChar ch >>= k) (perform ch >>= fun _ => n) := by
  have hone : ∀ m : ScreenM Unit, Refines f f (screen m >>= fun _ => k true) (onDesk m >>= fun _ => n) :=
    fun m => refines_screen.bind fun _ => hk
  have htwo : ∀ m m' : ScreenM Unit, Refines f f (screen m >>= fun _ => screen m' >>= fun _ => k true)
      (onDesk m >>= fun _ => onDesk m' >>= fun _ => n) :=
    fun m m' => refines_screen.bind fun _ => hone m'
  simp only [commands, List.mem_cons, List.not_mem_nil, or_false] at h
  rcases h with rfl | rfl | rfl | rfl | rfl | rfl | rfl | rfl | rfl | rfl | rfl | rfl | rfl | rfl | rfl
  all_goals simp only [handleControlChar, perform, bind_assoc, pure_bind]
  · exact hone _
  · exact hone _
  · exact hone _
  · exact hone _
  · exact refines_get fun d => htwo _ _ d
  · exact htwo _ _
  · exact refines_advance.bind fun _ => hk
  · exact hone _
  · exact refines_get fun d => hone _ d
  · exact refines_get fun d => hone _ d
  · exact (refines_onTabs (h := clearStop) fun x stops => Tabs.tbc_ofList (i := 0)).bind fun _ => hk
  · exact (refines_onTabs (h := setStop) fun x stops => Tabs.hts_ofList).bind fun _ => hk
  · exact hk
  · exact hone _
  · exact hone _

theorem handleControlChar_of_not_mem {ch : UInt8} (h : ch ∉ commands) : handleControlChar ch = pure false := by
  unfold handleControlChar
  split
  all_goals first | rfl | exact absurd (by decide) h

theorem refines_sendOut (ch : UInt8) : Refines f false (sendOut ch >>= printSent) (onDesk (print ch)) :=
  fun d => refines_screen (m := printCharacter (atasciiChars.getD (ch &&& 0x7F).toNat 0))
    { d with currentColor := { d.currentColor with reverse := decide (ch &&& 0x80 ≠ 0) } }

theorem refines_interpret (ch : UInt8) :
    Refines false (classify false ch).2 (interpret ch >>= printSent) (body (classify false ch).1) := by
  rw [classify, if_neg (by decide), interpret]
  by_cases hesc : ch = 0x1B
  · rw [if_pos hesc, if_pos hesc]
    exact fun d => rfl
  rw [if_neg hesc, if_neg hesc, bind_assoc]
  by_cases hcommand : ch ∈ commands
  · rw [if_pos hcommand]
    have hdone : Refines false false (handleControlChar ch >>= fun consumed => (if consumed then pure none
        else if isControl ch then pure none else sendOut ch) >>= printSent) (perform ch >>= fun _ => pure ()) :=
      refines_command hcommand fun d => rfl
    rwa [bind_pure_unit] at hdone
  rw [if_neg hcommand, handleControlChar_of_not_mem hcommand, pure_bind, if_neg Bool.false_ne_true]
  by_cases hcontrol : isControl ch
  · rw [if_pos hcontrol, if_pos hcontrol]
    exact refines_pure
  · rw [if_neg hcontrol, if_neg hcontrol]
    exact refines_sendOut ch

theorem atascii_eq (ch : UInt8) : atascii ch = screen widen >>= fun _ => get >>= fun t =>
    if t.printControlChar then sendOut ch else interpret ch := by
  rw [atascii]
  refine congrArg _ (funext fun _ => congrArg _ (funext fun t => ?_))
  cases t.printControlChar with
  | true => cases isControl ch <;> rfl
  | false => cases isControl ch <;> rfl

theorem refines_byte (ch : UInt8) : Refines f (classify f ch).2 (receiveByte ch) (act (classify f ch).1) := by
  rw [receiveByte, atascii_eq, bind_assoc]
  refine refines_screen.bind fun _ d => ?_
  cases f with
  | true => exact refines_sendOut ch d
  | false => exact refines_interpret ch d

/-- The flag, the codes and the array make of a stream of bytes just what its commands and characters do to the
screen and to the columns with a tab stop; the array is never left. -/
theorem receive_refines (f : Bool) (bytes : List UInt8) :
    Refines f (parse f bytes).2 (receive bytes) ((parse f bytes).1.forM act) := by
  induction bytes generalizing f with
  | nil => exact refines_pure
  | cons ch bytes ih =>
    exact (refines_byte ch).bind fun _ => ih (classify f ch).2

end

end CProgram.Terminal.Atascii
