import CProgram.Terminal.Fallback

/-! AVATAR: the parser with its two ways to repeat what was sent, the terminal around it, and the language that the
two of them read. What a command does to the screen is named and not carried out. -/
namespace CProgram.Terminal.Avatar
open Collected (Action room code escape isDigit readChar)

structure Config extends Collected.Config where
  avatarColor : Bool
  avatarAnsiFallback : Bool
  /-- `HEIGHT - STATUS_HEIGHT`. -/
  rows : ℕ

/-- `SCAN_STATES`. -/
inductive Scan where
  | none | v | h1 | h2 | a1 | y1 | y2 | yEmit | vY1 | vY2 | vY3 | vYEmit | vM1 | vM2 | vM3 | vM4
  | vJk1 | vJk2 | vJk3 | vJk4 | vJk5 | esc | csi | csiParam | ansiFallback | dump
  deriving DecidableEq

/-- `Q_EMUL_FSM_REPEAT_STATE` comes with `q_emul_repeat_state_buffer`. -/
inductive Status where
  | noCharYet | oneChar | manyChars
  | repeatState (buffer : List UInt8)
  deriving DecidableEq

def Status.ofAnsi : Collected.Status → Status
  | .noCharYet => .noCharYet
  | .oneChar => .oneChar
  | .manyChars => .manyChars

/-- What is written is written with these. -/
structure Pen where
  color : Attr
  insertMode : Bool
  deriving DecidableEq

/-- `clear_state` resets the insert mode. -/
def Pen.off (pen : Pen) : Pen := { pen with insertMode := false }

inductive Deed where
  | print (ch : ℕ)
  | act (action : Action)
  | eraseScreen
  | rectangleScroll (up : Bool) (top left bottom right count : ℕ)
  /-- So many times the line is filled from the cursor on and the cursor goes down; then it is put back. -/
  | fillArea (color : Attr) (ch : UInt8) (columns times : ℕ)
  deriving DecidableEq

structure Event where
  pen : Pen
  deed : Deed
  deriving DecidableEq

/-- The statics of `avatar`, `q_emul_buffer` with what is behind the kept bytes, and the statics of `ansi`. -/
structure State where
  scan : Scan
  kept : List UInt8
  i : ℕ
  behind : List UInt8
  lastState : Status
  pen : Pen
  yChar : UInt8
  yCount : ℕ
  /-- The bytes in `v_y_chars` so far; there is room for `v_y_chars_n + 1`. -/
  vYChars : Option (List UInt8)
  vYCharsN : ℕ
  vJkScrollup : Bool
  vJkNumlines : ℕ
  vJkUpper : ℕ
  vJkLeft : ℕ
  vJkLower : ℕ
  count : ℕ
  attributes : Attr
  ansi : Collected.State
  /-- The bytes of `ansi_buffer` from `ansi_buffer_i` on. -/
  ansiBuffer : List UInt8

structure Reply where
  status : Status
  toScreen : ℕ
  events : List Event
  state : State

namespace State

def clear (s : State) : State :=
  { s with
    scan := .none, kept := [], i := 0, behind := [], pen := s.pen.off, vYChars := none
    vYCharsN := if s.vYChars = none then s.vYCharsN else 0 }

/-- `clear_state`, and the insert mode back. -/
def settle (s : State) : State := { s.clear with pen := s.pen }

def saveChar (s : State) (ch : UInt8) : Option State :=
  if s.kept.length < room then some { s with kept := s.kept ++ [ch], behind := s.behind.tail } else none

end State

/-- The byte goes to the buffer, and the sequence goes on. -/
def goOn (s : State) (ch : UInt8) (scan : Scan) : Option Reply :=
  (s.saveChar ch).map fun s => ⟨.noCharYet, 1, [], { s with scan := scan }⟩

/-- A command that is done. -/
def done (s : State) (deeds : List Deed) : Option Reply := some ⟨.noCharYet, 1, deeds.map (⟨s.pen, ·⟩), s.clear⟩

/-- `pc_to_curses_map`. -/
def pcToCursesMap : List ℕ := [0, 4, 2, 6, 1, 5, 3, 7]

/-- The color of `avatar_set_color`. -/
def avatarSetColor (fromModem : UInt8) : Attr where
  pair := pcToCursesMap.getD (fromModem &&& 7).toNat 0 * 8 + pcToCursesMap.getD (fromModem >>> 4 &&& 7).toNat 0
  bold := fromModem &&& 8 ≠ 0
  blink := fromModem &&& 0x80 ≠ 0

/-! ### Sequences that are not known -/

/-- The ANSI emulation with what the two share. -/
def State.view (s : State) : Collected.State := { s.ansi with kept := s.kept, i := s.i, color := s.pen.color }

def callAnsi (cfg : Config) (s : State) (ch : UInt8) : Option Reply :=
  (Collected.Fallback.ansiOver (Collected.Fallback.ansiConfig cfg.toConfig) s.behind s.view ch).map fun reply =>
  { status := .ofAnsi reply.status
    toScreen := reply.toScreen
    events := ((reply.events.filterMap Collected.Parameters.act).filter (· ≠ .insertModeOff)).map (⟨s.pen, .act ·⟩)
    state :=
      { s with
        ansi := reply.state
        kept := reply.state.kept
        i := reply.state.i
        behind := Collected.Fallback.left s.behind s.view reply ch
        pen :=
          { color := reply.state.color
            insertMode := s.pen.insertMode && !(reply.events.contains (.act .insertModeOff)) } } }

/-- "We can be ourselves again now." -/
def Reply.ourselves (reply : Reply) : Reply :=
  if reply.status = .noCharYet then reply else { reply with state := { reply.state with scan := .none } }

/-- The loop over `ansi_buffer`. -/
def fallbackLoop (cfg : Config) : List UInt8 → State → Option Reply
  | [], _ => none
  | ch :: rest, s =>
    (callAnsi cfg s ch).bind fun reply =>
    let reply := reply.ourselves
    let reply := { reply with state := { reply.state with ansiBuffer := rest } }
    if rest = [] ∨ reply.status ≠ .noCharYet then some reply
    else (fallbackLoop cfg rest reply.state).map fun next => { next with events := reply.events ++ next.events }

/-- `SCAN_ANSI_FALLBACK`. -/
def ansiFallback (cfg : Config) (s : State) (ch : UInt8) : Option Reply :=
  (fallbackLoop cfg (if s.ansiBuffer = [] then [ch] else s.ansiBuffer) s).map fun reply =>
  if reply.status = .manyChars then { reply with state := { reply.state with scan := .dump } } else reply

/-- What is behind the switch. Without the fallback a single byte leaves the machine in `DUMP_UNKNOWN_SEQUENCE`. -/
def giveUp (cfg : Config) (s : State) (ch : UInt8) : Option Reply :=
  if cfg.avatarAnsiFallback then
    ansiFallback cfg
      { s with scan := .ansiFallback, ansiBuffer := s.kept, behind := s.kept ++ s.behind, kept := [], i := 0 } ch
  else
    (readChar (s.kept ++ s.behind) s.i).map fun first =>
    if s.kept.length = 1 then
      ⟨.oneChar, cfg.codepageMapChar first, [], { s with scan := .dump, kept := [], i := 0, behind := s.kept ++ s.behind }⟩
    else ⟨.manyChars, cfg.codepageMapChar first, [], { s with scan := .dump, i := s.i + 1 }⟩

/-- `DUMP_UNKNOWN_SEQUENCE`, with its assertion. -/
def dumpNext (cfg : Config) (s : State) : Option Reply :=
  if s.kept = [] then none else
  (readChar (s.kept ++ s.behind) s.i).map fun next =>
  if s.i + 1 = s.kept.length then
    ⟨.oneChar, cfg.codepageMapChar next, [], { s with scan := .none, kept := [], i := 0, behind := [] }⟩
  else ⟨.manyChars, cfg.codepageMapChar next, [], { s with i := s.i + 1 }⟩

/-! ### The parser -/

def ground (cfg : Config) (s : State) (ch : UInt8) : Option Reply :=
  if ch = escape then goOn s ch .esc
  else if ch = 0x16 then goOn s ch .v
  else if ch = 0x0C then
    some ⟨.noCharYet, 1, [⟨s.pen, .act .formfeed⟩], { s with pen := { s.pen with color := cfg.consoleText } }.clear⟩
  else if ch = 0x19 then goOn s ch .y1
  else if cfg.iscntrl ch then some ⟨.noCharYet, 1, [⟨s.pen, .act (.control ch)⟩], s⟩
  else some ⟨.oneChar, cfg.codepageMapChar ch, [], s⟩

/-- `SCAN_Y_EMIT`: a control character is repeated in one call. -/
def emit (cfg : Config) (s : State) : Option Reply :=
  if s.yCount = 0 then some ⟨.noCharYet, 1, [], s.settle⟩
  else if cfg.iscntrl s.yChar then
    some ⟨.noCharYet, 1, List.replicate s.yCount ⟨s.pen, .act (.control s.yChar)⟩, { s with yCount := 0 }.settle⟩
  else some ⟨.manyChars, cfg.codepageMapChar s.yChar, [], { s with yCount := s.yCount - 1 }⟩

/-- `SCAN_V_Y_2`: nothing outside of `v_y_chars`. -/
def collect (s : State) (ch : UInt8) : Option Reply :=
  (s.saveChar ch).bind fun s =>
  s.vYChars.bind fun chars =>
  if s.vYCharsN < chars.length then none else
  let chars := chars ++ [ch]
  let s := { s with vYChars := some chars }
  some ⟨.noCharYet, 1, [], if chars.length = s.vYCharsN then { s with scan := .vY3 } else s⟩

/-- `SCAN_V_Y_EMIT`. -/
def repeats (s : State) : Option Reply :=
  s.vYChars.map fun chars =>
  ⟨.repeatState (List.replicate s.yCount (chars.take s.vYCharsN)).flatten, 1, [],
    { s with yCount := 0, vYChars := none }.settle⟩

/-- `SCAN_V_JK_5`. -/
def scroll (cfg : Config) (s : State) (right : ℕ) : Option Reply :=
  done s [if s.vJkNumlines = 0 ∨ cfg.rows < s.vJkNumlines then .eraseScreen
    else .rectangleScroll s.vJkScrollup (s.vJkUpper - 1) (s.vJkLeft - 1) (s.vJkLower - 1) (right - 1) s.vJkNumlines]

/-- `SCAN_V_M_4`, with its assertion. -/
def fill (s : State) (fromModem : UInt8) : Option Reply :=
  if s.kept.length < 5 then none
  else
    done s [.fillArea (avatarSetColor (s.kept.getD 3 0)) (s.kept.getD 2 0) (s.kept.getD 4 0).toNat fromModem.toNat]

/-- `SCAN_V`. -/
def command (cfg : Config) (s : State) (ch : UInt8) : Option Reply :=
  if ch = 0x01 then goOn s ch .a1
  else if ch = 0x02 then done { s with pen := { s.pen with color := { s.pen.color with blink := true } } } []
  else if ch = 0x03 then done s [.act (.cursorUp 1)]
  else if ch = 0x04 then done s [.act (.cursorDown 1)]
  else if ch = 0x05 then done s [.act (.cursorLeft 1)]
  else if ch = 0x06 then done s [.act (.cursorRight 1)]
  else if ch = 0x07 then done s [.act (.eraseLine 0)]
  else if ch = 0x08 then goOn s ch .h1
  else if ch = 0x09 then some ⟨.noCharYet, 1, [], { s.clear with pen := { s.pen with insertMode := true } }⟩
  else if ch = 0x0A ∨ ch = 0x0B then
    (s.saveChar ch).bind fun s => goOn { s with vJkScrollup := ch = 0x0A } (code ' ') .vJk1
  else if ch = 0x0C then (s.saveChar ch).bind fun s => goOn s (code ' ') .vM2
  else if ch = 0x0D then goOn s ch .vM1
  else if ch = 0x0E then done s [.act (.deleteCharacter 1)]
  else if ch = 0x10 then done s []
  else if ch = 0x19 then goOn s ch .vY1
  else giveUp cfg s ch

/-- `SCAN_CSI_PARAM` behind its `save_char`. -/
def sgr (cfg : Config) (s : State) (ch : UInt8) : Option Reply :=
  if isDigit ch ∨ ch = code ';' then some ⟨.noCharYet, 1, [], s⟩
  else if ch = code 'm' then
    (Collected.ansiColor cfg.toConfig
      { s.view with count := s.count, attributes := s.attributes } (s.kept ++ s.behind)).bind fun (parsed, output) =>
    if parsed then done { s with attributes := output, pen := { s.pen with color := output } } []
    else giveUp cfg { s with attributes := output } ch
  else giveUp cfg s ch

def avatar (cfg : Config) (s : State) (fromModem : UInt8) : Option Reply :=
  match s.scan with
  | .ansiFallback => ansiFallback cfg s fromModem
  | .none => ground cfg s fromModem
  | .a1 => done { s with pen := { s.pen with color := avatarSetColor fromModem } } []
  | .h1 => goOn s fromModem .h2
  | .h2 => done s [.act (.cursorPosition ((s.kept.getD 2 0).toNat - 1) (fromModem.toNat - 1))]
  | .y1 => goOn { s with yChar := fromModem } fromModem .y2
  | .y2 => emit cfg { s with yCount := fromModem.toNat, scan := .yEmit }
  | .yEmit => emit cfg s
  | .vJk1 => goOn { s with vJkNumlines := fromModem.toNat } fromModem .vJk2
  | .vJk2 => goOn { s with vJkUpper := fromModem.toNat } fromModem .vJk3
  | .vJk3 => goOn { s with vJkLeft := fromModem.toNat } fromModem .vJk4
  | .vJk4 => goOn { s with vJkLower := fromModem.toNat } fromModem .vJk5
  | .vJk5 => scroll cfg s fromModem.toNat
  | .vY1 => goOn { s with vYCharsN := fromModem.toNat, vYChars := some [] } fromModem .vY2
  | .vY2 => collect s fromModem
  | .vY3 => repeats { s with yCount := fromModem.toNat, scan := .vYEmit }
  | .vYEmit => repeats s
  | .vM1 => goOn s fromModem .vM2
  | .vM2 => goOn s fromModem .vM3
  | .vM3 => goOn s fromModem .vM4
  | .vM4 => fill s fromModem
  | .v => command cfg s fromModem
  | .esc =>
    (s.saveChar fromModem).bind fun s =>
    if fromModem = code '[' ∧ cfg.avatarColor then some ⟨.noCharYet, 1, [], { s with scan := .csi }⟩
    else giveUp cfg s fromModem
  | .csi =>
    (s.saveChar fromModem).bind fun s =>
    if isDigit fromModem then
      some ⟨.noCharYet, 1, [], { s with count := s.kept.length - 1, scan := .csiParam }⟩
    else if fromModem = code 'm' then done { s with pen := { s.pen with color := cfg.consoleText } } []
    else giveUp cfg s fromModem
  | .csiParam => (s.saveChar fromModem).bind fun s => sgr cfg s fromModem
  | .dump => dumpNext cfg s

def avatarReset (s : State) : State := { s with scan := .none, vYChars := none, vYCharsN := 0 }

/-- `reset_emulation`. -/
def resetEmulation (cfg : Config) (s : State) : State :=
  avatarReset { s with
    kept := []
    i := 0
    behind := []
    lastState := .noCharYet
    pen := { s.pen with color := cfg.consoleText }
    ansi := Collected.reset (Collected.Fallback.ansiConfig cfg.toConfig) }

/-! ### The terminal and the console -/

/-- "Junk extraneous data". -/
def junked (s : State) : State :=
  if room - 1 ≤ s.kept.length then { s with kept := [], i := 0, behind := [], lastState := .noCharYet } else s

/-- `last_state` is what `avatar` said. -/
def called (cfg : Config) (s : State) (ch : UInt8) : Option Reply :=
  (avatar cfg s ch).map fun reply => { reply with state := { reply.state with lastState := reply.status } }

/-- What is printed behind a call, when `out` is what a character goes through on its way. -/
def printed (out : ℕ → ℕ) (reply : Reply) : List Event :=
  if reply.status = .oneChar then reply.events ++ [⟨reply.state.pen, .print (out reply.toScreen)⟩] else reply.events

/-- "Ugly hack, this should be console": the character of the loop goes through the code page once more. -/
def again (cfg : Config) (toScreen : ℕ) : ℕ := cfg.codepageMapChar (UInt8.ofNat toScreen)

/-- The loop over `q_emul_repeat_state_buffer`, which a call can put another in the place of. Nobody looks whether the
kept bytes leave room. -/
def repeatLoop (cfg : Config) : ℕ → ℕ → List UInt8 → State → Option (State × List Event)
  | 0, _, _, s => some (s, [])
  | fuel + 1, i, buffer, s =>
    if i < buffer.length then
      (called cfg s (buffer.getD i 0)).bind fun reply =>
      (repeatLoop cfg fuel (i + 1)
        (match reply.status with
          | .repeatState other => other
          | _ => buffer) reply.state).map fun rest =>
      (rest.1, printed (again cfg) reply ++ rest.2)
    else some (s, [])

/-- No buffer is longer than this. -/
def longest : ℕ := 255 * 255

def terminalEmulator (cfg : Config) (s : State) (ch : UInt8) : Option Reply :=
  (called cfg (junked s) ch).bind fun reply =>
  match reply.status with
  | .repeatState buffer =>
    if (junked s).lastState = .manyChars then some reply
    else (repeatLoop cfg longest 0 buffer reply.state).map fun rest =>
      ⟨.noCharYet, 1, reply.events ++ rest.2, { rest.1 with lastState := .noCharYet }⟩
  | _ => some reply

/-- The loop of the console around one byte. -/
def drained (cfg : Config) : ℕ → Reply → Option (State × List Event)
  | 0, _ => none
  | fuel + 1, reply =>
    match reply.status with
    | .oneChar => some (reply.state, reply.events ++ [⟨reply.state.pen, .print reply.toScreen⟩])
    | .noCharYet => some (reply.state, reply.events)
    | _ =>
      (terminalEmulator cfg reply.state 255).bind fun next =>
      (drained cfg fuel next).map fun rest =>
      (rest.1, reply.events ++ ⟨reply.state.pen, .print reply.toScreen⟩ :: rest.2)

def console (cfg : Config) (s : State) (ch : UInt8) : Option (State × List Event) :=
  (terminalEmulator cfg s ch).bind (drained cfg (2 * room))

def run (cfg : Config) : State → List UInt8 → Option (State × List Event)
  | s, [] => some (s, [])
  | s, ch :: rest =>
    (console cfg s ch).bind fun next => (run cfg next.1 rest).map fun last => (last.1, next.2 ++ last.2)

end CProgram.Terminal.Avatar
