import CProgram.Terminal.Screen

/-! The ANSI, VT52 and PETSCII emulations as far as the bytes of a sequence go: what is kept in `q_emul_buffer`, what
becomes of it, and how the console empties it. What a sequence does to the screen is named and not carried out. -/
namespace CProgram.Terminal.Collected

inductive Emulator where
  | ansi | vt52 | petscii
  deriving DecidableEq

/-- The options and the tables of characters. PETSCII is without the ANSI fallback. -/
structure Config where
  emulator : Emulator
  codepageMapChar : UInt8 → ℕ
  iscntrl : UInt8 → Bool
  /-- `map_character`, by graphics mode. -/
  vt52Char : Bool → UInt8 → ℕ
  /-- The four tables of the C64, by uppercase and reverse. -/
  c64Char : Bool → Bool → UInt8 → ℕ
  /-- The two tables of Unicode characters, by uppercase. -/
  c64Unicode : Bool → UInt8 → ℕ
  consoleText : Attr
  consoleFg : ℕ
  consoleBg : ℕ
  consoleBold : Bool
  ansiMusic : Bool
  vt52Color : Bool
  petsciiColor : Bool
  petsciiUseUnicode : Bool

/-- The scan states of the three. -/
inductive Scan where
  | none | esc | startSequence | count | countTwo | countMany | music | y1 | y2 | csi | csiParam | dump
  deriving DecidableEq

inductive Status where
  | noCharYet | oneChar | manyChars
  deriving DecidableEq

/-- What is done to the screen and to the other side. -/
inductive Action where
  | control (ch : UInt8) | carriageReturn | linefeed | answerback | identify | report | tab (n : ℕ)
  | cursorUp (n : ℕ) | cursorDown (n : ℕ) | cursorRight (n : ℕ) | cursorLeft (n : ℕ) | cursorPosition (row col : ℕ)
  | cursorRow (row : ℕ) | cursorColumn (col : ℕ) | saveCursor | restoreCursor | reverseLinefeed | formfeed
  | eraseLine (part : ℕ) | eraseScreen (part : ℕ) | insertBlanks (n : ℕ) | deleteCharacter (n : ℕ)
  | scrollDown (n : ℕ) | scrollUp (n : ℕ) | repeatChar (ch n : ℕ) | lineWrap (on : Bool) | playMusic (music : List UInt8)
  | alternateKeypad (on : Bool) | holdScreen (on : Bool) | insertModeOff
  deriving DecidableEq

/-- What an emulation keeps from one sequence to the next. -/
structure Memory where
  color : Attr
  attributes : Attr
  privateMode : Bool
  decPrivateMode : Bool
  repCharacter : ℕ
  graphics : Bool
  uppercase : Bool
  reverse : Bool
  deriving DecidableEq

inductive Event where
  | act (action : Action)
  | print (ch : ℕ)
  /-- An ESC begins a sequence. -/
  | began (memory : Memory)
  /-- A byte goes to `q_emul_buffer`. -/
  | stored (ch : UInt8)
  | rejected
  deriving DecidableEq

/-- The first `q_emul_buffer_n` bytes of `q_emul_buffer`, `q_emul_buffer_i` and the statics of the emulation. -/
structure State where
  scan : Scan
  kept : List UInt8
  i : ℕ
  lastState : Status
  count : ℕ
  attributes : Attr
  color : Attr
  privateMode : Bool
  decPrivateMode : Bool
  repCharacter : ℕ
  music : List UInt8
  graphics : Bool
  uppercase : Bool
  reverse : Bool
  deriving DecidableEq

structure Reply where
  status : Status
  toScreen : ℕ
  events : List Event
  state : State

/-- `sizeof(q_emul_buffer)`. -/
def room : ℕ := 128

/-- In VT52 and PETSCII the attributes of one color sequence go on in the next, but for their color. -/
def memory (cfg : Config) (s : State) : Memory where
  color := s.color
  attributes := if cfg.emulator = .ansi then {} else { s.attributes with pair := 0 }
  privateMode := s.privateMode
  decPrivateMode := s.decPrivateMode
  repCharacter := s.repCharacter
  graphics := s.graphics
  uppercase := s.uppercase
  reverse := s.reverse

def code (c : Char) : UInt8 := c.toNat.toUInt8

def escape : UInt8 := 27

def isDigit (ch : UInt8) : Bool := 48 ≤ ch ∧ ch ≤ 57

namespace State

/-- `clear_state`. -/
def clear (s : State) : State :=
  { s with scan := .none, kept := [], i := 0, privateMode := false, decPrivateMode := false }

/-- `save_char`: nothing outside the buffer. -/
def saveChar (s : State) (ch : UInt8) : Option State :=
  if s.kept.length < room then some { s with kept := s.kept ++ [ch] } else none

end State

/-! The parameters of a sequence -/

/-- A byte of `q_emul_buffer`; what is behind the kept ones is NUL. -/
def readChar (kept : List UInt8) (count : ℕ) : Option UInt8 :=
  if count < room then some (kept.getD count 0) else none

def digit (ch : UInt8) : ℕ := ch.toNat - 48

/-- The number, nothing for -1, and where `count` is then. -/
def ansiPs (kept : List UInt8) (count : ℕ) : Option (Option ℕ × ℕ) :=
  (readChar kept count).bind fun first =>
  if !isDigit first then some (none, count) else
  (readChar kept (count + 1)).bind fun second =>
  if !isDigit second then some (some (digit first), count + 1) else
  (readChar kept (count + 2)).bind fun third =>
  if !isDigit third then some (some (digit first * 10 + digit second), count + 2) else
  (readChar kept (count + 3)).bind fun fourth =>
  if isDigit fourth then some (none, count + 3)
  else some (some ((digit first * 10 + digit second) * 10 + digit third), count + 3)

/-- The loop of `ansi_ich` and of its siblings: the parameter less `least`, nothing for false. A second round finds the
parameter set. -/
def oneParameter (least omitted : ℕ) (kept : List UInt8) (count : ℕ) : Option (Option ℕ) :=
  let again (count value : ℕ) : Option ℕ := if count < room then none else some value
  (readChar kept count).bind fun first =>
  if first = code ';' then some (again (count + 1) omitted) else
  (ansiPs kept count).bind fun (ps, count) =>
  match ps with
  | none => some none
  | some n =>
    if n < least then some none else
    (readChar kept count).bind fun next =>
    if next = 0 then some (some (n - least))
    else if next ≠ code ';' then some none
    else (readChar kept (count + 2)).bind fun last =>
      if last = 0 then some (some (n - least)) else some (again (count + 2) (n - least))

def ansiPosition (kept : List UInt8) (count : ℕ) : Option (Option (ℕ × ℕ)) :=
  let behind (row col count : ℕ) : Option (Option (ℕ × ℕ)) :=
    (readChar kept (count + 1)).bind fun last =>
    if last = 0 then some (some (row, col)) else if count + 1 < room then some none else some (some (row, col))
  let column (row count : ℕ) : Option (Option (ℕ × ℕ)) :=
    (readChar kept count).bind fun next =>
    if next = 0 then behind row 0 count
    else if next ≠ code ';' then some none
    else (ansiPs kept (count + 1)).bind fun (ps, count) =>
      match ps with
      | none => some none
      | some n => behind row (n - 1) count
  (readChar kept count).bind fun first =>
  if first = code ';' then column 0 (count + 1) else
  (ansiPs kept count).bind fun (ps, count) =>
  match ps with
  | none => some none
  | some n => column (n - 1) count

/-- The output, the foreground and the background behind one number. -/
def ansiColorOne (cfg : Config) (ps : ℕ) (output : Attr) (fg bg : ℕ) : Attr × ℕ × ℕ :=
  let bolder (output : Attr) : Attr := if cfg.consoleBold then { output with bold := true } else output
  match ps with
  | 0 => (bolder {}, cfg.consoleFg, cfg.consoleBg)
  | 1 => ({ output with bold := true }, fg, bg)
  | 2 => ({ output with dim := true }, fg, bg)
  | 4 => ({ output with underline := true }, fg, bg)
  | 5 => ({ output with blink := true }, fg, bg)
  | 7 => ({ output with reverse := true }, fg, bg)
  | 21 | 22 => ({ output with dim := false, bold := false }, fg, bg)
  | 24 => ({ output with underline := false }, fg, bg)
  | 25 => ({ output with blink := false }, fg, bg)
  | 27 => ({ output with reverse := false }, fg, bg)
  | 38 => ({ bolder output with underline := true }, cfg.consoleFg, bg)
  | 39 => ({ bolder output with underline := false }, cfg.consoleFg, bg)
  | 49 => ({ output with underline := false }, fg, cfg.consoleBg)
  | ps =>
    if 30 ≤ ps ∧ ps ≤ 37 then (output, ps - 30, bg)
    else if 40 ≤ ps ∧ ps ≤ 47 then (output, fg, ps - 40)
    else (output, fg, bg)

/-- The loop of `ansi_color`: whether it was parsed, and `*output`. -/
def ansiColorLoop (cfg : Config) (kept : List UInt8) : ℕ → ℕ → Attr → ℕ → ℕ → Option (Bool × Attr)
  | 0, _, output, _, _ => some (false, output)
  | fuel + 1, count, output, fg, bg =>
    if count < room then
      (ansiPs kept count).bind fun (ps, count) =>
      match ps with
      | none => some (false, output)
      | some n =>
        let (output, fg, bg) := ansiColorOne cfg n output fg bg
        (readChar kept count).bind fun next =>
        if next ≠ code ';' then some (true, { output with pair := fg * 8 + bg })
        else ansiColorLoop cfg kept fuel (count + 1) output fg bg
    else some (false, output)

def ansiColor (cfg : Config) (s : State) (kept : List UInt8) : Option (Bool × Attr) :=
  ansiColorLoop cfg kept room s.count { s.attributes with pair := 0 } (s.color.pair / 8 % 8) (s.color.pair % 8)

/-! ANSI -/

/-- The byte goes to the buffer, and the sequence goes on. -/
def keep (s : State) (ch : UInt8) (scan : Scan) : Option Reply :=
  (s.saveChar ch).map fun s => ⟨.noCharYet, 1, [.stored ch], { s with scan := scan }⟩

def done (s : State) (actions : List Action) : Option Reply := some ⟨.noCharYet, 1, actions.map .act, s.clear⟩

/-- "This point means we got most, but not all, of a sequence." -/
def unknown (s : State) (ch : UInt8) : Option Reply :=
  (s.saveChar ch).bind fun s =>
  (readChar s.kept s.i).map fun first =>
  if s.kept.length = 1 then ⟨.oneChar, first.toNat, [.stored ch, .rejected], { s with scan := .none, kept := [], i := 0 }⟩
  else ⟨.manyChars, first.toNat, [.stored ch, .rejected], { s with scan := .none, i := s.i + 1 }⟩

/-- The codes behind `CSI`, with the parameter that they take when there is none. -/
def startActions (s : State) : List (Char × List Action) :=
  [('K', [.eraseLine 0]), ('J', [.eraseScreen 0]), ('A', [.cursorUp 1]), ('B', [.cursorDown 1]), ('C', [.cursorRight 1]),
    ('D', [.cursorLeft 1]), ('H', [.cursorPosition 0 0]), ('f', [.cursorPosition 0 0]), ('c', [.identify]),
    ('s', [.saveCursor]), ('u', [.restoreCursor]), ('I', [.tab 1]), ('@', [.insertBlanks 1]), ('d', [.cursorRow 0]),
    ('G', [.cursorColumn 0]), ('L', [.scrollDown 1]), ('P', [.deleteCharacter 1]), ('b', [.repeatChar s.repCharacter 1]),
    ('!', [])]

/-- The codes with a parser of their own, how it takes the parameter, and what they do. -/
def parameterActions (s : State) : List (Char × ℕ × ℕ × (ℕ → List Action)) :=
  [('@', 0, 1, fun n => [.insertBlanks n]), ('I', 1, 1, fun n => [.tab n]), ('d', 1, 0, fun n => [.cursorRow n]),
    ('G', 1, 0, fun n => [.cursorColumn n]), ('L', 0, 1, fun n => [.scrollDown n]), ('M', 0, 1, fun n => [.scrollUp n]),
    ('P', 0, 1, fun n => [.deleteCharacter n]), ('b', 0, 1, fun n => [.repeatChar s.repCharacter n]),
    ('h', 0, 0, fun n => if n = 7 ∧ (s.privateMode ∨ s.decPrivateMode) then [.lineWrap true] else []),
    ('l', 0, 0, fun n => if n = 7 ∧ (s.privateMode ∨ s.decPrivateMode) then [.lineWrap false] else [])]

/-- The codes that take one number with `ansi_ps`. -/
def numberActions : List (Char × (ℕ → List Action)) :=
  [('K', fun n => if n ≤ 2 then [.eraseLine n] else []),
    ('J', fun n => if n ≤ 1 then [.eraseScreen n] else if n = 2 then [.formfeed] else []), ('A', fun n => [.cursorUp n]),
    ('B', fun n => [.cursorDown n]), ('C', fun n => [.cursorRight n]), ('D', fun n => [.cursorLeft n])]

/-- `m`: the new color, or a sequence that is not one. -/
def ansiSgr (cfg : Config) (s : State) (ch : UInt8) : Option Reply :=
  (ansiColor cfg s s.kept).bind fun (parsed, output) =>
  if parsed then done { s with color := output, attributes := output } [] else unknown { s with attributes := output } ch

/-- `H` and `f`. -/
def ansiCursor (s : State) (ch : UInt8) : Option Reply :=
  (ansiPosition s.kept s.count).bind fun position =>
  match position with
  | some (row, col) => done s [.cursorPosition row col]
  | none => unknown s ch

def ansiStart (cfg : Config) (s : State) (ch : UInt8) : Option Reply :=
  if isDigit ch then keep { s with count := s.kept.length } ch .count
  else if ch = code 'm' then done { s with color := cfg.consoleText } []
  else if ch = code ';' then keep { s with count := s.kept.length } ch .countTwo
  else if ch = code 'M' then
    if cfg.ansiMusic then some ⟨.noCharYet, 1, [], { s with scan := .music, music := [ch] }⟩ else done s [.scrollUp 1]
  else if ch = code '=' then some ⟨.noCharYet, 1, [], { s with privateMode := true }⟩
  else if ch = code '?' then some ⟨.noCharYet, 1, [], { s with decPrivateMode := true }⟩
  else match (startActions s).find? fun row => code row.1 = ch with
    | some row => done s row.2
    | none => unknown s ch

def ansiCount (cfg : Config) (s : State) (ch : UInt8) : Option Reply :=
  if isDigit ch then keep s ch .count
  else if ch = code ';' then keep s ch .countTwo
  else if ch = code 'H' ∨ ch = code 'f' then ansiCursor s ch
  else if ch = code 'm' then ansiSgr cfg s ch
  else if ch = code 'n' then done s (if s.kept.length = 3 ∧ s.kept.getD 2 0 = code '6' then [.report] else [])
  else if ch = code '!' then done s []
  else match numberActions.find? fun row => code row.1 = ch with
    | some row =>
      (ansiPs s.kept s.count).bind fun (ps, _) =>
      match ps with
      | some n => done s (row.2 n)
      | none => unknown s ch
    | none =>
      match (parameterActions s).find? fun row => code row.1 = ch with
      | some row =>
        (oneParameter row.2.1 row.2.2.1 s.kept s.count).bind fun value =>
        match value with
        | some n => done s (row.2.2.2 n)
        | none => unknown s ch
      | none => unknown s ch

def ansiCountTwo (cfg : Config) (s : State) (ch : UInt8) : Option Reply :=
  if isDigit ch then keep s ch .countTwo
  else if ch = code ';' then keep s ch .countMany
  else if ch = code 'H' ∨ ch = code 'f' then ansiCursor s ch
  else if ch = code 'm' then ansiSgr cfg s ch
  else unknown s ch

def ansiCountMany (cfg : Config) (s : State) (ch : UInt8) : Option Reply :=
  if isDigit ch ∨ ch = code ';' then keep s ch .countMany
  else if ch = code 'm' then ansiSgr cfg s ch
  else unknown s ch

/-- `ANSI_MUSIC_BUFFER_SIZE`. -/
def musicRoom : ℕ := 1024

def ansiMusic (s : State) (ch : UInt8) : Option Reply :=
  if ch = 14 ∨ ch = 13 then done s [.playMusic s.music]
  else if s.music.length < musicRoom then
    let s := { s with music := s.music ++ [ch] }
    if musicRoom ≤ s.music.length then done s [] else some ⟨.noCharYet, 1, [], s⟩
  else none

/-- An ESC in the ground state. -/
def beginSequence (cfg : Config) (s : State) : Option Reply :=
  (s.saveChar escape).map fun next =>
  ⟨.noCharYet, 1, [.began (memory cfg s), .stored escape], { next with scan := .esc }⟩

def ansi (cfg : Config) (s : State) (ch : UInt8) : Option Reply :=
  match s.scan with
  | .none =>
    if ch = escape then beginSequence cfg { s with attributes := s.color }
    else if cfg.iscntrl ch then some ⟨.noCharYet, 1, [.act (.control ch)], s⟩
    else some ⟨.oneChar, cfg.codepageMapChar ch, [], { s with repCharacter := cfg.codepageMapChar ch }⟩
  | .esc =>
    if ch = code '[' then keep s ch .startSequence
    else if ch = code 'Z' then done s [.identify]
    else if ch = escape then some ⟨.noCharYet, 1, [], s⟩
    else unknown s ch
  | .startSequence => ansiStart cfg s ch
  | .count => ansiCount cfg s ch
  | .countTwo => ansiCountTwo cfg s ch
  | .countMany => ansiCountMany cfg s ch
  | .music => ansiMusic s ch
  | .y1 | .y2 | .csi | .csiParam | .dump => unknown s ch

/-! VT52 -/

def vt52Ground (cfg : Config) (s : State) (ch : UInt8) (actions : List Action) : Option Reply :=
  if ch = escape then (beginSequence cfg s).map fun reply => { reply with events := actions.map .act ++ reply.events }
  else if ch = 5 then done s (actions ++ [.answerback])
  else if ch = 8 then done s (actions ++ [.cursorLeft 1])
  else if ch = 9 then done s (actions ++ [.tab 1])
  else if ch = 127 ∨ cfg.iscntrl ch then done s actions
  else some ⟨.oneChar, cfg.vt52Char s.graphics ch, actions.map .act, s⟩

def vt52Actions : List (Char × List Action) :=
  [('A', [.cursorUp 1]), ('B', [.cursorDown 1]), ('C', [.cursorRight 1]), ('D', [.cursorLeft 1]), ('E', [.formfeed]),
    ('H', [.cursorPosition 0 0]), ('I', [.reverseLinefeed]), ('J', [.eraseScreen 0]), ('K', [.eraseLine 0]),
    ('Z', [.identify]), ('=', [.alternateKeypad true]), ('>', [.alternateKeypad false]), ('\\', [.holdScreen false])]

def vt52Escape (cfg : Config) (s : State) (ch : UInt8) : Option Reply :=
  if ch = code 'F' then done { s with graphics := true } []
  else if ch = code 'G' then done { s with graphics := false } []
  else if ch = code 'Y' then keep s ch .y1
  else if ch = code '[' then if cfg.vt52Color then keep s ch .csi else done s [.holdScreen true]
  else match vt52Actions.find? fun row => code row.1 = ch with
    | some row => done s row.2
    | none => unknown s ch

def vt52 (cfg : Config) (s : State) (fromModem : UInt8) : Option Reply :=
  let ch := fromModem &&& 127
  match s.scan with
  | .none => vt52Ground cfg s ch []
  | .y1 => keep s ch .y2
  | .y2 => done s [.cursorPosition ((s.kept.getD 2 0).toNat - 32) (ch.toNat - 32)]
  | .esc => vt52Escape cfg s ch
  | .csi =>
    if isDigit ch then keep { s with count := s.kept.length } ch .csiParam
    else if ch = code 'm' then done { s with color := cfg.consoleText } []
    else vt52Ground cfg s.clear ch [.holdScreen true]
  | .csiParam =>
    if isDigit ch ∨ ch = code ';' then keep s ch .csiParam
    else if ch = code 'm' then ansiSgr cfg s ch
    else unknown s ch
  | .startSequence | .count | .countTwo | .countMany | .music | .dump => unknown s ch

/-! PETSCII -/

/-- The color of a control character: a foreground, and whether it is bold. -/
def controlColor (ch : UInt8) : Option (ℕ × Option Bool) :=
  ([(0x05, 7, some true), (0x1C, 1, none), (0x1E, 2, none), (0x1F, 4, none), (0x81, 1, some true), (0x90, 0, none),
    (0x95, 3, some false), (0x96, 5, some true), (0x97, 0, some true), (0x98, 7, some false), (0x99, 2, some true),
    (0x9A, 4, some true), (0x9B, 7, some false), (0x9C, 5, some false), (0x9E, 3, some true),
    (0x9F, 6, some false)] : List (UInt8 × ℕ × Option Bool)).lookup ch

/-- `petscii_handle_control_char`, with what it does to the screen as one action. -/
def petsciiControl (s : State) (ch : UInt8) : State :=
  let s := if ch = 0x0E then { s with uppercase := false } else if ch = 0x8E then { s with uppercase := true }
    else if ch = 0x12 then { s with reverse := true } else if ch = 0x92 then { s with reverse := false } else s
  match controlColor ch with
  | some (fg, bold) =>
    { s with color := { s.color with bold := bold.getD s.color.bold, pair := fg * 8 + s.color.pair % 8 } }
  | none => s

/-- The sequence is not known; the byte that says so is already in the buffer. -/
def petsciiUnknown (cfg : Config) (s : State) (ch : UInt8) : Option Reply :=
  (readChar s.kept s.i).map fun first =>
  if s.kept.length = 1 then
    ⟨.oneChar, cfg.codepageMapChar first, [.stored ch, .rejected], { s with scan := .dump, kept := [], i := 0 }⟩
  else ⟨.manyChars, cfg.codepageMapChar first, [.stored ch, .rejected], { s with scan := .dump, i := s.i + 1 }⟩

def petsciiDone (s : State) (ch : UInt8) : Option Reply :=
  some ⟨.noCharYet, 1, [.stored ch, .act .insertModeOff], s.clear⟩

def petsciiSgr (cfg : Config) (s : State) (ch : UInt8) : Option Reply :=
  (ansiColor cfg s s.kept).bind fun (parsed, output) =>
  if parsed then petsciiDone { s with color := output, attributes := output } ch
  else petsciiUnknown cfg { s with attributes := output } ch

def petsciiGround (cfg : Config) (s : State) (ch : UInt8) : Option Reply :=
  if ch = escape ∧ cfg.petsciiColor then beginSequence cfg s
  else if ch < 0x20 ∨ 0x80 ≤ ch ∧ ch < 0xA0 then some ⟨.noCharYet, 1, [.act (.control ch)], petsciiControl s ch⟩
  else if cfg.petsciiUseUnicode then
    some ⟨.oneChar, cfg.c64Unicode s.uppercase ch, [], { s with color := { s.color with reverse := s.reverse } }⟩
  else some ⟨.oneChar, cfg.c64Char s.uppercase s.reverse ch, [], s⟩

/-- `DUMP_UNKNOWN_SEQUENCE`; with nothing in the buffer the assertion fails. -/
def petsciiDump (cfg : Config) (s : State) : Option Reply :=
  if s.kept = [] then none else
  (readChar s.kept s.i).map fun next =>
  if s.i + 1 = s.kept.length then
    ⟨.oneChar, cfg.codepageMapChar next, [], { s with scan := .none, kept := [], i := 0 }⟩
  else ⟨.manyChars, cfg.codepageMapChar next, [], { s with i := s.i + 1 }⟩

def petscii (cfg : Config) (s : State) (ch : UInt8) : Option Reply :=
  match s.scan with
  | .none => petsciiGround cfg s ch
  | .dump => petsciiDump cfg s
  | .esc =>
    (s.saveChar ch).bind fun s =>
    if ch = code '[' ∧ cfg.petsciiColor then some ⟨.noCharYet, 1, [.stored ch], { s with scan := .csi }⟩
    else petsciiUnknown cfg s ch
  | .csi =>
    (s.saveChar ch).bind fun s =>
    if isDigit ch then
      some ⟨.noCharYet, 1, [.stored ch], { s with count := s.kept.length - 1, scan := .csiParam }⟩
    else if ch = code 'm' then petsciiDone { s with color := cfg.consoleText } ch
    else petsciiUnknown cfg s ch
  | .csiParam =>
    (s.saveChar ch).bind fun s =>
    if isDigit ch ∨ ch = code ';' then some ⟨.noCharYet, 1, [.stored ch], s⟩
    else if ch = code 'm' then petsciiSgr cfg s ch
    else petsciiUnknown cfg s ch
  | .startSequence | .count | .countTwo | .countMany | .music | .y1 | .y2 => petsciiUnknown cfg s ch

/-! The terminal and the console -/

/-- "Junk extraneous data". -/
def junk (s : State) : State :=
  if room - 1 ≤ s.kept.length then { s with kept := [], i := 0, lastState := .noCharYet } else s

def emulate (cfg : Config) (s : State) (ch : UInt8) : Option Reply :=
  match cfg.emulator with
  | .ansi => ansi cfg s ch
  | .vt52 => vt52 cfg s ch
  | .petscii => petscii cfg s ch

/-- `last_state` is what the emulation said. -/
def Reply.remember (reply : Reply) : Reply := { reply with state := { reply.state with lastState := reply.status } }

/-- One more character of `q_emul_buffer`. -/
def dumpNext (cfg : Config) (s : State) : Option Reply :=
  if s.kept = [] then some ⟨.noCharYet, 0, [], { s with lastState := .noCharYet }⟩ else
  (readChar s.kept s.i).map fun next =>
  if s.i + 1 = s.kept.length then ⟨.manyChars, cfg.codepageMapChar next, [], { s with kept := [], i := 0 }⟩
  else ⟨.manyChars, cfg.codepageMapChar next, [], { s with i := s.i + 1 }⟩

def terminalEmulator (cfg : Config) (s : State) (ch : UInt8) : Option Reply :=
  let s := junk s
  if s.lastState = .manyChars then
    if cfg.emulator = .petscii then (petscii cfg s ch).map Reply.remember else dumpNext cfg s
  else if cfg.emulator ≠ .petscii ∧ ch = 13 then some ⟨.noCharYet, 1, [.act .carriageReturn], s⟩
  else if cfg.emulator ≠ .petscii ∧ ch = 10 then some ⟨.noCharYet, 1, [.act .linefeed], s⟩
  else (emulate cfg s ch).map Reply.remember

/-- The loop of the console around one byte. -/
def drain (cfg : Config) : ℕ → Reply → Option (State × List Event)
  | 0, _ => none
  | fuel + 1, reply =>
    match reply.status with
    | .oneChar => some (reply.state, reply.events ++ [.print reply.toScreen])
    | .noCharYet => some (reply.state, reply.events)
    | .manyChars =>
      (terminalEmulator cfg reply.state 255).bind fun next =>
      (drain cfg fuel next).map fun rest => (rest.1, reply.events ++ .print reply.toScreen :: rest.2)

/-- One byte for the console, which asks no more than so often for the next character. -/
def receive (cfg : Config) (s : State) (ch : UInt8) : Option (State × List Event) :=
  (terminalEmulator cfg s ch).bind (drain cfg (2 * room))

def feed (cfg : Config) : State → List UInt8 → Option (State × List Event)
  | s, [] => some (s, [])
  | s, ch :: rest =>
    (receive cfg s ch).bind fun next => (feed cfg next.1 rest).map fun last => (last.1, next.2 ++ last.2)

/-- `reset_emulation`. -/
def reset (cfg : Config) : State where
  scan := .none
  kept := []
  i := 0
  lastState := .noCharYet
  count := 0
  attributes := {}
  color := cfg.consoleText
  privateMode := false
  decPrivateMode := false
  repCharacter := 0
  music := []
  graphics := false
  uppercase := false
  reverse := false

end CProgram.Terminal.Collected
