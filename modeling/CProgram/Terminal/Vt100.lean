import CProgram.Terminal.Parser

/-! `vt100` byte by byte: the tables that pick the handlers, one function for each scan state, and
what `terminal_emulator` puts around them. -/
namespace CProgram.Terminal
open CProgram.Bytes

/-! ### Which handler a final byte calls -/

/-- `30-4F` after ESC. -/
def escHandler (e : Emulation) (vt52Mode : Bool) (ch : UInt8) : Option Handler :=
  match Char.ofNat ch.toNat with
  | '7' => some .decsc
  | '8' => some .decrc
  | '<' => if vt52Mode then some .exitVt52 else none
  | '=' => some .deckpam
  | '>' => some .deckpnm
  | 'A' => if vt52Mode then some .cursorUp else none
  | 'B' => if vt52Mode then some .cursorDown else none
  | 'C' => if vt52Mode then some .cursorRight else none
  | 'D' => if vt52Mode then some .cursorLeft else some .ind
  | 'E' => if vt52Mode then none else some .nel
  | 'F' => if vt52Mode then some (.designate 0 .vt52Graphics) else none
  | 'G' => if vt52Mode then some (.designate 0 .us) else none
  | 'H' => if vt52Mode then some .cursorHome else some .hts
  | 'I' => if vt52Mode then some .ri else none
  | 'J' => if vt52Mode then some .eraseToEndOfScreen else none
  | 'K' => if vt52Mode then some .eraseToEndOfLine else none
  | 'M' => if vt52Mode then none else some .ri
  | 'N' => if !vt52Mode && e.c1 then some .ss2 else none
  | 'O' => if !vt52Mode && e.c1 then some .ss3 else none
  | _ => none

/-- `60-7E` after ESC. -/
def escLowerHandler (e : Emulation) (ch : UInt8) : Option Handler :=
  match Char.ofNat ch.toNat with
  | 'c' => some .ris
  | 'n' => if e.vt220s then some (.lockshift .g2Gl) else none
  | 'o' => if e.vt220s then some (.lockshift .g3Gl) else none
  | '|' => if e.vt220s then some (.lockshift .g3Gr) else none
  | '\x7d' => if e.vt220s then some (.lockshift .g2Gr) else none
  | '~' => if e.vt220s then some (.lockshift .g1Gr) else none
  | _ => none

/-- The character sets that a VT100 has. -/
def vt100Charset (ch : UInt8) : Option Charset :=
  match Char.ofNat ch.toNat with
  | '0' => some .drawing
  | '1' => some .rom
  | '2' => some .romSpecial
  | 'A' => some .uk
  | 'B' => some .us
  | _ => none

/-- The character sets that came with the VT220. -/
def vt220Charset (ch : UInt8) : Option Charset :=
  match Char.ofNat ch.toNat with
  | '4' => some .nrcDutch
  | '5' | 'C' => some .nrcFinnish
  | '6' | 'E' => some .nrcNorwegian
  | '7' | 'H' => some .nrcSwedish
  | '<' => some .decSupplemental
  | '=' => some .nrcSwiss
  | 'K' => some .nrcGerman
  | 'Q' => some .nrcFrenchCa
  | 'R' => some .nrcFrench
  | 'Y' => some .nrcItalian
  | 'Z' => some .nrcSpanish
  | _ => none

/-- A character set for G0 or G1. -/
def charset01 (e : Emulation) (ch : UInt8) : Option Charset :=
  match vt100Charset ch with
  | some charset => some charset
  | none => if e.vt220s then vt220Charset ch else none

/-- A character set for G2 or G3, which the ROM sets cannot be. -/
def charset23 (e : Emulation) (ch : UInt8) : Option Charset :=
  if e.vt220s && !(decide (ch = 0x31) || decide (ch = 0x32)) then charset01 e ch else none

/-- `30-7E` after ESC and one intermediate. -/
def escIntermediateHandler (e : Emulation) (emulBuffer : List UInt8) (ch : UInt8) : Option Handler :=
  match emulBuffer.map fun ch => Char.ofNat ch.toNat with
  | ['('] => (charset01 e ch).map (.designate 0)
  | [')'] => (charset01 e ch).map (.designate 1)
  | ['*'] => (charset23 e ch).map (.designate 2)
  | ['+'] => (charset23 e ch).map (.designate 3)
  | ['#'] =>
    match Char.ofNat ch.toNat with
    | '3' => some (.dechdl true)
    | '4' => some (.dechdl false)
    | '5' => some .decswl
    | '6' => some .decdwl
    | '8' => some .decaln
    | _ => none
  | [' '] =>
    match Char.ofNat ch.toNat with
    | 'F' => if e.vt220s then some (.s8c1t false) else none
    | 'G' => if e.vt220s then some (.s8c1t true) else none
    | _ => none
  | _ => none

/-- `40-7E` after CSI, with or without parameters. -/
def csiHandler (e : Emulation) (ch : UInt8) : Option Handler :=
  match Char.ofNat ch.toNat with
  | '@' => some .ich
  | 'A' => some .cuu
  | 'B' => some .cud
  | 'C' => some .cuf
  | 'D' => some .cub
  | 'E' => if e.console || e.anyXterm then some .cnl else none
  | 'F' => if e.console || e.anyXterm then some .cpl else none
  | 'G' => if e.console || e.anyXterm then some .cha else none
  | 'H' => some .cup
  | 'I' => if e.anyXterm then some .cht else none
  | 'J' => some .ed
  | 'K' => some .el
  | 'L' => some .il
  | 'M' => some .dl
  | 'P' => some .dch
  | 'S' => if e.anyXterm then some .su else none
  | 'T' => if e.anyXterm then some .sd else none
  | 'X' => if decide (e = .vt220) || e.console || e.anyXterm then some .ech else none
  | 'Z' => if e.console || e.anyXterm then some .cbt else none
  | ']' => if e.console || e.anyXterm then some .linuxCsi else none
  | '\x60' => if e.console || e.anyXterm then some .cha else none
  | 'a' => if e.console || e.anyXterm then some .cuf else none
  | 'b' => if e.anyXterm then some .rep else none
  | 'c' => some .da
  | 'd' => if e.console || e.anyXterm then some .vpa else none
  | 'e' => if e.console || e.anyXterm then some .cud else none
  | 'f' => some .hvp
  | 'g' => some .tbc
  | 'h' => some (.setToggle true)
  | 'i' => if e.vt220s then some .printerFunctions else none
  | 'l' => some (.setToggle false)
  | 'm' => some .sgr
  | 'n' => some .dsr
  | 'q' => some .decll
  | 'r' => some .decstbm
  | 's' => if e.console || e.anyXterm then some .saveCursor else none
  | 'u' => if e.console || e.anyXterm then some .restoreCursor else none
  | 'x' => some .decreqtparm
  | _ => none

/-- `40-7E` after CSI and intermediates, of which the last counts. -/
def csiIntermediateHandler (e : Emulation) (emulBuffer : List UInt8) (ch : UInt8) : Option Handler :=
  match Char.ofNat ch.toNat, emulBuffer.getLast? with
  | 'p', some 0x22 => if e.vt220s then some .decscl else none
  | 'p', some 0x21 => if e.anyXterm then some .decstr else none
  | 'q', some 0x22 => if e.vt220s then some .decsca else none
  | _, _ => none

namespace Parser

/-! ### The scan states -/

def scanGround (e : Emulation) (p : Parser) (ch : UInt8) : Verdict :=
  if executes e ch then p.execute ch
  else if within 0x20 0x7F ch then
    -- VT220 printer: trash bin
    if decide (e = .vt220) && p.printerControllerMode then .discard p [] else .emit p (.mapped ch)
  else if within 0xA0 0xFF ch && e.c1 then
    if p.printerControllerMode then .discard p [] else .emit p (.mapped ch)
  else .fall

def scanEscape (e : Emulation) (p : Parser) (ch : UInt8) : Verdict :=
  if executes e ch then p.execute ch
  else if within 0x20 0x2F ch then .discard ((p.collect ch).goto .escapeIntermediate) []
  else if within 0x30 0x4F ch then p.dispatch (escHandler e p.vt52Mode ch)
  else if within 0x51 0x57 ch then p.dispatch none
  else if ch = 0x59 then
    if p.vt52Mode then .discard (p.goto .vt52DirectCursorAddress) [] else p.dispatch none
  else if ch = 0x5A then p.dispatch (some .identify)
  else if ch = 0x5C then p.dispatch none
  -- VT52 cannot get to any of these other states
  else if p.vt52Mode then p.dispatch none
  else if within 0x60 0x7E ch then p.dispatch (escLowerHandler e ch)
  else if ch = 0x7F then .discard p []
  else if ch = 0x5B then .discard (p.goto .csiEntry) []
  else if ch = 0x5D then .discard (p.goto .oscString) []
  else if ch = 0x50 then .discard (p.goto .dcsEntry) []
  else if ch = 0x58 ∨ ch = 0x5E ∨ ch = 0x5F then .discard (p.goto .sosPmApcString) []
  else .fall

def scanEscapeIntermediate (e : Emulation) (p : Parser) (ch : UInt8) : Verdict :=
  if executes e ch then p.execute ch
  else if within 0x20 0x2F ch then .discard (p.collect ch) []
  else if within 0x30 0x7E ch then p.dispatch (escIntermediateHandler e p.emulBuffer ch)
  else if ch ≤ 0x7F then .discard p []
  else if ch = 0x9C then .discard p.finish []
  else .fall

def scanCsiEntry (e : Emulation) (p : Parser) (ch : UInt8) : Verdict :=
  if executes e ch then p.execute ch
  else if within 0x20 0x2F ch then .discard ((p.collect ch).goto .csiIntermediate) []
  else if within 0x30 0x39 ch || decide (ch = 0x3B) then .discard ((p.param ch).goto .csiParam) []
  else if within 0x3C 0x3F ch then .discard ((p.collect ch).goto .csiParam) []
  else if within 0x40 0x7E ch then p.dispatch (csiHandler e ch)
  -- the colon ends up here, not in the test after the next
  else if ch ≤ 0x7F then .discard p []
  else if ch = 0x9C then .discard p.finish []
  else if ch = 0x3A then .discard (p.goto .csiIgnore) []
  else .fall

def scanCsiParam (e : Emulation) (p : Parser) (ch : UInt8) : Verdict :=
  if executes e ch then p.execute ch
  else if within 0x20 0x2F ch then .discard ((p.collect ch).goto .csiIntermediate) []
  else if within 0x30 0x39 ch || decide (ch = 0x3B) then .discard (p.param ch) []
  else if ch = 0x3A || within 0x3C 0x3F ch then .discard (p.goto .csiIgnore) []
  else if within 0x40 0x7E ch then p.dispatch (csiHandler e ch)
  else if ch ≤ 0x7F then .discard p []
  else .fall

def scanCsiIntermediate (e : Emulation) (p : Parser) (ch : UInt8) : Verdict :=
  if executes e ch then p.execute ch
  else if within 0x20 0x2F ch then .discard (p.collect ch) []
  else if within 0x30 0x3F ch then .discard (p.goto .csiIgnore) []
  else if within 0x40 0x7E ch then p.dispatch (csiIntermediateHandler e p.emulBuffer ch)
  else if ch ≤ 0x7F then .discard p []
  else .fall

def scanCsiIgnore (e : Emulation) (p : Parser) (ch : UInt8) : Verdict :=
  if executes e ch then p.execute ch
  else if within 0x20 0x2F ch then .discard (p.collect ch) []
  else if within 0x40 0x7E ch then .discard p.finish []
  else if ch ≤ 0x7F then .discard p []
  else .fall

/-- The tests for a string terminator, `9C` or `1B 5C`; none of them may apply. -/
def terminated (p : Parser) (ch : UInt8) : Option Verdict :=
  if ch = 0x9C then some (.discard p.finish [])
  else if ch = 0x1B then some (.discard (p.collect ch) [])
  else if ch = 0x5C ∧ p.emulBuffer.getLast? = some 0x1B then some (.discard p.finish [])
  else none

def scanDcsEntry (p : Parser) (ch : UInt8) : Verdict :=
  (p.terminated ch).getD
    (if within 0x20 0x2F ch then .discard ((p.collect ch).goto .dcsIntermediate) []
    else if within 0x30 0x39 ch || decide (ch = 0x3B) then .discard ((p.param ch).goto .dcsParam) []
    else if within 0x3C 0x3F ch then .discard ((p.collect ch).goto .dcsParam) []
    else if ignored ch || decide (ch = 0x7F) then .discard p []
    -- meant for the colon, which is 3A
    else if ch = 0x3F then .discard (p.goto .dcsIgnore) []
    else if within 0x40 0x7E ch then .discard (p.goto .dcsPassthrough) []
    else .fall)

def scanDcsIntermediate (p : Parser) (ch : UInt8) : Verdict :=
  (p.terminated ch).getD
    (if within 0x30 0x3F ch then .discard (p.goto .dcsIgnore) []
    else if within 0x40 0x7E ch then .discard (p.goto .dcsPassthrough) []
    else if ignored ch || decide (ch = 0x7F) then .discard p []
    else .fall)

def scanDcsParam (p : Parser) (ch : UInt8) : Verdict :=
  (p.terminated ch).getD
    (if within 0x20 0x2F ch then .discard ((p.collect ch).goto .dcsIntermediate) []
    else if within 0x30 0x39 ch || decide (ch = 0x3B) then .discard (p.param ch) []
    else if ignored ch || decide (ch = 0x7F) then .discard p []
    -- `3A, 3C-3F`, says the comment, but the test for 3A is one for 3F
    else if ch = 0x3F || within 0x3C 0x3F ch then .discard (p.goto .dcsIgnore) []
    else if within 0x40 0x7E ch then .discard (p.goto .dcsPassthrough) []
    else .fall)

def scanDcsPassthrough (p : Parser) (ch : UInt8) : Verdict :=
  (p.terminated ch).getD
    (if ignored ch || within 0x20 0x7E ch || decide (ch = 0x7F) then .discard p [] else .fall)

/-- `SCAN_DCS_IGNORE` and `SCAN_SOSPMAPC_STRING`: the second byte of `1B 5C` never gets past the first test. -/
def scanIgnoredString (p : Parser) (ch : UInt8) : Verdict :=
  if ignored ch || within 0x1C 0x7F ch then .discard p [] else (p.terminated ch).getD .fall

/-- `osc_put`: the Linux console knows when its two commands are complete. -/
def oscPut (e : Emulation) (p : Parser) (ch : UInt8) : Parser :=
  let put := { p with emulBuffer := p.emulBuffer ++ [ch] }
  if e.console then
    if put.emulBuffer.head? = some 0x52 then put.finish
    else if put.emulBuffer.head? = some 0x50 then
      if put.emulBuffer.length < 8 then put else put.finish
    else put
  else put

def scanOscString (e : Emulation) (p : Parser) (ch : UInt8) : Verdict :=
  if ch = 0x9C || within 0 0x07 ch then .discard p.finish [p.call .osc]
  else if ignored ch then .discard p []
  else if within 0x20 0x7F ch then .discard (p.oscPut e ch) []
  else if ch = 0x1B then .discard (p.collect ch) []
  else .fall

def scanVt52DirectCursorAddress (p : Parser) (ch : UInt8) : Verdict :=
  match p.emulBuffer with
  | [] => .discard (p.collect ch) []
  | [line] => p.dispatch (some (.cursorAddress line ch))
  | _ => .discard p []

def scan (e : Emulation) (p : Parser) (ch : UInt8) : Verdict :=
  match p.scanState with
  | .ground => p.scanGround e ch
  | .escape => p.scanEscape e ch
  | .escapeIntermediate => p.scanEscapeIntermediate e ch
  | .csiEntry => p.scanCsiEntry e ch
  | .csiParam => p.scanCsiParam e ch
  | .csiIntermediate => p.scanCsiIntermediate e ch
  | .csiIgnore => p.scanCsiIgnore e ch
  | .dcsEntry => p.scanDcsEntry ch
  | .dcsIntermediate => p.scanDcsIntermediate ch
  | .dcsParam => p.scanDcsParam ch
  | .dcsPassthrough => p.scanDcsPassthrough ch
  | .dcsIgnore | .sosPmApcString => p.scanIgnoredString ch
  | .oscString => p.scanOscString e ch
  | .vt52DirectCursorAddress => p.scanVt52DirectCursorAddress ch

end Parser

/-! ### Before and after the scan states -/

/-- The scan states of a device control string. -/
def dcsStates : List ScanState := [.dcsEntry, .dcsIntermediate, .dcsParam, .dcsPassthrough, .dcsIgnore]

/-- `utf8d`: the type of each byte, then the next state for each state and type. -/
def utf8d : List ℕ :=
  List.replicate 128 0 ++ List.replicate 16 1 ++ List.replicate 16 9 ++ List.replicate 32 7 ++
  [8, 8] ++ List.replicate 30 2 ++
  [0xa, 3, 3, 3, 3, 3, 3, 3, 3, 3, 3, 3, 3, 4, 3, 3] ++
  [0xb, 6, 6, 6, 5] ++ List.replicate 11 8 ++
  [0, 1, 2, 3, 5, 8, 7, 1, 1, 1, 4, 6, 1, 1, 1, 1] ++
  [1, 1, 1, 1, 1, 1, 1, 1, 1, 1, 1, 1, 1, 1, 1, 1, 1, 0, 1, 1, 1, 1, 1, 0, 1, 0, 1, 1, 1, 1, 1, 1] ++
  [1, 2, 1, 1, 1, 1, 1, 2, 1, 2, 1, 1, 1, 1, 1, 1, 1, 1, 1, 1, 1, 1, 1, 2, 1, 1, 1, 1, 1, 1, 1, 1] ++
  [1, 2, 1, 1, 1, 1, 1, 1, 1, 2, 1, 1, 1, 1, 1, 1, 1, 1, 1, 1, 1, 1, 1, 3, 1, 3, 1, 1, 1, 1, 1, 1] ++
  [1, 3, 1, 1, 1, 1, 1, 3, 1, 3, 1, 1, 1, 1, 1, 1, 1, 3, 1, 1, 1, 1, 1, 1, 1, 1, 1, 1, 1, 1, 1, 1]

namespace Parser

/-- `utf8_decode`. -/
def utf8Decode (p : Parser) (ch : UInt8) : Parser :=
  let type := utf8d.getD ch.toNat 0
  { p with
    utf8Char :=
      if p.utf8State ≠ 0 then (ch &&& 0x3F).toUInt32 ||| (p.utf8Char <<< 6)
      else (0xFF >>> UInt32.ofNat type) &&& ch.toUInt32
    utf8State := utf8d.getD (256 + p.utf8State * 16 + type) 0 }

/-- The UTF-8 decoder in front of the state machine, and whether the byte gets through to it. -/
def decode (e : Emulation) (p : Parser) (ch : UInt8) : Parser × Bool :=
  if e.utf8 then
    let decoded := p.utf8Decode ch
    if p.utf8State = decoded.utf8State ∧ decoded.utf8State ≠ 0 then ({ decoded with utf8State := 0 }, false)
    else (decoded, decide (decoded.utf8State = 0))
  else (p, true)

/-- The transitions that every scan state has; with them the byte is used up. -/
def anywhere (e : Emulation) (p : Parser) (ch : UInt8) : Option (Parser × List Call) :=
  if ch = 0x18 ∨ ch = 0x1A then
    if p.scanState = .ground ∧ e.codepage then some (p, [p.call (.printCharacter .upArrow)])
    else some (p.finish, [])
  else if ch = 0x19 ∧ p.scanState = .ground ∧ e.codepage then
    some (p, [p.call (.printCharacter .downArrow)])
  else if ch = 0x1B ∧ p.scanState ≠ .dcsEntry ∧ p.scanState ≠ .dcsIntermediate ∧
      p.scanState ≠ .dcsIgnore ∧ p.scanState ≠ .dcsParam ∧ p.scanState ≠ .dcsPassthrough then
    some (p.goto .escape, [])
  else if ch = 0x9B ∧ e.c1 then some (p.goto .csiEntry, [])
  else if ch = 0x9D ∧ e.c1 then some (p.goto .oscString, [])
  else if ch = 0x90 ∧ e.c1 then some (p.goto .dcsEntry, [])
  else if (ch = 0x98 ∨ ch = 0x9E ∨ ch = 0x9F) ∧ e.c1 then some (p.goto .sosPmApcString, [])
  else if ch = 0x7F then some (p, [])
  else none

end Parser

/-- What comes of a byte: the parser, the calls made on the way, and a character that is returned. -/
structure Outcome where
  parser : Parser
  calls : List Call
  glyph : Option Glyph
deriving DecidableEq, Repr

namespace Parser

/-- What no scan state has used up: a character of the codepage or of Unicode, else nothing. -/
def fallOff (e : Emulation) (p : Parser) (ch : UInt8) : Outcome :=
  if e.codepage then ⟨p.finish, [], some (.codepage ch)⟩
  else if e.utf8 then ⟨p.finish, [], some (.codePoint p.utf8Char)⟩
  else ⟨p, [], none⟩

/-- What the scan state makes of a byte that no transition from anywhere has used up. -/
def conclude (e : Emulation) (p : Parser) (ch : UInt8) : Verdict → Outcome
  | .discard p calls => ⟨p, calls, none⟩
  | .emit p glyph => ⟨p, [], some glyph⟩
  | .fall => p.fallOff e ch

/-- The state machine behind the decoder. -/
def advance (e : Emulation) (p : Parser) (ch : UInt8) : Outcome :=
  match p.anywhere e ch with
  | some (p, calls) => ⟨p, calls, none⟩
  | none => p.conclude e ch (p.scan e ch)

/-- VT10x: 7-bit characters only. -/
def strip (e : Emulation) (fromModem : UInt8) : UInt8 := if e.vt10x then fromModem &&& 0x7F else fromModem

def vt100 (e : Emulation) (p : Parser) (fromModem : UInt8) : Outcome :=
  match p.decode e (strip e fromModem) with
  | (p, false) => ⟨p, [], none⟩
  | (p, true) => p.advance e (strip e fromModem)

/-- `q_emul_buffer` has room for 128 bytes; a sequence that fills it is dropped from it. -/
def junk (p : Parser) : Parser :=
  if 127 ≤ p.emulBuffer.length then { p with emulBuffer := [] } else p

def terminalEmulator (e : Emulation) (p : Parser) (fromModem : UInt8) : Outcome :=
  p.junk.vt100 e fromModem

/-- The parser after a stream of bytes. -/
def feed (e : Emulation) (p : Parser) (bytes : List UInt8) : Parser :=
  bytes.foldl (fun p ch => (p.terminalEmulator e ch).parser) p

/-- What each byte of a stream has brought about. -/
def effects (e : Emulation) : Parser → List UInt8 → List (List Call × Option Glyph)
  | _, [] => []
  | p, ch :: bytes =>
    let outcome := p.terminalEmulator e ch
    (outcome.calls, outcome.glyph) :: effects e outcome.parser bytes

/-! ### Seven-bit characters -/

variable {e : Emulation} {p : Parser} {ch : UInt8}

/-- What the decoder in front of the state machine leaves of a 7-bit character. -/
def sees (e : Emulation) (p : Parser) (ch : UInt8) : Parser :=
  if e.utf8 then { p with utf8State := 0, utf8Char := ch.toUInt32 } else p

/-- The decoder is between two characters. -/
def Between (e : Emulation) (p : Parser) : Prop := e.utf8 → p.utf8State = 0

instance : Decidable (p.Between e) := inferInstanceAs (Decidable (_ → _))

theorem strip_of_lt (h : ch < 0x80) : strip e ch = ch := by
  have hall : ∀ ch : UInt8, ch < 0x80 → ch &&& 0x7F = ch := by
    apply forall_byte
    decide +kernel
  unfold strip
  split
  · exact hall ch h
  · rfl

theorem utf8Decode_of_lt (hp : p.utf8State = 0) (h : ch < 0x80) :
    p.utf8Decode ch = { p with utf8State := 0, utf8Char := ch.toUInt32 } := by
  have hall : ∀ ch : UInt8, ch < 0x80 → utf8d.getD ch.toNat 0 = 0 ∧
      (0xFF >>> UInt32.ofNat 0) &&& ch.toUInt32 = ch.toUInt32 := by
    apply forall_byte
    decide +kernel
  obtain ⟨htype, hchar⟩ := hall ch h
  simp only [utf8Decode, htype, hp, ne_eq, not_true_eq_false, if_false, hchar]
  rfl

theorem decode_of_lt (hp : p.Between e) (h : ch < 0x80) : p.decode e ch = (p.sees e ch, true) := by
  unfold decode sees
  cases he : e.utf8 with
  | false => rfl
  | true =>
    rw [if_pos rfl, if_pos rfl, utf8Decode_of_lt (hp he) h]
    simp

theorem between_junk (hp : p.Between e) : p.junk.Between e := by
  intro he
  have h := hp he
  unfold junk
  split <;> exact h

theorem junk_of_lt (h : p.emulBuffer.length < 127) : p.junk = p := by rw [junk, if_neg (by omega)]

@[simp] theorem junk_scanState : p.junk.scanState = p.scanState := by unfold junk; split <;> rfl

@[simp] theorem junk_vt52Mode : p.junk.vt52Mode = p.vt52Mode := by unfold junk; split <;> rfl

theorem junk_emulBuffer_length : p.junk.emulBuffer.length < 127 := by
  unfold junk
  split
  · simp
  · omega

@[simp] theorem sees_scanState : (p.sees e ch).scanState = p.scanState := by unfold sees; split <;> rfl

@[simp] theorem sees_toArgs : (p.sees e ch).toArgs = p.toArgs := by unfold sees; split <;> rfl

@[simp] theorem sees_vt52Mode : (p.sees e ch).vt52Mode = p.vt52Mode := by unfold sees; split <;> rfl

/-- What the state machine gets to see of a byte that is one character. -/
theorem terminalEmulator_strip (hp : p.Between e) (h : strip e ch < 0x80 ∨ e.utf8 = false) :
    p.terminalEmulator e ch = (p.junk.sees e (strip e ch)).advance e (strip e ch) := by
  have hdecode : p.junk.decode e (strip e ch) = (p.junk.sees e (strip e ch), true) := by
    cases he : e.utf8 with
    | false => simp [decode, sees, he]
    | true => exact decode_of_lt (between_junk hp) (h.resolve_right (by simp [he]))
  rw [terminalEmulator, vt100, hdecode]

theorem terminalEmulator_of_lt (hp : p.Between e) (h : ch < 0x80) :
    p.terminalEmulator e ch = (p.junk.sees e ch).advance e ch := by
  have hstrip : strip e ch = ch := strip_of_lt h
  rw [terminalEmulator_strip hp (Or.inl (by rwa [hstrip])), hstrip]

theorem between_sees : (p.sees e ch).Between e := by
  intro he
  simp [sees, he]

theorem between_sees_goto {s : ScanState} : ((p.sees e ch).goto s).Between e := between_sees

theorem sees_emulBuffer : (p.sees e ch).emulBuffer = p.emulBuffer := congrArg Args.emulBuffer sees_toArgs

/-- ESC is seen by every parser that is not in a device control string. -/
theorem terminalEmulator_esc (hp : p.Between e)
    (hs : p.scanState ∉ dcsStates) :
    p.terminalEmulator e 0x1B = ⟨(p.junk.sees e 0x1B).goto .escape, [], none⟩ := by
  simp only [dcsStates, List.mem_cons, List.not_mem_nil, or_false, not_or] at hs
  rw [terminalEmulator_of_lt hp (by decide), advance, anywhere, if_neg (by decide), if_neg (by simp),
    if_pos (by simp [hs])]

theorem feed_cons (rest : List UInt8) :
    p.feed e (ch :: rest) = (p.terminalEmulator e ch).parser.feed e rest := rfl

theorem effects_cons (rest : List UInt8) : p.effects e (ch :: rest) =
    ((p.terminalEmulator e ch).calls, (p.terminalEmulator e ch).glyph) ::
      (p.terminalEmulator e ch).parser.effects e rest := rfl

end Parser
end CProgram.Terminal
