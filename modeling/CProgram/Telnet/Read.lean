import CProgram.Qodem.Write
import CProgram.Terminal.Screen

/-! `telnet_read`: what the network virtual terminal makes of each byte from the remote side, what it
stores for its caller, and what it answers. -/
namespace CProgram.Telnet
open CProgram.Terminal CProgram.Qodem

abbrev SE : UInt8 := 240
abbrev SB : UInt8 := 250
abbrev WILL : UInt8 := 251
abbrev WONT : UInt8 := 252
abbrev DO : UInt8 := 253
abbrev DONT : UInt8 := 254
abbrev IAC : UInt8 := 255

abbrev NUL : UInt8 := 0
abbrev LF : UInt8 := 10
abbrev CR : UInt8 := 13

/-- `SUBNEG_BUFFER_MAX`. -/
def subnegBufferMax : ℕ := 128

def ascii (s : String) : List UInt8 := s.toList.map fun c => UInt8.ofNat c.toNat

/-- `emulation_term`. -/
def emulationTerm : QEmulation → List UInt8
  | .ansi => ascii "ansi"
  | .avatar => ascii "avatar"
  | .vt52 => ascii "vt52"
  | .vt .vt100 => ascii "vt100"
  | .vt .vt102 => ascii "vt102"
  | .vt .vt220 => ascii "vt220"
  | .tty => ascii "dumb"
  | .vt .linux | .vt .linuxUtf8 => ascii "linux"
  | .petscii => ascii "commodore"
  | .atascii => ascii "atari-old"
  | .vt .xterm | .vt .xtermUtf8 => ascii "xterm"
  | .debug => []

/-- What the program around the connection brings in: the state of the program, the emulation, two
options, and the size of the screen. -/
structure Config where
  host : Bool
  emulation : QEmulation
  utf8Lang : List UInt8
  iso8859Lang : List UInt8
  lines : ℕ
  columns : ℕ

/-- `emulation_lang`. -/
def Config.emulationLang (c : Config) : List UInt8 :=
  match c.emulation with
  | .vt .xtermUtf8 | .vt .linuxUtf8 => c.utf8Lang
  | .petscii | .atascii => ascii "C"
  | _ => c.iso8859Lang

/-- `struct telnet_state`, less the flags of `telnet_write`, with `state` and `subneg_buffer`. -/
structure Nvt where
  sentOptions : Bool := false
  echoMode : Bool := false
  binaryMode : Bool := false
  goAhead : Bool := true
  doNaws : Bool := false
  doTermType : Bool := false
  doTermSpeed : Bool := false
  doEnvironment : Bool := false
  iac : Bool := false
  dowill : Bool := false
  dowillType : UInt8 := 0
  subnegEnd : Bool := false
  isEof : Bool := false
  eofMsg : Bool := false
  readCr : Bool := false
  /-- `subneg_buffer` up to `subneg_buffer_n`. -/
  subneg : List UInt8 := []
deriving DecidableEq, Repr

/-- What `reset_nvt` leaves. -/
def Nvt.reset : Nvt := {}

/-! ### Answers -/

inductive Reply where
  | respond (response option : UInt8)
  | subneg (option : UInt8) (response : List UInt8)
  | naws (lines columns : ℕ)
deriving DecidableEq, Repr

/-- A byte inside a subnegotiation. -/
def doubled (b : UInt8) : List UInt8 := if b = IAC then [IAC, IAC] else [b]

def Reply.bytes : Reply → List UInt8
  | .respond response option => [IAC, response, option]
  | .subneg option response => [IAC, SB, option] ++ response ++ [IAC, SE]
  | .naws lines columns =>
    [IAC, SB, 31] ++ doubled (UInt8.ofNat (columns / 256)) ++ doubled (UInt8.ofNat (columns % 256)) ++
      doubled (UInt8.ofNat (lines / 256)) ++ doubled (UInt8.ofNat (lines % 256)) ++ [IAC, SE]

def telnetWill (option : UInt8) : Reply := .respond WILL option
def telnetWont (option : UInt8) : Reply := .respond WONT option
def telnetDo (option : UInt8) : Reply := .respond DO option
def telnetDont (option : UInt8) : Reply := .respond DONT option

def telnetRefuse (remoteQuery option : UInt8) : Reply :=
  if remoteQuery = DO then telnetWont option else telnetDont option

/-- The bytes of `telnet_send_terminal_speed`, from the `IS` on. -/
def terminalSpeed : List UInt8 := 0 :: ascii "38400,38400"

/-- The bytes of `telnet_send_terminal_type`. -/
def Config.terminalType (c : Config) : List UInt8 := 0 :: emulationTerm c.emulation

/-- The bytes of `telnet_send_environment`: `VAR` is 0 and `VALUE` is 1. -/
def Config.environment (c : Config) : List UInt8 :=
  0 :: 0 :: ascii "TERM" ++ 1 :: emulationTerm c.emulation ++
    0 :: ascii "LANG" ++ 1 :: c.emulationLang

def Config.sendNaws (c : Config) : Reply := .naws c.lines c.columns

def Config.sendOptions (c : Config) (t : Nvt) : List Reply :=
  (if t.binaryMode then [] else [telnetDo 0, telnetWill 0]) ++
  (if t.goAhead then [telnetDo 3, telnetWill 3] else []) ++
  if c.host then [telnetDont 1, telnetWill 1]
  else
    (if t.doNaws then [] else [telnetWill 31]) ++
    (if t.doTermType then [] else [telnetWill 24]) ++
    if t.doEnvironment then [] else [telnetWill 39]

def Config.handleSubneg (c : Config) : List UInt8 → List Reply
  | 24 :: 1 :: _ => [.subneg 24 c.terminalType]
  | 32 :: 1 :: _ => [.subneg 32 terminalSpeed]
  | 39 :: 1 :: _ => [.subneg 39 c.environment]
  | _ => []

/-! ### One byte -/

/-- What comes of a byte, or of several. -/
structure Read where
  nvt : Nvt
  stored : List UInt8 := []
  replies : List Reply := []
deriving DecidableEq, Repr

variable (c : Config)

namespace Nvt

/-- Inside a subnegotiation, up to its IAC SE. -/
def collect (t : Nvt) (ch : UInt8) : Read :=
  if ch = SE then
    if t.iac then
      { nvt := { t with iac := false, subnegEnd := false }, replies := c.handleSubneg t.subneg }
    else { nvt := t }
  else if ch = IAC then
    if t.iac then { nvt := { t with subneg := t.subneg ++ [IAC] } }
    else { nvt := { t with iac := true } }
  else { nvt := { t with subneg := t.subneg ++ [ch] } }

/-- The peer wants the option on: WILL or DO, against WON'T and DON'T. -/
def wanted (t : Nvt) : Bool := t.dowillType = WILL || t.dowillType = DO

/-- Only DO is answered, and always. -/
def agree (t : Nvt) (option : UInt8) : List Reply := if t.dowillType = DO then [telnetWill option] else []

/-- The option after DO, DON'T, WILL or WON'T. -/
def dowillOption (t : Nvt) (ch : UInt8) : Read :=
  match ch with
  | 0 => { nvt := { t with binaryMode := t.wanted, dowill := false }, replies := t.agree ch }
  | 1 => { nvt := { t with echoMode := t.wanted, dowill := false }, replies := t.agree ch }
  | 3 => { nvt := { t with goAhead := !t.wanted, dowill := false }, replies := t.agree ch }
  | 24 => { nvt := { t with doTermType := t.wanted, dowill := false }, replies := t.agree ch }
  | 31 =>
    { nvt := { t with doNaws := t.wanted, dowill := false }
      -- here it is WILL that is answered with WILL
      replies := if t.dowillType = WILL then [telnetWill ch, c.sendNaws]
        else if t.dowillType = DO then [c.sendNaws] else [] }
  | 32 => { nvt := { t with doTermSpeed := t.wanted, dowill := false }, replies := t.agree ch }
  | 39 => { nvt := { t with doEnvironment := t.wanted, dowill := false }, replies := t.agree ch }
  | _ => { nvt := { t with dowill := false }, replies := [telnetRefuse t.dowillType ch] }

/-- The byte after IAC. -/
def command (t : Nvt) (ch : UInt8) : Read :=
  if ch = SB then { nvt := { t with subnegEnd := true, subneg := [], iac := false } }
  else if ch = WILL ∨ ch = WONT ∨ ch = DO ∨ ch = DONT then
    { nvt := { t with dowill := true, dowillType := ch, iac := false } }
  else { nvt := { t with iac := false } }

/-- A character of NVT ASCII. -/
def asciiMode (t : Nvt) (ch : UInt8) : Read :=
  if ch = LF then
    if t.readCr then { nvt := { t with readCr := false }, stored := [CR, LF] }
    else { nvt := t, stored := [LF] }
  else if ch = NUL then
    if t.readCr then { nvt := { t with readCr := false }, stored := [CR] }
    else { nvt := t }
  else if ch = CR then
    if t.readCr then { nvt := t, stored := [CR, NUL] }
    else { nvt := { t with readCr := true } }
  else if t.readCr then { nvt := { t with readCr := false }, stored := [CR, ch] }
  else { nvt := t, stored := [ch] }

def readByte (t : Nvt) (ch : UInt8) : Read :=
  if t.subnegEnd then t.collect c ch
  else if t.dowill then t.dowillOption c ch
  else if ch = IAC then
    if t.iac then { nvt := { t with iac := false }, stored := [IAC] }
    else { nvt := { t with iac := true } }
  else if t.iac then t.command ch
  else if t.binaryMode then { nvt := t, stored := [ch] }
  else t.asciiMode ch

def readBytes : Nvt → List UInt8 → Read
  | t, [] => { nvt := t }
  | t, ch :: bytes =>
    let one := t.readByte c ch
    let rest := readBytes one.nvt bytes
    { nvt := rest.nvt, stored := one.stored ++ rest.stored, replies := one.replies ++ rest.replies }

end Nvt

/-! ### One call -/

/-- What `recv` comes to. -/
inductive Recv where
  | bytes (bytes : List UInt8)
  | eof
  | error
deriving DecidableEq, Repr

def connectionClosed : List UInt8 := ascii "Connection closed.\r\n"

namespace Nvt

/-- The options are sent with the first call. -/
def greet (t : Nvt) : Nvt := { t with sentOptions := true }

def greeting (t : Nvt) : List Reply := if t.sentOptions then [] else c.sendOptions t

/-- What is in `read_buffer` for the loop, and the flags by then; `none` when there is no loop. -/
def fill (t : Nvt) (recv : Recv) : Option (Nvt × List UInt8) :=
  let close (t : Nvt) : Option (Nvt × List UInt8) :=
    if t.eofMsg then none
    else some ({ t with eofMsg := true }, if c.host then [] else connectionClosed)
  if t.isEof then close t
  else
    match recv with
    | .error => none
    | .eof => close { t with isEof := true }
    | .bytes bytes => some (t, bytes)

def telnetRead (t : Nvt) (recv : Recv) : Read :=
  match t.greet.fill c recv with
  | none => { nvt := t.greet, replies := t.greeting c }
  | some (t', bytes) =>
    let read := t'.readBytes c bytes
    { read with replies := t.greeting c ++ read.replies }

end Nvt

/-- A call of `telnet_read`: how many bytes are asked for, and what `recv` brings. -/
structure Request where
  count : ℕ
  recv : Recv
deriving DecidableEq, Repr

end CProgram.Telnet
