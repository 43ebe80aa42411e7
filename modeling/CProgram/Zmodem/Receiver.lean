import CProgram.Lib.Bytes
import CProgram.Lib.Files
import CProgram.Zmodem.Subpacket

/-! The receiving side: `receive_zrinit` to `receive_zskip` and the loop of `zmodem_receive`. -/
namespace CProgram.Zmodem
open Bytes

/-- The ZMODEM protocol state. -/
inductive State where
  | init
  | complete
  | abort
  | zdata
  | zrinit
  | zrinitWait
  | zchallenge
  | zchallengeWait
  | zrpos
  | zrposWait
  | zskip
  | zcrc
  | zcrcWait
  | zrqinit
  | zrqinitWait
  | zsinit
  | zsinitWait
  | zfile
  | zfileWait
  | zeof
  | zeofWait
  | zfin
  | zfinWait
deriving DecidableEq, Repr

/-- An open file: its name and where it is read and written next. -/
structure Stream where
  name : List UInt8
  position : Nat
deriving DecidableEq, Repr

/-- What there is to tell about a transfer: a ZDATA header accepted at a file position, a write
to the file, and a ZEOF accepted with what the file held when it was closed. -/
inductive Event where
  | zdata (offset position : Nat)
  | write (position : Nat) (data : List UInt8)
  | zeof (argument : Nat) (content : List UInt8)
deriving DecidableEq, Repr

/-- What a round of the loop finds outside the program: the options, a random number, whether the
timer ran out, which files cannot be looked up or opened, and the byte behind `packet_buffer`. -/
structure Host where
  zmodemZchallenge : Bool
  zmodemEscapeCtrl : Bool
  random : UInt32
  expired : Bool
  statFails : List UInt8 → Bool
  openFails : List UInt8 → Bool
  beyond : UInt8

/-- The receiver: `status`, the packet, the packet buffer, the table of `makecrc`, the disk, the
headers sent, the newest event first, and whether the process has been killed. -/
structure Receiver where
  state : State
  priorState : State
  flags : UInt32
  useCrc32 : Bool
  fileName : List UInt8
  fileSize : Nat
  filePosition : Nat
  fileStream : Option Stream
  fileCrc32 : UInt32
  blockSize : Nat
  timeoutCount : Nat
  consecutiveErrors : Nat
  fileFullname : List UInt8
  zchallengeValue : UInt32
  crcTabMade : Bool
  packet : Packet
  packetBuffer : Buffer
  disk : Disk
  sent : List (PacketType × UInt32)
  log : List Event
  crashed : Bool

def txCanFullDuplex : UInt32 := 0x01
def txCanOverlapIo : UInt32 := 0x02
def txCanCrc32 : UInt32 := 0x20
def txEscapeCtrl : UInt32 := 0x40
def txEscape8bit : UInt32 := 0x80

namespace Receiver
variable (h : Host) (r : Receiver)

/-- Whether `build_packet` picks a hex header. -/
def doHex (type : PacketType) : Bool :=
  decide (type ∈ [PacketType.zrqinit, .zrinit, .zsinit, .zchallenge, .zrpos, .zcrc]) ||
    decide (r.flags &&& (txEscapeCtrl ||| txEscape8bit) ≠ 0)

/-- `build_packet`: the header that goes out, and what it does to `packet`. -/
def buildPacket (type : PacketType) (argument : UInt32) : Receiver :=
  { r with
    packet := { r.packet with
      type := type
      useCrc32 := !r.doHex type && r.useCrc32
      dataN := 0 }
    sent := r.sent ++ [(type, argument)] }

/-- `stop_file_transfer`: whatever file is open is closed. -/
def stop (state : State) : Receiver := { r with state := state, fileStream := none, fileName := [] }

def countError : Receiver := { r with consecutiveErrors := r.consecutiveErrors + 1 }

def statsIncrementErrors : Receiver :=
  if 15 ≤ r.consecutiveErrors + 1 ∧ r.state ≠ .zdata then r.countError.stop .abort
  else r.countError

def countTimeout : Receiver := { r with timeoutCount := r.timeoutCount + 1 }

/-- `check_timeout` on a timer that has run out. -/
def timeout : Receiver :=
  if 5 ≤ r.timeoutCount + 1 then r.countTimeout.statsIncrementErrors.stop .abort
  else r.countTimeout.statsIncrementErrors

def clearBuffer : Receiver := { r with packetBuffer := r.packetBuffer.clear }

/-- The fields that a data subpacket is collected in, made ready for one. -/
def startData : Receiver :=
  { r with packet := { r.packet with dataN := 0, crc16 := 0, crc32 := crc32Preset } }

def abort : Receiver × Bool := (r.stop .abort, true)

/-- The process is killed. -/
def crash : Receiver × Bool := ({ r with crashed := true }, true)

/-- The header that a call of `parse_packet` found is taken off the buffer. -/
def takeHeader (p : Parsed) : Receiver × ParsePacket :=
  let r' := { r with packet := p.packet, packetBuffer := r.packetBuffer.discard p.discard }
  match p.code with
  | .crcerror => (r'.statsIncrementErrors, .crcerror)
  | .ok =>
    if p.packet.type.hasData then ({ r' with priorState := r.state, state := .zdata }, .ok)
    else (r', .ok)
  | .invalid => (r', .invalid)
  | .nodata => (r', .nodata)

def parse : Receiver × ParsePacket :=
  r.takeHeader (parsePacket (crc32Tab r.crcTabMade) r.packetBuffer.valid)

/-- The frame that all the waiting states share: a header if there is input, else the timer. -/
def await (garbled accept expired : Receiver → Receiver × Bool) : Receiver × Bool :=
  if 0 < r.packetBuffer.n then
    match r.parse.2 with
    | .invalid | .crcerror => garbled r.parse.1
    | .nodata => (r.parse.1, true)
    | .ok => accept r.parse.1
  else if h.expired then expired r.timeout
  else (r, true)

/-- The answer to a garbled header. -/
def garbledHeader : Receiver × Bool :=
  (r.statsIncrementErrors.clearBuffer.buildPacket .znak 0, true)

def goto (state : State) : Receiver × Bool := ({ r with state := state }, false)

def receiveZchallenge : Receiver × Bool :=
  (({ r with zchallengeValue := h.random }).buildPacket .zchallenge h.random).clearBuffer.goto
    .zchallengeWait

def acceptZchallengeWait : Receiver × Bool :=
  match r.packet.type with
  | .zack =>
    if r.packet.argument = r.zchallengeValue then r.startData.goto .zrinit
    else r.statsIncrementErrors.abort
  | .znak => r.statsIncrementErrors.goto .zchallenge
  | .zrqinit => r.goto .zchallenge
  | _ => r.abort

def receiveZchallengeWait : Receiver × Bool :=
  r.await h garbledHeader acceptZchallengeWait fun r => r.goto .zchallenge

/-- What the open file holds. -/
def received : Option (List UInt8) := r.fileStream.bind fun s => r.disk.lookup s.name

/-- The loop of `receive_zcrc`, a byte at a time with the inversions that go with that. -/
def crcOfFile (tab : List UInt32) (content : List UInt8) : UInt32 :=
  ~~~(content.foldl (fun crc ch => ~~~(computeCrc32 tab crc [ch])) crc32Preset)

/-- `receive_zcrc`, which reads the open file to its end. -/
def receiveZcrc : Receiver × Bool :=
  let content := r.received.getD []
  if r.fileStream = none then r.crash
  else
    (({ r with fileCrc32 := crcOfFile (crc32Tab r.crcTabMade) content }).buildPacket .zcrc
      (UInt32.ofNat content.length)).clearBuffer.goto .zcrcWait

/-- `fopen` of `file_fullname` and the seek to its end: a file that exists is kept, else an empty
one is made. -/
def openFile (exist : Bool) : Receiver × Bool :=
  if h.openFails r.fileFullname then r.abort
  else
    let content := if exist then (r.disk.lookup r.fileFullname).getD [] else []
    ({ r with
      disk := r.disk.put r.fileFullname content
      fileStream := some ⟨r.fileFullname, content.length⟩ }, false)

/-- The search for a name that no file has, and what is opened there. -/
def openNewFile : Receiver × Bool :=
  let r := { r with fileFullname := r.disk.freeName h.statFails r.fileName }
  if h.statFails r.fileFullname then r.abort
  else ({ r with filePosition := 0, state := .zrpos }).openFile h false

def acceptZcrcWait : Receiver × Bool :=
  match r.packet.type with
  | .zcrc =>
    if r.packet.argument = r.fileCrc32 then
      if r.fileSize = r.filePosition then r.goto .zskip else r.goto .zrpos
    else r.openNewFile h
  | .znak => r.statsIncrementErrors.goto .zcrc
  | .zfile => r.statsIncrementErrors.goto .zrpos
  | _ => r.abort

def receiveZcrcWait : Receiver × Bool :=
  r.await h garbledHeader (fun r => r.acceptZcrcWait h) fun r => r.goto .zcrc

def receiveZrinit : Receiver × Bool :=
  let options := txCanFullDuplex ||| txCanOverlapIo |||
    (if r.useCrc32 then txCanCrc32 else 0) ||| (if h.zmodemEscapeCtrl then txEscapeCtrl else 0)
  (({ r with flags := options }).buildPacket .zrinit options).clearBuffer.goto .zrinitWait

/-- Where a ZNAK or a timeout sends the receiver that waits for a file. -/
def zrinitAgain : Receiver × Bool :=
  if r.priorState = .zskip then r.goto .zskip else r.goto .zrinit

/-- A header that announces a data subpacket. -/
def collect (prior : State) : Receiver × Bool :=
  ({ r with priorState := prior }).startData.goto .zdata

def acceptZrinitWait : Receiver × Bool :=
  match r.packet.type with
  | .zfin => (r.buildPacket .zfin 0).goto .zfinWait
  | .zrqinit => r.startData.goto .zrinit
  | .zsinit =>
    ({ r with flags := r.flags |||
        (r.packet.argument &&& (txEscapeCtrl ||| txEscape8bit)) }).collect .zrinitWait
  | .zcommand => (r, false)
  | .zfile => r.collect .zrinitWait
  | .znak => r.statsIncrementErrors.zrinitAgain
  | _ => r.abort

def receiveZrinitWait : Receiver × Bool :=
  r.await h garbledHeader acceptZrinitWait zrinitAgain

def receiveZrpos : Receiver × Bool :=
  (r.buildPacket .zrpos (UInt32.ofNat r.filePosition)).clearBuffer.goto .zrposWait

/-- A ZEOF that gives the length of the file closes it. -/
def acceptZeof : Receiver × Bool :=
  if r.filePosition = r.packet.argument.toNat then
    if r.fileStream = none then r.crash
    else
      (({ r with
        fileStream := none
        fileName := []
        log := .zeof r.packet.argument.toNat (r.received.getD []) :: r.log }).buildPacket
          .zrinit 0).goto .zrinitWait
  else r.statsIncrementErrors.goto .zrpos

/-- A ZDATA header is accepted whatever offset it carries. -/
def acceptZdata : Receiver × Bool :=
  ({ r with
    log := .zdata (bigToLittleEndian r.packet.argument).toNat r.filePosition :: r.log }).collect
      .zrposWait

def acceptZrposWait : Receiver × Bool :=
  match r.packet.type with
  | .zeof => r.acceptZeof
  | .zdata => r.acceptZdata
  | .znak => r.statsIncrementErrors.goto .zrpos
  | _ => r.abort

def receiveZrposWait : Receiver × Bool :=
  r.await h (fun r => if r.priorState ≠ .zrposWait then r.garbledHeader else (r, false))
    acceptZrposWait fun r => r.goto .zrpos

/-- `sscanf` of `%u`. -/
def scanUnsigned (s : List UInt8) : Option Nat :=
  let number (s : List UInt8) : Option Nat :=
    if isDigit (s.headD 0) then some (min (digits s 0) (2 ^ 64 - 1)) else none
  match s.dropWhile isSpace with
  | 45 :: s => (number s).map fun n => (2 ^ 64 - n) % 2 ^ 32
  | 43 :: s => (number s).map (· % 2 ^ 32)
  | s => (number s).map (· % 2 ^ 32)

/-- Name and size out of the data of a ZFILE; a size that is missing leaves the old one. -/
def scanZfile : Receiver :=
  let name := r.packet.data.takeWhile (· ≠ 0)
  let info := (r.packet.data.drop (name.length + 1)).takeWhile (· ≠ 0)
  { r with
    fileName := name
    fileFullname := name
    fileSize := (scanUnsigned info).getD r.fileSize }

def receiveZfile : Receiver × Bool :=
  let r := r.scanZfile
  if h.statFails r.fileFullname then r.abort
  else
    match r.disk.lookup r.fileFullname with
    | none => ({ r with filePosition := 0, state := .zrpos }).openFile h false
    | some content =>
      let r := { r with filePosition := content.length }
      if r.fileSize < r.filePosition then r.openNewFile h
      else if r.fileSize = r.filePosition then ({ r with state := .zcrc }).openFile h true
      else if 0 < r.fileSize then ({ r with state := .zcrc }).openFile h true
      else ({ r with state := .zrpos }).openFile h true

/-- `receive_zskip`; a second call has no file left to close. -/
def receiveZskip : Receiver × Bool :=
  if r.fileStream = none then r.crash
  else
    (({ r with fileStream := none, fileName := [], priorState := .zskip }).buildPacket
      .zskip 0).clearBuffer.goto .zrinitWait

/-- `fwrite` of the packet's data where the file stands, and the new file position. -/
def writePacket : Receiver :=
  let data := r.packet.data.take r.packet.dataN
  match r.fileStream with
  | none => { r with crashed := true }
  | some s =>
    let content := (r.disk.lookup s.name).getD []
    { r with
      disk := r.disk.put s.name (content.takeD s.position 0 ++ data ++
        content.drop (s.position + data.length))
      fileStream := some { s with position := s.position + data.length }
      filePosition := r.filePosition + r.packet.dataN
      blockSize := r.packet.dataN
      consecutiveErrors := 0
      log := .write s.position data :: r.log }

/-- The end of `receive_zdata`: the state that follows. -/
def nextState : Receiver × Bool :=
  if r.priorState = .zrinitWait then
    match r.packet.type with
    | .zfile => r.goto .zfile
    | .zsinit => (({ r with state := .zrinitWait }).buildPacket .zack 0, true)
    | .zcommand => (({ r with state := .zrinitWait }).buildPacket .zcompl 1, true)
    | _ => r.goto .zdata
  else r.goto .zdata

/-- A subpacket whose CRC is right. -/
def acceptSubpacket (escape : UInt8) : Receiver × Bool :=
  if r.priorState = .zrposWait then
    let r := r.writePacket.startData
    let r := if escape = zcrcw ∨ escape = zcrcq then
        r.buildPacket .zack (bigToLittleEndian (UInt32.ofNat r.filePosition))
      else r
    if escape = zcrce ∨ escape = zcrcw then r.goto .zrposWait else r.nextState
  else r.nextState

/-- A subpacket whose CRC is wrong. -/
def rejectSubpacket : Receiver × Bool :=
  if r.priorState = .zrposWait then
    ({ r.statsIncrementErrors.clearBuffer.buildPacket .zrpos
      (UInt32.ofNat r.filePosition) with state := .zrposWait }, true)
  else if r.priorState = .zrinitWait then
    ({ r.statsIncrementErrors.clearBuffer.buildPacket .znak 0 with state := .zrinitWait }, true)
  else r.nextState

/-- A subpacket is checked together with its CRC escape, which is put behind the data. -/
def receiveSubpacket (crcBuffer : List UInt8) : Receiver × Bool :=
  let escape := crcBuffer.headD 0
  if !isCrcEscape escape then r.abort
  else
    let data := r.packet.data.take r.packet.dataN ++ [escape]
    let packet := { r.packet with data := data ++ r.packet.data.drop data.length }
    if r.packet.useCrc32 then
      let crc32 := computeCrc32 (crc32Tab r.crcTabMade) crc32Preset data
      let r := { r with packet := { packet with crc32 := crc32 } }
      if crc32 = littleEndian (crcBuffer.drop 1) then r.acceptSubpacket escape
      else r.rejectSubpacket
    else
      let crc16 := computeCrc16 r.packet.crc16 data
      let r := { r with packet := { packet with crc16 := crc16 } }
      if crc16 = bigEndian (crcBuffer.drop 1) then r.acceptSubpacket escape
      else r.rejectSubpacket

/-- How far a subpacket reaches when `rest` is behind it: an XON behind ZCRCW goes with it, and is
looked for even behind the last valid byte. -/
def subpacketEnd (crcBuffer rest : List UInt8) : Nat :=
  let i := r.packetBuffer.n - rest.length
  if crcBuffer.headD 0 = zcrcw ∧ r.packetBuffer.bytes.getD i h.beyond = xon then i + 1 else i

/-- `receive_zdata`; when the XON was not valid, `memmove` gets a length below zero. -/
def receiveZdata : Receiver × Bool :=
  match decodeZdataBytes r.packet.useCrc32 r.packetBuffer.valid with
  | .incomplete =>
    ({ r with packet := { r.packet with
      dataN := if 0 < r.packetBuffer.n then 0 else r.packet.dataN } }, true)
  | .cancelled => ({ r with packet := { r.packet with dataN := 0 } }).abort
  | .subpacket output crcBuffer rest =>
    let i := subpacketEnd h r crcBuffer rest
    if r.packetBuffer.n < i then r.crash
    else
      receiveSubpacket
        { r with
          packet := { r.packet with
            data := r.packet.data.takeD r.packet.dataN 0 ++ output
            dataN := output.length }
          packetBuffer := r.packetBuffer.discard i } crcBuffer

/-- The state function of a round. -/
def receiveState : Receiver × Bool :=
  match r.state with
  | .init => if h.zmodemZchallenge then r.goto .zchallenge else r.startData.goto .zrinit
  | .zchallenge => r.receiveZchallenge h
  | .zchallengeWait => r.receiveZchallengeWait h
  | .zcrc => r.receiveZcrc
  | .zcrcWait => r.receiveZcrcWait h
  | .zrinit => r.receiveZrinit h
  | .zrinitWait => r.receiveZrinitWait h
  | .zrpos => r.receiveZrpos
  | .zrposWait => r.receiveZrposWait h
  | .zfile => r.receiveZfile h
  | .zskip => r.receiveZskip
  | .zdata => r.receiveZdata h
  | .zfinWait => (r.stop .complete, true)
  | .abort | .complete => (r, true)
  | _ => r.crash

/-- A round of the loop: what fits of the input is moved to the packet buffer first. -/
def receiveRound (input : List UInt8) : Receiver × Bool :=
  if r.crashed then (r, true)
  else ({ r with packetBuffer := r.packetBuffer.fill input }).receiveState h

/-- `zmodem_receive`, one host for each round that it may take. -/
def zmodemReceive : List Host → List UInt8 → Receiver → Receiver
  | [], _, r => r
  | h :: hosts, input, r =>
    if (r.receiveRound h input).2 then (r.receiveRound h input).1
    else zmodemReceive hosts (input.drop r.packetBuffer.room) (r.receiveRound h input).1

/-- `zmodem` on the receiving side. -/
def zmodem (hosts : List Host) (input : List UInt8) : Receiver :=
  if r.state = .abort ∨ r.state = .complete then r else zmodemReceive hosts input r

/-- A receiver without CRC-32 that has just made the file `f`. -/
def exampleReceiver : Receiver where
  state := .zrpos
  priorState := .zrinitWait
  flags := txCanFullDuplex ||| txCanOverlapIo
  useCrc32 := false
  fileName := [102]
  fileSize := 4
  filePosition := 0
  fileStream := some ⟨[102], 0⟩
  fileCrc32 := 0
  blockSize := 1024
  timeoutCount := 0
  consecutiveErrors := 0
  fileFullname := [102]
  zchallengeValue := 0
  crcTabMade := false
  packet := .clear
  packetBuffer := .empty
  disk := [([102], [])]
  sent := []
  log := []
  crashed := false

def exampleHost : Host := ⟨false, false, 0, false, fun _ => false, fun _ => false, 0⟩

end Receiver
end CProgram.Zmodem
