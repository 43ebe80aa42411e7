import CProgram.Lib.Circular
import CProgram.Lib.Files
import CProgram.Kermit.Payload

/-! The state of a Kermit transfer, on either side, and the functions that build a packet from it:
`send_file_header` to `ack_send_init`, `ack_packet`, `error_packet`, and the renegotiation. -/
namespace CProgram.Kermit

/-- `struct kermit_packet_serial`. -/
structure Slot where
  seq : Nat
  tryCount : Nat
  acked : Bool
  type : Option PacketType
  data : List UInt8
deriving DecidableEq, Repr

/-- A slot of zeroed memory. -/
instance : Inhabited Slot := ⟨⟨0, 0, false, some .ksinit, []⟩⟩

/-- `input_packet`. -/
structure CurrentPacket where
  parsedOk : Bool
  type : Option PacketType
  seq : Nat
  data : List UInt8
deriving DecidableEq, Repr

/-- The options of the user that the protocol consults. -/
structure Settings where
  robustFilename : Bool
  resend : Bool
  uploadsForceBinary : Bool
  downloadsConvertText : Bool
deriving DecidableEq, Repr

/-- A file of the upload list: its name, what it holds, its time as `strftime` prints it, and its
protection. -/
structure Upload where
  name : List UInt8
  content : List UInt8
  modtime : List UInt8
  protection : Nat
deriving DecidableEq, Repr

/-- The files that cannot be looked up, and those that cannot be opened. -/
structure Host where
  statFails : List UInt8 → Bool
  openFails : List UInt8 → Bool

/-- `status`, the parameters, the current packets, the windows, the files and the output of a
transfer. A file that is being received is known by its name, `uploads` is the upload list from the
current file on and `fileEof` its `feof`. `tossInput` is the `toss_input_buffer` of the first
call. An output packet is there while its `parsed_ok` is set.
The last six fields record what happened: `abort()` was called or a null stream used, a window was
indexed at or above its size, the packets encoded, how many slots have left the input
window, and what the file being received held when it was opened and was given since. -/
structure Transfer where
  settings : Settings
  localParms : SessionParameters
  remoteParms : SessionParameters
  sessionParms : SessionParameters
  state : State
  checkType : Nat
  sequenceNumber : Nat
  sending : Bool
  sevenBitOnly : Bool
  attributes : Attributes
  fileName : List UInt8
  fileFullname : List UInt8
  filePosition : Nat
  outstandingBytes : Nat
  fileStream : Option (List UInt8)
  timeoutCount : Nat
  firstS : Bool
  firstSB : Bool
  sentNak : Bool
  tossInput : Bool
  skipFile : Bool
  isFirstDataPacket : Bool
  uploads : List Upload
  fileEof : Bool
  inputPacket : CurrentPacket
  outputPacket : Option OutputPacket
  inputWindow : Circular Slot
  outputWindow : Circular Slot
  disk : Disk
  output : List UInt8
  crashed : Bool
  stray : Bool
  built : List (PacketType × Nat)
  dropped : Nat
  before : List UInt8
  written : List UInt8

/-- The bytes of a text. -/
def text (s : String) : List UInt8 := s.toList.map fun ch => UInt8.ofNat ch.toNat

/-- A number as `%u` prints it. -/
def decimal (n : Nat) : List UInt8 := (Nat.toDigits 10 n).map fun ch => UInt8.ofNat ch.toNat

/-- A number as `%o` prints it. -/
def octal (n : Nat) : List UInt8 := (Nat.toDigits 8 n).map fun ch => UInt8.ofNat ch.toNat

def toUpper (ch : UInt8) : UInt8 := if isLower ch then ch - 32 else ch

def isAlnum (ch : UInt8) : Bool :=
  isLower ch || isUpper ch || (decide (48 ≤ ch) && decide (ch ≤ 57))

/-- The loop of `send_file_header` that puts a name into common form; the last dot, if any, is put
back behind it. -/
def commonForm (name : List UInt8) : List UInt8 :=
  let data := name.map fun ch =>
    if isLower ch then toUpper ch else if isAlnum ch then ch else 95
  match name.reverse.findIdx? (· = 46) with
  | some i => data.set (name.length - 1 - i) 46
  | none => data

/-- A name in common form does not begin or end with a dot. -/
def trimDots (name : List UInt8) : List UInt8 :=
  let name := if name.headD 0 = 46 then name.drop 1 else name
  if name.getLastD 0 = 46 then name.dropLast else name

/-- The payload of a File-Header. -/
def fileHeaderData (robust : Bool) (name : List UInt8) : List UInt8 :=
  if robust then trimDots (commonForm name) else name

/-- One attribute: its letter, its length and its value. -/
def attributeField (letter : UInt8) (value : List UInt8) : List UInt8 :=
  letter :: tochar (UInt8.ofNat value.length) :: value

/-- The lowest three bits of the protection, the way Kermit has them. -/
def kermitProtection (protection : Nat) : UInt8 :=
  (if protection.testBit 0 then 4 else 0) ||| (if protection.testBit 1 then 2 else 0) |||
    (if protection.testBit 2 then 1 else 0)

namespace Transfer
variable (s : Transfer)

/-- `session_parms.WINDO_in` and `session_parms.WINDO_out`. -/
def windoIn : Nat := s.sessionParms.windoIn
def windoOut : Nat := s.sessionParms.windoOut

/-- What the packet layer reads of the state to take a packet apart. -/
def parseContext : ParseContext where
  session := s.sessionParms
  remoteQctl := s.remoteParms.qctl
  checkType := s.checkType
  sevenBitOnly := s.sevenBitOnly
  sending := s.sending
  state := s.state
  textMode := s.attributes.textMode

/-- What it reads to put one together. -/
def link : Link where
  session := s.sessionParms
  checkType := s.checkType
  sequenceNumber := s.sequenceNumber
  sevenBitOnly := s.sevenBitOnly
  textMode := s.attributes.textMode

/-- A packet to send next. -/
def put (type : PacketType) (seq : Nat) (data : List UInt8) : Transfer :=
  { s with outputPacket := some ⟨type, seq, data⟩ }

def withPacket (p : CurrentPacket) : Transfer := { s with inputPacket := p }

/-- The packet that came in has been dealt with. -/
def consume : Transfer := { s with inputPacket := { s.inputPacket with parsedOk := false } }

def goto (state : State) : Transfer := { s with state := state }

/-- The packet has been dealt with, and the next number is given out. -/
def advance : Transfer := { s.consume with sequenceNumber := s.sequenceNumber + 1 }

def errorPacket (message : String) : Transfer :=
  s.put .kerror (s.sequenceNumber % 64) (text message)

/-- `stop_file_transfer`: the file is closed and its name forgotten. -/
def stop (state : State) : Transfer :=
  { s with state := state, fileStream := none, fileName := [] }

/-- The transfer is given up and the other side is told. -/
def abort (message : String) : Transfer := (s.stop .abort).errorPacket message

/-- `ack_packet`; the flag is its `really`. -/
def ackPacket (really : Bool) : Transfer :=
  if s.skipFile then ({ s with skipFile := false }).put .kack s.inputPacket.seq (text "X")
  else if !s.sessionParms.streaming || really then s.put .kack s.inputPacket.seq []
  else s

def ackPacketParam (param : List UInt8) : Transfer := s.put .kack s.inputPacket.seq param

def ackFilePacket : Transfer := s.put .kack s.inputPacket.seq s.fileName

def sendFileHeader : Transfer :=
  s.put .kfile (s.sequenceNumber % 64) (fileHeaderData s.settings.robustFilename s.fileName)

/-- The payload of an Attributes packet for the current file. -/
def attributesData : List UInt8 :=
  let upload := s.uploads.headD ⟨[], [], [], 0⟩
  attributeField 34 (if s.attributes.textMode then text "A" else text "B8") ++
    attributeField 49 (decimal s.attributes.fileSize) ++
    attributeField 35 upload.modtime ++
    attributeField 44 (octal (upload.protection % 512)) ++
    attributeField 45 [tochar (kermitProtection upload.protection)]

def sendFileAttributes : Transfer :=
  if s.sessionParms.capas &&& 0x10 ≠ 0 ∧ s.settings.resend then
    ({ s with attributes := { s.attributes with doResend := true } }).put .kattributes
      (s.sequenceNumber % 64) (s.attributesData ++ attributeField 43 (text "R"))
  else s.put .kattributes (s.sequenceNumber % 64) s.attributesData

def sendEof : Transfer :=
  if s.skipFile then
    ({ s with skipFile := false }).put .keof (s.sequenceNumber % 64) (text "D")
  else s.put .keof (s.sequenceNumber % 64) []

/-- `send_file_data`, and the EOF that its callers send when there is nothing to read. -/
def sendFileData : Transfer :=
  if s.fileEof then s.sendEof.goto .kmSZ
  else s.put .kdata (s.sequenceNumber % 64) []

def sendEot : Transfer := s.put .kbreak (s.sequenceNumber % 64) []

/-- The payload of a Send-Init and of the ACK to it. -/
def sendInitData : List UInt8 :=
  let p := s.sessionParms
  [tochar p.maxl, tochar p.time, tochar s.localParms.npad, ctl s.localParms.padc,
    tochar s.localParms.eol, s.localParms.qctl, p.qbin, p.chkt, p.rept, tochar p.capas,
    tochar p.windo, tochar p.maxlx1, tochar p.maxlx2, 48, 95, 95, 95, tochar p.whatami]

/-- `ack_send_init`, as the ACK or made into the Send-Init. -/
def ackSendInit (type : PacketType) : Transfer :=
  ({ s with sequenceNumber := 0 }).put type 0 s.sendInitData

/-- `negotiate_send_init`; the indexes of the output window are not reset. -/
def negotiateSendInit : Transfer :=
  let p := Kermit.negotiateSendInit s.localParms s.remoteParms s.sessionParms
  let s' := { s with
    sessionParms := p
    checkType := negotiatedCheckType p
    attributes := { s.attributes with
      doResend := s.attributes.doResend ||
        decide (s.localParms.attributes = s.remoteParms.attributes) } }
  if p.windowing then
    { s' with
      inputWindow := ⟨List.replicate p.windoIn default, 0, 0, 0⟩
      outputWindow := { s.outputWindow with cells := List.replicate p.windoOut default } }
  else s'

/-- The file that is being received, with `data` behind what it holds. -/
def write (data : List UInt8) : Transfer :=
  match s.fileStream with
  | none => { s with crashed := true }
  | some name =>
    { s with
      disk := s.disk.put name ((s.disk.lookup name).getD [] ++ data)
      filePosition := s.filePosition + data.length
      written := s.written ++ data }

/-- An index of the input or of the output window is used. -/
def touchIn (ks : List Nat) : Transfer :=
  { s with stray := s.stray || ks.any fun k => decide (s.windoIn ≤ k) }

def touchOut (ks : List Nat) : Transfer :=
  { s with stray := s.stray || ks.any fun k => decide (s.windoOut ≤ k) }

end Transfer
end CProgram.Kermit
