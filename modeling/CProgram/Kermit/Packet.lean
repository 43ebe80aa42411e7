import CProgram.Kermit.Check
import CProgram.Kermit.Encode

/-! The packet types and `encode_output_packet`: how a packet is laid out on the wire. -/
namespace CProgram.Kermit
open Bytes

inductive PacketType where
  | ksinit
  | kack
  | knak
  | kdata
  | kfile
  | keof
  | kbreak
  | kerror
  | kservinit
  | ktext
  | krinit
  | kattributes
  | kcommand
  | kkermitCommand
  | kgenericCommand
  | kreserved1
  | kreserved2
deriving DecidableEq, Repr

namespace PacketType

/-- The letter of `packet_type_chars`. -/
def char : PacketType → UInt8
  | ksinit => 83
  | kack => 89
  | knak => 78
  | kdata => 68
  | kfile => 70
  | keof => 90
  | kbreak => 66
  | kerror => 69
  | kservinit => 73
  | ktext => 88
  | krinit => 82
  | kattributes => 65
  | kcommand => 67
  | kkermitCommand => 75
  | kgenericCommand => 71
  | kreserved1 => 84
  | kreserved2 => 81

def all : List PacketType :=
  [ksinit, kack, knak, kdata, kfile, keof, kbreak, kerror, kservinit, ktext, krinit,
    kattributes, kcommand, kkermitCommand, kgenericCommand, kreserved1, kreserved2]

end PacketType

/-- `packet_type`; `none` is its -1. -/
def packetType (typeChar : UInt8) : Option PacketType :=
  PacketType.all.find? fun t => decide (t.char = typeChar)

@[simp] theorem packetType_char (t : PacketType) : packetType t.char = some t := by
  cases t <;> rfl

/-- `struct kermit_packet`, as far as a packet to send fills it. -/
structure OutputPacket where
  type : PacketType
  seq : Nat
  data : List UInt8
deriving DecidableEq, Repr

/-- What the packet layer reads of the session and of `status`. -/
structure Link where
  session : SessionParameters
  checkType : Nat
  sequenceNumber : Nat
  sevenBitOnly : Bool
  textMode : Bool
deriving DecidableEq, Repr

/-- A packet with its data field encoded. -/
structure Frame where
  type : PacketType
  seq : UInt8
  longPacket : Bool
  field : List UInt8
  checkType : Nat
deriving DecidableEq, Repr

namespace Frame

/-- `packet_length`. -/
def packetLength (f : Frame) : Nat :=
  f.field.length + (if f.longPacket then 6 else 3) - 1 + checkTypeLength f.checkType

/-- HCHECK over the bytes from LEN to LENX2. -/
def hcheck (l : List UInt8) : UInt8 :=
  let sum := (l.map UInt8.toNat).sum
  UInt8.ofNat ((sum + (sum &&& 192) / 64) &&& 63)

/-- LENX1 and LENX2. -/
def lenx (f : Frame) : UInt8 × UInt8 :=
  (UInt8.ofNat ((f.field.length + 3) / 95), UInt8.ofNat ((f.field.length + 3) % 95))

/-- From LEN to the data field. -/
def header (f : Frame) : List UInt8 :=
  if f.longPacket then
    let h := [tochar 0, tochar f.seq, f.type.char, tochar f.lenx.1, tochar f.lenx.2]
    h ++ [tochar (hcheck h)]
  else [tochar (UInt8.ofNat f.packetLength), tochar f.seq, f.type.char]

/-- The packet as it goes over the line, MARK and EOL included. -/
def bytes (sevenBitOnly : Bool) (mark eol : UInt8) (f : Frame) : List UInt8 :=
  mark :: (f.header ++ f.field ++ checkBytes sevenBitOnly f.checkType (f.header ++ f.field) ++
    [eol])

theorem length_header (f : Frame) : f.header.length = if f.longPacket then 6 else 3 := by
  unfold header
  split <;> rfl

theorem length_bytes {f : Frame} (h : f.checkType = 1 ∨ f.checkType = 2 ∨ f.checkType = 3 ∨
    f.checkType = 12) (sevenBitOnly : Bool) (mark eol : UInt8) :
    (f.bytes sevenBitOnly mark eol).length = f.packetLength + 3 := by
  simp only [bytes, List.length_cons, List.length_append, length_checkBytes h, length_header,
    packetLength, List.length_nil]
  cases f.longPacket <;> simp <;> omega

end Frame

namespace Link
variable (l : Link)

/-- The check type that `encode_output_packet` picks. -/
def outputCheckType : PacketType → Nat
  | .ksinit => 1
  | .knak => 1
  | .kack => if l.sequenceNumber = 0 then 1 else l.checkType
  | _ => l.checkType

/-- Only File-Data packets are long. -/
def longPacket (type : PacketType) : Bool := decide (type = .kdata) && l.session.longPackets

/-- What `encode_data_field` consults for a packet of the given type. -/
def fieldContext (type : PacketType) : EncodeContext where
  prefixes := ⟨l.session.rept, l.session.qbin, l.session.qctl⟩
  checkType := l.checkType
  raw := match type with
    | .ksinit => true
    | .kack => decide (l.sequenceNumber = 0)
    | .kattributes => true
    | _ => false
  textMode := l.textMode
  dataMax := if l.longPacket type then sub32 l.session.maxlx 9 else l.session.maxl.toNat
  maxl := l.session.maxl.toNat

/-- `encode_output_packet` up to the bytes: `input` is the data of the packet, or for File-Data
the file from `file_position` on. -/
def encodeOutputPacket (p : OutputPacket) (input : List UInt8) : Frame where
  type := p.type
  seq := UInt8.ofNat p.seq
  longPacket := l.longPacket p.type
  field := (encodeDataField (l.fieldContext p.type) input).bytes
  checkType := l.outputCheckType p.type

/-- The bytes of a frame in this session. -/
def frameBytes (f : Frame) : List UInt8 := f.bytes l.sevenBitOnly l.session.mark l.session.eol

end Link
end CProgram.Kermit
