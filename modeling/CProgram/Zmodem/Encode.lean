import CProgram.Zmodem.Receiver

/-! What goes out: `encode_byte`, `encode_zdata_bytes` and `build_packet`. -/
namespace CProgram.Zmodem

/-- Whether `setup_encode_byte_map` escapes a character, with the two flags. -/
def encodeChar (escapeCtrl escape8bit : Bool) (ch : UInt8) : Bool :=
  if ch = can ∨ ch = 0x11 ∨ ch = 0x13 ∨ ch = 0x91 ∨ ch = 0x93 then true
  else if ch < 0x20 ∧ escapeCtrl then true
  else if 0x80 ≤ ch ∧ ch < 0xA0 then true
  else decide (ch &&& 0x80 ≠ 0) && escape8bit

/-- `encode_byte_map` for given flags. -/
def encodeByteMap (flags : UInt32) (ch : UInt8) : UInt8 :=
  if encodeChar (decide (flags &&& txEscapeCtrl ≠ 0)) (decide (flags &&& txEscape8bit ≠ 0)) ch then
    ch ||| 0x40
  else if ch = 0x7F then 108
  else if ch = 0xFF then 109
  else ch

def encodeByte (flags : UInt32) (ch : UInt8) : List UInt8 :=
  if encodeByteMap flags ch ≠ ch then [can, encodeByteMap flags ch] else [ch]

/-- The bytes of a number, lowest first. -/
def littleEndianBytes (x : UInt32) : List UInt8 :=
  [x.toUInt8, (x >>> 8).toUInt8, (x >>> 16).toUInt8, (x >>> 24).toUInt8]

/-- The two low bytes of a number, highest first. -/
def bigEndianBytes16 (x : UInt32) : List UInt8 := [(x >>> 8).toUInt8, x.toUInt8]

/-- The CRC-32 of a data subpacket, a byte at a time with the inversions that go with that. -/
def dataCrc32 (tab : List UInt32) (data : List UInt8) (crcType : UInt8) : UInt32 :=
  ~~~(~~~(computeCrc32 tab (data.foldl (fun crc ch => ~~~(computeCrc32 tab crc [ch])) crc32Preset)
    [crcType]))

def dataCrc16 (data : List UInt8) (crcType : UInt8) : UInt32 :=
  computeCrc16 (computeCrc16 0 data) [crcType]

/-- The CRC bytes behind the CRC escape of a subpacket; a ZSINIT always has the short ones. -/
def dataCrcBytes (tab : List UInt32) (p : Packet) (crcType : UInt8) : List UInt8 :=
  if p.useCrc32 ∧ p.type ≠ .zsinit then
    littleEndianBytes (dataCrc32 tab (p.data.take p.dataN) crcType)
  else bigEndianBytes16 (dataCrc16 (p.data.take p.dataN) crcType)

/-- What `encode_zdata_bytes` appends. -/
def encodeZdataBytes (tab : List UInt32) (flags : UInt32) (p : Packet) (crcType : UInt8) :
    List UInt8 :=
  (p.data.take p.dataN).flatMap (encodeByte flags) ++ [can, crcType] ++
    (dataCrcBytes tab p crcType).flatMap (encodeByte flags) ++ if crcType = zcrcw then [xon] else []

/-- What `build_packet` looks at in `status`. -/
structure Link where
  useCrc32 : Bool
  flags : UInt32
  sending : Bool
deriving DecidableEq, Repr

/-- The types whose argument `build_packet` sends low byte first. -/
def PacketType.lowFirst : PacketType → Bool
  | .zrpos | .zeof | .zcrc | .zcompl | .zfreecnt | .zsinit => true
  | _ => false

/-- The number of a packet type. -/
def PacketType.number (type : PacketType) : UInt8 := UInt8.ofNat (packetTypes.idxOf type)

/-- Type and argument as they are in a header. -/
def headerOf (type : PacketType) (argument : UInt32) : List UInt8 :=
  type.number ::
    if type.lowFirst then littleEndianBytes argument else (littleEndianBytes argument).reverse

def hexDigits : List UInt8 :=
  [48, 49, 50, 51, 52, 53, 54, 55, 56, 57, 97, 98, 99, 100, 101, 102]

def hexifyString (input : List UInt8) : List UInt8 :=
  input.flatMap fun (ch : UInt8) =>
    [hexDigits.getD ((ch &&& 0xF0) >>> 4).toNat 0, hexDigits.getD (ch &&& 0x0F).toNat 0]

namespace Link
variable (c : Link)

/-- Whether a header goes out as a hex header. -/
def doHex (type : PacketType) : Bool :=
  let hex := decide (type ∈ [PacketType.zrqinit, .zrinit, .zsinit, .zchallenge, .zrpos]) ||
    decide (c.flags &&& txEscapeCtrl ≠ 0) || decide (c.flags &&& txEscape8bit ≠ 0)
  let hex := if type = .zsinit ∧ c.sending ∧ c.useCrc32 then false else hex
  if type = .zcrc ∧ !c.sending then true else hex

/-- The flags that a binary header is escaped with. -/
def headerFlags (type : PacketType) : UInt32 :=
  if type = .zsinit then c.flags ||| txEscapeCtrl else c.flags

/-- The check of a binary header. -/
def headerCrcBytes (tab : List UInt32) (header : List UInt8) : List UInt8 :=
  if c.useCrc32 then littleEndianBytes (computeCrc32 tab crc32Preset header)
  else bigEndianBytes16 (computeCrc16 0 header)

/-- The header that `build_packet` writes. -/
def buildPacket (tab : List UInt32) (type : PacketType) (argument : UInt32) : List UInt8 :=
  let header := headerOf type argument
  if c.doHex type then
    [zpad, zpad, can, 66] ++ hexifyString header ++
      hexifyString (bigEndianBytes16 (computeCrc16 0 header)) ++ [13, 0x8A] ++
      if type = .zfin ∨ type = .zack then [] else [xon]
  else
    [zpad, can, if c.useCrc32 then 67 else 65] ++
      (header ++ c.headerCrcBytes tab header).flatMap (encodeByte (c.headerFlags type))

/-- The subpacket that `send_zsinit` puts behind its header: an empty attention string, and
`use_crc32` cleared for it. -/
def sinitSubpacket (tab : List UInt32) : List UInt8 :=
  encodeZdataBytes tab c.flags ⟨.zsinit, 0, false, 0, 0, [0], 1⟩ zcrcw

end Link
end CProgram.Zmodem
