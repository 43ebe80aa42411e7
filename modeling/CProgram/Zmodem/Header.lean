import Mathlib.Data.List.Basic
import Mathlib.Tactic

/-! ZMODEM headers: the two CRCs and `parse_packet`. -/
namespace CProgram.Zmodem

/-- The eight rounds that `compute_crc16` gives each byte; the bits above the low sixteen are
never looked at. -/
def crc16Round (crc : UInt32) : UInt32 :=
  if crc &&& 0x8000 ≠ 0 then (crc <<< 1) ^^^ 0x1021 else crc <<< 1

def crc16Byte (crc : UInt32) (ch : UInt8) : UInt32 :=
  Nat.repeat crc16Round 8 (crc ^^^ (ch.toUInt32 <<< 8))

def computeCrc16 (crc : UInt32) (data : List UInt8) : UInt32 :=
  data.foldl crc16Byte crc &&& 0xFFFF

/-- One pass of `makecrc` over the table, for the next `j`. -/
def makecrcPass (tab : List UInt32 × UInt32) (j : Nat) : List UInt32 × UInt32 :=
  let h := if tab.2 &&& 1 ≠ 0 then (tab.2 >>> 1) ^^^ 0xedb88320 else tab.2 >>> 1
  ((List.range (128 / j)).foldl
    (fun t k => t.set (2 * j * k + j) (t.getD (2 * j * k) 0 ^^^ h)) tab.1, h)

/-- `crc_32_tab` once `makecrc` has run; before that it is all zero. -/
def makecrc : List UInt32 :=
  ([128, 64, 32, 16, 8, 4, 2, 1].foldl makecrcPass (List.replicate 256 0, 1)).1

def crc32Tab (made : Bool) : List UInt32 := if made then makecrc else List.replicate 256 0

/-- `compute_crc32` without a buffer. -/
def crc32Preset : UInt32 := 0xffffffff

def crc32Byte (tab : List UInt32) (crc : UInt32) (ch : UInt8) : UInt32 :=
  (crc >>> 8) ^^^ tab.getD ((crc ^^^ ch.toUInt32) % 256).toNat 0

def computeCrc32 (tab : List UInt32) (oldCrc : UInt32) (data : List UInt8) : UInt32 :=
  data.foldl (crc32Byte tab) oldCrc ^^^ 0xffffffff

/-- The packet types, in the order of their numbers. -/
inductive PacketType where
  | zrqinit
  | zrinit
  | zsinit
  | zack
  | zfile
  | zskip
  | znak
  | zabort
  | zfin
  | zrpos
  | zdata
  | zeof
  | zferr
  | zcrc
  | zchallenge
  | zcompl
  | zcan
  | zfreecnt
  | zcommand
deriving DecidableEq, Repr

def packetTypes : List PacketType :=
  [.zrqinit, .zrinit, .zsinit, .zack, .zfile, .zskip, .znak, .zabort, .zfin, .zrpos, .zdata,
    .zeof, .zferr, .zcrc, .zchallenge, .zcompl, .zcan, .zfreecnt, .zcommand]

def packetType (ch : UInt8) : Option PacketType := packetTypes[ch.toNat]?

/-- `struct zmodem_packet`: `data` is the filled part of its array, `dataN` the count that goes
with it. -/
structure Packet where
  type : PacketType
  argument : UInt32
  useCrc32 : Bool
  crc16 : UInt32
  crc32 : UInt32
  data : List UInt8
  dataN : Nat
deriving DecidableEq, Repr

/-- The packet that `parse_packet` starts from. -/
def Packet.clear : Packet := ⟨.zrqinit, 0, false, 0, 0, [], 0⟩

def zpad : UInt8 := 42
def can : UInt8 := 24
def xon : UInt8 := 17

def bigToLittleEndian (x : UInt32) : UInt32 :=
  (x >>> 24 &&& (0xFF : UInt32)) ||| (x >>> 8 &&& (0xFF00 : UInt32)) |||
    (x <<< 8 &&& (0xFF0000 : UInt32)) ||| (x <<< 24 &&& (0xFF000000 : UInt32))

/-- A character behind CAN. -/
def unescape (ch : UInt8) : Option UInt8 :=
  if ch = 108 then some 0x7F
  else if ch = 109 then some 0xFF
  else if ch &&& 0x40 ≠ 0 then some (ch &&& 0xBF)
  else none

/-- How the loop over the bytes of a binary header ends. -/
inductive HeaderBytes where
  | short
  | bad
  | done (bytes rest : List UInt8)
deriving DecidableEq, Repr

/-- The loop: `n` bytes are missing, `gotCan` tells that the last one was CAN. -/
def headerBytes : Nat → Bool → List UInt8 → List UInt8 → HeaderBytes
  | 0, _, bytes, input => .done bytes input
  | _ + 1, _, _, [] => .short
  | n + 1, gotCan, bytes, ch :: input =>
    if ch = can then headerBytes (n + 1) true bytes input
    else if gotCan then
      match unescape ch with
      | none => .bad
      | some ch => headerBytes n false (bytes ++ [ch]) input
    else headerBytes n false (bytes ++ [ch]) input

def hexDigit (ch : UInt8) : Option UInt8 :=
  if 48 ≤ ch ∧ ch ≤ 57 then some (ch - 48)
  else if 65 ≤ ch ∧ ch ≤ 70 then some (ch - 55)
  else if 97 ≤ ch ∧ ch ≤ 102 then some (ch - 87)
  else none

/-- `dehexify_string` on an even number of digits. -/
def dehexifyString : List UInt8 → Option (List UInt8)
  | [] => some []
  | [_] => none
  | high :: low :: rest => do
    let high ← hexDigit high
    let low ← hexDigit low
    let rest ← dehexifyString rest
    return ((high <<< 4) ||| low) :: rest

/-- The bytes of a number, most significant one first. -/
def bigEndian (bytes : List UInt8) : UInt32 :=
  bytes.foldl (fun n ch => (n <<< 8) ||| ch.toUInt32) 0

def littleEndian (bytes : List UInt8) : UInt32 := bigEndian bytes.reverse

/-- The return codes of `parse_packet`. -/
inductive ParsePacket where
  | invalid
  | nodata
  | crcerror
  | ok
deriving DecidableEq, Repr

/-- What a call of `parse_packet` returns, the packet it leaves and `discard`. The fields that a
failed call fills in are not read by anything, so they count as cleared. -/
structure Parsed where
  code : ParsePacket
  discard : Nat
  packet : Packet
deriving DecidableEq, Repr

/-- A header as it is in the buffer: its five bytes, its check, and whether that is a CRC-32. -/
structure RawHeader where
  header : List UInt8
  check : UInt32
  useCrc32 : Bool
deriving DecidableEq, Repr

/-- The types whose argument travels low byte first. -/
def PacketType.flipped : PacketType → Bool
  | .zrpos | .zeof | .zcrc | .zcompl | .zfreecnt => true
  | _ => false

/-- The types that a data subpacket follows. -/
def PacketType.hasData : PacketType → Bool
  | .zsinit | .zfile | .zdata | .zcommand => true
  | _ => false

/-- Type, argument and check of a header that starts at `pad` and ends before `stop`. -/
def finishHeader (tab : List UInt32) (pad stop : Nat) (raw : RawHeader) : Parsed :=
  match packetType (raw.header.headD 0) with
  | none => ⟨.invalid, pad, .clear⟩
  | some type =>
    let argument := bigEndian (raw.header.drop 1)
    let argument := if type.flipped then bigToLittleEndian argument else argument
    let check := if raw.useCrc32 then computeCrc32 tab crc32Preset raw.header
      else computeCrc16 0 raw.header
    if check ≠ raw.check then ⟨.crcerror, pad, .clear⟩
    else if type.hasData then
      ⟨.ok, stop, ⟨type, argument, raw.useCrc32, 0, crc32Preset, [], 0⟩⟩
    else if raw.useCrc32 then ⟨.ok, stop, ⟨type, argument, true, 0, raw.check, [], 0⟩⟩
    else ⟨.ok, stop, ⟨type, argument, false, raw.check, 0, [], 0⟩⟩

/-- A binary header with `n` bytes of check behind the `A` or `C`. -/
def parseBinary (tab : List UInt32) (size pad n : Nat) (useCrc32 : Bool) (bad : ParsePacket)
    (input : List UInt8) : Parsed :=
  if input.length + 1 < n + 6 then ⟨.nodata, pad, .clear⟩
  else
    match headerBytes (n + 5) false [] input with
    | .short => ⟨.nodata, pad, .clear⟩
    | .bad => ⟨bad, pad, .clear⟩
    | .done bytes rest =>
      let check := bytes.drop 5
      finishHeader tab pad (size - rest.length)
        ⟨bytes.take 5, if useCrc32 then littleEndian check else bigEndian check, useCrc32⟩

/-- A hex header behind its `B`: fourteen digits, CR, LF, and XON except for ZFIN and ZACK. -/
def parseHex (tab : List UInt32) (size pad : Nat) (input : List UInt8) : Parsed :=
  if input.length < 16 then ⟨.nodata, pad, .clear⟩
  else
    match dehexifyString (input.take 14) with
    | none => ⟨.invalid, pad, .clear⟩
    | some bytes =>
      let raw := ⟨bytes.take 5, bigEndian (bytes.drop 5), false⟩
      let stop := size - (input.length - 16)
      if bytes.headD 0 = 8 ∨ bytes.headD 0 = 3 then finishHeader tab pad stop raw
      else if input.length < 17 then ⟨.nodata, pad, .clear⟩
      else finishHeader tab pad (stop + 1) raw

/-- `parse_packet` on a buffer that is not empty; its caller counts a CRC error and switches to
data when the header says that some follows. -/
def parsePacket (tab : List UInt32) (input : List UInt8) : Parsed :=
  let pad := (input.takeWhile (· ≠ zpad)).length
  match (input.drop pad).dropWhile (· = zpad) with
  | [] => ⟨.nodata, pad, .clear⟩
  | ch :: rest =>
    if ch ≠ can then ⟨.invalid, pad + 1, .clear⟩
    else
      match rest with
      | [] => ⟨.nodata, pad, .clear⟩
      | 65 :: rest => parseBinary tab input.length pad 2 false .invalid rest
      | 66 :: rest => parseHex tab input.length pad rest
      | 67 :: rest => parseBinary tab input.length pad 4 true .nodata rest
      | _ :: _ => ⟨.invalid, pad + 1, .clear⟩

end CProgram.Zmodem
