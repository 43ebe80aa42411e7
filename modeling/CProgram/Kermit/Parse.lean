import CProgram.Kermit.Packet
import CProgram.Kermit.Decode

/-! `decode_input_bytes`: the next packet of the receive buffer, with the indexes of the buffer
that the search for it reads. -/
namespace CProgram.Kermit
open Bytes

/-- The Kermit protocol state. -/
inductive State where
  | init
  | complete
  | abort
  | kmS
  | kmSF
  | kmSA
  | kmSDW
  | kmSZ
  | kmSB
  | kmR
  | kmRF
  | kmRDW
deriving DecidableEq, Repr

/-- What `decode_input_bytes` consults: the session, QCTL of `remote_parms`, and of `status` the
check type, the state and the modes. -/
structure ParseContext where
  session : SessionParameters
  remoteQctl : UInt8
  checkType : Nat
  sevenBitOnly : Bool
  sending : Bool
  state : State
  textMode : Bool
deriving DecidableEq, Repr

/-- How a call ends: fewer than five bytes, no MARK, a packet not all here yet, an error that is
answered by a NAK, or a packet whose payload could be decoded. -/
inductive Outcome where
  | short
  | noMark
  | waiting
  | bad
  | packet (type : Option PacketType) (seq : UInt8) (data : List UInt8)
deriving DecidableEq, Repr

/-- `discard` as it is returned, and one past the last index of the buffer that was read. -/
structure Parsed where
  outcome : Outcome
  discard : Nat
  readEnd : Nat
deriving DecidableEq, Repr

/-- A packet that is all in the buffer: its MARK, where its data field starts, and how many bytes
from there on, check included, belong to it. `len` is the LEN byte. -/
structure Body where
  mark : Nat
  start : Nat
  rest : Nat
  len : Nat
  type : Option PacketType
  seq : UInt8
deriving DecidableEq, Repr

/-- The index of the first MARK among the first `n` bytes. -/
def findMark (mark : UInt8) (input : Nat → UInt8) (n : Nat) : Option Nat :=
  (List.range n).find? fun i => decide (input i = mark)

/-- The bytes of the buffer from `start` on. -/
def slice (input : Nat → UInt8) : Nat → Nat → List UInt8
  | _, 0 => []
  | start, n + 1 => input start :: slice input (start + 1) n

namespace ParseContext
variable (c : ParseContext)

/-- The check type that `decode_input_bytes` picks; that of a NAK is read off its LEN. -/
def inputCheckType (type : Option PacketType) (len : Nat) : Nat :=
  match type with
  | some .ksinit => 1
  | some .knak => if 3 ≤ len ∧ len ≤ 5 then len - 2 else 1
  | _ => c.checkType

/-- What `decode_data_field` consults for the packet. -/
def fieldContext (type : Option PacketType) (seq : UInt8) : DecodeContext where
  prefixes := ⟨c.session.rept, c.session.qbin, c.remoteQctl⟩
  raw := decide (seq = 0 ∧ (type = some .kack ∨ type = some .ksinit)) ||
    decide (type = some .kattributes)
  stripCr := decide (type = some .kdata) && decide (c.state = .kmRDW) && c.textMode

/-- The check type, the number of its characters, and where in the buffer they start. -/
def checkTypeOf (b : Body) : Nat := c.inputCheckType b.type b.len

def checkLength (b : Body) : Nat := checkTypeLength (c.checkTypeOf b)

def checkStart (b : Body) : Nat := b.start + b.rest - c.checkLength b

def checkPasses (input : Nat → UInt8) (b : Body) : Bool :=
  checkOk c.sevenBitOnly (c.checkTypeOf b)
    (slice input (b.mark + 1) (c.checkStart b - (b.mark + 1))) fun i => input (c.checkStart b + i)

/-- The encoded data field; a packet shorter than its check makes the unsigned length wrap. -/
def dataLength (b : Body) : Nat := sub32 b.rest (c.checkLength b)

def dataField (input : Nat → UInt8) (b : Body) : List UInt8 :=
  slice input b.start (c.dataLength b)

/-- The check and the data field. -/
def parseBody (input : Nat → UInt8) (n : Nat) (b : Body) : Parsed :=
  if !c.checkPasses input b then ⟨.bad, n, b.start + b.rest⟩
  else
    match decodeDataField (c.fieldContext b.type b.seq) (c.dataField input b) with
    | none => ⟨.bad, n, max (b.start + b.rest)
        (b.start + (c.fieldContext b.type b.seq).reads (c.dataField input b) .init)⟩
    | some data => ⟨.packet b.type b.seq data, b.start + b.rest,
        max (b.start + b.rest) (b.start + c.dataLength b)⟩

/-- How many bytes behind LEN have to be there before the packet is looked at. -/
def bytesNeeded (len : Nat) : Nat := if len = 0 then 5 else len

/-- The extended header of a long packet: LENX1, LENX2, HCHECK. -/
def parseLong (input : Nat → UInt8) (n m : Nat) (type : Option PacketType) (seq : UInt8) :
    Except Parsed Body :=
  let lenx := (unchar (input (m + 4))).toNat * 95 + (unchar (input (m + 5))).toNat
  if c.session.maxlx < lenx then .error ⟨.bad, n, m + 6⟩
  else if unchar (input (m + 6)) ≠ Frame.hcheck (slice input (m + 1) 5) then
    .error ⟨.bad, n, m + 7⟩
  else if sub32 n (m + 7) < lenx then .error ⟨.waiting, m, m + 7⟩
  else .ok ⟨m, m + 7, lenx, 0, type, seq⟩

/-- LEN and what follows it up to the data field, for a MARK at index `m`. -/
def parseHeader (input : Nat → UInt8) (n m : Nat) : Except Parsed Body :=
  let len := (unchar (input (m + 1))).toNat
  if len = 0 ∧ c.session.longPackets = false then .error ⟨.bad, n, m + 2⟩
  else if len = 1 ∨ len = 2 then .error ⟨.bad, n, m + 2⟩
  else if c.session.maxl.toNat < len then .error ⟨.bad, n, m + 2⟩
  else if sub32 n (m + 2) < bytesNeeded len then .error ⟨.waiting, m, m + 2⟩
  else
    let seq := unchar (input (m + 2))
    if 63 < seq then .error ⟨.bad, n, m + 3⟩
    else
      let type := packetType (input (m + 3))
      if len = 0 then c.parseLong input n m type seq
      else .ok ⟨m, m + 4, len - 2, len, type, seq⟩

/-- A complete packet in a buffer with `n` valid bytes, or how the search for one ended. -/
def findPacket (input : Nat → UInt8) (n : Nat) : Except Parsed Body :=
  if n < 5 then .error ⟨.short, 0, 0⟩
  else
    match findMark c.session.mark input n with
    | none => .error ⟨.noMark, n, n⟩
    | some m => c.parseHeader input n m

/-- `decode_input_bytes` up to the processing of the payload. -/
def decodeInputBytes (input : Nat → UInt8) (n : Nat) : Parsed :=
  match c.findPacket input n with
  | .error r => r
  | .ok b => c.parseBody input n b

end ParseContext
end CProgram.Kermit
