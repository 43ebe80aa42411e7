import CProgram.Zmodem.Crc16

/-! The blocks of Xmodem and Ymodem: what the sender builds, and the checks the receiver makes
before it writes one to its file. A block that is being received is the list of its bytes; behind
them lie the zeros that `clear_block` left. -/
namespace CProgram.Xmodem

def cSoh : UInt8 := 0x01
def cStx : UInt8 := 0x02
def cEot : UInt8 := 0x04
def cAck : UInt8 := 0x06
def cNak : UInt8 := 0x15
def cCan : UInt8 := 0x18
def cSub : UInt8 := 0x1A

def xmodemMaxBlockSize : ℕ := 1024 + 5
def errorsMax : ℕ := 15

inductive Flavor where
  | xNormal | xCrc | xRelaxed | x1k | x1kG | yNormal | yG
deriving DecidableEq, Repr

inductive State where
  | init | purgeInput | firstBlock | block | lastBlock | eotAck | complete | abort
  | ymodemBlock0 | ymodemBlock0Ack1 | ymodemBlock0Ack2
deriving DecidableEq, Repr

/-- `flavor` is one of the two with a checksum. -/
def Flavor.hasChecksum : Flavor → Bool
  | .xRelaxed | .xNormal => true
  | _ => false

/-- `flavor` has blocks of 128 bytes only. -/
def Flavor.isShort : Flavor → Bool
  | .xRelaxed | .xNormal | .xCrc => true
  | _ => false

def Flavor.isYmodem : Flavor → Bool
  | .yNormal | .yG => true
  | _ => false

def Flavor.isG : Flavor → Bool
  | .x1kG | .yG => true
  | _ => false

def calcrc (block : List UInt8) : UInt32 := Zmodem.computeCrc16 0 block

def crcHigh (crc : UInt32) : UInt8 := (crc >>> 8).toUInt8
def crcLow (crc : UInt32) : UInt8 := crc.toUInt8

def byteAt (block : List UInt8) (i : ℕ) : UInt8 := block.getD i 0

/-- The bytes from 3 on. -/
def payload (block : List UInt8) (count : ℕ) : List UInt8 := (block.drop 3).takeD count 0

/-- The size of the payload that the first byte stands for. -/
def payloadSize (block : List UInt8) : ℕ := if byteAt block 0 = cSoh then 128 else 1024

def crcHighRight (block : List UInt8) (count : ℕ) : Bool :=
  byteAt block (count - 1 + 4) = crcHigh (calcrc (payload block count))

def crcLowRight (block : List UInt8) (count : ℕ) : Bool :=
  byteAt block (count - 1 + 5) = crcLow (calcrc (payload block count))

/-- The comparison that stands in four places: a block is refused when both bytes differ. -/
def crcPasses (block : List UInt8) (count : ℕ) : Bool :=
  !(!crcHighRight block count && !crcLowRight block count)

def checksum (data : List UInt8) : UInt8 := data.foldl (· + ·) 0

structure Receiver where
  flavor : Flavor
  state : State
  priorState : State
  currentBlock : List UInt8
  currentBlockSequenceI : UInt8
  currentBlockNumber : UInt32
  firstByte : UInt8
  timeoutCount : UInt32
  timeoutMax : UInt32
  errorCount : ℕ
  /-- What has been written to the open file. -/
  file : Option (List UInt8)
  filename : List UInt8
  downloadPath : List UInt8
  downloadFileModtime : UInt64
  /-- `q_transfer_stats.bytes_total`. -/
  bytesTotal : UInt64
  block0HasBeenSeen : Bool
  /-- The files that were closed, with their modification times. -/
  directory : List (List UInt8 × List UInt8 × UInt64)
deriving DecidableEq, Repr

namespace Receiver

def clearBlock (r : Receiver) : Receiver := { r with currentBlock := [] }

def statsIncrementErrors (r : Receiver) : Receiver :=
  { r with
    errorCount := r.errorCount + 1
    state := if errorsMax ≤ r.errorCount + 1 then .abort else r.state }

def sizePasses (r : Receiver) : Bool :=
  if r.flavor.hasChecksum then r.currentBlock.length = 128 + 4
  else if r.flavor = .xCrc then r.currentBlock.length = 128 + 5
  else r.currentBlock.length = 1024 + 5 || r.currentBlock.length = 128 + 5

def headerPasses (r : Receiver) : Bool :=
  if r.flavor.isShort then byteAt r.currentBlock 0 = cSoh
  else byteAt r.currentBlock 0 = cSoh || byteAt r.currentBlock 0 = cStx

def sequencePasses (r : Receiver) : Bool := r.currentBlockSequenceI = byteAt r.currentBlock 1

def complementPasses (r : Receiver) : Bool :=
  (byteAt r.currentBlock 1).toNat + (byteAt r.currentBlock 2).toNat = 0xFF

def checkPasses (r : Receiver) : Bool :=
  if r.flavor.hasChecksum then
    checksum (payload r.currentBlock 128) = byteAt r.currentBlock (127 + 4)
  else if r.flavor = .xCrc then crcPasses r.currentBlock 128
  else crcPasses r.currentBlock (payloadSize r.currentBlock)

/-- `current_block_sequence_i - 1` is taken as an `int`. -/
def isDuplicate (r : Receiver) : Bool :=
  (byteAt r.currentBlock 1).toNat + 1 = r.currentBlockSequenceI.toNat

def writeBlock (r : Receiver) : Receiver :=
  { r with
    file := r.file.map (· ++ payload r.currentBlock (payloadSize r.currentBlock))
    currentBlockSequenceI := r.currentBlockSequenceI + 1
    currentBlockNumber := r.currentBlockNumber + 1 }

/-- Whether the block was valid and has been written. -/
def verifyBlock (r : Receiver) : Receiver × Bool :=
  if !r.sizePasses then (r.statsIncrementErrors, false)
  else if !r.headerPasses then (r.statsIncrementErrors, false)
  else if !r.sequencePasses then (r.statsIncrementErrors, false)
  else if !r.complementPasses then (r.statsIncrementErrors, false)
  else if !r.checkPasses then (r.statsIncrementErrors, false)
  else if r.isDuplicate then (r.statsIncrementErrors, false)
  else (r.writeBlock, true)

end Receiver

/-- An entry of the list of files to upload. -/
structure FileInfo where
  name : List UInt8
  content : List UInt8
  mtime : UInt64
deriving DecidableEq, Repr

structure Sender where
  flavor : Flavor
  state : State
  priorState : State
  currentBlock : List UInt8
  currentBlockSequenceI : UInt8
  currentBlockNumber : UInt32
  firstByte : UInt8
  timeoutCount : UInt32
  timeoutMax : UInt32
  errorCount : ℕ
  /-- What is left to read of the open file. -/
  file : Option (List UInt8)
  filename : Option (List UInt8)
  /-- The list from the current entry on. -/
  uploadFileList : List FileInfo
deriving DecidableEq, Repr

namespace Sender

def clearBlock (s : Sender) : Sender := { s with currentBlock := [] }

def statsIncrementErrors (s : Sender) : Sender :=
  { s with
    errorCount := s.errorCount + 1
    state := if errorsMax ≤ s.errorCount + 1 then .abort else s.state }

/-- The header byte, the numbers, the payload and the check bytes. -/
def layout (header number : UInt8) (data check : List UInt8) : List UInt8 :=
  [header, number, 0xFF - number] ++ data ++ check

def crcBytes (data : List UInt8) : List UInt8 := [crcHigh (calcrc data), crcLow (calcrc data)]

/-- The number of bytes that `construct_block` asks the file for. -/
def readSize (flavor : Flavor) : ℕ := if flavor.isShort then 128 else 1024

def padded (read : List UInt8) (count : ℕ) : List UInt8 := read.takeD count cSub

/-- The block around what has been read. -/
def blockAround (flavor : Flavor) (number : UInt8) (read : List UInt8) : List UInt8 :=
  if flavor.hasChecksum then layout cSoh number (padded read 128) [checksum (padded read 128)]
  else if flavor.isShort || decide (read.length ≤ 128) then
    layout cSoh number (padded read 128) (crcBytes (padded read 128))
  else layout cStx number (padded read 1024) (crcBytes (padded read 1024))

/-- The block around the next bytes of `file`. Its end shows when fewer bytes come than were asked
for. -/
def constructBlock (s : Sender) (file : List UInt8) : Sender :=
  { s with
    currentBlock := blockAround s.flavor s.currentBlockSequenceI (file.take (readSize s.flavor))
    file := some (file.drop (readSize s.flavor))
    state := if file.length < readSize s.flavor then .lastBlock else s.state
    currentBlockSequenceI := s.currentBlockSequenceI + 1
    currentBlockNumber := s.currentBlockNumber + 1 }

end Sender
end CProgram.Xmodem
