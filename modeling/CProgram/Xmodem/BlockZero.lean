import CProgram.Lib.Numerals
import CProgram.Xmodem.Block

/-! The first block of a Ymodem file, with its name, its length and its time. -/
namespace CProgram.Xmodem
open Numerals

/-- The size of the local arrays that take a path. -/
def filenameSize : ℕ := 256

/-- Why a call does not return. -/
inductive Fault where
  /-- A local array is written past its end. -/
  | overflow
  | assertion
  /-- A `FILE` that is not open is used. -/
  | notOpen
  /-- The loop is not done after the rounds it was given. -/
  | running
deriving DecidableEq, Repr

/-- The part of a path behind its last slash. -/
def basename (path : List UInt8) : List UInt8 := (path.reverse.takeWhile (· ≠ 47)).reverse

/-- The path that `sprintf` with `"%s/%s"` puts together. -/
def fullFilename (path name : List UInt8) : List UInt8 := path ++ [47] ++ name

namespace Sender

/-- The name with its NUL, the length with its blank, the time with its NUL. -/
def blockZeroFields (filename : List UInt8) (entry : FileInfo) : List UInt8 :=
  filename ++ [0] ++ numeral 10 entry.content.length ++ [32] ++ numeral 8 entry.mtime.toNat ++ [0]

/-- The terminator block is all zeros. -/
def blockZeroBody (s : Sender) : List UInt8 :=
  match s.uploadFileList with
  | [] => []
  | entry :: _ => blockZeroFields (s.filename.getD []) entry

def blockZero (number : UInt8) (body : List UInt8) : List UInt8 :=
  if 128 + 5 - 2 < 3 + body.length then
    layout cStx number (body.takeD 1024 0) (crcBytes (body.takeD 1024 0))
  else layout cSoh number (body.takeD 128 0) (crcBytes (body.takeD 128 0))

def ymodemConstructBlock0 (s : Sender) : Sender :=
  { s with
    currentBlock := blockZero s.currentBlockSequenceI s.blockZeroBody
    currentBlockSequenceI := s.currentBlockSequenceI + 1 }

end Sender

/-- A field of block 0 from `n` on, in at most `room` bytes: the first byte is taken as it is,
and the field ends before the next that `stop` holds for. -/
def fieldFrom (stop : UInt8 → Bool) (block : List UInt8) : ℕ → ℕ → List UInt8 × ℕ
  | 0, n => ([], n)
  | room + 1, n =>
    if stop (byteAt block (n + 1)) then ([byteAt block n], n + 1)
    else
      let rest := fieldFrom stop block room (n + 1)
      (byteAt block n :: rest.1, rest.2)

def cString (field : List UInt8) : List UInt8 := field.takeWhile (· ≠ 0)

def isNul (ch : UInt8) : Bool := ch = 0
def isNulOrBlank (ch : UInt8) : Bool := ch = 0 || ch = 32

/-- The three fields as strings. -/
structure BlockZero where
  filename : List UInt8
  length : List UInt8
  time : List UInt8
deriving DecidableEq, Repr

def readBlockZero (block : List UInt8) : BlockZero :=
  let filename := fieldFrom isNul block (filenameSize - 1) 3
  let length := fieldFrom isNulOrBlank block (filenameSize - 1) (filename.2 + 1)
  let time := fieldFrom isNulOrBlank block (filenameSize - 1) (length.2 + 1)
  ⟨cString filename.1, cString length.1, cString time.1⟩

/-- `length` is an `int`. -/
def fileLength (text : List UInt8) : ℤ := (atol text).bmod (2 ^ 32)

namespace Receiver

/-- The file is open for writing: its length and time are known, and the statistics start anew. -/
def startFile (r : Receiver) (z : BlockZero) : Receiver :=
  { r with
    file := some []
    downloadFileModtime := (scanOctal z.time).getD r.downloadFileModtime
    errorCount := 0
    bytesTotal := UInt64.ofInt (fileLength z.length)
    currentBlockSequenceI := r.currentBlockSequenceI + 1 }

def setFilename (r : Receiver) (name : List UInt8) : Receiver := { r with filename := name }

/-- The block is right: its file is opened, unless it is the terminator block. `opens` says which
paths can be opened. -/
def openBlockZero (opens : List UInt8 → Bool) (r : Receiver) : Except Fault (Receiver × Bool) :=
  let z := readBlockZero r.currentBlock
  let named := r.setFilename z.filename
  if z.filename = [] then .ok (named, true)
  else if filenameSize ≤ (fullFilename r.downloadPath z.filename).length then .error .overflow
  else if !opens (fullFilename r.downloadPath z.filename) then .ok (named.statsIncrementErrors, false)
  else .ok (named.startFile z, true)

/-- Whether the block was valid and its file could be opened. -/
def ymodemDecodeBlock0 (opens : List UInt8 → Bool) (r : Receiver) : Except Fault (Receiver × Bool) :=
  let block := r.currentBlock
  if !(block.length = 1024 + 5 || block.length = 128 + 5) then .ok (r.statsIncrementErrors, false)
  else if !(byteAt block 0 = cSoh || byteAt block 0 = cStx) then .ok (r.statsIncrementErrors, false)
  else if !r.sequencePasses then .ok (r.statsIncrementErrors, false)
  else if !r.complementPasses then .ok (r.statsIncrementErrors, false)
  else if !crcPasses block (payloadSize block) then .ok (r.statsIncrementErrors, false)
  else r.openBlockZero opens

end Receiver
end CProgram.Xmodem
