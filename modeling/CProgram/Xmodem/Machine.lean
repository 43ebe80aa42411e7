import CProgram.Xmodem.BlockZero

/-! The two state machines behind `xmodem`. A call takes the bytes that have arrived and the output
that is waiting; whether the timer has run out is told to it as `expired`. -/
namespace CProgram.Xmodem

/-- What a call finds out about its surroundings. -/
structure Host where
  /-- The timer that `reset_timer` started has run out. -/
  expired : Bool
  /-- Which paths can be opened for writing. -/
  opens : List UInt8 → Bool
  /-- What an uninitialised `unsigned char` holds. -/
  garbage : UInt8
  /-- How many rounds a loop may take. -/
  rounds : ℕ

/-- `ftruncate`, which fails on a negative size. -/
def ftruncate (content : List UInt8) (size : ℤ) : List UInt8 :=
  if size < 0 then content else content.takeD size.toNat 0

/-! ### The padding at the end of a file -/

/-- The file in the clean-up loop, the position in it, and `last_byte`. -/
structure Tail where
  content : List UInt8
  position : ℕ
  lastByte : UInt8
deriving DecidableEq, Repr

namespace Tail

/-- What is left of a number in an `int`. -/
@[irreducible] def toInt (n : ℕ) : ℤ := (n : ℤ).bmod (2 ^ 32)

/-- What `ftell` reports, as an `int`. -/
def filesize (t : Tail) : ℤ := toInt t.position

/-- `fseek` to the byte before the end, which fails on an empty file. -/
def seekLast (t : Tail) : Tail :=
  if t.content = [] then t else { t with position := t.content.length - 1 }

/-- `fread` of one byte. -/
def readByte (t : Tail) : Tail :=
  if t.position < t.content.length then
    { t with lastByte := t.content.getD t.position 0, position := t.position + 1 }
  else t

/-- One round, and whether it was the last. -/
def round (t : Tail) : Tail × Bool :=
  let read := t.seekLast.readByte
  if read.lastByte = cSub then
    ({ read with content := ftruncate read.content (t.filesize - 1) }, false)
  else (read, true)

/-- The content when the loop ends, if it does so in time. -/
def cleanUp : ℕ → Tail → Option (List UInt8)
  | 0, _ => none
  | rounds + 1, t => if t.round.2 then some t.round.1.content else cleanUp rounds t.round.1

end Tail

/-- The byte that starts an Xmodem transfer: NAK, `C` or `G`. -/
def Flavor.firstByte : Flavor → UInt8
  | .xNormal | .xRelaxed => cNak
  | .x1kG => 71
  | _ => 67

/-- What a call of `xmodem_receive` leaves: the receiver, the input that is left, the output. -/
abbrev Received := Except Fault (Receiver × List UInt8 × List UInt8)

namespace Receiver

/-- Nothing happens unless the timer has run out. -/
def checkTimeout (r : Receiver) (expired : Bool) (output : List UInt8) : Receiver × List UInt8 × Bool :=
  if !expired then (r, output, false)
  else if r.timeoutMax ≤ r.timeoutCount + 1 then
    ({ r with
        timeoutCount := r.timeoutCount + 1
        errorCount := r.errorCount + 1
        state := .abort }, [cCan], true)
  else
    ({ r with
        timeoutCount := r.timeoutCount + 1
        errorCount := r.errorCount + 1
        priorState := r.state
        state := .purgeInput }, output, true)

/-- The next bytes are thrown away, and then a NAK asks for the block again. -/
def purge (r : Receiver) : Receiver := { r with priorState := .block, state := .purgeInput }

def receiveInit (r : Receiver) : Receiver :=
  { r with
    state := match r.flavor with
      | .xNormal | .xRelaxed | .yNormal | .yG => .block
      | _ => .firstBlock }

/-- After five attempts the receiver takes up with plain Xmodem. -/
def firstBlockTimeout (r : Receiver) : Receiver :=
  let r := { r with timeoutCount := r.timeoutCount + 1 }
  if 5 ≤ r.timeoutCount then { r.statsIncrementErrors.purge with flavor := .xNormal }
  else r.statsIncrementErrors

/-- No block is there yet. -/
def receiveNothing (r : Receiver) (expired : Bool) (output : List UInt8) : Receiver × List UInt8 :=
  let (r, output, timeout) := r.checkTimeout expired output
  if timeout && decide (r.state ≠ .abort) then
    (if r.currentBlockNumber = 1 then { r with state := r.priorState } else r, [r.firstByte])
  else (r, output)

def append (r : Receiver) (bytes : List UInt8) : Receiver :=
  { r with currentBlock := r.currentBlock ++ bytes }

/-- The Xmodem file is complete. -/
def finish (r : Receiver) (content : List UInt8) : Receiver :=
  { r with file := some content, state := .complete }

/-- The Ymodem file is cut to its length and closed, and its times are set. -/
def closeFile (r : Receiver) (content : List UInt8) : Receiver :=
  { r with
    file := none
    directory :=
      (r.filename, ftruncate content ((r.bytesTotal.toNat : ℤ).bmod (2 ^ 64)), r.downloadFileModtime) ::
        r.directory.filter fun entry => entry.1 ≠ r.filename
    block0HasBeenSeen := false
    currentBlockSequenceI := 0
    currentBlockNumber := 1 }

def receiveEot (h : Host) (r : Receiver) : Received :=
  match r.file with
  | none => .error .notOpen
  | some content =>
    if r.flavor.isYmodem then
      if filenameSize ≤ (fullFilename r.downloadPath r.filename).length then .error .overflow
      else .ok (r.clearBlock.closeFile content, [], [cAck, r.firstByte])
    else
      match Tail.cleanUp h.rounds ⟨content, content.length, h.garbage⟩ with
      | none => .error .running
      | some content => .ok (r.clearBlock.finish content, [], [cAck])

/-- A block of a flavor that streams: just enough is taken from the input. -/
def receiveStream (h : Host) (r : Receiver) (input output : List UInt8) : Received :=
  let n := if byteAt r.currentBlock 0 = cSoh then 128 + 5 else 1024 + 5
  if n ≤ r.currentBlock.length then .error .assertion
  else if input.length + r.currentBlock.length < n then
    let r := r.append input
    if r.currentBlock = [cEot] then r.receiveEot h else .ok (r, [], output)
  else
    let verified := (r.append (input.take (n - r.currentBlock.length))).verifyBlock
    if verified.2 then
      .ok (verified.1.clearBlock, input.drop (n - r.currentBlock.length), output)
    else .ok ({ verified.1.clearBlock with state := .abort }, [], output)

def seenBlockZero (r : Receiver) : Receiver := { r.clearBlock with block0HasBeenSeen := true }

def setState (r : Receiver) (state : State) : Receiver := { r with state := state }

/-- The answer to a block 0: a right one starts its file, or ends the batch. -/
def answerBlockZero (output : List UInt8) : Receiver × Bool → Receiver × List UInt8 × List UInt8
  | (r, false) => (r.clearBlock.purge, [], output)
  | (r, true) =>
    if r.filename = [] then (r.seenBlockZero.setState .complete, [], [cAck])
    else (r.seenBlockZero, [], [cAck, r.firstByte])

/-- The block that has to be block 0. -/
def receiveBlockZero (h : Host) (r : Receiver) (output : List UInt8) : Received :=
  let block := r.currentBlock
  if (byteAt block 0 = cStx && decide (xmodemMaxBlockSize ≤ block.length)) ||
      (byteAt block 0 = cSoh && decide (128 + 5 ≤ block.length)) then
    (r.ymodemDecodeBlock0 h.opens).map (answerBlockZero output)
  else .ok (r, [], output)

/-- The block is not there in full. -/
def isWaiting (r : Receiver) : Bool :=
  let n := r.currentBlock.length
  match r.flavor with
  | .yNormal | .yG | .x1k | .x1kG =>
    (byteAt r.currentBlock 0 = cStx && decide (n < xmodemMaxBlockSize)) || decide (n < 128 + 5)
  | .xCrc => decide (n < 128 + 5)
  | .xNormal | .xRelaxed => decide (n < 128 + 4)

def receiveData (r : Receiver) (output : List UInt8) : Receiver × List UInt8 :=
  if r.isWaiting then (r, output)
  else
    let verified := r.verifyBlock
    if verified.2 then (verified.1.clearBlock, [cAck])
    else if verified.1.state = .abort then (verified.1, output)
    else (verified.1.clearBlock.purge, output)

/-- Data has arrived. -/
def receiveBlock (h : Host) (r : Receiver) (input output : List UInt8) : Received :=
  let tooMuch := xmodemMaxBlockSize < r.currentBlock.length + input.length
  let atStart := r.currentBlockSequenceI = 0 ∧ r.currentBlockNumber = 1
  if tooMuch ∧ ¬ r.flavor.isG then .ok (r.purge, [], output)
  else if r.flavor.isG ∧ ¬ atStart then r.receiveStream h input output
  else if tooMuch then .ok (r.clearBlock.purge, [], output)
  else
    let r := r.append input
    if r.currentBlock = [cEot] then r.receiveEot h
    else if r.flavor.isYmodem ∧ atStart ∧ ¬ r.block0HasBeenSeen then r.receiveBlockZero h output
    else
      let received := r.receiveData output
      .ok (received.1, [], received.2)

def inBlock (r : Receiver) : Receiver := { r with state := .block }

def xmodemReceive (h : Host) (r : Receiver) (input output : List UInt8) : Received :=
  match r.state with
  | .init => .ok (r.receiveInit, [], [r.firstByte])
  | .firstBlock =>
    if input = [] then
      if h.expired then .ok (r.firstBlockTimeout, [], [r.firstByte]) else .ok (r, [], output)
    else r.inBlock.receiveBlock h input output
  | .block =>
    if input = [] then
      let received := r.receiveNothing h.expired output
      .ok (received.1, [], received.2)
    else r.receiveBlock h input output
  | .purgeInput =>
    if input = [] then .ok ({ r with state := r.priorState }, [], [cNak]) else .ok (r, [], output)
  | _ => .ok (r, [], output)

/-- `xmodem_receive` until the input is used up; every round but the last takes some of it. -/
def receiveAll (h : Host) : ℕ → Receiver → List UInt8 → List UInt8 → Except Fault (Receiver × List UInt8)
  | 0, _, _, _ => .error .running
  | rounds + 1, r, input, output =>
    match r.xmodemReceive h input output with
    | .error fault => .error fault
    | .ok (r, [], output) => .ok (r, output)
    | .ok (r, rest, output) => receiveAll h rounds r rest output

def xmodem (h : Host) (r : Receiver) (input output : List UInt8) : Except Fault (Receiver × List UInt8) :=
  if r.state = .abort then .ok (r, output) else receiveAll h (input.length + 1) r input output

/-- The receiver that `xmodem_start` sets up, whatever the one before it was. -/
def xmodemStart (r : Receiver) (flavor : Flavor) (filename : List UInt8) : Receiver :=
  { r with
    flavor := flavor
    state := .init
    currentBlock := []
    currentBlockSequenceI := 1
    currentBlockNumber := 1
    firstByte := flavor.firstByte
    timeoutCount := 0
    timeoutMax := if flavor = .xRelaxed then 100 else 10
    file := some []
    filename := filename }

def ymodemStart (r : Receiver) (flavor : Flavor) (downloadPath : List UInt8) : Receiver :=
  { r with
    flavor := flavor
    state := .init
    currentBlock := []
    currentBlockSequenceI := 0
    currentBlockNumber := 1
    firstByte := if flavor = .yNormal then 67 else 71
    timeoutCount := 0
    timeoutMax := 10
    downloadPath := downloadPath
    block0HasBeenSeen := false }

end Receiver

/-- How a part of `xmodem_send` ends: it returns, or the next part goes on. -/
inductive Flow where
  | leave (s : Sender) (input output : List UInt8)
  | fall (s : Sender) (input : List UInt8)
deriving DecidableEq, Repr

abbrev Sent := Except Fault (Sender × List UInt8 × List UInt8)

namespace Sender

/-- The sender gives the receiver one timeout more. -/
def checkTimeout (s : Sender) (expired : Bool) : Sender :=
  if !expired then s
  else if s.timeoutMax ≤ s.timeoutCount + 1 then
    { s with
      timeoutCount := s.timeoutCount + 1
      errorCount := s.errorCount + 1
      state := .abort }
  else
    { s with
      timeoutCount := s.timeoutCount + 1
      errorCount := s.errorCount + 1
      priorState := s.state
      state := .purgeInput }

/-- The block is sent again once the input is clear. -/
def purge (s : Sender) (prior : State) : Sender := { s with priorState := prior, state := .purgeInput }

def setState (s : Sender) (state : State) : Sender := { s with state := state }

/-- The next file of the list is opened; behind the last nothing is. -/
def setupForNextFile (s : Sender) : Sender :=
  match s.uploadFileList with
  | [] => { s with file := none, filename := none }
  | entry :: _ =>
    { s with file := some entry.content, filename := some (basename entry.name), errorCount := 0 }

/-- The first byte of the receiver decides; an ACK in its place makes the first block go out. -/
def sendInit (s : Sender) (expired : Bool) (input output : List UInt8) : Flow :=
  match input with
  | [] => .leave (s.checkTimeout expired) [] output
  | byte :: rest =>
    match s.flavor with
    | .xRelaxed | .xNormal =>
      if byte = s.firstByte then .fall (s.setState .block) (cAck :: rest) else .leave s [] output
    | .xCrc | .x1k | .x1kG =>
      if byte = s.firstByte then .fall (s.setState .block) (cAck :: rest)
      else if byte = cNak then .fall { s with flavor := .xNormal, state := .block } (cAck :: rest)
      else .leave s [] output
    | .yNormal | .yG => .fall (if byte = s.firstByte then s.setState .ymodemBlock0 else s) input

def sendBlockZero (s : Sender) (output : List UInt8) : Sent :=
  if output ≠ [] then .error .assertion
  else
    let s := s.ymodemConstructBlock0
    .ok (s.setState .ymodemBlock0Ack1, [], s.currentBlock)

/-- Block 0 is out, and its ACK is awaited. -/
def sendAck1 (s : Sender) (expired : Bool) (input output : List UInt8) : Flow :=
  if s.flavor = .yG ∧ s.filename = none then .leave (s.setState .complete) [] output
  else if input = [] then .leave (s.checkTimeout expired) [] output
  else if input.head? = some cAck ∧ s.flavor = .yNormal ∨ input.head? = some 71 ∧ s.flavor = .yG then
    if s.filename = none then .leave (s.setState .complete) [] output
    else if s.flavor = .yNormal then
      if input.length = 2 ∧ input[1]? = some s.firstByte then .fall (s.setState .block) [cAck]
      else .fall (s.setState .ymodemBlock0Ack2) input
    else .fall (s.setState .block) []
  else if input = [cNak] then
    .leave { s with state := .ymodemBlock0, currentBlockSequenceI := 0 } [] output
  else .fall s input

/-- The ACK was there, and now the first byte is awaited again. -/
def sendAck2 (s : Sender) (expired : Bool) (input output : List UInt8) : Flow :=
  if input = [] then .leave (s.checkTimeout expired) [] output
  else if input = [s.firstByte] then .fall (s.setState .block) [cAck]
  else .fall s input

/-- With an ACK for the block before, the next block goes out. -/
def sendBlock (s : Sender) (expired : Bool) (input output : List UInt8) : Sent :=
  if input = [cAck] ∨ s.flavor.isG = true then
    if output ≠ [] ∧ s.flavor.isG = false then .error .assertion
    else
      match s.file with
      | none => .error .notOpen
      | some file =>
        let s := s.clearBlock.constructBlock file
        .ok (s, [], output ++ s.currentBlock)
  else if input = [cNak] then .ok ((s.purge .block).statsIncrementErrors, [], output)
  else if input = [] then
    if expired then .ok ((s.checkTimeout expired).purge .block, [], output) else .ok (s, [], output)
  else .ok ((s.purge .block).statsIncrementErrors, [], output)

def sendPurge (s : Sender) (input output : List UInt8) : Sent :=
  if input = [] then
    if s.priorState = .block ∨ s.priorState = .lastBlock then
      if output ≠ [] then .error .assertion
      else .ok (s.setState s.priorState, [], s.currentBlock)
    else .ok (s.setState s.priorState, [], output)
  else .ok (s, [], output)

/-- The end of the file is told when the last block has its ACK. Noise is left in the input. -/
def sendLastBlock (s : Sender) (expired : Bool) (input output : List UInt8) : Sent :=
  if input = [cAck] ∨ s.flavor.isG = true then .ok (s.setState .eotAck, [], output ++ [cEot])
  else if input = [cNak] then .ok ((s.purge .lastBlock).statsIncrementErrors, [], output)
  else if input = [] then .ok (s.checkTimeout expired, [], output)
  else .ok ((s.purge .lastBlock).statsIncrementErrors, input, output)

/-- The next file of a Ymodem batch begins. -/
def nextFile (s : Sender) : Sender :=
  { ({ s with uploadFileList := s.uploadFileList.tail }).setupForNextFile with
    currentBlockSequenceI := 0
    currentBlockNumber := 1
    timeoutCount := 0
    currentBlock := []
    state := .init }

def sendEotAck (s : Sender) (expired : Bool) (input output : List UInt8) : Sent :=
  match input with
  | [] => .ok (s.checkTimeout expired, [], if expired then output ++ [cEot] else output)
  | byte :: rest =>
    if byte ≠ cAck then .ok (s, [], output)
    else if s.file = none then .error .notOpen
    else if s.flavor.isYmodem then .ok (s.nextFile, if rest = [] then input else rest, output)
    else .ok ({ s with file := none, state := .complete }, [], output)

/-- The part that follows the starts of the flavors. -/
def sendBody (s : Sender) (expired : Bool) (input output : List UInt8) : Sent :=
  match s.state with
  | .block => s.sendBlock expired input output
  | .purgeInput => s.sendPurge input output
  | .lastBlock => s.sendLastBlock expired input output
  | .eotAck => s.sendEotAck expired input output
  | _ => .ok (s, [], output)

def sendFromAck2 (s : Sender) (expired : Bool) (input output : List UInt8) : Sent :=
  if s.state = .ymodemBlock0Ack2 then
    match s.sendAck2 expired input output with
    | .leave s input output => .ok (s, input, output)
    | .fall s input => s.sendBody expired input output
  else s.sendBody expired input output

def sendFromAck1 (s : Sender) (expired : Bool) (input output : List UInt8) : Sent :=
  if s.state = .ymodemBlock0Ack1 then
    match s.sendAck1 expired input output with
    | .leave s input output => .ok (s, input, output)
    | .fall s input => s.sendFromAck2 expired input output
  else s.sendFromAck2 expired input output

def sendFromBlockZero (s : Sender) (expired : Bool) (input output : List UInt8) : Sent :=
  if s.state = .ymodemBlock0 then s.sendBlockZero output else s.sendFromAck1 expired input output

def xmodemSend (expired : Bool) (s : Sender) (input output : List UInt8) : Sent :=
  if input.head? = some cCan then .ok (s.setState .abort, [], output)
  else if s.state = .init then
    match s.sendInit expired input output with
    | .leave s input output => .ok (s, input, output)
    | .fall s input => s.sendFromBlockZero expired input output
  else s.sendFromBlockZero expired input output

/-- `xmodem_send` until the input is used up: the last but one round is that of an ACK to EOT or of
noise behind the last block. -/
def sendAll (expired : Bool) : ℕ → Sender → List UInt8 → List UInt8 → Except Fault (Sender × List UInt8)
  | 0, _, _, _ => .error .running
  | rounds + 1, s, input, output =>
    match s.xmodemSend expired input output with
    | .error fault => .error fault
    | .ok (s, [], output) => .ok (s, output)
    | .ok (s, rest, output) => sendAll expired rounds s rest output

def xmodem (expired : Bool) (s : Sender) (input output : List UInt8) : Except Fault (Sender × List UInt8) :=
  if s.state = .abort then .ok (s, output) else sendAll expired 3 s input output

def xmodemStart (s : Sender) (flavor : Flavor) (filename content : List UInt8) : Sender :=
  { s with
    flavor := flavor
    state := .init
    currentBlock := []
    currentBlockSequenceI := 1
    currentBlockNumber := 1
    firstByte := flavor.firstByte
    timeoutCount := 0
    timeoutMax := if flavor = .xRelaxed then 100 else 10
    file := some content
    filename := some filename }

def ymodemStart (s : Sender) (flavor : Flavor) (uploadFileList : List FileInfo) : Sender :=
  { ({ s with uploadFileList := uploadFileList }).setupForNextFile with
    flavor := flavor
    state := .init
    currentBlock := []
    currentBlockSequenceI := 0
    currentBlockNumber := 1
    firstByte := if flavor = .yNormal then 67 else 71
    timeoutCount := 0
    timeoutMax := 10 }

end Sender
end CProgram.Xmodem
