import CProgram.Kermit.Receive

/-! The sending side: `setup_for_next_file` and the states S, SF, SA, SDW, SZ and SB. -/
namespace CProgram.Kermit.Transfer
variable (h : Host) (s : Transfer)

/-- `basename`. -/
def basename (name : List UInt8) : List UInt8 := (name.reverse.takeWhile (· ≠ 47)).reverse

/-- A file counts as text unless one of its first 1024 bytes has the high bit set. -/
def isText (content : List UInt8) : Bool := (content.take 1024).all fun ch => decide (ch < 128)

/-- The state with a file to be sent. -/
def openUpload (upload : Upload) : Transfer :=
  { s with
    attributes := { s.attributes with
      fileSize := upload.content.length % 2 ^ 32
      textMode := !s.settings.uploadsForceBinary && isText upload.content }
    fileName := basename upload.name
    filePosition := 0
    fileEof := false }

def noUpload : Transfer := { s with fileName := [] }

/-- `setup_for_next_file`, when the upload list has been moved on. -/
def setupForNextFile : Transfer :=
  match s.uploads with
  | [] => s.noUpload.goto .kmSB
  | upload :: _ =>
    if h.openFails upload.name then (s.openUpload upload).abort "Disk I/O error"
    else (s.openUpload upload).sendFileHeader.goto .kmSF

/-- The Send-Init, the first time. -/
def startS : Transfer :=
  if s.firstS then { s.ackSendInit .ksinit with firstS := false } else s

/-- `process_send_init`, whose result is not looked at. -/
def takeSendInit : Transfer :=
  { s with remoteParms := (processSendInit s.inputPacket.data).getD s.remoteParms }

/-- The ACK to the Send-Init. -/
def acceptS : Transfer := s.takeSendInit.negotiateSendInit.advance.sendFileHeader.goto .kmSF

def sendS : Transfer × Bool :=
  let s := s.startS
  if !s.inputPacket.parsedOk then (s, true)
  else
    match s.inputPacket.type with
    | some .knak => ((s.ackSendInit .ksinit).consume, true)
    | some .kack => (s.acceptS, false)
    | _ => s.wrongPacket

def sendSF : Transfer × Bool :=
  if !s.inputPacket.parsedOk then (s, true)
  else
    match s.inputPacket.type with
    | some .kack =>
      if s.sessionParms.attributes then (s.advance.sendFileAttributes.goto .kmSA, false)
      else if s.fileEof then (s.advance.sendFileData, false)
      else (s.advance.sendFileData.goto .kmSDW, false)
    | _ => s.wrongPacket

/-- A receiver that has a part of the file says where to go on. -/
def resumeAt : Transfer :=
  if s.attributes.doResend ∧ s.inputPacket.data.headD 0 = 49 then
    { s with
      filePosition := min (atoi (s.inputPacket.data.drop 2)).toNat (2 ^ 63 - 1)
      fileEof := false
      outstandingBytes := 0 }
  else s

/-- Whether numbers are given out in `send_SD_next_packet`. -/
def ahead : Bool := s.sessionParms.streaming || s.sessionParms.windowing

/-- No packet is there to be sent, and the next one is the first with data. -/
def readyForData : Transfer := { s with outputPacket := none, isFirstDataPacket := true }

def notFirst : Transfer := { s with isFirstDataPacket := false }

/-- The number of the packet that SDW will build next is given out in SA or there. -/
def acceptSA : Transfer :=
  (if s.ahead then s.consume else s.advance).readyForData.resumeAt.goto .kmSDW

def sendSA : Transfer × Bool :=
  if !s.inputPacket.parsedOk then (s, true)
  else
    match s.inputPacket.type with
    | some .kack => (s.acceptSA, false)
    | _ => s.wrongPacket

/-- `send_SD_next_packet`. -/
def sendSDNextPacket : Transfer :=
  if s.sessionParms.streaming ∧ s.outputPacket.isSome then s
  else
    let s := if s.ahead then { s with sequenceNumber := s.sequenceNumber + 1 } else s
    if s.filePosition = s.attributes.fileSize ∨ s.skipFile then s.sendEof.goto .kmSZ
    else s.sendFileData

/-- The receiver does not want the file. -/
def skipped : Transfer :=
  if s.inputPacket.data.headD 0 = 88 ∨ s.inputPacket.data.headD 0 = 90 then
    { s with skipFile := true }
  else s

/-- The bytes of the last packet have been received. -/
def delivered : Transfer := { s with filePosition := s.filePosition + s.outstandingBytes }

def sendSDW : Transfer × Bool :=
  if !s.inputPacket.parsedOk then
    if s.ahead ∨ s.isFirstDataPacket then
      (s.notFirst.sendSDNextPacket, true)
    else (s, true)
  else
    match s.inputPacket.type with
    | some .kack =>
      if s.sessionParms.windowing then (s.consume.skipped.sendSDNextPacket, true)
      else if s.ahead then (s.consume.skipped.sendSDNextPacket, false)
      else (s.advance.skipped.delivered.sendSDNextPacket, false)
    | _ => s.wrongPacket

def nextUpload : Transfer := { s with uploads := s.uploads.tail }

def sendSZ : Transfer × Bool :=
  if !s.inputPacket.parsedOk then (s, true)
  else
    match s.inputPacket.type with
    | some .kack =>
      if s.sessionParms.windowing ∧ 0 < s.outputWindow.count then (s.consume, true)
      else (s.advance.nextUpload.setupForNextFile h, false)
    | _ => s.wrongPacket

/-- The Break, the first time. -/
def startSB : Transfer := if s.firstSB then { s.sendEot with firstSB := false } else s

def sendSB : Transfer × Bool :=
  let s := s.startSB
  if !s.inputPacket.parsedOk then (s, true)
  else
    match s.inputPacket.type with
    | some .kack => (s.consume.stop .complete, false)
    | _ => s.wrongPacket

/-- A round of `kermit_send`. -/
def sendState : Transfer × Bool :=
  match s.state with
  | .init => (s.goto .kmS, false)
  | .kmS => s.sendS
  | .kmSF => s.sendSF
  | .kmSA => s.sendSA
  | .kmSDW => s.sendSDW
  | .kmSZ => s.sendSZ h
  | .kmSB => s.sendSB
  | .abort | .complete => (s, true)
  | _ => ({ s with crashed := true }, true)

/-- `kermit_send`: a packet is dealt with in two rounds, and the first call has one more. -/
def sendLoop : Nat → Transfer → Transfer
  | 0, s => s
  | n + 1, s => if (s.sendState h).2 then (s.sendState h).1 else sendLoop n (s.sendState h).1

def kermitSend : Transfer := sendLoop h 4 s

end CProgram.Kermit.Transfer
