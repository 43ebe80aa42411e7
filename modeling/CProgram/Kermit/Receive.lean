import CProgram.Kermit.Window

/-! The receiving side: `open_receive_file` and the states R, RF and RDW. -/
namespace CProgram.Kermit.Transfer
variable (h : Host) (s : Transfer)

/-- The ACK to an Attributes packet, with the position if the file is to be resumed. -/
def ackAttributes : Transfer :=
  if s.attributes.doResend then
    let position := decimal s.filePosition
    s.ackPacketParam (49 :: UInt8.ofNat (position.length + 32) :: position)
  else s.ackPacketParam (text "Y")

/-- The rest of `open_receive_file`, with the name and whether the file is kept. -/
def openFile (name : List UInt8) (exist : Bool) : Transfer :=
  let s := { s with fileFullname := name }
  if h.openFails name then s.abort "Disk I/O error: cannot create file"
  else
    let content := if exist then (s.disk.lookup name).getD [] else []
    let s := { s with
      disk := s.disk.put name content
      fileStream := some name
      before := content
      written := [] }
    if s.inputPacket.type = some .kattributes then s.ackAttributes else s

/-- The search for a name that no file has. -/
def openNewFile : Transfer :=
  let name := s.disk.freeName h.statFails s.fileName
  if h.statFails name then ({ s with fileFullname := name }).abort "Disk I/O error"
  else ({ s with filePosition := 0 }).openFile h name false

/-- The size that the sender gave, if it gave one. -/
def announcedSize : Nat :=
  if 0 < s.attributes.fileSize then s.attributes.fileSize
  else s.attributes.fileSizeK * 1024 % 2 ^ 32

/-- `open_receive_file` for a file that is there. -/
def openExisting (content : List UInt8) : Transfer :=
  match s.attributes.access with
  | .new => s.openNewFile h
  | .supersede => s.openNewFile h
  | .warn =>
    if s.attributes.doResend then
      ({ s with filePosition := content.length }).openFile h s.fileName true
    else s.openNewFile h
  | .append =>
    if s.announcedSize < content.length then s.openNewFile h
    else ({ s with filePosition := content.length }).openFile h s.fileName true

/-- `open_receive_file`; names are taken in the download directory. -/
def openReceiveFile : Transfer :=
  if s.attributes.doResend ∧ s.attributes.textMode then s.ackPacketParam (text "N+")
  else if h.statFails s.fileName then
    ({ s with fileFullname := s.fileName }).abort "Disk I/O error"
  else
    match s.disk.lookup s.fileName with
    | none => ({ s with filePosition := 0 }).openFile h s.fileName false
    | some content => s.openExisting h content

/-- A packet that the state has no use for. -/
def wrongPacket : Transfer × Bool := (s.abort "Wrong packet in sequence", true)

def receiveR : Transfer × Bool :=
  if !s.inputPacket.parsedOk then (s, true)
  else
    match s.inputPacket.type with
    | some .ksinit => ((s.negotiateSendInit.ackSendInit .kack).consume.goto .kmRF, true)
    | _ => s.wrongPacket

def receiveRF : Transfer × Bool :=
  if !s.inputPacket.parsedOk then (s, true)
  else
    match s.inputPacket.type with
    | some .kfile => (s.ackFilePacket.consume.goto .kmRDW, true)
    | some .kbreak => ((s.consume.ackPacket true).stop .complete, true)
    | _ => s.wrongPacket

/-- `fclose` of the file. -/
def fileClosed : Transfer :=
  { s with crashed := s.crashed || s.fileStream.isNone, fileName := [], fileStream := none }

/-- The file is closed and the next one awaited. -/
def closeFile : Transfer := (s.fileClosed.ackPacket true).consume.goto .kmRF

/-- An EOF packet, which closes the file unless packets are missing; a file that the sender gave up
is closed as it is. -/
def receiveEof : Transfer × Bool :=
  if s.inputPacket.data.headD 0 = 68 then (s.closeFile, false)
  else if s.sessionParms.windowing then
    if s.windowSaveAll.inputWindow.count = 0 then (s.windowSaveAll.closeFile, false)
    else (s.windowSaveAll.nakPacket.consume, false)
  else (s.closeFile, false)

def receiveRDW : Transfer × Bool :=
  if !s.inputPacket.parsedOk then (s, true)
  else
    match s.inputPacket.type with
    | some .keof => s.receiveEof
    | some .kdata => ((s.ackPacket false).consume, true)
    | some .kattributes =>
      (if s.fileStream = none then (s.openReceiveFile h).consume else s.consume, true)
    | _ => s.wrongPacket

/-- A round of `kermit_receive`. -/
def receiveState : Transfer × Bool :=
  match s.state with
  | .init =>
    ({ s with state := .kmR, attributes := { s.attributes with textMode := false } }, false)
  | .kmR => s.receiveR
  | .kmRF => s.receiveRF
  | .kmRDW => s.receiveRDW h
  | .abort | .complete => (s, true)
  | _ => ({ s with crashed := true }, true)

/-- `kermit_receive`: a packet is dealt with in two rounds, and the first call has one more. -/
def receiveLoop : Nat → Transfer → Transfer
  | 0, s => s
  | n + 1, s => if (s.receiveState h).2 then (s.receiveState h).1 else receiveLoop n (s.receiveState h).1

def kermitReceive : Transfer := receiveLoop h 4 s

end CProgram.Kermit.Transfer
