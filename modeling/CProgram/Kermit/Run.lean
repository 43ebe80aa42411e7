import CProgram.Kermit.Send

/-! `kermit` as a machine: what it does when it is entered, in a pass of its loop and when it
returns, and the runs that are made of these. -/
namespace CProgram.Kermit

/-- What `decode_input_bytes` finds: fewer than five bytes, no complete packet, a packet that is
answered by a NAK (the flag tells whether its check was right), or a packet that could be decoded.
Type and number are those that have been read by then. -/
inductive Arrival where
  | short
  | none (type : Option PacketType) (seq : Nat)
  | bad (type : Option PacketType) (seq : Nat) (checked : Bool)
  | packet (type : Option PacketType) (seq : Nat) (data : List UInt8)
deriving DecidableEq, Repr

/-- The arrival that the bytes of the packet buffer are. -/
def ParseContext.arrival (c : ParseContext) (input : Nat → UInt8) (n : Nat) : Arrival :=
  let r := c.decodeInputBytes input n
  match findMark c.session.mark input n with
  | Option.none => if n < 5 then .short else .none (some .ksinit) 0
  | some m =>
    let seq := if m + 3 ≤ r.readEnd then (unchar (input (m + 2))).toNat else 0
    let type := if m + 4 ≤ r.readEnd then packetType (input (m + 3)) else some .ksinit
    match r.outcome with
    | .short => .short
    | .noMark => .none type seq
    | .waiting => .none type seq
    | .bad =>
      .bad type seq (match c.findPacket input n with
        | .ok b => c.checkPasses input b
        | .error _ => false)
    | .packet type seq data => .packet type seq.toNat data

namespace Transfer
variable (h : Host) (s : Transfer)

/-- `decode_data_field` opens the file for the first File-Data packet. -/
def openForData (type : Option PacketType) : Transfer :=
  if type = some .kdata ∧ s.state = .kmRDW ∧ s.fileStream = none then s.openReceiveFile h else s

/-- What the payload of a good packet does. -/
def processPayload (type : Option PacketType) (data : List UInt8) : Transfer :=
  match type with
  | some .ksinit =>
    match processSendInit data with
    | some parms => { s with remoteParms := parms }
    | none => s.consume
  | some .kfile =>
    { s with
      inputPacket := { s.inputPacket with data := lowerFileName data }
      fileName := processFileHeader data
      attributes := { s.attributes with fileSize := 0, fileSizeK := 0 } }
  | some .kattributes =>
    let r := processAttributes s.settings.downloadsConvertText data s.attributes
    if r.1 then { s with attributes := r.2 }
    else (({ s with attributes := r.2 }).abort "Error parsing packet").consume
  | some .kerror => s.stop .abort
  | some .kreserved1 | some .kreserved2 => (s.abort "Improper packet type").consume
  | some .knak =>
    if s.sending ∧ s.sessionParms.streaming ∧ (s.state = .kmSDW ∨ s.state = .kmSZ) then
      (s.abort "NAK while streaming").consume
    else s
  | _ => s

/-- A packet that is answered by a NAK. -/
def reject (type : Option PacketType) (checked : Bool) : Transfer :=
  if s.sending then s else (if checked then s.openForData h type else s).nakPacket

/-- `decode_input_bytes`. -/
def decode : Arrival → Transfer
  | .short => s
  | .none type seq => s.withPacket ⟨false, type, seq, []⟩
  | .bad type seq checked => (s.withPacket ⟨false, type, seq, []⟩).reject h type checked
  | .packet type seq data =>
    ((s.withPacket ⟨true, type, seq, data⟩).openForData h type).processPayload type data

/-- What `encode_output_packet` reads for a packet. -/
def outputData (p : OutputPacket) : List UInt8 :=
  if p.type = .kdata ∧ s.state = .kmSDW then
    (s.uploads.headD ⟨[], [], [], 0⟩).content.drop s.filePosition
  else p.data

/-- The counts that go with the bytes of the file in a packet. -/
def count (p : OutputPacket) : Transfer :=
  let e := encodeDataField (s.link.fieldContext p.type) (s.outputData p)
  let s :=
    if p.type = .kdata ∧ s.state = .kmSDW then
      { s with outstandingBytes := e.outstanding, fileEof := e.eof }
    else { s with outstandingBytes := s.outstandingBytes + e.outstanding }
  if s.ahead ∧ p.type = .kdata then
    { s with filePosition := s.filePosition + s.outstandingBytes }
  else s

/-- The bytes of a packet. -/
def packetBytes (p : OutputPacket) : List UInt8 :=
  s.link.frameBytes (s.link.encodeOutputPacket p (s.outputData p))

/-- A packet that has gone out is kept to be sent again. -/
def keep (p : OutputPacket) : Transfer :=
  let slot : Slot := ⟨p.seq, 1, false, some p.type, s.packetBytes p⟩
  if p.type = .knak then s
  else if s.sending ∧ !s.sessionParms.streaming then
    { s with outputWindow := s.outputWindow.push s.windoOut slot }
  else
    { s with outputWindow :=
        { s.outputWindow.store s.outputWindow.next { slot with acked := true } with count := 1 } }

/-- The packet that has been built goes out, behind the padding. -/
def sendPacket : Transfer :=
  match s.outputPacket with
  | none => s
  | some p =>
    { ((s.keep p).count p) with
      outputPacket := none
      output := s.output ++ List.replicate s.remoteParms.npad.toNat s.remoteParms.padc ++
        s.packetBytes p
      built := s.built ++ [(p.type, p.seq)] }

/-- Three ^C end the transfer. -/
def interrupt : Transfer := s.abort "Aborted by remote side"

/-- What a pass has done to the state when it comes to the test whether the output window is
full. -/
def takeArrival (a : Arrival) : Transfer :=
  ((s.decode h a).checkForRepeat.saveInputPacket).moveWindows

/-- A pass of the loop of `kermit`; with a full output window the call ends. The first call throws
its input away. -/
def pass (a : Arrival) : Transfer :=
  let s := s.takeArrival h (if s.tossInput then .short else a)
  if s.outputWindow.count = s.windoOut ∧ s.sending ∧ !s.sessionParms.streaming then s.consume
  else if s.sending then (s.kermitSend h).sendPacket
  else (s.kermitReceive h).sendPacket

/-- `check_timeout` on a timer that has run out, and what follows. -/
def timeout : Transfer :=
  if s.sessionParms.streaming ∧ (s.state = .kmRDW ∨ s.state = .kmSDW) then s
  else
    let s := { s with timeoutCount := s.timeoutCount + 1 }
    (if 5 ≤ s.timeoutCount then s.abort "Too many timeouts" else s).handleTimeout

/-- What `kermit` does in front of its loop. -/
def enter (expired : Bool) : Transfer :=
  let s :=
    if s.sequenceNumber = 0 ∧ !s.sentNak then
      { (if s.state = .init ∧ !s.sending then s.nakPacket else s) with sentNak := true }
    else s
  if expired then s.timeout else s

/-- The parts of a run: a call is entered, takes passes and returns, and between two calls the user
may ask for a file to be skipped. Nothing happens any more in a call that is entered when the
transfer is over. -/
inductive Move where
  | enter (expired : Bool)
  | interrupt
  | pass (arrival : Arrival)
  | leave
  | skipFile
deriving DecidableEq, Repr

def move : Move → Transfer
  | .enter expired => if s.state = .abort ∨ s.state = .complete then s else s.enter expired
  | .interrupt => s.interrupt
  | .pass a => s.pass h a
  | .leave => { s.consume with tossInput := s.tossInput && !s.sentNak }
  | .skipFile => { s with skipFile := true }

/-- A run of one side, for every order of its parts. -/
def run (moves : List Move) : Transfer := moves.foldl (fun s m => s.move h m) s

@[simp] theorem run_nil : s.run h [] = s := rfl

@[simp] theorem run_cons (m : Move) (ms : List Move) :
    s.run h (m :: ms) = (s.move h m).run h ms := rfl

/-- A run whose steps all meet a condition on the state before the step. -/
def Every (p : Transfer → Move → Prop) : List Move → Transfer → Prop
  | [], _ => True
  | m :: ms, s => p s m ∧ Every p ms (s.move h m)

instance decidableEvery (p : Transfer → Move → Prop) [∀ s m, Decidable (p s m)] :
    ∀ (ms : List Move) (s : Transfer), Decidable (Every h p ms s)
  | [], _ => inferInstanceAs (Decidable True)
  | m :: ms, s =>
    have := decidableEvery p ms (s.move h m)
    inferInstanceAs (Decidable (p s m ∧ Every h p ms (s.move h m)))

/-- What every step keeps under a condition holds at the end of every run under it. -/
theorem run_induction {h : Host} {I : Transfer → Prop} {p : Transfer → Move → Prop}
    (hstep : ∀ s m, I s → p s m → I (s.move h m)) {ms : List Move} :
    ∀ {s : Transfer}, I s → Every h p ms s → I (s.run h ms) := by
  induction ms with
  | nil => exact fun hs _ => hs
  | cons m ms ih => exact fun hs hp => ih (hstep _ m hs hp.1) hp.2

/-- `kermit_start`: what the user has set, what is left of an earlier transfer, and the files. -/
def start (settings : Settings) (options : Options) (remote : SessionParameters)
    (attributes : Attributes) (sending : Bool) (uploads : List Upload) (disk : Disk) : Transfer where
  settings := settings
  localParms := setDefaultSessionParameters options
  remoteParms := remote
  sessionParms := setDefaultSessionParameters options
  state := .init
  checkType := 1
  sequenceNumber := 0
  sending := sending
  sevenBitOnly := options.sevenBitOnly
  attributes := { attributes with
    doResend := false
    fileSize :=
      if sending then (uploads.headD ⟨[], [], [], 0⟩).content.length % 2 ^ 32
      else attributes.fileSize
    textMode :=
      if sending then !settings.uploadsForceBinary && isText (uploads.headD ⟨[], [], [], 0⟩).content
      else attributes.textMode }
  fileName := if sending then basename (uploads.headD ⟨[], [], [], 0⟩).name else []
  fileFullname := []
  filePosition := 0
  outstandingBytes := 0
  fileStream := none
  timeoutCount := 0
  firstS := true
  firstSB := true
  sentNak := false
  tossInput := true
  skipFile := false
  isFirstDataPacket := false
  uploads := uploads
  fileEof := false
  inputPacket := ⟨false, some .ksinit, 0, []⟩
  outputPacket := none
  inputWindow := ⟨[default], 0, 0, 0⟩
  outputWindow := ⟨[default], 0, 0, 0⟩
  disk := disk
  output := []
  crashed := false
  stray := false
  built := []
  dropped := 0
  before := []
  written := []

end Transfer
end CProgram.Kermit
