import CProgram.Jmodem.Transfer

/-! Both loops over a line that may lose, damage and delay what is sent: the steps of either end, the blocks
and the answers that are on their way, and what always holds of them. -/
namespace CProgram.Jmodem

/-- What is on its way to the receiver. The number of a block counts on where the byte in it wraps. -/
inductive Packet where
  | block (num : ℕ) (buffer : List UInt8)
  /-- Bytes that are no block, or one that fails the CRC. -/
  | garbage

inductive Answer where
  | ack | nak | can
  deriving DecidableEq

/-- Where the sender stands; the tries are those that are left behind this one. -/
inductive Sending where
  /-- In front of the `READ` of the next record. -/
  | reading
  /-- In `send_blk`, in front of `write_chan`. -/
  | writing (tries : ℕ)
  /-- In front of `flush`. -/
  | flushing (tries : ℕ)
  /-- In the loop that reads an answer. -/
  | waiting (tries : ℕ)
  | ended (status : Status)
  deriving DecidableEq

inductive Receiving where
  /-- In `recv_blk`, with the tries of the loop around it and its own. -/
  | receiving (tries own : ℕ)
  /-- The ACK is sent, the data is not written yet. -/
  | storing (data : List UInt8) (last : Bool)
  | ended (status : Status)
  deriving DecidableEq

structure SendSide where
  phase : Sending
  rest : List UInt8
  sLen : ℕ
  sBlk : ℕ
  buffer : List UInt8
  /-- The records that have been read. -/
  reads : List (List UInt8)

structure RecvSide where
  phase : Receiving
  sBlk : ℕ
  file : Option (List UInt8)

structure Link where
  sender : SendSide
  receiver : RecvSide
  forth : List Packet
  back : List Answer

inductive Event where
  /-- The sender reads a record; behind it stands `beyond`. -/
  | read (beyond : UInt8)
  | write
  /-- `flush`, when so many answers have come in. -/
  | flush (arrived : ℕ)
  | answer
  | sendTimeout
  | receive
  /-- A timeout in `recv_blk`, with the `flush` of so many packets. -/
  | recvTimeout (arrived : ℕ)
  | store
  | loseForth (i : ℕ)
  | damage (i : ℕ)
  | loseBack (i : ℕ)

def Link.start (file : List UInt8) : Link where
  sender := ⟨.reading, file, blkSiz, 0, [], []⟩
  receiver := ⟨.receiving 9 9, 0, some []⟩
  forth := []
  back := []

namespace Link
variable (s : Link)

/-- The sender gives up and sends six CANs. -/
def giveUp : Link :=
  { s with sender := { s.sender with phase := .ended .abt }, forth := s.forth ++ [.garbage] }

/-- The next try of `send_blk`. -/
def retry (tries : ℕ) : Link :=
  if tries = 0 then s.giveUp else { s with sender := { s.sender with phase := .writing (tries - 1) } }

def read (beyond : UInt8) : Link :=
  let data := s.sender.rest.take s.sender.sLen
  if data = [] then { s with sender := { s.sender with phase := .ended .nrm } }
  else
    { s with sender :=
      { s.sender with
        phase := .writing 9
        rest := s.sender.rest.drop s.sender.sLen
        sBlk := s.sender.sBlk + 1
        buffer := record beyond (s.sender.sBlk + 1) (decide (data.length ≠ s.sender.sLen)) data
        reads := s.sender.reads ++ [data] } }

/-- An ACK: the length of the next record, and the end behind the last one. -/
def acked (tries : ℕ) : Link :=
  { s with sender :=
    { s.sender with
      sLen := nextLen s.sender.sLen tries
      phase := if s.sender.buffer.getD 2 0 = eof then .ended .nrm else .reading } }

/-- The receiver leaves its loop without the end of the file, which it deletes. -/
def drop : Link := { s with receiver := { s.receiver with phase := .ended .abt, file := none } }

/-- A block that is not the one expected, or is damaged. -/
def refuse (tries : ℕ) : Link :=
  let s := { s with back := s.back ++ [Answer.nak] }
  if tries = 0 then s.drop else { s with receiver := { s.receiver with phase := .receiving (tries - 1) 9 } }

def take (tries : ℕ) : Packet → Link
  | .garbage => s.refuse tries
  | .block _ buffer =>
    match check s.receiver.sBlk buffer with
    | some (data, last) =>
      { s with receiver := { s.receiver with phase := .storing data last }, back := s.back ++ [.ack] }
    | none => s.refuse tries

def stored (data : List UInt8) (last : Bool) : Link :=
  let s := { s with receiver :=
    { s.receiver with file := s.receiver.file.map (· ++ data), sBlk := s.receiver.sBlk + 1 } }
  if last then { s with receiver := { s.receiver with phase := .ended .nrm } }
  else if data = [] then s.drop
  else { s with receiver := { s.receiver with phase := .receiving 9 9 } }

/-- One step of one end or of the line, where it can be taken. -/
def step : Event → Option Link
  | .read beyond => if s.sender.phase = .reading then some (s.read beyond) else none
  | .write =>
    match s.sender.phase with
    | .writing tries =>
      some { s with
        sender := { s.sender with phase := .flushing tries }
        forth := s.forth ++ [.block s.sender.sBlk s.sender.buffer] }
    | _ => none
  | .flush arrived =>
    match s.sender.phase with
    | .flushing tries => some { s with sender := { s.sender with phase := .waiting tries }, back := s.back.drop arrived }
    | _ => none
  | .answer =>
    match s.sender.phase, s.back with
    | .waiting tries, .ack :: back => some ({ s with back }.acked tries)
    | .waiting tries, .nak :: back => some ({ s with back }.retry tries)
    | .waiting _, .can :: back => some { s with back }.giveUp
    | _, _ => none
  | .sendTimeout =>
    match s.sender.phase with
    | .waiting tries => some (s.retry tries)
    | _ => none
  | .receive =>
    match s.receiver.phase, s.forth with
    | .receiving tries _, p :: forth => some ({ s with forth }.take tries p)
    | _, _ => none
  | .recvTimeout arrived =>
    match s.receiver.phase with
    | .receiving tries own =>
      let s := { s with back := s.back ++ [Answer.nak], forth := s.forth.drop arrived }
      if own = 0 then some { s with back := s.back ++ List.replicate 6 Answer.can }.drop
      else some { s with receiver := { s.receiver with phase := .receiving tries (own - 1) } }
    | _ => none
  | .store =>
    match s.receiver.phase with
    | .storing data last => some (s.stored data last)
    | _ => none
  | .loseForth i => some { s with forth := s.forth.eraseIdx i }
  | .damage i => some { s with forth := s.forth.set i .garbage }
  | .loseBack i => some { s with back := s.back.eraseIdx i }

def run : Link → List Event → Option Link
  | s, [] => some s
  | s, e :: later => (s.step e).bind fun t => run t later

/-- The blocks that the receiver has taken, also the one it has not written yet. -/
def accepted : ℕ :=
  match s.receiver.phase with
  | .storing _ _ => s.receiver.sBlk + 1
  | _ => s.receiver.sBlk

def acks : ℕ := s.back.count .ack

end Link
end CProgram.Jmodem
