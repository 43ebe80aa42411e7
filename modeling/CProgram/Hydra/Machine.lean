import CProgram.Hydra.Negotiation
import CProgram.Hydra.Chat

/-! `hydra()` as a machine over its static state: a call, the two switches that send, the packets that
come in with what follows on each, and the way out. -/
namespace CProgram.Hydra
open CProgram.Strings

def hpktStart : UInt8 := 65
def hpktInitType : UInt8 := 66
def hpktInitack : UInt8 := 67
def hpktFinfo : UInt8 := 68
def hpktFinfoack : UInt8 := 69
def hpktDataack : UInt8 := 71
def hpktRpos : UInt8 := 72
def hpktEof : UInt8 := 73
def hpktEofack : UInt8 := 74
def hpktEnd : UInt8 := 75
def hpktIdle : UInt8 := 76
def hpktDevdata : UInt8 := 77
def hpktDevdack : UInt8 := 78
def hRetries : ℕ := 10

/-- `txstate` -/
inductive Htx where
  | done | start | swait | init | initack | rinit | finfo | finfoack | xdata | dataack | xwait | eof | eofack
  | rend | end_ | endack
  deriving DecidableEq

def Htx.code : Htx → ℕ
  | .done => 0 | .start => 1 | .swait => 2 | .init => 3 | .initack => 4 | .rinit => 5 | .finfo => 6
  | .finfoack => 7 | .xdata => 8 | .dataack => 9 | .xwait => 10 | .eof => 11 | .eofack => 12 | .rend => 13
  | .end_ => 14 | .endack => 15

/-- `rxstate` -/
inductive Hrx where
  | done | init | finfo | data
  deriving DecidableEq

inductive Xfer where
  | abort | skip | ok
  deriving DecidableEq

/-- Where `hydra()` stands: not called, in front of the switches that send, in the loop over the packets. -/
inductive Phase where
  | outside | send | receive
  deriving DecidableEq

/-- What has happened, as far as the line is concerned. -/
inductive Entry where
  /-- `hydra()` has started a session. -/
  | session
  | sent (type : UInt8) (payload : List UInt8)
  | got (type : UInt8) (payload : List UInt8)
  deriving DecidableEq


/-- What the program finds outside in one step. -/
structure World where
  /-- `com_outfull() > txmaxblklen` -/
  outfull : Bool := false
  /-- `dos_read`, at most `txblklen` bytes. -/
  read : Option (List UInt8) := some []
  written : Bool := true
  seeked : Bool := true
  /-- The bytes at `devtxbuf`. -/
  devtxbuf : List UInt8 := []
  /-- `xfer_init` returns a path. -/
  wanted : Bool := true
  singleDone : Bool := false
  space : Bool := true
  opened : Bool := true
  /-- `dos_tell` at the end of the file, negative as well when the seek fails. -/
  tell : ℤ := 0
  rxtimerExpired : Bool := false

structure Session where
  side : Side
  originator : Bool
  txmaxblklen : ℕ
  phase : Phase
  result : Xfer
  txstate : Htx
  rxstate : Hrx
  devtxstate : Htd
  txoptions : Dword
  rxoptions : Dword
  txpktprefix : List UInt8
  txtimer : Bool
  rxtimer : Bool
  devtxtimer : Bool
  txretries : ℕ
  rxretries : ℕ
  devtxretries : ℕ
  hdxlink : Bool
  chattimer : ℤ
  txfd : Bool
  txfname : List UInt8
  txalias : Option (List UInt8)
  txfsize : Dword
  txftime : Dword
  txpos : ℤ
  txlastack : ℤ
  txwindow : ℤ
  txsyncid : ℤ
  txblklen : ℕ
  txgoodbytes : ℕ
  txgoodneeded : ℕ
  rxfd : Bool
  rxpos : ℤ
  rxwindow : ℤ
  rxlastsync : ℤ
  rxsyncid : ℤ
  rxblklen : ℕ
  devtxid : Dword
  devrxid : Dword
  devtxdev : List UInt8
  devtxlen : ℕ
  log : List Entry

def put4 (z : ℤ) : List UInt8 := lowFirst (BitVec.ofInt 32 z) 4
def hLong (n : ℕ) (p : List UInt8) : ℤ := (hLong1 (p.drop (4 * (n - 1)))).toInt

def Session.txpkt (type : UInt8) (payload : List UInt8) (s : Session) : Session :=
  { s with log := .sent type payload :: s.log }

def strupr (s : List UInt8) : List UInt8 := s.map fun c => if 97 ≤ c ∧ c ≤ 122 then c - 32 else c
def strlwr (s : List UInt8) : List UInt8 := s.map fun c => if 65 ≤ c ∧ c ≤ 90 then c + 32 else c

/-- The last part of a path. -/
def baseName (path : List UInt8) : List UInt8 :=
  (path.reverse.takeWhile fun c => ¬ (c = 92 ∨ c = 58 ∨ c = 47)).reverse

/-- A file that is offered; its path ends in a name. -/
structure Offer where
  path : List UInt8
  txalias : Option (List UInt8)
  size : Dword
  time : Dword
  named : baseName (strupr path) ≠ []

/-! ### The call -/

def Session.begin (s : Session) : Session :=
  if s.txstate = .done then
    { s with
      txstate := .start, txoptions := htxiOptions, txpktprefix := []
      rxstate := .init, rxoptions := hrxiOptions, rxfd := false, rxtimer := false
      devtxid := 0, devrxid := 0, devtxtimer := false, devtxstate := .done
      txtimer := false, txretries := 0, log := .session :: s.log }
  else { s with txstate := .finfo, txtimer := false, txretries := 0 }

/-- `hydra(txpathname,txalias)` up to its loop; `opened` is what `dos_sopen` answers. -/
def Session.call (file : Option Offer) (opened : Bool) (s : Session) : Session :=
  let s := s.begin
  match file with
  | none => { s with txfd := false, txfname := [], phase := .send }
  | some f =>
    let s := { s with txfsize := f.size, txftime := f.time }
    if opened then
      { s with
        txfd := true, txfname := baseName (strupr f.path), txalias := f.txalias.map strupr, txsyncid := 0
        phase := .send }
    else { s with txfd := false, result := .skip }

/-! ### The switches that send -/

def Session.sendDev (w : World) (s : Session) : Session :=
  if s.devtxstate = .data ∧ Htx.rinit.code < s.txstate.code then
    let s := s.txpkt hpktDevdata (devdata s.devtxid s.devtxdev (w.devtxbuf.take s.devtxlen))
    { s with devtxtimer := true, devtxstate := .dack }
  else s

/-- The data of the FINFO packet. -/
def finfoPkt (s : Session) : List UInt8 :=
  if s.txfd then
    hexField 8 s.txftime.toNat ++ (hexField 8 s.txfsize.toNat ++ (hexField 8 0 ++ (hexField 8 0 ++
      (hexField 8 0 ++ ((s.txalias.getD s.txfname) ++ [0])))))
  else s.txfname ++ [0]

def Session.sendFinfo (s : Session) : Session :=
  let s := if s.txfd ∧ s.txretries = 0 then { s with txfname := strlwr s.txfname } else s
  let s := s.txpkt hpktFinfo (finfoPkt s)
  { s with txtimer := true, txstate := .finfoack }

def Session.sendEof (s : Session) : Session :=
  let s := s.txpkt hpktEof (put4 s.txpos)
  { s with txtimer := true, txstate := .eofack }

/-- A larger block after enough good bytes. -/
def Session.grow (n : ℕ) (s : Session) : Session :=
  if s.txblklen < s.txmaxblklen then
    if s.txgoodneeded ≤ s.txgoodbytes + n then
      if s.txmaxblklen ≤ s.txblklen * 2 then
        { s with txblklen := s.txmaxblklen, txgoodneeded := 0, txgoodbytes := 0 }
      else { s with txblklen := s.txblklen * 2, txgoodbytes := 0 }
    else { s with txgoodbytes := s.txgoodbytes + n }
  else s

def Session.sendData (w : World) (s : Session) : Session :=
  if w.outfull then s
  else if s.txpos < 0 then s.sendEof
  else
    match w.read with
    | none => Session.sendEof { s with txfd := false, txpos := -2 }
    | some bytes =>
      let block := bytes.take s.txblklen
      if block = [] then s.sendEof
      else
        let data := put4 s.txpos ++ block
        let s := Session.grow block.length (Session.txpkt hpktData data { s with txpos := s.txpos + block.length })
        if s.txwindow ≠ 0 ∧ s.txlastack + s.txwindow ≤ s.txpos then
          { s with txtimer := true, txstate := .dataack }
        else s

def Session.sendTx (w : World) (s : Session) : Session :=
  match s.txstate with
  | .start =>
    let s := s.txpkt hpktStart []
    { s with txtimer := true, txstate := .swait }
  | .init =>
    let s := s.txpkt hpktInitType (initPkt s.side)
    { s with txoptions := s.rxoptions, txtimer := true, txstate := .initack }
  | .finfo => s.sendFinfo
  | .xdata => s.sendData w
  | .eof => s.sendEof
  | .end_ =>
    let s := (s.txpkt hpktEnd []).txpkt hpktEnd []
    { s with txtimer := true, txstate := .endack }
  | _ => s

/-- One round of both switches. -/
def Session.send (w : World) (s : Session) : Session := { (s.sendDev w).sendTx w with phase := .receive }

/-! ### The packets -/

def Session.abort (s : Session) : Session := { s with txstate := .done, result := .abort }

/-- `hydra_devsend` -/
def Session.devsend (dev data : List UInt8) (s : Session) : Session :=
  if data = [] ∨ s.devtxstate ≠ .done ∨ has s.txoptions hoptDevice = false ∨ Htx.end_.code ≤ s.txstate.code then s
  else { s with
    devtxdev := dev, devtxlen := min data.length hMaxblklen, devtxid := s.devtxid + 1
    devtxtimer := false, devtxretries := 0, devtxstate := .data }

def Session.onTxtime (s : Session) : Session :=
  if s.txstate = .xwait ∨ s.txstate = .rend then { s.txpkt hpktIdle [] with txtimer := true }
  else if hRetries < s.txretries + 1 then { s.abort with txretries := s.txretries + 1 }
  else
    { s with
      txretries := s.txretries + 1, txtimer := false
      txstate := match s.txstate with
        | .swait => .start
        | .initack => .init
        | .finfoack => .finfo
        | .dataack => .xdata
        | .eofack => .eof
        | .endack => .end_
        | other => other }

def Session.onDevtxtime (s : Session) : Session :=
  if hRetries < s.devtxretries + 1 then { s.abort with devtxretries := s.devtxretries + 1 }
  else { s with devtxretries := s.devtxretries + 1, devtxtimer := false, devtxstate := .data }

def Session.onStart (s : Session) : Session :=
  if s.txstate = .start ∨ s.txstate = .swait then { s with txtimer := false, txretries := 0, txstate := .init }
  else s

def Session.onInit (rxbuf : List UInt8) (s : Session) : Session :=
  if s.rxstate = .init then
    match hpktInit s.side rxbuf with
    | none => s.abort
    | some link =>
      let s := { s with
        rxoptions := link.rxoptions, rxwindow := link.rxwindow, txwindow := link.txwindow
        txpktprefix := link.txpktprefix, chattimer := if has link.rxoptions hoptDevice then 0 else -2
        txoptions := link.txoptions, rxstate := .finfo }
      s.txpkt hpktInitack []
  else s.txpkt hpktInitack []

def Session.onInitack (s : Session) : Session :=
  if s.txstate = .init ∨ s.txstate = .initack then { s with txtimer := false, txretries := 0, txstate := .rinit }
  else s

/-- A file that is offered, up to the answer. -/
def Session.accept (w : World) (s : Session) : Session :=
  if ¬ w.wanted then { s with rxpos := if w.singleDone then -2 else -1 }
  else if ¬ w.space then { s with rxpos := -2 }
  else if ¬ w.opened then { s with rxpos := -2 }
  else if w.tell < 0 then { s with rxfd := false, rxpos := -2 }
  else { s with
    rxfd := true, rxpos := w.tell, rxtimer := false, rxretries := 0, rxlastsync := 0, rxsyncid := 0
    rxstate := .data }

/-- The packet begins with a NUL. -/
def endOfBatch (rxbuf : List UInt8) : Bool := rxbuf.head?.getD 0 = 0

def Session.onFinfo (w : World) (rxbuf : List UInt8) (s : Session) : Session :=
  let s :=
    if s.rxstate = .finfo then
      if endOfBatch rxbuf then { s with rxpos := 0, rxstate := .done } else s.accept w
    else if s.rxstate = .done then { s with rxpos := if endOfBatch rxbuf then 0 else -2 }
    else s
  s.txpkt hpktFinfoack (put4 s.rxpos)

def Session.onFinfoack (w : World) (rxbuf : List UInt8) (s : Session) : Session :=
  if s.txstate = .finfo ∨ s.txstate = .finfoack then
    let s := { s with txretries := 0 }
    if s.txfname = [] then { s with txtimer := true, txstate := .rend }
    else
      let s := { s with txtimer := false, txpos := hLong 1 rxbuf }
      if 0 ≤ s.txpos then
        if 0 < s.txpos ∧ ¬ w.seeked then { s with txlastack := s.txpos, txfd := false, txpos := -2, txstate := .eof }
        else { s with txlastack := s.txpos, txstate := .xdata }
      else { s with txfd := false, phase := .outside, result := if s.txpos = -1 then .ok else .skip }
  else s

/-- The next smaller block length. -/
def blockStep (n : ℕ) : ℕ :=
  if n ≤ 64 then 64 else if n ≤ 128 then 128 else if n ≤ 256 then 256 else if n ≤ 512 then 512 else 1024

/-- The answer to data or an end that does not follow on what is there. -/
def Session.reposition (w : World) (at_ : ℤ) (fallback : Bool) (s : Session) : Session :=
  let s := if at_ ≤ s.rxlastsync then { s with rxtimer := false, rxretries := 0 } else s
  let s := { s with rxlastsync := at_ }
  if s.rxtimer = false ∨ w.rxtimerExpired then
    let s := if fallback ∧ 4 < s.rxretries ∧ s.txstate.code < Htx.rend.code ∧ ¬ s.originator ∧ ¬ s.hdxlink then
      { s with hdxlink := true, rxretries := 0 } else s
    let s := { s with rxretries := s.rxretries + 1 }
    if hRetries < s.rxretries then s.abort
    else
      let s := if s.rxretries = 1 then { s with rxsyncid := s.rxsyncid + 1 } else s
      let s := { s with rxblklen := s.rxblklen / 2 }
      let s := s.txpkt hpktRpos (put4 s.rxpos ++ (put4 (blockStep s.rxblklen) ++ put4 s.rxsyncid))
      { s with rxtimer := true }
  else s

def Session.onData (w : World) (rxbuf : List UInt8) (s : Session) : Session :=
  if s.rxstate = .data then
    if hLong 1 rxbuf ≠ s.rxpos ∨ hLong 1 rxbuf < 0 then s.reposition w (hLong 1 rxbuf) true
    else
      let length := rxbuf.length - 4
      let s := { s with rxblklen := length }
      if ¬ w.written then
        let s := { s with rxfd := false, rxpos := -2, rxretries := 1, rxsyncid := s.rxsyncid + 1 }
        { s.txpkt hpktRpos (put4 s.rxpos ++ (put4 0 ++ put4 s.rxsyncid)) with rxtimer := true }
      else
        let s := { s with rxretries := 0, rxtimer := false, rxlastsync := s.rxpos, rxpos := s.rxpos + length }
        if s.rxwindow ≠ 0 then s.txpkt hpktDataack (put4 s.rxpos) else s
  else s

/-- The states in which the position of the transmitter counts. -/
def Htx.sending (t : Htx) : Bool := t = .xdata || t = .dataack || t = .xwait || t = .eof || t = .eofack

def Session.onDataack (rxbuf : List UInt8) (s : Session) : Session :=
  if s.txstate.sending ∧ s.txwindow ≠ 0 ∧ s.txlastack < hLong 1 rxbuf then
    let s := { s with txlastack := hLong 1 rxbuf }
    if s.txstate = .dataack ∧ s.txpos < s.txlastack + s.txwindow then
      { s with txstate := .xdata, txretries := 0, txtimer := false }
    else s
  else s

def Session.onRpos (w : World) (rxbuf : List UInt8) (s : Session) : Session :=
  if s.txstate.sending then
    if hLong 3 rxbuf ≠ s.txsyncid then
      let s := { s with txsyncid := hLong 3 rxbuf, txretries := 1, txtimer := false, txpos := hLong 1 rxbuf }
      if s.txpos < 0 then
        let s := if s.txfd then { s with txfd := false, txstate := .eof } else s
        { s with txpos := -2 }
      else
        let length := if hLong 2 rxbuf < s.txblklen then (BitVec.ofInt 16 (hLong 2 rxbuf)).toNat else s.txblklen / 2
        let s := { s with
          txblklen := blockStep length, txgoodbytes := 0, txgoodneeded := min (s.txgoodneeded + 1024) 8192 }
        if ¬ w.seeked then { s with txfd := false, txpos := -2, txstate := .eof }
        else if s.txstate ≠ .xwait then { s with txstate := .xdata }
        else s
    else if hRetries < s.txretries + 1 then { s.abort with txretries := s.txretries + 1 }
    else { s with txretries := s.txretries + 1 }
  else s

def Session.onEof (w : World) (rxbuf : List UInt8) (s : Session) : Session :=
  let s :=
    if s.rxstate = .data then
      if hLong 1 rxbuf < 0 then { s with rxfd := false, rxstate := .finfo }
      else if hLong 1 rxbuf ≠ s.rxpos then s.reposition w (hLong 1 rxbuf) false
      else { s with rxfd := false, rxstate := .finfo }
    else s
  if s.rxstate = .finfo then s.txpkt hpktEofack [] else s

def Session.onEofack (s : Session) : Session :=
  if s.txstate = .eof ∨ s.txstate = .eofack then
    { s with txfd := false, phase := .outside, result := if s.txfd then .ok else .skip }
  else s

def Session.onIdle (s : Session) : Session :=
  if s.txstate = .xwait then { s with hdxlink := false, txtimer := false, txretries := 0, txstate := .xdata }
  else s

def Session.onEnd (s : Session) : Session :=
  if 0 < s.chattimer ∧ s.txstate = .rend then { s with chattimer := -3 }
  else if s.txstate = .end_ ∨ s.txstate = .endack then
    let s := ((s.txpkt hpktEnd []).txpkt hpktEnd []).txpkt hpktEnd []
    { s with txstate := .done, result := .ok }
  else s

def Session.onDevdata (rxbuf : List UInt8) (s : Session) : Session :=
  let s := { s with devrxid := hLong1 rxbuf }
  s.txpkt hpktDevdack (lowFirst s.devrxid 4)

def Session.onDevdack (rxbuf : List UInt8) (s : Session) : Session :=
  if s.devtxstate ≠ .done ∧ s.devtxid = hLong1 rxbuf then { s with devtxtimer := false, devtxstate := .done } else s

/-- The switch over the types of the packets. -/
def Session.onPacket (w : World) (type : UInt8) (rxbuf : List UInt8) (s : Session) : Session :=
  if type = hpktStart then s.onStart
  else if type = hpktInitType then s.onInit rxbuf
  else if type = hpktInitack then s.onInitack
  else if type = hpktFinfo then s.onFinfo w rxbuf
  else if type = hpktFinfoack then s.onFinfoack w rxbuf
  else if type = hpktData then s.onData w rxbuf
  else if type = hpktDataack then s.onDataack rxbuf
  else if type = hpktRpos then s.onRpos w rxbuf
  else if type = hpktEof then s.onEof w rxbuf
  else if type = hpktEofack then s.onEofack
  else if type = hpktIdle then s.onIdle
  else if type = hpktEnd then s.onEnd
  else if type = hpktDevdata then s.onDevdata rxbuf
  else if type = hpktDevdack then s.onDevdack rxbuf
  else s

/-- The switch behind every packet. -/
def Session.followUp (s : Session) : Session :=
  match s.txstate with
  | .start | .swait =>
    if s.rxstate = .finfo then { s with txtimer := false, txretries := 0, txstate := .init } else s
  | .rinit =>
    if s.rxstate = .finfo then { s with txtimer := false, txretries := 0, txstate := .finfo } else s
  | .xdata =>
    if s.rxstate ≠ .done ∧ s.hdxlink then { s.devsend msg hdxmsg with txtimer := true, txstate := .xwait } else s
  | .xwait =>
    if s.rxstate = .done then { s with txtimer := false, txretries := 0, txstate := .xdata } else s
  | .rend =>
    if s.rxstate = .done ∧ s.devtxstate = .done then
      if 0 < s.chattimer then s
      else
        let s := if s.chattimer = 0 then { s with chattimer := -3 } else s
        { s with txtimer := false, txretries := 0, txstate := .end_ }
    else s
  | _ => s

/-- Behind a packet: `hydra()` has returned, or ends, or goes on. -/
def Session.after (s : Session) : Session :=
  if s.phase = .outside then s
  else
    let s := s.followUp
    if s.txstate = .done then { s with txfd := false, rxfd := false, phase := .outside } else s

/-! ### Runs -/

inductive Step where
  | call (file : Option Offer) (opened : Bool)
  | send (w : World)
  | packet (w : World) (type : UInt8) (rxbuf : List UInt8)
  /-- No carrier, cancelled by either side, or the other side died. -/
  | stop
  | txtime | devtxtime
  /-- `H_NOPKT` -/
  | nopkt
  /-- What `keyabort` may do. -/
  | typed (dev data : List UInt8)
  | chat (timer : ℤ)

def Session.heard (type : UInt8) (rxbuf : List UInt8) (s : Session) : Session :=
  { s with log := .got type rxbuf :: s.log }

def Session.step (e : Step) (s : Session) : Session :=
  match e, s.phase with
  | .call file opened, .outside => s.call file opened
  | .send w, .send => s.send w
  | .packet w type rxbuf, .receive => ((s.heard type rxbuf).onPacket w type rxbuf).after
  | .stop, .receive => s.abort.after
  | .txtime, .receive => if s.txtimer then s.onTxtime.after else s
  | .devtxtime, .receive => if s.devtxtimer then s.onDevtxtime.after else s
  | .nopkt, .receive => { s with phase := .send }
  | .typed dev data, .receive => s.devsend dev data
  | .chat timer, .receive => { s with chattimer := timer }
  | _, _ => s

def Session.run (s : Session) (steps : List Step) : Session := steps.foldl (fun s e => s.step e) s

/-- What `hydra_init` leaves. -/
def Session.ready (side : Side) (originator hdxlink : Bool) (txmaxblklen blklen : ℕ) : Session where
  side := side
  originator := originator
  txmaxblklen := txmaxblklen
  phase := .outside
  result := .ok
  txstate := .done
  rxstate := .done
  devtxstate := .done
  txoptions := 0
  rxoptions := 0
  txpktprefix := []
  txtimer := false
  rxtimer := false
  devtxtimer := false
  txretries := 0
  rxretries := 0
  devtxretries := 0
  hdxlink := hdxlink
  chattimer := -1
  txfd := false
  txfname := []
  txalias := none
  txfsize := 0
  txftime := 0
  txpos := 0
  txlastack := 0
  txwindow := 0
  txsyncid := 0
  txblklen := blklen
  txgoodbytes := 0
  txgoodneeded := 1024
  rxfd := false
  rxpos := 0
  rxwindow := 0
  rxlastsync := 0
  rxsyncid := 0
  rxblklen := blklen
  devtxid := 0
  devrxid := 0
  devtxdev := []
  devtxlen := 0
  log := []

/-- A side that asks for nothing. -/
def plainSide : Side where
  wantOptions := 0
  hydraTxwindow := 0
  hydraRxwindow := 0
  pktprefix := []
  txwindow_lt := by decide
  rxwindow_lt := by decide
  text_pktprefix := by simp [Strings.Text]
  length_pktprefix := by decide

end CProgram.Hydra
