import CProgram.Lib.Bytes

/-! Session parameters of the Kermit transfer: the defaults, what a Send-Init (or the ACK to
it) asks for, and what the two sides agree on. -/
namespace CProgram.Kermit

/-- `KERMIT_BLOCK_SIZE`. -/
def blockSize : Nat := 1024

/-- `struct session_parameters`. -/
structure SessionParameters where
  mark : UInt8
  maxl : UInt8
  time : UInt8
  npad : UInt8
  padc : UInt8
  eol : UInt8
  qctl : UInt8
  qbin : UInt8
  chkt : UInt8
  rept : UInt8
  capas : UInt8
  windo : UInt8
  maxlx1 : UInt8
  maxlx2 : UInt8
  whatami : UInt8
  attributes : Bool
  windowing : Bool
  longPackets : Bool
  streaming : Bool
  windoIn : Nat
  windoOut : Nat
deriving DecidableEq, Repr

/-- The settings of `q_status` and of the serial line that `set_default_session_parameters`
consults. -/
structure Options where
  sevenBitOnly : Bool
  longPackets : Bool
  streaming : Bool
deriving DecidableEq, Repr

/-- `MAXLX1 * 95 + MAXLX2`. -/
def SessionParameters.maxlx (p : SessionParameters) : Nat :=
  p.maxlx1.toNat * 95 + p.maxlx2.toNat

def setDefaultSessionParameters (o : Options) : SessionParameters where
  mark := 0x01
  maxl := 80
  time := 5
  npad := 0
  padc := 0
  eol := 0x0D
  qctl := 35                                       -- '#'
  qbin := if o.sevenBitOnly then 38 else 89        -- '&' or 'Y'
  chkt := 51                                       -- '3'
  rept := 126                                      -- '~'
  capas := 0x10 ||| 0x08 ||| 0x04 ||| (if o.longPackets then 0x02 else 0)
  windo := 30
  windoIn := 1
  windoOut := 1
  maxlx1 := UInt8.ofNat (blockSize / 95)
  maxlx2 := UInt8.ofNat (blockSize % 95)
  attributes := true
  windowing := true
  longPackets := o.longPackets
  streaming := o.streaming
  whatami := if o.streaming then 0x28 else 0

/-- `kermit_tochar`. -/
def tochar (b : UInt8) : UInt8 := b + 32

/-- `kermit_unchar`. -/
def unchar (ch : UInt8) : UInt8 := ch - 32

/-- `kermit_ctl`. -/
def ctl (b : UInt8) : UInt8 := b ^^^ 0x40

@[simp] theorem unchar_tochar (b : UInt8) : unchar (tochar b) = b := by
  simp [unchar, tochar]

/-- The CAPAS bytes end with the first one whose lowest bit is clear. -/
def capasLength : List UInt8 → Nat
  | [] => 0
  | b :: rest => if unchar b &&& 0x01 = 0 then 1 else 1 + capasLength rest

/-- Byte `i` of a Send-Init, read by `f`; an absent or blank field keeps the default. -/
def sendInitField (data : List UInt8) (i : Nat) (dflt : UInt8) (f : UInt8 → UInt8) : UInt8 :=
  match data[i]? with
  | some b => if b ≠ 32 then f b else dflt
  | none => dflt

/-- Byte `i` of the part of a Send-Init that starts with CAPAS. -/
def sendInitLater (data : List UInt8) (i : Nat) : UInt8 :=
  ((data[i]?).map unchar).getD 0

/-- MAXLX1 and MAXLX2: 500 if long packets are supported but no size is given, and never
more than `KERMIT_BLOCK_SIZE`. -/
def sendInitMaxlx (longPackets : Bool) (maxlx1 maxlx2 : UInt8) : UInt8 × UInt8 :=
  if longPackets then
    let lx := if maxlx1 = 0 ∧ maxlx2 = 0 then (UInt8.ofNat (500 / 95), UInt8.ofNat (500 % 95))
      else (maxlx1, maxlx2)
    if blockSize < lx.1.toNat * 95 + lx.2.toNat then
      (UInt8.ofNat (blockSize / 95), UInt8.ofNat (blockSize % 95))
    else lx
  else (maxlx1, maxlx2)

/-- The parameters that `process_send_init` reads from a payload. -/
def sendInitParameters (data : List UInt8) : SessionParameters :=
  let capas := sendInitLater data 9
  let capasI := 9 + capasLength (data.drop 9)
  let longPackets := decide (capas &&& 0x02 ≠ 0)
  let lx := sendInitMaxlx longPackets (sendInitLater data (capasI + 1))
    (sendInitLater data (capasI + 2))
  { mark := 0x01
    maxl := sendInitField data 0 80 unchar
    time := sendInitField data 1 5 unchar
    npad := sendInitField data 2 0 unchar
    padc := sendInitField data 3 0 ctl
    eol := sendInitField data 4 0x0D unchar
    qctl := sendInitField data 5 35 id
    qbin := sendInitField data 6 32 id
    chkt := sendInitField data 7 49 id
    rept := sendInitField data 8 32 id
    capas := capas
    windo := sendInitLater data capasI
    maxlx1 := lx.1
    maxlx2 := lx.2
    whatami := 0
    attributes := decide (capas &&& 0x08 ≠ 0)
    windowing := decide (capas &&& 0x04 ≠ 0)
    longPackets := longPackets
    streaming := decide (sendInitLater data (capasI + 7) &&& 0x08 ≠ 0)
    windoIn := 1
    windoOut := 1 }

/-- `process_send_init` on the payload of a Send-Init: `none` when MAXL is out of range. -/
def processSendInit (data : List UInt8) : Option SessionParameters :=
  let parms := sendInitParameters data
  if 94 < parms.maxl then none else some parms

/-- The characters that may serve as 8-bit or repeat prefix. -/
def validPrefix (b : UInt8) : Bool :=
  (decide (33 ≤ b) && decide (b ≤ 62)) || (decide (96 ≤ b) && decide (b ≤ 126))

def negotiateQbin (localQbin remoteQbin sessionQbin qctl : UInt8) : UInt8 :=
  let q :=
    if remoteQbin = 89 then (if validPrefix localQbin then localQbin else sessionQbin)
    else if remoteQbin = 78 then 32
    else if validPrefix remoteQbin then remoteQbin
    else sessionQbin
  -- both offered but neither needs to
  let q := if q = 89 then 32 else q
  if remoteQbin = qctl then 32 else q

def negotiateRept (localRept remoteRept qctl qbin : UInt8) : UInt8 :=
  let r := if localRept = remoteRept then remoteRept else 32
  if remoteRept = qctl ∨ remoteRept = qbin then 32 else r

/-- `negotiate_send_init`: the session parameters after the exchange, from `session` before. -/
def negotiateSendInit (loc rem session : SessionParameters) : SessionParameters :=
  let qctl := loc.qctl
  let qbin := negotiateQbin loc.qbin rem.qbin session.qbin qctl
  let attributes := if loc.attributes = rem.attributes then loc.attributes else false
  let capas : UInt8 := if loc.attributes = rem.attributes then 0x10 ||| 0x08 else 0
  let longPackets := if loc.longPackets = rem.longPackets then loc.longPackets else false
  let capas := if longPackets then capas ||| 0x02 else capas
  let streaming := if loc.streaming = rem.streaming then loc.streaming else false
  let whatami :=
    if loc.streaming = rem.streaming then (if streaming then 0x28 else session.whatami) else 0
  let windo := if rem.windo < loc.windo then rem.windo else loc.windo
  let agreed := decide (loc.windowing = rem.windowing)
  -- a window of fewer than two packets leaves WINDO_in as it was
  let windoIn := if windo < 2 then session.windoIn else windo.toNat
  let windoOut := if windo < 2 then 1 else windo.toNat
  let windowing := agreed && !streaming && loc.windowing
  { mark := session.mark
    maxl := if loc.maxl < rem.maxl then loc.maxl else rem.maxl
    time := loc.time
    npad := rem.npad
    padc := rem.padc
    eol := rem.eol
    qctl := qctl
    qbin := qbin
    chkt := if loc.chkt = rem.chkt then rem.chkt else 49
    rept := negotiateRept loc.rept rem.rept qctl qbin
    capas := if windowing then capas ||| 0x04 else capas
    windo := if agreed then (if windo < 2 then 0 else windo) else session.windo
    maxlx1 := session.maxlx1
    maxlx2 := session.maxlx2
    whatami := whatami
    attributes := attributes
    windowing := windowing
    longPackets := longPackets
    streaming := streaming
    windoIn := if !agreed then session.windoIn else if windowing then windoIn else 1
    windoOut := if !agreed then session.windoOut else if windowing then windoOut else 1 }

/-- `status.check_type` after the negotiation. -/
def negotiatedCheckType (session : SessionParameters) : Nat :=
  if session.chkt = 66 then 12 else session.chkt.toNat - 48

end CProgram.Kermit
