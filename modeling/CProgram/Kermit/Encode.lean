import CProgram.Kermit.Parameters

/-! The encoding half of Kermit's encoding layer: `encode_one_byte` and `encode_data_field`. -/
namespace CProgram.Kermit
open Bytes

def cr : UInt8 := 0x0D
def lf : UInt8 := 0x0A

/-- The prefix characters in force: REPT and QBIN of `session_parms`, and the QCTL of the side
that encodes (`local_parms` of the encoder, `remote_parms` of the decoder). -/
structure Prefixes where
  rept : UInt8
  qbin : UInt8
  qctl : UInt8
deriving DecidableEq, Repr

/-- A C0 control character or DEL, once the 8th bit is dropped. -/
def isControl (ch7bit : UInt8) : Bool := decide (ch7bit < 0x20) || decide (ch7bit = 0x7F)

namespace Prefixes

/-- The character is one of the prefixes and has to be quoted by QCTL. -/
def quoted (p : Prefixes) (ch7bit : UInt8) : Bool :=
  (decide (p.rept ≠ 32) && decide (ch7bit = p.rept)) ||
  (decide (p.qbin ≠ 32) && decide (ch7bit = p.qbin)) ||
  decide (ch7bit = p.qctl)

/-- The character needs the 8-bit prefix. -/
def needQbin (p : Prefixes) (ch : UInt8) : Bool :=
  decide (p.qbin ≠ 32) && decide (ch &&& 0x80 ≠ 0)

end Prefixes

/-- One turn of the loop of `encode_one_byte`. -/
def encodeOnce (p : Prefixes) (ch : UInt8) : List UInt8 :=
  let ch7bit := ch &&& 0x7F
  let needQctl := p.quoted ch7bit || isControl ch7bit
  let outputCh := if p.needQbin ch then ch7bit else ch
  (if p.needQbin ch then [p.qbin] else []) ++
    (if needQctl then [p.qctl] else []) ++
    [if !p.quoted ch7bit && isControl ch7bit then ctl outputCh else outputCh]

/-- `encode_one_byte`. -/
def encodeOneByte (p : Prefixes) (checkType : Nat) (ch : UInt8) (repeatCount : Nat) :
    List UInt8 :=
  if 3 < repeatCount ∨ (checkType = 12 ∧ ch = 32) then
    p.rept :: tochar (UInt8.ofNat repeatCount) :: encodeOnce p ch
  else (List.replicate repeatCount (encodeOnce p ch)).flatten

/-- What `encode_data_field` reads besides its input. -/
structure EncodeContext where
  prefixes : Prefixes
  checkType : Nat
  -- Send-Init, its ACK and Attributes go out without any prefix handling
  raw : Bool
  textMode : Bool
  dataMax : Nat
  maxl : Nat

/-- The local variables of `encode_data_field`; `taken` is `status.outstanding_bytes`. -/
structure Encoder where
  out : List UInt8
  lastCh : UInt8
  repeatCount : Nat
  first : Bool
  crlf : Bool
  taken : Nat
deriving DecidableEq, Repr

def Encoder.init : Encoder := ⟨[], 0, 0, true, false, 0⟩

namespace EncodeContext
variable (c : EncodeContext)

/-- Both tests for enough space, in the unsigned arithmetic of the source. -/
def room (e : Encoder) : Bool :=
  decide (e.out.length < sub32 c.dataMax 5) &&
    (!c.textMode || decide (e.out.length < sub32 c.maxl 7))

/-- Repeat counting: extend the current run or encode it and start the next one. -/
def count (e : Encoder) (ch : UInt8) : Encoder :=
  let e := if e.first then { e with lastCh := ch, first := false, repeatCount := 0 } else e
  if e.lastCh = ch ∧ e.repeatCount < 94 then { e with repeatCount := e.repeatCount + 1 }
  else
    { e with
      out := e.out ++ encodeOneByte c.prefixes c.checkType e.lastCh e.repeatCount
      repeatCount := 1
      lastCh := ch }

/-- The rest of the loop body once `ch` has been pulled. -/
def accept (e : Encoder) (ch : UInt8) : Encoder :=
  if c.raw then { e with out := e.out ++ [ch] }
  else if c.textMode ∧ ch = cr then e
  else if c.textMode ∧ ch = lf then
    if e.crlf then c.count { e with crlf := false } lf else c.count { e with crlf := true } cr
  else c.count e ch

/-- Pull the next character from the input. -/
def take (e : Encoder) (ch : UInt8) : Encoder := c.accept { e with taken := e.taken + 1 } ch

/-- The `for (;;)` of `encode_data_field`, with whether it ended because the input did. -/
def loop : List UInt8 → Encoder → Encoder × Bool
  | [], e =>
    if c.room e then
      -- the LF that belongs to a CR already sent comes before the next read
      if e.crlf then (c.accept e lf, c.room (c.accept e lf)) else (e, true)
    else (e, false)
  | ch :: rest, e =>
    if c.room e then
      if e.crlf then
        if c.room (c.accept e lf) then loop rest (c.take (c.accept e lf) ch)
        else (c.accept e lf, false)
      else loop rest (c.take e ch)
    else (e, false)

/-- The run and the LF still pending when the loop ends. -/
def finish (e : Encoder) : List UInt8 :=
  e.out ++
    (if 0 < e.repeatCount then encodeOneByte c.prefixes c.checkType e.lastCh e.repeatCount
      else []) ++
    (if c.textMode ∧ e.crlf then encodeOneByte c.prefixes c.checkType lf 1 else [])

end EncodeContext

/-- The outcome of `encode_data_field`: the data field, the bytes of input it stands for, and
whether the input was read to its end. -/
structure Encoded where
  bytes : List UInt8
  outstanding : Nat
  eof : Bool
deriving DecidableEq, Repr

def encodeDataField (c : EncodeContext) (input : List UInt8) : Encoded :=
  let r := c.loop input .init
  ⟨c.finish r.1, r.1.taken, r.2⟩

end CProgram.Kermit
