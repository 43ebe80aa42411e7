import CProgram.Kermit.Encode

/-! The decoding half of Kermit's encoding layer: `decode_data_field`. -/
namespace CProgram.Kermit

/-- What `decode_data_field` reads besides its input. -/
structure DecodeContext where
  prefixes : Prefixes
  -- Send-Init, its ACK and Attributes come in without any prefix handling
  raw : Bool
  -- file data received in text mode loses its CRs
  stripCr : Bool
deriving DecidableEq, Repr

/-- The local variables of `decode_data_field`. -/
structure Decoder where
  prefixCtrl : Bool
  prefix8bit : Bool
  prefixRept : Bool
  repeatCount : Nat
  outputCh : UInt8
  doOutputCh : Bool
  out : List UInt8
deriving DecidableEq, Repr

def Decoder.init : Decoder := ⟨false, false, false, 1, 0, false, []⟩

namespace DecodeContext
variable (c : DecodeContext)

/-- `ch`, `repeat_count` times, behind what has been decoded. -/
def emit (d : Decoder) (ch : UInt8) : List UInt8 :=
  if c.stripCr ∧ ch = cr then d.out else d.out ++ List.replicate d.repeatCount ch

/-- Output a previously escaped character. -/
def settle (d : Decoder) : Decoder :=
  if d.doOutputCh then
    { d with out := c.emit d d.outputCh, repeatCount := 1, doOutputCh := false }
  else d

/-- The loop body after the escaped character is out; `none` is the error of two QBIN in a
row. -/
def step (d : Decoder) (ch : UInt8) : Option Decoder :=
  if c.raw then some { d with out := d.out ++ [ch] }
  else if c.prefixes.rept ≠ 32 ∧ ch = c.prefixes.rept then
    if d.prefixCtrl ∧ d.prefix8bit then
      some { d with outputCh := c.prefixes.rept ||| 0x80, doOutputCh := true,
                    prefixCtrl := false, prefix8bit := false, prefixRept := false }
    else if d.prefixCtrl then
      some { d with outputCh := c.prefixes.rept, doOutputCh := true,
                    prefixCtrl := false, prefixRept := false }
    else if d.prefixRept then
      some { d with repeatCount := (unchar c.prefixes.rept).toNat, prefixRept := false }
    else some { d with prefixRept := true, doOutputCh := false }
  else if d.prefixRept then
    some { d with repeatCount := (unchar ch).toNat, prefixRept := false }
  else if ch = c.prefixes.qctl then
    if d.prefix8bit ∧ d.prefixCtrl then
      some { d with outputCh := c.prefixes.qctl ||| 0x80, doOutputCh := true,
                    prefixCtrl := false, prefix8bit := false }
    else if d.prefixCtrl then
      some { d with outputCh := c.prefixes.qctl, doOutputCh := true, prefixCtrl := false }
    else some { d with prefixCtrl := true, doOutputCh := false }
  else if c.prefixes.qbin ≠ 32 ∧ ch = c.prefixes.qbin then
    if d.prefix8bit ∧ ¬ d.prefixCtrl then none
    else if d.prefix8bit ∧ d.prefixCtrl then
      some { d with outputCh := c.prefixes.qbin ||| 0x80, doOutputCh := true,
                    prefixCtrl := false, prefix8bit := false }
    else if d.prefixCtrl then
      some { d with outputCh := c.prefixes.qbin, doOutputCh := true, prefixCtrl := false }
    else some { d with prefix8bit := true, doOutputCh := false }
  else
    -- QCTL can quote anything, so only what unfolds to a control character is unfolded
    let ch := if d.prefixCtrl ∧ isControl (ctl ch &&& 0x7F) then ctl ch else ch
    let ch := if d.prefix8bit then ch ||| 0x80 else ch
    some { d with out := c.emit d ch, repeatCount := 1, prefixCtrl := false,
                  prefix8bit := false }

def loop : List UInt8 → Decoder → Option Decoder
  | [], d => some d
  | ch :: rest, d =>
    match c.step (c.settle d) ch with
    | none => none
    | some d' => loop rest d'

/-- How many bytes of the input the loop reads. -/
def reads : List UInt8 → Decoder → Nat
  | [], _ => 0
  | ch :: rest, d =>
    match c.step (c.settle d) ch with
    | none => 1
    | some d' => reads rest d' + 1

end DecodeContext

/-- `decode_data_field`: the decoded bytes, `none` for a field that is not well formed. -/
def decodeDataField (c : DecodeContext) (input : List UInt8) : Option (List UInt8) :=
  (c.loop input .init).map fun d => (c.settle d).out

end CProgram.Kermit
