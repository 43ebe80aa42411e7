import CProgram.Lib.Bytes

/-! The parser inside `vt100`: which scan state a byte leads to, what is collected on the way, and
which handlers are called with it. What the handlers do to the screen is not its concern; they come
back to it only through the VT52 mode, the printer controller and a reset. -/
namespace CProgram.Terminal
open CProgram.Bytes

/-- The emulations that `vt100` serves. -/
inductive Emulation where
  | vt100 | vt102 | vt220 | linux | linuxUtf8 | xterm | xtermUtf8
deriving DecidableEq, Repr

namespace Emulation

/-- The terminals with seven data bits. -/
def vt10x : Emulation → Bool
  | .vt100 | .vt102 => true
  | _ => false

/-- The hardware terminals, which know no codepage. -/
def vtxxx : Emulation → Bool
  | .vt100 | .vt102 | .vt220 => true
  | _ => false

def utf8 : Emulation → Bool
  | .linuxUtf8 | .xtermUtf8 => true
  | _ => false

/-- The emulations that recognise C1 control bytes. -/
def c1 : Emulation → Bool
  | .vt220 | .xterm => true
  | _ => false

/-- The emulations with an 8-bit codepage. -/
def codepage : Emulation → Bool
  | .linux | .xterm => true
  | _ => false

/-- The Linux console. -/
def console : Emulation → Bool
  | .linux | .linuxUtf8 => true
  | _ => false

def anyXterm : Emulation → Bool
  | .xterm | .xtermUtf8 => true
  | _ => false

/-- VT220 and those that descend from it. -/
def vt220s : Emulation → Bool
  | .vt220 | .xterm | .xtermUtf8 => true
  | _ => false

end Emulation

inductive ScanState where
  | ground | escape | escapeIntermediate
  | csiEntry | csiParam | csiIntermediate | csiIgnore
  | dcsEntry | dcsIntermediate | dcsParam | dcsPassthrough | dcsIgnore
  | sosPmApcString | oscString | vt52DirectCursorAddress
deriving DecidableEq, Repr

inductive Charset where
  | us | uk | drawing | rom | romSpecial | vt52Graphics | decSupplemental
  | nrcDutch | nrcFinnish | nrcFrench | nrcFrenchCa | nrcGerman | nrcItalian | nrcNorwegian
  | nrcSpanish | nrcSwedish | nrcSwiss
deriving DecidableEq, Repr

inductive Lockshift where
  | none | g1Gr | g2Gr | g2Gl | g3Gr | g3Gl
deriving DecidableEq, Repr

/-- What is to be shown: a byte through the character sets or the codepage, or a code point. -/
inductive Glyph where
  | mapped (ch : UInt8)
  | codepage (ch : UInt8)
  | codePoint (ch : UInt32)
  | upArrow
  | downArrow
deriving DecidableEq, Repr

inductive Handler where
  | printCharacter (glyph : Glyph)
  | handleControlChar (ch : UInt8)
  -- after ESC
  | decsc | decrc | exitVt52 | deckpam | deckpnm | ind | nel | hts | ri | ss2 | ss3 | identify | ris
  | cursorUp | cursorDown | cursorRight | cursorLeft | cursorHome
  | eraseToEndOfScreen | eraseToEndOfLine
  | lockshift (mode : Lockshift)
  | cursorAddress (line column : UInt8)
  -- after ESC and an intermediate
  | designate (set : Fin 4) (charset : Charset)
  | dechdl (topHalf : Bool)
  | decswl | decdwl | decaln
  | s8c1t (mode : Bool)
  -- after CSI
  | ich | cuu | cud | cuf | cub | cnl | cpl | cha | cup | cht | ed | el | il | dl | dch | su | sd
  | ech | cbt | linuxCsi | rep | da | vpa | hvp | tbc | printerFunctions | sgr | dsr | decll
  | decstbm | saveCursor | restoreCursor | decreqtparm | decscl | decstr | decsca
  | setToggle (value : Bool)
  | osc
deriving DecidableEq, Repr

/-- The globals that a sequence fills and its handler reads. -/
structure Args where
  params : List (List UInt8)
  paramsN : ℤ
  decPrivateModeFlag : Bool
  /-- `q_emul_buffer` up to `q_emul_buffer_n`. -/
  emulBuffer : List UInt8
deriving DecidableEq, Repr

/-- `VT100_PARAM_MAX` and `VT100_PARAM_LENGTH`. -/
def paramMax : ℕ := 16
def paramLength : ℕ := 16

/-- What `clear_params` leaves. -/
def Args.clear : Args where
  params := List.replicate paramMax []
  paramsN := -1
  decPrivateModeFlag := false
  emulBuffer := []

/-- A handler and what it finds. -/
structure Call where
  handler : Handler
  args : Args
deriving DecidableEq, Repr

structure Parser extends Args where
  scanState : ScanState
  vt52Mode : Bool
  printerControllerMode : Bool
  utf8State : ℕ
  utf8Char : UInt32
deriving DecidableEq, Repr

/-- `atoi` on a row of digits; what does not fit into an `int` is cut off. -/
def atoi (row : List UInt8) : ℤ := (digits row 0 : ℤ).bmod (2 ^ 32)

namespace Args

/-- The value of a parameter; a row that is not there counts as empty. -/
def param (a : Args) (i : ℕ) : ℤ := atoi (a.params.getD i [])

/-- Whether one of the parameters up to the last has this value. -/
def hasParam (a : Args) (x : ℤ) : Bool := (List.range (a.paramsN + 1).toNat).any fun i => a.param i = x

end Args

namespace Parser

/-- What `vt100_reset` leaves. -/
def reset : Parser where
  toArgs := .clear
  scanState := .ground
  vt52Mode := false
  printerControllerMode := false
  utf8State := 0
  utf8Char := 0

def goto (p : Parser) (scanState : ScanState) : Parser := { p with scanState := scanState }

def clearParams (p : Parser) : Parser := { p with toArgs := .clear }

/-- The end of a sequence. -/
def finish (p : Parser) : Parser := p.clearParams.goto .ground

def collect (p : Parser) (ch : UInt8) : Parser :=
  { p with
    emulBuffer := p.emulBuffer ++ [ch]
    decPrivateModeFlag := p.decPrivateModeFlag || decide (ch = 0x3F) }

/-- The parameter being filled, or the first. -/
def paramRow (p : Parser) : ℤ := if p.paramsN < 0 then 0 else p.paramsN

def param (p : Parser) (ch : UInt8) : Parser :=
  if ch = 0x3B then { p with paramsN := p.paramRow + 1 }
  else if p.paramRow < paramMax ∧ (p.params.getD p.paramRow.toNat []).length < paramLength - 1 then
    { p with params := p.params.modify p.paramRow.toNat (· ++ [ch]), paramsN := p.paramRow }
  else { p with paramsN := p.paramRow }

def call (p : Parser) (handler : Handler) : Call := ⟨handler, p.toArgs⟩

/-- What a handler changes in the parser. -/
def perform (p : Parser) : Handler → Parser
  | .exitVt52 => { p with vt52Mode := false }
  | .setToggle value =>
    { p with vt52Mode := p.vt52Mode || (p.decPrivateModeFlag && !value && p.hasParam 2) }
  | .printerFunctions =>
    if p.decPrivateModeFlag || decide (p.paramsN < 0) then p
    else if p.toArgs.param 0 = 4 then { p with printerControllerMode := false }
    else if p.toArgs.param 0 = 5 then { p with printerControllerMode := true }
    else p
  | .ris | .decstr => { reset with utf8Char := p.utf8Char }
  | _ => p

end Parser

/-- What a scan state does with a byte: the byte is used up, it is shown, or it falls off. -/
inductive Verdict where
  | discard (p : Parser) (calls : List Call)
  | emit (p : Parser) (glyph : Glyph)
  | fall
deriving DecidableEq, Repr

/-- A byte in a range of the comments. -/
def within (lo hi ch : UInt8) : Bool := decide (lo ≤ ch) && decide (ch ≤ hi)

theorem within_iff {lo hi ch : UInt8} :
    within lo hi ch = true ↔ lo.toNat ≤ ch.toNat ∧ ch.toNat ≤ hi.toNat := by
  simp [within, UInt8.le_iff_toNat_le]

/-- `00-17, 19, 1C-1F`, for the VTxxx also `80-9F`: executed where they stand. -/
def executes (e : Emulation) (ch : UInt8) : Bool := within 0 0x1F ch || (e.vtxxx && within 0x80 0x9F ch)

/-- `00-17, 19, 1C-1F` in a string. -/
def ignored (ch : UInt8) : Bool := within 0 0x17 ch || decide (ch = 0x19) || within 0x1C 0x1F ch

theorem ignored_iff {ch : UInt8} : ignored ch = true ↔
    ch.toNat ≤ 0x17 ∨ ch.toNat = 0x19 ∨ (0x1C ≤ ch.toNat ∧ ch.toNat ≤ 0x1F) := by
  simp only [ignored, Bool.or_eq_true, within_iff, decide_eq_true_eq, ← UInt8.toNat_inj]
  simp
  omega

namespace Parser

/-- A sequence is complete: its handler is called, if it has one. -/
def dispatch (p : Parser) : Option Handler → Verdict
  | none => .discard p.finish []
  | some handler => .discard (p.perform handler).finish [p.call handler]

def execute (p : Parser) (ch : UInt8) : Verdict := .discard p [p.call (.handleControlChar ch)]

end Parser
end CProgram.Terminal
