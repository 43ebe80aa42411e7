import CProgram.Terminal.Handlers

/-! The character sets of `vt100`: which of them a character is taken from, and what the sequences do to them. -/
namespace CProgram.Terminal

/-- `SINGLESHIFT`. -/
inductive Singleshift where
  | none | ss2 | ss3
deriving DecidableEq, Repr

/-- The part of `struct vt100_state` that the mapping of characters depends on. -/
structure Charsets where
  singleshift : Singleshift
  vt52Mode : Bool
  shiftOut : Bool
  g0Charset : Charset
  g1Charset : Charset
  g2Charset : Charset
  g3Charset : Charset
  grCharset : Charset
  lockshiftGl : Lockshift
  lockshiftGr : Lockshift
  savedG0Charset : Charset
  savedG1Charset : Charset
  savedG2Charset : Charset
  savedG3Charset : Charset
  savedGrCharset : Charset
  savedLockshiftGl : Lockshift
  savedLockshiftGr : Lockshift
deriving DecidableEq, Repr

/-- The tables of the character sets, and `codepage_map_char`. -/
structure Tables where
  charset : Charset → UInt8 → UInt32
  codepage : UInt8 → UInt32

/-- The table that a character set has; the ROM sets have none of their own. -/
def Tables.look (t : Tables) (charset : Charset) (ch : UInt8) : UInt32 :=
  match charset with
  | .rom | .romSpecial => t.charset .us ch
  | _ => t.charset charset ch

def mapCharacterCharset (t : Tables) (e : Emulation) (vt100Char : UInt8) (glCharset grCharset : Charset) :
    Except Fault UInt32 :=
  if 0x80 ≤ vt100Char then
    if e = .vt220 then .ok (t.look grCharset (vt100Char &&& 0x7F)) else .error .aborted
  else .ok (t.look glCharset vt100Char)

namespace Charsets

/-- The locking shifts of a VT220. -/
def lockedGl (c : Charsets) : Except Fault Charset :=
  match c.lockshiftGl with
  | .g2Gl => .ok c.g2Charset
  | .g3Gl => .ok c.g3Charset
  | .none => .ok c.g0Charset
  | .g1Gr | .g2Gr | .g3Gr => .error .aborted

def lockedGr (c : Charsets) : Except Fault Charset :=
  match c.lockshiftGr with
  | .g1Gr => .ok c.g1Charset
  | .g2Gr => .ok c.g2Charset
  | .g3Gr => .ok c.g3Charset
  | .none => .ok .decSupplemental
  | .g2Gl | .g3Gl => .error .aborted

/-- The character set that a single shift is for. -/
def shiftedTo (c : Charsets) (shift : Singleshift) : Charset :=
  match shift with
  | .none => c.g0Charset
  | .ss2 => c.g2Charset
  | .ss3 => c.g3Charset

/-- What comes after the single shifts: the locking shifts of a VT220 have the last word. -/
def mapLocked (t : Tables) (e : Emulation) (c : Charsets) (vt100Char : UInt8) (glCharset grCharset : Charset) :
    Except Fault UInt32 :=
  if e = .vt220 then do
    mapCharacterCharset t e vt100Char (← c.lockedGl) (← c.lockedGr)
  else mapCharacterCharset t e vt100Char glCharset grCharset

/-- `map_character`; a single shift that is looked at is used up. -/
def mapCharacter (t : Tables) (e : Emulation) (c : Charsets) (vt100Char : UInt8) : Except Fault (UInt32 × Charsets) :=
  if e.codepage ∧ 0x80 ≤ vt100Char then .ok (t.codepage vt100Char, c)
  else if c.vt52Mode then do
    let shown ← mapCharacterCharset t e vt100Char (if c.shiftOut then c.g1Charset else c.g0Charset) .us
    pure (shown, c)
  else if c.shiftOut then do
    let shown ← mapCharacterCharset t e vt100Char c.g1Charset c.grCharset
    pure (shown, c)
  else do
    let shown ← c.mapLocked t e vt100Char (c.shiftedTo c.singleshift) c.grCharset
    pure (shown, { c with singleshift := .none })

/-! ### What the sequences do -/

/-- A character set goes to one of G0 to G3. -/
def designate (set : Fin 4) (charset : Charset) (c : Charsets) : Charsets :=
  match set with
  | 0 => { c with g0Charset := charset }
  | 1 => { c with g1Charset := charset }
  | 2 => { c with g2Charset := charset }
  | 3 => { c with g3Charset := charset }

def lock (mode : Lockshift) (c : Charsets) : Charsets :=
  match mode with
  | .none => c
  | .g2Gl | .g3Gl => { c with lockshiftGl := mode, shiftOut := false }
  | .g1Gr | .g2Gr | .g3Gr => { c with lockshiftGr := mode, shiftOut := false }

/-- `vt100_reset`. -/
def reset : Charsets where
  singleshift := .none
  vt52Mode := false
  shiftOut := false
  g0Charset := .us
  g1Charset := .drawing
  g2Charset := .us
  g3Charset := .us
  grCharset := .decSupplemental
  lockshiftGl := .none
  lockshiftGr := .none
  savedG0Charset := .us
  savedG1Charset := .drawing
  savedG2Charset := .us
  savedG3Charset := .us
  savedGrCharset := .decSupplemental
  savedLockshiftGl := .none
  savedLockshiftGr := .none

/-- The part of `decsc`. -/
def save (c : Charsets) : Charsets := { c with
  savedG0Charset := c.g0Charset
  savedG1Charset := c.g1Charset
  savedG2Charset := c.g2Charset
  savedG3Charset := c.g3Charset
  savedGrCharset := c.grCharset
  savedLockshiftGl := c.lockshiftGl
  savedLockshiftGr := c.lockshiftGr }

/-- The part of `decrc`; where nothing has been saved there are defaults. -/
def restore (saved : Bool) (e : Emulation) (c : Charsets) : Charsets :=
  if saved then
    { c with
      g0Charset := c.savedG0Charset
      g1Charset := c.savedG1Charset
      g2Charset := if e = .vt220 then c.savedG2Charset else c.g2Charset
      g3Charset := if e = .vt220 then c.savedG3Charset else c.g3Charset
      lockshiftGl := if e = .vt220 then c.savedLockshiftGl else c.lockshiftGl
      lockshiftGr := if e = .vt220 then c.savedLockshiftGr else c.lockshiftGr
      grCharset := if e = .vt220 then c.savedGrCharset else c.grCharset }
  else
    { c with
      g0Charset := .us
      g1Charset := .drawing
      g2Charset := .us
      g3Charset := .us
      grCharset := .decSupplemental
      lockshiftGl := .none
      lockshiftGr := .none }

/-- DECANM is reset. -/
def enterVt52 (e : Emulation) (c : Charsets) : Charsets := { c with
  vt52Mode := true
  g0Charset := .us
  g1Charset := .drawing
  shiftOut := false
  singleshift := if e.vt220s then .none else c.singleshift }

/-- `ESC <` in VT52 mode. -/
def exitVt52 (c : Charsets) : Charsets := { c with
  vt52Mode := false
  g0Charset := .us
  g1Charset := .drawing
  singleshift := .none
  lockshiftGl := .none
  lockshiftGr := .none }

/-- One mode of `set_toggle`. -/
def toggle (saved : Bool) (e : Emulation) (decPrivateModeFlag value : Bool) (c : Charsets) (mode : ℤ) : Charsets :=
  if decPrivateModeFlag ∧ mode = 2 ∧ ¬ value then c.enterVt52 e
  else if decPrivateModeFlag ∧ (mode = 1048 ∨ mode = 1049) ∧ e.anyXterm then
    if value then c.save else c.restore saved e
  else c

/-- DECSCL. -/
def decscl (a : Args) (c : Charsets) : Charsets :=
  if ¬ a.decPrivateModeFlag ∧ 0 < a.paramsN ∧ a.param 0 = 61 then { c with g0Charset := .us, g1Charset := .drawing }
  else c

def handleControlChar (ch : UInt8) (c : Charsets) : Charsets :=
  match ch.toNat with
  | 0x0E => { c with shiftOut := true, lockshiftGl := .none }
  | 0x0F => { c with shiftOut := false, lockshiftGl := .none }
  | 0x8E => { c with singleshift := .ss2 }
  | 0x8F => { c with singleshift := .ss3 }
  | _ => c

/-- What a call does; `saved` tells whether a cursor has been saved. -/
def perform (saved : Bool) (e : Emulation) (call : Call) (c : Charsets) : Charsets :=
  match call.handler with
  | .ss2 => { c with singleshift := .ss2 }
  | .ss3 => { c with singleshift := .ss3 }
  | .lockshift mode => c.lock mode
  | .designate set charset => c.designate set charset
  | .handleControlChar ch => c.handleControlChar ch
  | .decsc => c.save
  | .decrc => c.restore saved e
  | .exitVt52 => c.exitVt52
  | .ris | .decstr => reset
  | .decscl => c.decscl call.args
  | .setToggle value => call.args.modes.foldl (toggle saved e call.args.decPrivateModeFlag value) c
  | _ => c

end Charsets
end CProgram.Terminal
