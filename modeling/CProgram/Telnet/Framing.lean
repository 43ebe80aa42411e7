import CProgram.Telnet.Transparent

/-! The framing of telnet commands: what `telnet_read` makes of a stream in which the bytes of the
application stand between commands, options and subnegotiations, however the stream is cut. -/
namespace CProgram.Telnet
variable {c : Config} {t : Nvt} {ch : UInt8} {bytes more d : List UInt8}

/-! ### The stream -/

/-- The byte behind IAC is a command by itself. -/
def Single (ch : UInt8) : Prop := ch ≠ IAC ∧ ch ≠ SB ∧ ch ≠ WILL ∧ ch ≠ WONT ∧ ch ≠ DO ∧ ch ≠ DONT

def Verb (ch : UInt8) : Prop := ch = WILL ∨ ch = WONT ∨ ch = DO ∨ ch = DONT

inductive Item where
  | data (ch : UInt8)
  | command (ch : UInt8) (single : Single ch)
  | option (verb opt : UInt8) (isVerb : Verb verb)
  | subneg (d : List UInt8) (short : 1 ≤ d.length ∧ d.length ≤ subnegBufferMax)

/-- A subnegotiation on the line, with every IAC in it doubled. -/
def frame (d : List UInt8) : List UInt8 := [IAC, SB] ++ (d.flatMap doubled ++ [IAC, SE])

def Item.sent : Item → List UInt8
  | .data ch => doubled ch
  | .command ch _ => [IAC, ch]
  | .option verb opt _ => [IAC, verb, opt]
  | .subneg d _ => frame d

def Item.calls : Item → List (List UInt8)
  | .subneg d _ => [d]
  | _ => []

/-- How the bytes of the application are meant: as they are, or as NVT ASCII, where a CR waits for the
byte behind it. -/
structure Ear where
  binary : Bool
  cr : Bool
  deriving DecidableEq

def Nvt.ear (t : Nvt) : Ear := ⟨t.binaryMode, t.readCr⟩

/-- One byte of the application. -/
def Ear.byte (e : Ear) (ch : UInt8) : Ear × List UInt8 :=
  if ch = IAC ∨ e.binary then (e, [ch])
  else if e.cr then
    if ch = CR then (e, [CR, NUL])
    else ({ e with cr := false }, if ch = NUL then [CR] else [CR, ch])
  else if ch = CR then ({ e with cr := true }, [])
  else (e, if ch = NUL then [] else [ch])

def Item.heard (e : Ear) : Item → Ear × List UInt8
  | .data ch => e.byte ch
  | .option verb opt _ => ({ e with binary := if opt = 0 then verb = WILL || verb = DO else e.binary }, [])
  | _ => (e, [])

/-- The data of the application with everything else removed. -/
def heardAll : Ear → List Item → Ear × List UInt8
  | e, [] => (e, [])
  | e, item :: items =>
    let one := item.heard e
    let rest := heardAll one.1 items
    (rest.1, one.2 ++ rest.2)

/-! ### What a run of `telnet_read` comes to -/

/-- `handle_subneg` is called for the byte. -/
def Nvt.ends (t : Nvt) (ch : UInt8) : Bool := t.subnegEnd && t.iac && ch = SE

/-- What is in `subneg_buffer` at each call of `handle_subneg`. -/
def handled (c : Config) : Nvt → List UInt8 → List (List UInt8)
  | _, [] => []
  | t, ch :: bytes => (if t.ends ch then [t.subneg] else []) ++ handled c (t.readByte c ch).nvt bytes

/-- A subnegotiation without IAC and without SE in it. -/
def Item.Clean : Item → Prop
  | .subneg d _ => IAC ∉ d ∧ SE ∉ d
  | _ => True

/-! ### Subnegotiations -/

/-- The state behind IAC SB. -/
def Nvt.opened (t : Nvt) : Nvt := { t with subnegEnd := true, subneg := [], iac := false }

/-- What `Framed` says, of the stream in one piece. -/
def Whole (c : Config) (t : Nvt) (items : List Item) : Prop :=
  (t.readBytes c (items.flatMap Item.sent)).stored = (heardAll t.ear items).2 ∧
    handled c t (items.flatMap Item.sent) = items.flatMap Item.calls ∧
      Ground (t.readBytes c (items.flatMap Item.sent)).nvt

/-- The data of a subnegotiation that is sent. -/
def Reply.data : Reply → Option (List UInt8)
  | .respond _ _ => none
  | .subneg option response => some (option :: response)
  | .naws lines columns => some [31, UInt8.ofNat (columns / 256), UInt8.ofNat (columns % 256),
      UInt8.ofNat (lines / 256), UInt8.ofNat (lines % 256)]

/-- The subnegotiations that can be sent: the window size, whatever it is, and three texts. -/
def Config.sends (c : Config) (lines columns : ℕ) : List Reply :=
  [.naws lines columns, .subneg 24 c.terminalType, .subneg 32 terminalSpeed, .subneg 39 c.environment]

/-- No other subnegotiation is ever sent in answer to the remote side. -/
theorem replies_sends : ∀ r ∈ (t.readBytes c bytes).replies, r.data ≠ none → r ∈ c.sends c.lines c.columns := by
  have hdowill (t : Nvt) (opt : UInt8) : ∀ r ∈ (t.dowillOption c opt).replies, r.data ≠ none →
      r ∈ c.sends c.lines c.columns := by
    have hagree : ∀ r ∈ t.agree opt, r.data = none := by
      intro r hr
      rw [Nvt.agree] at hr
      split at hr
      · rw [List.mem_singleton.mp hr]
        rfl
      · cases hr
    have hrefuse : (telnetRefuse t.dowillType opt).data = none := by
      rw [telnetRefuse]
      split <;> rfl
    intro r hr hdata
    unfold Nvt.dowillOption at hr
    split at hr
    case h_5 =>
      dsimp only at hr
      split_ifs at hr
      · simp only [List.mem_cons, List.not_mem_nil, or_false] at hr
        rcases hr with rfl | rfl
        · exact absurd rfl hdata
        · exact List.mem_cons_self
      · rw [List.mem_singleton.mp hr]
        exact List.mem_cons_self
      · cases hr
    case h_8 =>
      rw [List.mem_singleton.mp hr] at hdata
      exact absurd hrefuse hdata
    all_goals exact absurd (hagree r hr) hdata
  have hsubneg (data : List UInt8) : ∀ r ∈ c.handleSubneg data, r ∈ c.sends c.lines c.columns := by
    intro r hr
    unfold Config.handleSubneg at hr
    split at hr
    · rw [List.mem_singleton.mp hr]
      simp [Config.sends]
    · rw [List.mem_singleton.mp hr]
      simp [Config.sends]
    · rw [List.mem_singleton.mp hr]
      simp [Config.sends]
    · cases hr
  have hbyte (t : Nvt) (ch : UInt8) : ∀ r ∈ (t.readByte c ch).replies, r.data ≠ none →
      r ∈ c.sends c.lines c.columns := by
    intro r hr hdata
    rw [Nvt.readByte] at hr
    split at hr
    · rw [Nvt.collect] at hr
      split_ifs at hr
      · exact hsubneg t.subneg r hr
      all_goals cases hr
    split at hr
    · exact hdowill t ch r hr hdata
    · unfold Nvt.command Nvt.asciiMode at hr
      split_ifs at hr <;> cases hr
  induction bytes generalizing t with
  | nil => simp [Nvt.readBytes]
  | cons ch bytes ih =>
    intro r hr hdata
    rw [Nvt.readBytes, List.mem_append] at hr
    exact hr.elim (fun hone => hbyte t ch r hone hdata) fun hrest => ih r hrest hdata

end CProgram.Telnet
