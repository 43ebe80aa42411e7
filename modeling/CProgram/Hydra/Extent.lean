import CProgram.Hydra.Machine

/-! How far the receiving side reaches: into `rxbuf`, `rxfname` and `txpktprefix`, byte by byte of the line and
packet by packet. -/
namespace CProgram.Hydra
open CProgram.Strings CProgram.Bytes

/-- What a step touches: bytes of `rxbuf` from its start on, bytes written to `rxfname` and to `txpktprefix`;
and whether a length went below zero. -/
structure Touch where
  rxbuf : ℕ := 0
  rxfname : ℕ := 0
  txpktprefix : ℕ := 0
  wraps : Bool := false

structure Touch.Inside (t : Touch) : Prop where
  rxbuf : t.rxbuf ≤ hBuflen
  rxfname : t.rxfname ≤ 13
  txpktprefix : t.txpktprefix ≤ 32
  wraps : t.wraps = false

/-! ### `rxpkt` -/

/-- What is taken off the length for the CRC and the type. -/
def trimmed (opts : Dword) (format : UInt8) : ℕ := (if wide opts format then 4 else 2) + 1

/-- `HCHR_PKTEND`: the loop of the format, the CRC over what it has written, and the type behind it. -/
def touchEnd (base : ℕ) (opts : Dword) (r : Rx) : Touch :=
  let n := span base r
  { rxbuf := max n (if r.rxpktformat = hchrHexpkt ∧ n ≠ 0 then (hexLoop r.buf n n 0 []).2 + 1 else 0)
    wraps :=
      match (decode base r).1 with
      | some out => decide (if wide opts r.rxpktformat then 5 ≤ out.length else 3 ≤ out.length) &&
          decide (out.length < trimmed opts r.rxpktformat)
      | none => false }

def touchStore (r : Rx) : Touch :=
  match r.ptr with
  | some k => if k < hMaxpktlen then { rxbuf := k + 1 } else {}
  | none => {}

/-- One byte from the line. -/
def touchChar (base : ℕ) (opts : Dword) (c : UInt8) (r : Rx) : Touch :=
  if stripped opts c then {}
  else
    let c := narrowed opts c
    if 0 < r.rxdle ∨ c = hDle then
      if c = hDle then {}
      else if c = hchrPktend then touchEnd base opts r
      else if c = hchrBinpkt ∨ c = hchrHexpkt ∨ c = hchrAscpkt ∨ c = hchrUuepkt then {}
      else touchStore r
    else touchStore r

/-! ### The handlers -/

/-- `rxbuf` as a list. -/
def memory (r : Rx) : List UInt8 := (List.range hBuflen).map r.buf

/-- The name that `sscanf` finds behind five fields. -/
def scanName (text : List UInt8) : List UInt8 :=
  let behind (s : Option (List UInt8)) : Option (List UInt8) := (s.bind (scanHex 8)).map Prod.snd
  match behind (behind (behind (behind (behind (some text))))) with
  | some rest => (rest.dropWhile isSpace).takeWhile fun ch => !isSpace ch
  | none => []

/-- `HPKT_INIT`: the strings one behind the other, `strtok` over two of them, the application info from its
ninth character on, and the options written in front. -/
def touchInit (side : Side) (mem : List UInt8) : Touch :=
  let p := next mem 0
  let q := next mem p
  let cut := (agreedOptions side mem).2
  let w := next cut q
  let x := next cut w
  { rxbuf := max (max (max p q) (max (next mem q) w)) (max (max x (min (next cut x) (x + 31)))
      (max (next cut 8) ((putFlags (agreedOptions side mem).1).length + 1)))
    txpktprefix := 32 }

def touchFinfo (mem : List UInt8) : Touch := { rxbuf := next mem 0, rxfname := (scanName (cstr mem 0)).length + 1 }

/-- The device of the packet has a function. -/
def known (mem : List UInt8) : Bool :=
  match hDev.find? fun dev => (mem.drop 4).take hFlaglen = dev.1.take hFlaglen with
  | some (_, func) => func
  | none => false

/-- `hydra_devrecv`, for a packet of `n` bytes. -/
def touchDevrecv (mem : List UInt8) (n : ℕ) : Touch :=
  if known mem then
    { rxbuf := max (next mem 4) (n + 1), wraps := decide (n < 4) || decide (n < next mem 4) }
  else { rxbuf := 4 + hFlaglen, wraps := decide (n < 4) }

/-- The handler of a packet with `n` bytes in front of its type. -/
def touchPacket (s : Session) (mem : List UInt8) (n : ℕ) (type : UInt8) : Touch :=
  if type = hpktInitType ∧ s.rxstate = .init then touchInit s.side mem
  else if type = hpktFinfo then
    if s.rxstate = .finfo ∧ ¬ endOfBatch mem then touchFinfo mem else { rxbuf := 1 }
  else if type = hpktData ∧ s.rxstate = .data ∧ hLong 1 mem = s.rxpos ∧ 0 ≤ hLong 1 mem then
    { rxbuf := max 4 n, wraps := decide (n < 4) }
  else if type = hpktDevdata ∧ s.devrxid ≠ hLong1 mem then touchDevrecv mem n
  else { rxbuf := 12 }

/-! ### Bytes and steps together -/

/-- The receiver of bytes and the session. -/
structure Port where
  rx : Rx
  session : Session

inductive Input where
  | byte (w : World) (c : UInt8)
  | other (e : Step)

/-- What the handlers find: the packet, and behind it what was there before. -/
def packetBytes (mem : List UInt8) (n : ℕ) (type : UInt8) : List UInt8 :=
  if type = hpktData then mem.take (max n 4) else mem

def Port.step (base : ℕ) (e : Input) (l : Port) : Port :=
  match e with
  | .byte w c =>
    match rxChar base l.session.rxoptions c l.rx with
    | (rx, none) => { l with rx := rx }
    | (rx, some code) =>
      if code = hCancel then { rx := rx, session := l.session.step .stop }
      else
        let type := UInt8.ofNat code.toNat
        { rx := rx, session := l.session.step (.packet w type (packetBytes (memory rx) rx.rxpktlen type)) }
  | .other e =>
    let starts : Bool := l.session.phase = .outside ∧ l.session.txstate = .done
    { rx := if starts then { l.rx with rxdle := 0, ptr := none } else l.rx, session := l.session.step e }

def Port.touches (base : ℕ) (e : Input) (l : Port) : List Touch :=
  match e with
  | .byte _ c =>
    touchChar base l.session.rxoptions c l.rx ::
      match rxChar base l.session.rxoptions c l.rx with
      | (rx, some code) =>
        if code = hCancel then []
        else [touchPacket l.session (memory rx) rx.rxpktlen (UInt8.ofNat code.toNat)]
      | (_, none) => []
  | .other _ => []

/-- Nothing outside is touched in the whole run. -/
def Port.Inside (base : ℕ) : Port → List Input → Prop
  | _, [] => True
  | l, e :: events => (∀ t ∈ l.touches base e, t.Inside) ∧ (l.step base e).Inside base events

/-! ### The condition -/

/-- The end of a packet finds a pointer in the two formats that take its difference to the start, and in the
format whose escapes run ahead one that is not past the end of the buffer. -/
def EndsWell (base : ℕ) (r : Rx) : Prop :=
  match r.ptr with
  | some k => r.rxpktformat = hchrHexpkt → k + 3 ≤ hBuflen
  | none => r.rxpktformat ≠ hchrBinpkt ∧ (r.rxpktformat = hchrUuepkt → base ≤ 2 ^ 15)

/-- The contents of a packet bear the way they are taken apart: the strings of INIT, FINFO and DEVDATA end
inside the packet, the name of a file has its eight and three characters, and an offset or an id is there. -/
structure Bears (s : Session) (mem : List UInt8) (n : ℕ) (type : UInt8) : Prop where
  init : type = hpktInitType → s.rxstate = .init →
    5 ≤ (mem.take n).count 0 ∧ (mem.take n).getLast? = some 0 ∧ 9 ≤ n
  finfo : type = hpktFinfo → s.rxstate = .finfo → ¬ endOfBatch mem →
    0 ∈ mem.take n ∧ (scanName (cstr mem 0)).length ≤ 12
  data : type = hpktData → s.rxstate = .data → hLong 1 mem = s.rxpos → 0 ≤ hLong 1 mem → 4 ≤ n
  devdata : type = hpktDevdata → s.devrxid ≠ hLong1 mem → 4 ≤ n ∧ (known mem → 0 ∈ (mem.take n).drop 4)

def Input.Proper (base : ℕ) (e : Input) (l : Port) : Prop :=
  match e with
  | .byte _ c =>
    (stripped l.session.rxoptions c = false → 0 < l.rx.rxdle → narrowed l.session.rxoptions c = hchrPktend →
        EndsWell base l.rx) ∧
      ∀ code, (rxChar base l.session.rxoptions c l.rx).2 = some code → code ≠ hCancel →
        Bears l.session (memory (rxChar base l.session.rxoptions c l.rx).1)
          (rxChar base l.session.rxoptions c l.rx).1.rxpktlen (UInt8.ofNat code.toNat)
  | .other _ => True

def Port.ProperRun (base : ℕ) : Port → List Input → Prop
  | _, [] => True
  | l, e :: events => e.Proper base l ∧ (l.step base e).ProperRun base events

/-! ### Packets from the line -/

variable {base : ℕ} {opts : Dword} {r : Rx} {c : UInt8} {s : Session} {mem : List UInt8} {n : ℕ}

/-- The pointer is in the buffer, but for the hexadecimal format. -/
def Rx.Fits (r : Rx) : Prop := ∀ k, r.ptr = some k → k ≤ hMaxpktlen ∨ r.rxpktformat = hchrHexpkt

variable {l : Port}

instance decidableEndsWell (base : ℕ) (r : Rx) : Decidable (EndsWell base r) :=
  match h : r.ptr with
  | some k => decidable_of_iff (r.rxpktformat = hchrHexpkt → k + 3 ≤ hBuflen) (by rw [EndsWell, h])
  | none => decidable_of_iff (r.rxpktformat ≠ hchrBinpkt ∧ (r.rxpktformat = hchrUuepkt → base ≤ 2 ^ 15))
      (by rw [EndsWell, h])

theorem bears_iff {type : UInt8} : Bears s mem n type ↔
    (type = hpktInitType → s.rxstate = .init →
      5 ≤ (mem.take n).count 0 ∧ (mem.take n).getLast? = some 0 ∧ 9 ≤ n) ∧
    (type = hpktFinfo → s.rxstate = .finfo → ¬ endOfBatch mem →
      0 ∈ mem.take n ∧ (scanName (cstr mem 0)).length ≤ 12) ∧
    (type = hpktData → s.rxstate = .data → hLong 1 mem = s.rxpos → 0 ≤ hLong 1 mem → 4 ≤ n) ∧
    (type = hpktDevdata → s.devrxid ≠ hLong1 mem → 4 ≤ n ∧ (known mem → 0 ∈ (mem.take n).drop 4)) :=
  ⟨fun h => ⟨h.init, h.finfo, h.data, h.devdata⟩, fun h => ⟨h.1, h.2.1, h.2.2.1, h.2.2.2⟩⟩

instance decidableBears (s : Session) (mem : List UInt8) (n : ℕ) (type : UInt8) : Decidable (Bears s mem n type) :=
  have initInstance : Decidable (type = hpktInitType → s.rxstate = .init →
      5 ≤ (mem.take n).count 0 ∧ (mem.take n).getLast? = some 0 ∧ 9 ≤ n) := inferInstance
  have finfoInstance : Decidable (type = hpktFinfo → s.rxstate = .finfo → ¬ endOfBatch mem →
      0 ∈ mem.take n ∧ (scanName (cstr mem 0)).length ≤ 12) := inferInstance
  have dataInstance : Decidable (type = hpktData → s.rxstate = .data → hLong 1 mem = s.rxpos →
      0 ≤ hLong 1 mem → 4 ≤ n) := inferInstance
  have devdataInstance : Decidable (type = hpktDevdata → s.devrxid ≠ hLong1 mem →
      4 ≤ n ∧ (known mem → 0 ∈ (mem.take n).drop 4)) := inferInstance
  decidable_of_iff _ bears_iff.symm

instance decidableCode (o : Option ℤ) (P : ℤ → Prop) [DecidablePred P] :
    Decidable (∀ code, o = some code → code ≠ hCancel → P code) :=
  match o with
  | none => .isTrue fun _ h => by cases h
  | some code => decidable_of_iff (code ≠ hCancel → P code)
      ⟨fun h _ heq => Option.some.inj heq ▸ h, fun h => h code rfl⟩

instance decidableInput (base : ℕ) : (e : Input) → (l : Port) → Decidable (e.Proper base l)
  | .byte _ c, l => inferInstanceAs (Decidable (
    (stripped l.session.rxoptions c = false → 0 < l.rx.rxdle → narrowed l.session.rxoptions c = hchrPktend →
        EndsWell base l.rx) ∧
      ∀ code, (rxChar base l.session.rxoptions c l.rx).2 = some code → code ≠ hCancel →
        Bears l.session (memory (rxChar base l.session.rxoptions c l.rx).1)
          (rxChar base l.session.rxoptions c l.rx).1.rxpktlen (UInt8.ofNat code.toNat)))
  | .other _, _ => .isTrue trivial

instance decidableInputs (base : ℕ) : (events : List Input) → (l : Port) → Decidable (l.ProperRun base events)
  | [], _ => .isTrue trivial
  | e :: events, l => @instDecidableAnd _ _ (decidableInput base e l) (decidableInputs base events (l.step base e))

end CProgram.Hydra
