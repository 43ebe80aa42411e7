import CProgram.Lib.Numerals
import CProgram.Lib.Utf8
import CProgram.Qodem.Host
import Mathlib.Data.Fintype.Basic
import Mathlib.Data.List.TakeWhile
import Mathlib.Tactic.FinCases

/-! `handle_mouse`: presses, releases and movements are told apart by what was down and where the
mouse was, and go out by the protocol and in the encoding that the other side has asked for. -/
namespace CProgram.Qodem.Mouse
open Numerals

/-- `XTERM_MOUSE_PROTOCOL`. -/
inductive Protocol where
  | off | x10 | normal | buttonEvent | anyEvent
  deriving DecidableEq

/-- `XTERM_MOUSE_ENCODING`. -/
inductive Encoding where
  | x10 | utf8 | sgr
  deriving DecidableEq

/-- What `getmouse` gives, with what the program is in when it comes. A screen has up to
`Q_MAX_LINE_LENGTH` columns, and curses counts its rows in a short. -/
structure Event where
  x : ℕ
  y : ℕ
  /-- `REPORT_MOUSE_POSITION`. -/
  position : Bool
  /-- `BUTTON1_PRESSED` to `BUTTON3_PRESSED`. -/
  pressed : Fin 3 → Bool
  /-- `BUTTON1_RELEASED` to `BUTTON3_RELEASED`. -/
  released : Fin 3 → Bool
  /-- `BUTTON4_PRESSED`. -/
  wheelUp : Bool
  /-- `BUTTON5_PRESSED`. -/
  wheelDown : Bool
  /-- `Q_STATE_CONSOLE`. -/
  console : Bool
  /-- Online, or with the serial port open. -/
  online : Bool
  protocol : Protocol
  encoding : Encoding
  column : x < 256 := by decide
  row : y < 2 ^ 15 := by decide

/-- `old_mouse1` to `old_mouse3`, `old_x` and `old_y`. -/
structure State where
  old : Fin 3 → Bool
  oldX : ℤ
  oldY : ℤ

def start : State := ⟨fun _ => false, -1, -1⟩

/-- The flags of a call. -/
structure Reading where
  old : Fin 3 → Bool
  mouse : Fin 3 → Bool
  mouse4 : Bool
  mouse5 : Bool
  release : Bool
  motion : Bool

/-- `real_motion`. -/
def State.moved (s : State) (e : Event) : Bool := decide (s.oldX ≠ e.x) || decide (s.oldY ≠ e.y)

/-- The first look at one of the three buttons. -/
def Reading.hold (e : Event) (moved : Bool) (r : Reading) (n : Fin 3) : Reading :=
  if e.pressed n && !r.old n then
    { r with mouse := Function.update r.mouse n true, old := Function.update r.old n true }
  else if r.old n && moved then { r with mouse := Function.update r.mouse n true }
  else if r.old n && !moved then
    { r with mouse := Function.update r.mouse n true, release := true, motion := false }
  else r

def Reading.wheel (e : Event) (r : Reading) : Reading :=
  if e.wheelUp && (r.old 0 || r.old 1 || r.old 2) then { r with motion := true, mouse := r.old }
  else if e.wheelUp then { r with mouse4 := true }
  else r

/-- The second look. -/
def Reading.letGo (e : Event) (r : Reading) (n : Fin 3) : Reading :=
  if e.released n then
    { r with mouse := Function.update r.mouse n true, old := Function.update r.old n false,
             release := true, motion := false }
  else r

def classify (s : State) (e : Event) : Reading :=
  let r : Reading := ⟨s.old, fun _ => false, false, false, false, e.position⟩
  let r := ((r.hold e (s.moved e) 0).hold e (s.moved e) 1).hold e (s.moved e) 2
  let r := r.wheel e
  let r := if e.wheelDown then { r with mouse5 := true } else r
  ((r.letGo e 0).letGo e 1).letGo e 2

def passes (protocol : Protocol) (r : Reading) : Bool :=
  let press := !r.release && !r.motion
  match protocol with
  | .off => false
  | .x10 => !(r.release || r.motion)
  | .normal => !(!press && !r.release)
  | .buttonEvent => !(r.motion && !r.mouse 0 && !r.mouse 1 && !r.mouse 2 && !r.mouse4 && !r.mouse5)
  | .anyEvent => true

/-- `raw_buffer[3]`. -/
def rawCode (r : Reading) : ℕ :=
  if r.release then 3 + 32
  else if r.mouse 0 then if r.motion then 0 + 32 + 32 else 0 + 32
  else if r.mouse 1 then if r.motion then 1 + 32 + 32 else 1 + 32
  else if r.mouse 2 then if r.motion then 2 + 32 + 32 else 2 + 32
  else if r.mouse4 then 4 + 64
  else if r.mouse5 then 5 + 64
  else 3 + 32

def rawBuffer (e : Event) (r : Reading) : List ℕ := [27, 91, 77, rawCode r, e.x + 33, e.y + 33]

/-- The first number of the SGR encoding, with its semicolon. -/
def sgrCode (r : Reading) : List UInt8 :=
  if r.mouse 0 then if r.motion then [51, 50, 59] else [48, 59]
  else if r.mouse 1 then if r.motion then [51, 51, 59] else [49, 59]
  else if r.mouse 2 then if r.motion then [51, 52, 59] else [50, 59]
  else if r.mouse4 then [54, 52, 59]
  else if r.mouse5 then [54, 53, 59]
  else [51, 53, 59]

/-- `snprintf` behind what is in `sgr_buffer`. -/
def snprintf (buf text : List UInt8) : List UInt8 := buf ++ text.take (32 - buf.length - 1 - 1)

def sgrBuffer (e : Event) (r : Reading) : List UInt8 :=
  let buf := snprintf [27, 91, 60] (sgrCode r)
  let buf := snprintf buf (numeral 10 (e.x + 1) ++ 59 :: numeral 10 (e.y + 1))
  buf ++ [if r.release then 109 else 77]

/-- What goes to `qodem_write`. -/
def report (e : Event) (r : Reading) : List UInt8 :=
  match e.encoding with
  | .x10 => ((rawBuffer e r).map UInt8.ofNat).takeWhile (· ≠ 0)
  | .utf8 => ((rawBuffer e r).flatMap fun n => Host.utf8Encode (UInt32.ofNat n)).takeWhile (· ≠ 0)
  | .sgr => sgrBuffer e r

/-- What `handle_mouse` sends, unless its assertion fails. -/
def handleMouse (s : State) (e : Event) : Option (State × Option (List UInt8)) :=
  if !e.console then some (s, none)
  else if !e.online then some (s, none)
  else
    let r := classify s e
    let s' : State := ⟨r.old, e.x, e.y⟩
    if !passes e.protocol r then some (s', none)
    else if r.motion && r.release then none
    else some (s', some (report e r))

def run : List Event → State → Option State
  | [], s => some s
  | e :: rest, s => (handleMouse s e).bind fun r => run rest r.1

/-! ### What is reported -/

/-- Buttons four and five are the wheel. -/
inductive Kind where
  | press (n : Fin 5) | drag (n : Fin 3) | release (n : Fin 3) | moved

/-- What the flags amount to, the first button before the others. -/
def Reading.kind (r : Reading) : Kind :=
  if r.release then .release (if r.mouse 0 then 0 else if r.mouse 1 then 1 else 2)
  else if r.mouse 0 then if r.motion then .drag 0 else .press 0
  else if r.mouse 1 then if r.motion then .drag 1 else .press 1
  else if r.mouse 2 then if r.motion then .drag 2 else .press 2
  else if r.mouse4 then .press 3
  else if r.mouse5 then .press 4
  else .moved

def Protocol.Allows : Protocol → Kind → Prop
  | .off, _ => False
  | .x10, k => ∃ n, k = .press n
  | .normal, k => (∃ n, k = .press n) ∨ ∃ n, k = .release n
  | .buttonEvent, k => k ≠ .moved
  | .anyEvent, _ => True

/-- The number that stands for it, and whether the report ends in an `m`. -/
def Kind.code : Encoding → Kind → ℕ × Bool
  | .sgr, .press n => (if n < 3 then n else 61 + n, false)
  | .sgr, .drag n => (32 + n, false)
  | .sgr, .release n => (n, true)
  | .sgr, .moved => (35, false)
  | _, .press n => (if n < 3 then n else 33 + n, false)
  | _, .drag n => (32 + n, false)
  | _, .release _ => (3, false)
  | _, .moved => (3, false)

/-- The report tells which button it is about. -/
def Kind.Names (encoding : Encoding) (n : Fin 3) : Kind → Prop
  | .press k => k = n.castLE (by decide)
  | .drag k => k = n
  | .release k => encoding = .sgr ∧ k = n
  | .moved => False

/-- A number, and what is behind it. -/
def readNumber (text : List UInt8) : Option (ℕ × List UInt8) :=
  let digits := text.takeWhile (isDigitIn 10)
  if digits = [] then none else some (value 10 digits 0, text.dropWhile (isDigitIn 10))

/-- Six characters, a number and two biased coordinates among them. -/
def readSix : List ℕ → Option ((ℕ × Bool) × ℕ × ℕ)
  | [27, 91, 77, b, x, y] => if 32 ≤ b ∧ 33 ≤ x ∧ 33 ≤ y then some ((b - 32, false), x - 33, y - 33) else none
  | _ => none

def readSgr : List UInt8 → Option ((ℕ × Bool) × ℕ × ℕ)
  | 27 :: 91 :: 60 :: text =>
    match readNumber text with
    | some (b, 59 :: text) =>
      match readNumber text with
      | some (x, 59 :: text) =>
        match readNumber text with
        | some (y, [last]) =>
          if 0 < x ∧ 0 < y ∧ (last = 77 ∨ last = 109) then some ((b, decide (last = 109)), x - 1, y - 1) else none
        | _ => none
      | _ => none
    | _ => none
  | _ => none

/-- One whole report: its number and its position. -/
def readReport (encoding : Encoding) (bytes : List UInt8) : Option ((ℕ × Bool) × ℕ × ℕ) :=
  match encoding with
  | .x10 => readSix (bytes.map UInt8.toNat)
  | .utf8 => (Utf8.decode bytes).bind fun chars => readSix (chars.map Char.toNat)
  | .sgr => readSgr bytes

/-- The button was released and not pressed again. -/
def gone (n : Fin 3) (past : List Event) : Bool :=
  past.foldl (fun g e => if e.released n then true else if e.pressed n then false else g) false

/-- After `past` the event is reported as it should be, or not at all. -/
def Good (past : List Event) (s : State) (e : Event) : Prop :=
  ∃ s' sent, handleMouse s e = some (s', sent) ∧
    (∀ bytes, sent = some bytes →
      readReport e.encoding bytes = some ((classify s e).kind.code e.encoding, e.x, e.y) ∧
        e.protocol.Allows (classify s e).kind ∧
          ∀ n, (classify s e).kind.Names e.encoding n → gone n past = true → e.pressed n = true) ∧
    ∀ n, e.released n = true → s'.old n = false

/-! ### The flags -/

variable {s : State} {e : Event}

def State.held (s : State) : Bool := s.old 0 || s.old 1 || s.old 2

/-- A button is down once the presses of the event are counted. -/
def State.down (s : State) (e : Event) (n : Fin 3) : Bool := s.old n || e.pressed n

/-- A button is down or let go. -/
def State.about (s : State) (e : Event) (n : Fin 3) : Bool := s.down e n || e.released n

def State.anyDown (s : State) (e : Event) : Bool := s.down e 0 || s.down e 1 || s.down e 2

def Event.anyReleased (e : Event) : Bool := e.released 0 || e.released 1 || e.released 2

/-- What is taken for a release: no movement while a button is down counts for one. -/
def State.lifted (s : State) (e : Event) : Bool := e.anyReleased || (s.held && !s.moved e)

/-- What is taken for a movement before the releases are looked at. -/
def State.shifted (s : State) (e : Event) : Bool :=
  (e.wheelUp && s.anyDown e) || (e.position && !(s.held && !s.moved e))

theorem hold_eq (moved : Bool) (r : Reading) (n : Fin 3) : r.hold e moved n =
    { r with old := Function.update r.old n (r.old n || e.pressed n)
             mouse := Function.update r.mouse n (r.mouse n || r.old n || e.pressed n)
             release := r.release || (r.old n && !moved)
             motion := r.motion && !(r.old n && !moved) } := by
  have hsame := Function.update_eq_self n r.old
  unfold Reading.hold
  cases hold : r.old n <;> cases hpressed : e.pressed n <;> cases moved <;> rw [hold] at hsame <;>
    simp [hsame]

theorem letGo_eq (r : Reading) (n : Fin 3) : r.letGo e n =
    { r with old := Function.update r.old n (r.old n && !e.released n)
             mouse := Function.update r.mouse n (r.mouse n || e.released n)
             release := r.release || e.released n
             motion := r.motion && !e.released n } := by
  unfold Reading.letGo
  cases hreleased : e.released n <;> simp

theorem classify_eq (s : State) (e : Event) : classify s e =
    { old := fun n => s.down e n && !e.released n
      mouse := s.about e
      mouse4 := e.wheelUp && !s.anyDown e
      mouse5 := e.wheelDown
      release := s.lifted e
      motion := s.shifted e && !e.anyReleased } := by
  have hthree (f g : Fin 3 → Bool) (h : f 0 = g 0 ∧ f 1 = g 1 ∧ f 2 = g 2) : f = g := by
    funext n
    fin_cases n
    · exact h.1
    · exact h.2.1
    · exact h.2.2
  have hlooked : (((⟨s.old, fun _ => false, false, false, false, e.position⟩ : Reading).hold e (s.moved e) 0).hold e
      (s.moved e) 1).hold e (s.moved e) 2 =
      ⟨s.down e, s.down e, false, false, s.held && !s.moved e, e.position && !(s.held && !s.moved e)⟩ := by
    simp only [hold_eq, Function.update_of_ne, ne_eq, Fin.reduceEq, not_false_eq_true, Bool.false_or, Reading.mk.injEq]
    refine ⟨hthree _ _ ⟨rfl, rfl, rfl⟩, hthree _ _ ⟨rfl, rfl, rfl⟩, trivial, trivial, ?_, ?_⟩
    · simp only [State.held, Bool.and_or_distrib_right]
    · simp only [State.held, Bool.and_or_distrib_right, Bool.not_or, Bool.and_assoc]
  have hwheel : (⟨s.down e, s.down e, false, false, s.held && !s.moved e, e.position && !(s.held && !s.moved e)⟩ :
      Reading).wheel e =
      ⟨s.down e, s.down e, e.wheelUp && !s.anyDown e, false, s.held && !s.moved e, s.shifted e⟩ := by
    unfold Reading.wheel State.shifted
    show (if e.wheelUp && s.anyDown e then _ else _) = _
    cases e.wheelUp <;> cases s.anyDown e <;> simp
  unfold classify
  simp only [hlooked, hwheel]
  have hfive (old mouse : Fin 3 → Bool) (mouse4 release motion : Bool) :
      (if e.wheelDown then (⟨old, mouse, mouse4, true, release, motion⟩ : Reading)
        else ⟨old, mouse, mouse4, false, release, motion⟩) = ⟨old, mouse, mouse4, e.wheelDown, release, motion⟩ := by
    cases e.wheelDown <;> rfl
  rw [hfive]
  simp only [letGo_eq, Function.update_of_ne, ne_eq, Fin.reduceEq, not_false_eq_true, Reading.mk.injEq]
  refine ⟨hthree _ _ ⟨rfl, rfl, rfl⟩, hthree _ _ ⟨rfl, rfl, rfl⟩, trivial, trivial, ?_, ?_⟩
  · simp only [State.lifted, Event.anyReleased, Bool.or_comm (s.held && _), Bool.or_assoc]
  · simp only [Event.anyReleased, Bool.not_or, Bool.and_assoc]

/-! ### A report is read -/

theorem utf8Encode_char (c : Char) : Host.utf8Encode c.val = String.utf8EncodeChar c := by
  unfold Host.utf8Encode String.utf8EncodeChar
  have hmax : c.val.toNat < 0x110000 := by
    rcases c.valid with hlow | ⟨-, hhigh⟩
    · exact Nat.lt_trans hlow (by decide)
    · exact hhigh
  generalize c.val.toNat = n at hmax
  simp only
  rcases Nat.lt_or_ge n 0x80 with hone | hone
  · rw [if_pos hone, if_pos (show n ≤ 127 by omega)]
  rw [if_neg (show ¬ n < 0x80 by omega), if_neg (show ¬ n ≤ 127 by omega)]
  rcases Nat.lt_or_ge n 0x800 with htwo | htwo
  · rw [if_pos htwo, if_pos (show n ≤ 2047 by omega), show n / 64 % 32 = n / 64 by omega]
    simp only [Nat.add_comm]
  rw [if_neg (show ¬ n < 0x800 by omega), if_neg (show ¬ n ≤ 2047 by omega)]
  rcases Nat.lt_or_ge n 0x10000 with hthree | hthree
  · rw [if_pos hthree, if_pos (show n ≤ 65535 by omega), show n / 4096 % 16 = n / 4096 by omega]
    simp only [Nat.add_comm]
  · rw [if_neg (show ¬ n < 0x10000 by omega), if_neg (show ¬ n ≤ 65535 by omega),
      show n / 262144 % 8 = n / 262144 by omega]
    simp only [Nat.add_comm]

theorem toNat_ofNat {n : ℕ} (h : n < 0xd800) : (Char.ofNat n).toNat = n := by
  rw [Char.ofNat, dif_pos (Or.inl h)]
  rfl

theorem readSix_some {l : List ℕ} {v : (ℕ × Bool) × ℕ × ℕ} (h : readSix l = some v) : ∃ b x y,
    l = [27, 91, 77, b, x, y] ∧ 33 ≤ x ∧ 33 ≤ y ∧ v.2 = (x - 33, y - 33) := by
  unfold readSix at h
  split at h
  · next b x y =>
    split at h
    · next hle =>
      obtain rfl := Option.some.inj h
      exact ⟨b, x, y, rfl, hle.2.1, hle.2.2, rfl⟩
    · cases h
  · cases h

theorem readNumber_numeral (n : ℕ) {c : UInt8} (hc : isDigitIn 10 c = false) (rest : List UInt8) :
    readNumber (numeral 10 n ++ c :: rest) = some (n, c :: rest) := by
  have hall : ∀ d ∈ numeral 10 n, isDigitIn 10 d = true := fun d hd =>
    isDigitIn_of_mem (by decide) (by decide) hd
  unfold readNumber
  rw [List.takeWhile_append_of_pos hall, List.dropWhile_append_of_pos hall, List.takeWhile_cons_of_neg (by simp [hc]),
    List.dropWhile_cons_of_neg (by simp [hc]), List.append_nil, if_neg (numeral_ne_nil n),
    value_numeral (by decide) (by decide)]

variable {r : Reading}

/-- A release says that no button moves, and is about one of the three. -/
def Reading.Proper (r : Reading) : Prop :=
  r.release = true → r.motion = false ∧ (r.mouse 0 || r.mouse 1 || r.mouse 2) = true

theorem rawCode_eq (r : Reading) : (r.kind.code .x10 = (rawCode r - 32, false) ∧ r.kind.code .utf8 = (rawCode r - 32, false)) ∧
    32 ≤ rawCode r ∧ rawCode r < 128 := by
  unfold Reading.kind rawCode
  split_ifs <;> exact ⟨⟨rfl, rfl⟩, by decide, by decide⟩

theorem sgrCode_eq (h : r.Proper) : sgrCode r = numeral 10 (r.kind.code .sgr).1 ++ [59] ∧
    (r.kind.code .sgr).2 = r.release ∧ (sgrCode r).length ≤ 3 := by
  unfold Reading.Proper at h
  unfold Reading.kind sgrCode
  cases hrelease : r.release
  · simp only [Bool.false_eq_true, if_false]
    split_ifs <;> exact ⟨rfl, rfl, by decide⟩
  · obtain ⟨hmotion, hmouse⟩ := h hrelease
    simp only [hmotion, Bool.false_eq_true, if_false, if_true]
    cases hzero : r.mouse 0
    · cases hone : r.mouse 1
      · rw [hzero, hone] at hmouse
        simp only [(by simpa using hmouse : r.mouse 2 = true), Bool.false_eq_true, if_false, if_true]
        exact ⟨rfl, rfl, by decide⟩
      · simp only [Bool.false_eq_true, if_false, if_true]
        exact ⟨rfl, rfl, by decide⟩
    · simp only [if_true]
      exact ⟨rfl, rfl, by decide⟩

theorem read_x10 (h : e.encoding = .x10) : readReport .x10 (report e r) = some (r.kind.code .x10, e.x, e.y) ↔
    e.x < 223 ∧ e.y < 223 := by
  obtain ⟨⟨hcode, -⟩, hlow, hhigh⟩ := rawCode_eq r
  have hval (n : ℕ) : (UInt8.ofNat n).toNat = n % 256 := UInt8.toNat_ofNat'
  have hbytes : report e r = ((rawBuffer e r).map UInt8.ofNat).takeWhile (· ≠ 0) := by rw [report, h]
  rw [hbytes]
  constructor
  · intro hread
    obtain ⟨b, x, y, hsix, hx, hy, hplace⟩ := readSix_some hread
    have hfull : ((rawBuffer e r).map UInt8.ofNat).takeWhile (· ≠ 0) = (rawBuffer e r).map UInt8.ofNat :=
      (List.takeWhile_prefix _).eq_of_length (by simpa [rawBuffer] using congrArg List.length hsix)
    rw [hfull] at hsix
    simp only [rawBuffer, List.map_cons, List.map_nil, hval, List.cons.injEq] at hsix
    simp only [Prod.mk.injEq] at hplace
    omega
  · rintro ⟨hx, hy⟩
    have hfull : ((rawBuffer e r).map UInt8.ofNat).takeWhile (· ≠ 0) = (rawBuffer e r).map UInt8.ofNat := by
      rw [List.takeWhile_eq_self_iff]
      intro c hc
      obtain ⟨n, hn, rfl⟩ := List.mem_map.mp hc
      have hrange : 0 < n ∧ n < 256 := by
        simp only [rawBuffer, List.mem_cons, List.not_mem_nil, or_false] at hn
        omega
      have hne : UInt8.ofNat n ≠ 0 := fun h0 => by
        have hzero := congrArg UInt8.toNat h0
        rw [hval] at hzero
        simp at hzero
        omega
      simpa using hne
    rw [hfull]
    simp only [readReport, rawBuffer, List.map_cons, List.map_nil, hval, Nat.mod_eq_of_lt (show rawCode r < 256 by omega),
      Nat.mod_eq_of_lt (show e.x + 33 < 256 by omega), Nat.mod_eq_of_lt (show e.y + 33 < 256 by omega)]
    rw [hcode]
    show (if _ then _ else _) = _
    rw [if_pos ⟨hlow, by omega, by omega⟩]
    rfl

theorem read_utf8 (h : e.encoding = .utf8) :
    readReport .utf8 (report e r) = some (r.kind.code .utf8, e.x, e.y) := by
  obtain ⟨⟨-, hcode⟩, hlow, hhigh⟩ := rawCode_eq r
  have hx := e.column
  have hy := e.row
  have hrange : ∀ n ∈ rawBuffer e r, 0 < n ∧ n < 0xd800 := by
    intro n hn
    simp only [rawBuffer, List.mem_cons, List.not_mem_nil, or_false] at hn
    omega
  have hchar : ∀ n ∈ rawBuffer e r, (Char.ofNat n).toNat = n := fun n hn => toNat_ofNat (hrange n hn).2
  have hencode : (rawBuffer e r).flatMap (fun n => Host.utf8Encode (UInt32.ofNat n)) =
      utf8 ((rawBuffer e r).map Char.ofNat) := by
    rw [utf8, List.flatMap_map]
    refine List.flatMap_congr fun n hn => ?_
    have hval : UInt32.ofNat n = (Char.ofNat n).val := UInt32.toNat_inj.mp (by
      rw [UInt32.toNat_ofNat_of_lt' (Nat.lt_trans (hrange n hn).2 (by decide))]
      exact (hchar n hn).symm)
    rw [hval, utf8Encode_char]
  have hfull : (utf8 ((rawBuffer e r).map Char.ofNat)).takeWhile (· ≠ 0) =
      utf8 ((rawBuffer e r).map Char.ofNat) := by
    rw [List.takeWhile_eq_self_iff]
    intro b hb
    have hne : b ≠ 0 := fun h0 => by
      have hnul := (Utf8.mem_ascii (c := Char.ofNat 0) (by decide)).mp (h0 ▸ hb)
      obtain ⟨n, hn, hzero⟩ := List.mem_map.mp hnul
      have hpos := hchar n hn
      rw [hzero] at hpos
      exact absurd (hrange n hn).1 (by rw [← hpos]; decide)
    simpa using hne
  have hbytes : report e r = utf8 ((rawBuffer e r).map Char.ofNat) := by
    rw [report, h]
    exact (congrArg _ hencode).trans hfull
  have hback : ((rawBuffer e r).map Char.ofNat).map Char.toNat = rawBuffer e r := by
    rw [List.map_map]
    exact (List.map_congr_left hchar).trans (List.map_id _)
  rw [readReport, hbytes, Utf8.decode_utf8, Option.bind_some, hback, hcode]
  show (if _ then _ else _) = _
  rw [if_pos ⟨hlow, by omega, by omega⟩]
  rfl

theorem read_sgr (h : e.encoding = .sgr) (hproper : r.Proper) :
    readReport .sgr (report e r) = some (r.kind.code .sgr, e.x, e.y) := by
  obtain ⟨hcode, hlast, hshort⟩ := sgrCode_eq hproper
  have hcolumn : (numeral 10 (e.x + 1)).length ≤ 3 :=
    length_numeral_le (by decide) (by decide) (Nat.lt_of_le_of_lt e.column (by decide))
  have hrow : (numeral 10 (e.y + 1)).length ≤ 5 :=
    length_numeral_le (by decide) (by decide) (Nat.lt_of_le_of_lt e.row (by decide))
  have hbytes : report e r = [27, 91, 60] ++ (numeral 10 (r.kind.code .sgr).1 ++ 59 ::
      (numeral 10 (e.x + 1) ++ 59 :: (numeral 10 (e.y + 1) ++ [if r.release then 109 else 77]))) := by
    have hfirst : snprintf [27, 91, 60] (sgrCode r) = [27, 91, 60] ++ sgrCode r := by
      rw [snprintf, List.take_of_length_le (by simpa using by omega)]
    have hsecond : snprintf ([27, 91, 60] ++ sgrCode r) (numeral 10 (e.x + 1) ++ 59 :: numeral 10 (e.y + 1)) =
        ([27, 91, 60] ++ sgrCode r) ++ (numeral 10 (e.x + 1) ++ 59 :: numeral 10 (e.y + 1)) := by
      rw [snprintf, List.take_of_length_le]
      simp only [List.length_append, List.length_cons, List.length_nil]
      omega
    rw [report, h]
    show sgrBuffer e r = _
    simp only [sgrBuffer, hfirst, hsecond]
    rw [hcode]
    simp only [List.append_assoc, List.cons_append, List.nil_append]
  have hend (c : UInt8) (hc : c = 109 ∨ c = 77) : isDigitIn 10 c = false := by
    rcases hc with rfl | rfl <;> decide
  rw [hbytes, readReport]
  simp only [readSgr, List.cons_append, List.nil_append, readNumber_numeral _ (by decide : isDigitIn 10 59 = false)]
  rw [readNumber_numeral _ (hend _ (by cases r.release <;> simp))]
  have hnumber : ((r.kind.code .sgr).1, r.release) = r.kind.code .sgr := by rw [← hlast]
  rw [← hnumber]
  cases r.release
  · exact if_pos ⟨Nat.succ_pos _, Nat.succ_pos _, Or.inl rfl⟩
  · exact if_pos ⟨Nat.succ_pos _, Nat.succ_pos _, Or.inr rfl⟩

/-- A report is whole and tells the position, unless a coordinate is too large for the byte that it is
squeezed into. -/
theorem read_report_iff (e : Event) (hproper : r.Proper) :
    readReport e.encoding (report e r) = some (r.kind.code e.encoding, e.x, e.y) ↔
      (e.encoding = .x10 → e.x < 223 ∧ e.y < 223) := by
  cases hencoding : e.encoding with
  | x10 => exact (read_x10 hencoding).trans ⟨fun h _ => h, fun h => h rfl⟩
  | utf8 => exact iff_of_true (read_utf8 hencoding) fun h => nomatch h
  | sgr => exact iff_of_true (read_sgr hencoding hproper) fun h => nomatch h

/-! ### When it goes well -/

/-- A button or the wheel is in the event. -/
def State.any (s : State) (e : Event) : Bool :=
  s.about e 0 || s.about e 1 || s.about e 2 || e.wheelUp || e.wheelDown

/-- The protocol is for the event. -/
def Heard (s : State) (e : Event) : Prop :=
  match e.protocol with
  | .off => False
  | .x10 => s.lifted e = false ∧ s.shifted e = false
  | .normal => s.lifted e = true ∨ s.shifted e = false
  | .buttonEvent => s.shifted e = false ∨ s.any e = true
  | .anyEvent => True

/-- The wheel turns while a button is down that has not moved: what the button is taken for and what
the wheel is taken for do not go together. -/
def Clashes (s : State) (e : Event) : Prop :=
  e.protocol ≠ .off ∧ e.protocol ≠ .x10 ∧ e.wheelUp = true ∧ s.held = true ∧ s.moved e = false ∧ e.anyReleased = false

structure Meets (past : List Event) (s : State) (e : Event) : Prop where
  /-- No release is thrown away. -/
  away : (e.console && e.online) = false → ∀ n, e.released n = true → s.old n = false
  clash : (e.console && e.online) = true → ¬ Clashes s e
  /-- The coordinates fit into a byte. -/
  narrow : (e.console && e.online) = true → Heard s e → e.encoding = .x10 → e.x < 223 ∧ e.y < 223
  /-- There is something in the event that the protocol is for. -/
  blank : (e.console && e.online) = true → e.protocol ≠ .off → e.protocol ≠ .anyEvent →
    s.any e = true ∨ e.position = true
  /-- No button is released once more that is up and is the first of those in the event. -/
  twice : (e.console && e.online) = true → Heard s e → e.encoding = .sgr → ∀ n, gone n past = true →
    e.released n = true → e.pressed n = false → ∃ k, k < n ∧ s.about e k = true

theorem kind_moved_iff (r : Reading) : r.kind = .moved ↔ r.release = false ∧
    (r.mouse 0 || r.mouse 1 || r.mouse 2 || r.mouse4 || r.mouse5) = false := by
  unfold Reading.kind
  split_ifs <;> simp_all

/-- What is not moved is a press or a release, if no button moves. -/
theorem kind_still (h : r.release = true ∨ r.motion = false) :
    ((∃ n, r.kind = .press n) ∨ ∃ n, r.kind = .release n) ↔ r.kind ≠ .moved := by
  unfold Reading.kind
  split_ifs <;> simp_all

theorem kind_release_iff (r : Reading) : (∃ n, r.kind = .release n) ↔ r.release = true := by
  unfold Reading.kind
  split_ifs <;> simp_all

theorem any_eq (s : State) (e : Event) : s.any e =
    ((classify s e).mouse 0 || (classify s e).mouse 1 || (classify s e).mouse 2 || (classify s e).mouse4 ||
      (classify s e).mouse5) := by
  rw [classify_eq]
  simp only [State.any, State.about, State.anyDown]
  cases s.down e 0 <;> cases s.down e 1 <;> cases s.down e 2 <;> cases e.wheelUp <;> simp

theorem any_of_lifted (h : s.lifted e = true) : s.any e = true := by
  simp only [State.lifted, Event.anyReleased, State.held, State.any, State.about, State.down, Bool.or_eq_true,
    Bool.and_eq_true] at *
  tauto

theorem any_of_held (h : s.held = true) : s.anyDown e = true := by
  simp only [State.held, State.anyDown, State.down, Bool.or_eq_true] at *
  tauto

theorem any_of_down (h : s.anyDown e = true) : s.any e = true := by
  simp only [State.any, State.about, State.anyDown, Bool.or_eq_true] at *
  tauto

theorem any_of_released (h : e.anyReleased = true) : s.any e = true :=
  any_of_lifted (by rw [State.lifted, h, Bool.true_or])

/-- An event with no button in it is a movement if it says so. -/
theorem shifted_of_none (h : s.any e = false) : s.shifted e = e.position := by
  have hheld : s.held = false := by
    by_contra hne
    exact absurd (any_of_down (any_of_held (e := e) (Bool.eq_true_of_not_eq_false hne))) (by rw [h]; decide)
  have hwheel : e.wheelUp = false := by
    by_contra hne
    simp [State.any, Bool.eq_true_of_not_eq_false hne] at h
  simp [State.shifted, hheld, hwheel]

theorem passes_iff (s : State) (e : Event) : passes e.protocol (classify s e) = true ↔ Heard s e := by
  have hany := any_eq s e
  have hlifted : e.anyReleased = true → s.lifted e = true := fun h => by rw [State.lifted, h, Bool.true_or]
  have hreleased := any_of_released (s := s) (e := e)
  rw [classify_eq] at hany ⊢
  unfold Heard passes
  cases e.protocol with
  | off => simp
  | x10 =>
    simp only
    cases hl : s.lifted e <;> cases hs : s.shifted e <;> cases hr : e.anyReleased <;> simp_all
  | normal =>
    simp only
    cases hl : s.lifted e <;> cases hs : s.shifted e <;> cases hr : e.anyReleased <;> simp_all
  | buttonEvent =>
    simp only at hany ⊢
    cases hr : e.anyReleased
    · cases hs : s.shifted e
      · simp
      · simp only [hany]
        simp [Bool.and_assoc, Bool.or_assoc]
    · simp [hreleased hr]
  | anyEvent => simp

/-- The assertion fails in a clash. -/
theorem clashes_iff (s : State) (e : Event) :
    (Heard s e ∧ ((classify s e).motion && (classify s e).release) = true) ↔ Clashes s e := by
  rw [classify_eq]
  simp only [Bool.and_eq_true, Bool.not_eq_true']
  constructor
  · rintro ⟨hheard, ⟨hshifted, hreleased⟩, hlifted⟩
    have hheld : s.held = true ∧ s.moved e = false := by simpa [State.lifted, hreleased] using hlifted
    have hwheel : e.wheelUp = true := by
      simp only [State.shifted, hheld.1, hheld.2, Bool.not_false, Bool.and_true, Bool.not_true, Bool.and_false,
        Bool.or_false, Bool.and_eq_true] at hshifted
      exact hshifted.1
    refine ⟨fun hoff => ?_, fun hx10 => ?_, hwheel, hheld.1, hheld.2, hreleased⟩
    · rw [Heard, hoff] at hheard
      exact hheard
    · rw [Heard, hx10] at hheard
      exact absurd (hlifted.symm.trans hheard.1) (by decide)
  · rintro ⟨hoff, hx10, hwheel, hheld, hmoved, hreleased⟩
    have hdown := any_of_held (e := e) hheld
    have hlifted : s.lifted e = true := by simp [State.lifted, hheld, hmoved]
    have hshifted : s.shifted e = true := by simp [State.shifted, hwheel, hdown]
    refine ⟨?_, ⟨hshifted, hreleased⟩, hlifted⟩
    unfold Heard
    cases hprotocol : e.protocol with
    | off => exact hoff hprotocol
    | x10 => exact (hx10 hprotocol).elim
    | normal => exact Or.inl hlifted
    | buttonEvent => exact Or.inr (any_of_down hdown)
    | anyEvent => trivial

/-- An event with nothing in it is not kept back. -/
theorem heard_of_blank (hoff : e.protocol ≠ .off) (hany : s.any e = false)
    (hposition : e.position = false) : Heard s e := by
  have hshifted := (shifted_of_none hany).trans hposition
  unfold Heard
  cases hprotocol : e.protocol with
  | off => exact hoff hprotocol
  | x10 =>
    refine ⟨?_, hshifted⟩
    by_contra hlifted
    exact absurd (any_of_lifted (Bool.eq_true_of_not_eq_false hlifted)) (by rw [hany]; decide)
  | normal => exact Or.inr hshifted
  | buttonEvent => exact Or.inl hshifted
  | anyEvent => trivial

theorem allows_iff (hheard : Heard s e) : e.protocol.Allows (classify s e).kind ↔
    (e.protocol ≠ .off → e.protocol ≠ .anyEvent → s.any e = true ∨ e.position = true) := by
  have hpasses := (passes_iff s e).mpr hheard
  have hmoved := kind_moved_iff (classify s e)
  rw [← any_eq] at hmoved
  have hstill (h : s.any e = false) : (classify s e).release = false := by
    by_contra hne
    rw [classify_eq] at hne
    exact absurd (any_of_lifted (Bool.eq_true_of_not_eq_false hne)) (by rw [h]; decide)
  have hkind : (classify s e).kind ≠ .moved ↔ s.any e = true := by
    rw [Ne, hmoved]
    cases hany : s.any e
    · simp [hstill hany]
    · simp
  have hposition (h : s.shifted e = false) : s.any e = true ↔ s.any e = true ∨ e.position = true := by
    cases hany : s.any e
    · rw [shifted_of_none hany] at h
      simp [h]
    · simp
  have hmotion (h : s.lifted e = true ∨ s.shifted e = false) :
      (classify s e).release = true ∨ (classify s e).motion = false := by
    rw [classify_eq]
    exact h.imp id fun hs => by simp [hs]
  unfold Heard at hheard
  cases hprotocol : e.protocol with
  | off => simp [hprotocol] at hheard
  | x10 =>
    simp only [hprotocol] at hheard
    have hstay := kind_still (hmotion (Or.inr hheard.2))
    have hnone : ¬ ∃ n, (classify s e).kind = .release n := by
      rw [kind_release_iff, classify_eq]
      simp [hheard.1]
    rw [or_iff_left hnone, hkind, hposition hheard.2] at hstay
    simpa [Protocol.Allows] using hstay
  | normal =>
    simp only [hprotocol] at hheard
    have hstay := kind_still (hmotion hheard)
    rw [hkind] at hstay
    have hor : s.any e = true ↔ s.any e = true ∨ e.position = true := by
      rcases hheard with h | h
      · simp [any_of_lifted h]
      · exact hposition h
    rw [hor] at hstay
    simpa [Protocol.Allows] using hstay
  | buttonEvent =>
    simp only [hprotocol] at hheard
    have hor : s.any e = true ↔ s.any e = true ∨ e.position = true := by
      rcases hheard with h | h
      · exact hposition h
      · simp [h]
    rw [hor] at hkind
    simpa [Protocol.Allows] using hkind
  | anyEvent => simp [Protocol.Allows]

theorem kind_named (n : Fin 3) (h : r.kind = .press (n.castLE (by decide)) ∨ r.kind = .drag n) :
    r.release = false ∧ r.mouse n = true := by
  unfold Reading.kind at h
  fin_cases n <;> split_ifs at h <;> simp_all [Fin.ext_iff]

theorem kind_released (h : r.Proper) (n : Fin 3) : r.kind = .release n ↔
    r.release = true ∧ r.mouse n = true ∧ ∀ k, k < n → r.mouse k = false := by
  unfold Reading.Proper at h
  unfold Reading.kind
  fin_cases n <;> split_ifs <;> simp_all [Fin.forall_fin_succ]

/-- After a release nothing is left of the button but what the event has of it. -/
theorem names_iff (past : List Event) (hgone : ∀ n, gone n past = true → s.old n = false)
    (hproper : (classify s e).Proper) :
    (∀ n, (classify s e).kind.Names e.encoding n → gone n past = true → e.pressed n = true) ↔
      (e.encoding = .sgr → ∀ n, gone n past = true → e.released n = true → e.pressed n = false →
        ∃ k, k < n ∧ s.about e k = true) := by
  have hmouse (n : Fin 3) : (classify s e).mouse n = s.about e n := by rw [classify_eq]
  have hrelease (n : Fin 3) (h : e.released n = true) : (classify s e).release = true := by
    rw [classify_eq]
    have hany : e.anyReleased = true := by
      fin_cases n <;> simp_all [Event.anyReleased]
    simp [State.lifted, hany]
  constructor
  · intro hnames hsgr n hpast hreleased hpressed
    by_contra hfirst
    push Not at hfirst
    have habout : s.about e n = true := by rw [State.about, hreleased, Bool.or_true]
    have hkind := (kind_released hproper n).mpr ⟨hrelease n hreleased, (hmouse n).trans habout,
      fun k hk => (hmouse k).trans (Bool.eq_false_of_not_eq_true (hfirst k hk))⟩
    exact absurd (hnames n (by rw [hkind]; exact ⟨hsgr, rfl⟩) hpast) (by rw [hpressed]; decide)
  · intro htwice n hnamed hpast
    by_contra hpressed
    have hpressed := Bool.eq_false_of_not_eq_true hpressed
    have habout : s.about e n = e.released n := by
      rw [State.about, State.down, hgone n hpast, hpressed, Bool.or_false, Bool.false_or]
    cases hkind : (classify s e).kind with
    | press k =>
      rw [hkind] at hnamed
      obtain rfl : k = n.castLE (by decide) := hnamed
      obtain ⟨hlet, hthis⟩ := kind_named n (Or.inl hkind)
      rw [hmouse, habout] at hthis
      exact absurd (hrelease n hthis) (by rw [hlet]; decide)
    | drag k =>
      rw [hkind] at hnamed
      obtain rfl : k = n := hnamed
      obtain ⟨hlet, hthis⟩ := kind_named k (Or.inr hkind)
      rw [hmouse, habout] at hthis
      exact absurd (hrelease k hthis) (by rw [hlet]; decide)
    | release k =>
      rw [hkind] at hnamed
      obtain ⟨hsgr, rfl⟩ := hnamed
      obtain ⟨-, hthis, hfirst⟩ := (kind_released hproper k).mp hkind
      rw [hmouse, habout] at hthis
      obtain ⟨j, hj, hbefore⟩ := htwice hsgr k hpast hthis hpressed
      exact absurd (hfirst j hj) (by rw [hmouse, hbefore]; decide)
    | moved =>
      rw [hkind] at hnamed
      exact hnamed

theorem handleMouse_away (h : (e.console && e.online) = false) : handleMouse s e = some (s, none) := by
  unfold handleMouse
  cases hconsole : e.console
  · rfl
  · rw [hconsole, Bool.true_and] at h
    rw [h]
    rfl

theorem handleMouse_here (h : (e.console && e.online) = true) : handleMouse s e =
    if !passes e.protocol (classify s e) then some (⟨(classify s e).old, e.x, e.y⟩, none)
    else if (classify s e).motion && (classify s e).release then none
    else some (⟨(classify s e).old, e.x, e.y⟩, some (report e (classify s e))) := by
  obtain ⟨hconsole, honline⟩ := Bool.and_eq_true_iff.mp h
  unfold handleMouse
  rw [hconsole, honline]
  rfl

theorem old_released (n : Fin 3) (h : e.released n = true) : (classify s e).old n = false := by
  rw [classify_eq]
  simp [h]

theorem proper_classify (h : ((classify s e).motion && (classify s e).release) = false) : (classify s e).Proper := by
  intro hrelease
  rw [hrelease, Bool.and_true] at h
  refine ⟨h, ?_⟩
  rw [classify_eq] at hrelease ⊢
  simp only [State.lifted, Event.anyReleased, State.held, State.about, State.down, Bool.or_eq_true,
    Bool.and_eq_true] at *
  tauto

theorem good_iff {past : List Event} (hgone : ∀ n, gone n past = true → s.old n = false) :
    Good past s e ↔ Meets past s e := by
  cases hhere : e.console && e.online with
  | false =>
    have hnone (P : Prop) : (e.console && e.online) = true → P := fun h => by rw [hhere] at h; cases h
    constructor
    · rintro ⟨s', sent, hhandle, -, hold⟩
      rw [handleMouse_away hhere] at hhandle
      obtain ⟨rfl, -⟩ := Prod.mk.injEq .. ▸ Option.some.inj hhandle
      exact ⟨fun _ => hold, hnone _, hnone _, hnone _, hnone _⟩
    · intro h
      exact ⟨s, none, handleMouse_away hhere, (fun _ hsent => nomatch hsent), h.away hhere⟩
  | true =>
    have haway (P : Prop) : (e.console && e.online) = false → P := fun h => by rw [hhere] at h; cases h
    unfold Good
    rw [handleMouse_here hhere]
    by_cases hheard : Heard s e
    · rw [(passes_iff s e).mpr hheard]
      cases hfails : (classify s e).motion && (classify s e).release with
      | true =>
        have hclash := (clashes_iff s e).mp ⟨hheard, hfails⟩
        constructor
        · rintro ⟨s', sent, hhandle, -⟩
          cases hhandle
        · intro h
          exact absurd hclash (h.clash hhere)
      | false =>
        have hproper := proper_classify hfails
        have hclash : ¬ Clashes s e := fun h => by
          rw [((clashes_iff s e).mpr h).2] at hfails
          cases hfails
        constructor
        · rintro ⟨s', sent, hhandle, hsent, -⟩
          obtain ⟨rfl, rfl⟩ := Prod.mk.injEq .. ▸ Option.some.inj hhandle
          obtain ⟨hread, hallows, hnames⟩ := hsent _ rfl
          exact ⟨haway _, fun _ => hclash, fun _ _ => (read_report_iff e hproper).mp hread,
            fun _ => (allows_iff hheard).mp hallows, fun _ _ => (names_iff past hgone hproper).mp hnames⟩
        · intro h
          refine ⟨_, _, rfl, fun bytes hbytes => ?_, fun n => old_released n⟩
          obtain rfl := Option.some.inj hbytes
          exact ⟨(read_report_iff e hproper).mpr (h.narrow hhere hheard), (allows_iff hheard).mpr (h.blank hhere),
            (names_iff past hgone hproper).mpr (h.twice hhere hheard)⟩
    · rw [Bool.eq_false_of_not_eq_true (mt (passes_iff s e).mp hheard)]
      refine iff_of_true ⟨_, _, rfl, (fun _ hsent => nomatch hsent), fun n => old_released n⟩ ?_
      refine ⟨haway _, fun _ h => hheard ((clashes_iff s e).mpr h).1, fun _ h => absurd h hheard, fun _ hoff _ => ?_,
        fun _ h => absurd h hheard⟩
      by_contra hblank
      push Not at hblank
      exact hheard (heard_of_blank hoff (Bool.eq_false_of_not_eq_true hblank.1)
        (Bool.eq_false_of_not_eq_true hblank.2))

/-! ### Runs -/

theorem run_append (past : List Event) (e : Event) (s : State) :
    run (past ++ [e]) s = (run past s).bind fun s' => (handleMouse s' e).map Prod.fst := by
  induction past generalizing s with
  | nil => simp [run, Option.map_eq_bind]
  | cons d past ih =>
    simp only [List.cons_append, run, Option.bind_assoc]
    exact congrArg _ (funext fun r => ih r.1)

theorem gone_append (n : Fin 3) (past : List Event) (e : Event) : gone n (past ++ [e]) =
    if e.released n then true else if e.pressed n then false else gone n past := by
  rw [gone, List.foldl_append]
  rfl

/-- A button that is up stays up until it is pressed. -/
theorem old_kept {s' : State} {sent : Option (List UInt8)} (h : handleMouse s e = some (s', sent)) (n : Fin 3)
    (hold : s.old n = false) (hpressed : e.pressed n = false) : s'.old n = false := by
  cases hhere : e.console && e.online with
  | false =>
    rw [handleMouse_away hhere] at h
    obtain ⟨rfl, -⟩ := Prod.mk.injEq .. ▸ Option.some.inj h
    exact hold
  | true =>
    have hreading : (classify s e).old n = false := by
      rw [classify_eq]
      simp [State.down, hold, hpressed]
    rw [handleMouse_here hhere] at h
    split_ifs at h
    · obtain ⟨rfl, -⟩ := Prod.mk.injEq .. ▸ Option.some.inj h
      exact hreading
    · obtain ⟨rfl, -⟩ := Prod.mk.injEq .. ▸ Option.some.inj h
      exact hreading

/-- Along a run whose steps are good one after the other, no button is down that was released. -/
theorem run_good {events : List Event}
    (hstep : ∀ past e rest s, events = past ++ e :: rest → run past start = some s →
      (∀ n, gone n past = true → s.old n = false) → Good past s e) (past : List Event) :
    ∀ rest, events = past ++ rest → ∃ s, run past start = some s ∧ ∀ n, gone n past = true → s.old n = false := by
  induction past using List.reverseRecOn with
  | nil => exact fun _ _ => ⟨start, rfl, fun _ h => nomatch h⟩
  | append_singleton past e ih =>
    intro rest hevents
    rw [List.append_assoc] at hevents
    obtain ⟨s, hrun, hgone⟩ := ih _ hevents
    obtain ⟨s', sent, hhandle, -, hold⟩ := hstep past e rest s hevents hrun hgone
    refine ⟨s', ?_, fun n hn => ?_⟩
    · rw [run_append, hrun, Option.bind_some, hhandle]
      rfl
    · rw [gone_append] at hn
      split_ifs at hn with hreleased hpressed
      · exact hold n hreleased
      · exact old_kept hhandle n (hgone n hn) (Bool.eq_false_of_not_eq_true hpressed)

/-- The events of a run are all reported as they should be just when none of them is thrown away with
a release in it, clashes, does not fit, is blank, or releases a button twice. -/
theorem reports_good_iff (events : List Event) :
    (∀ past e rest, events = past ++ e :: rest → ∃ s, run past start = some s ∧ Good past s e) ↔
      ∀ past e rest, events = past ++ e :: rest → ∀ s, run past start = some s → Meets past s e := by
  constructor
  · intro hgood past e rest hevents s hrun
    obtain ⟨s', hrun', hgone⟩ := run_good (fun past e rest s hevents hrun _ => by
      obtain ⟨s', hrun', h⟩ := hgood past e rest hevents
      obtain rfl := Option.some.inj (hrun.symm.trans hrun')
      exact h) past (e :: rest) hevents
    obtain rfl := Option.some.inj (hrun.symm.trans hrun')
    obtain ⟨s', hrun', h⟩ := hgood past e rest hevents
    obtain rfl := Option.some.inj (hrun.symm.trans hrun')
    exact (good_iff hgone).mp h
  · intro hmeets past e rest hevents
    have hstep (past : List Event) (e : Event) (rest : List Event) (s : State) (hevents : events = past ++ e :: rest)
        (hrun : run past start = some s) (hgone : ∀ n, gone n past = true → s.old n = false) : Good past s e :=
      (good_iff hgone).mpr (hmeets past e rest hevents s hrun)
    obtain ⟨s, hrun, hgone⟩ := run_good hstep past (e :: rest) hevents
    exact ⟨s, hrun, hstep past e rest s hevents hrun hgone⟩

/-- A button goes down. -/
def pressOne : Event :=
  { x := 5, y := 5, position := false, pressed := fun n => n = 0, released := fun _ => false, wheelUp := false,
    wheelDown := false, console := true, online := true, protocol := .normal, encoding := .sgr }

/-- The wheel turns at the same place. -/
def wheelThere : Event := { pressOne with pressed := fun _ => false, wheelUp := true }

theorem not_reports_good : ¬ ∀ (events past : List Event) (e : Event) (rest : List Event),
    events = past ++ e :: rest → ∃ s, run past start = some s ∧ Good past s e := by
  intro h
  obtain ⟨s, hrun, s', sent, hhandle, -⟩ := h [pressOne, wheelThere] [pressOne] wheelThere [] rfl
  obtain rfl := Option.some.inj hrun
  have hfails : handleMouse ⟨(classify start pressOne).old, 5, 5⟩ wheelThere = none := rfl
  cases hfails.symm.trans hhandle

end CProgram.Qodem.Mouse
