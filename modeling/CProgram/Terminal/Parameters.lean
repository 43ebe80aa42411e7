import CProgram.Lib.Strings
import CProgram.Terminal.Collecting
import CProgram.Terminal.Moves
import Mathlib.Data.List.GetD

/-! The sequences of ANSI.SYS with their parameters: a number that is left out counts as 1, and in `m` as 0. -/
namespace CProgram.Terminal.Collected.Parameters
open CProgram.Programs
open Strings (joined)

/-- A number from 0 to 999 as it is sent. -/
structure Number where
  digits : List UInt8
  some : digits ≠ []
  few : digits.length ≤ 3
  plain : ∀ ch ∈ digits, isDigit ch = true

def Number.value (n : Number) : ℕ := n.digits.foldl (fun sum ch => sum * 10 + digit ch) 0

/-- A parameter, which can be left out. -/
abbrev Parameter := Option Number

def sent (p : Parameter) : List UInt8 := p.elim [] Number.digits

/-- The bytes between `CSI` and the code. -/
def body (ps : List Parameter) : List UInt8 := joined (code ';') (ps.map sent)

def sequence (ps : List Parameter) (final : Char) : List UInt8 := escape :: code '[' :: (body ps ++ [code final])

/-- A parameter with a default. -/
def amount (default : ℕ) (p : Parameter) : ℕ := p.elim default Number.value

/-- A row or a column from 0, of one from 1 where 0 counts as 1. -/
def fromOne (p : Parameter) : ℕ := max (amount 1 p) 1 - 1

/-- The attributes with the two colors beside them. -/
def painted (now : Attr × ℕ × ℕ) : Attr := { now.1 with pair := now.2.1 * 8 + now.2.2 }

def paint (cfg : Config) (now : Attr × ℕ × ℕ) (n : ℕ) : Attr × ℕ × ℕ := ansiColorOne cfg n now.1 now.2.1 now.2.2

/-- The color after some parameters of `m`. -/
def sgr (cfg : Config) (ns : List ℕ) (color : Attr) : Attr :=
  painted (ns.foldl (paint cfg) ({ color with pair := 0 }, color.pair / 8 % 8, color.pair % 8))

/-- The codes, and how many parameters they have. -/
inductive Code where
  | cup | hvp | cha | vpa | ich | dch | il | dl | cht | rep | sgr
  deriving DecidableEq

def Code.final : Code → Char
  | .cup => 'H' | .hvp => 'f' | .cha => 'G' | .vpa => 'd' | .ich => '@' | .dch => 'P' | .il => 'L' | .dl => 'M'
  | .cht => 'I' | .rep => 'b' | .sgr => 'm'

/-- The lists of parameters that a code can have. -/
def Code.Takes : Code → List Parameter → Prop
  | .cup, ps | .hvp, ps => ps.length ≤ 2
  | .sgr, _ => True
  | _, ps => ps.length ≤ 1

/-- What a code is to do. -/
def Code.actions (s : State) (ps : List Parameter) : Code → List Action
  | .cup | .hvp => [.cursorPosition (fromOne (ps.getD 0 none)) (fromOne (ps.getD 1 none))]
  | .cha => [.cursorColumn (fromOne (ps.getD 0 none))]
  | .vpa => [.cursorRow (fromOne (ps.getD 0 none))]
  | .ich => [.insertBlanks (amount 1 (ps.getD 0 none))]
  | .dch => [.deleteCharacter (amount 1 (ps.getD 0 none))]
  | .il => [.scrollDown (amount 1 (ps.getD 0 none))]
  | .dl => [.scrollUp (amount 1 (ps.getD 0 none))]
  | .cht => [.tab (amount 1 (ps.getD 0 none))]
  | .rep => [.repeatChar s.repCharacter (amount 1 (ps.getD 0 none))]
  | .sgr => []

/-- The color that a code is to leave; `m` without parameters has one that is left out. -/
def Code.color (cfg : Config) (s : State) (ps : List Parameter) : Code → Attr
  | .sgr => Parameters.sgr cfg ((if ps = [] then [none] else ps).map (amount 0)) s.color
  | _ => s.color

def act : Event → Option Action
  | .act action => some action
  | _ => none

/-- Nothing goes to the screen as text. -/
def Silent (events : List Event) : Prop := ∀ e ∈ events, e ≠ .rejected ∧ ∀ ch, e ≠ .print ch

/-- A sequence does what its code is to do, and nothing else. -/
def Means (cfg : Config) (s : State) (c : Code) (ps : List Parameter) : Prop :=
  ∃ next events, feed cfg s (sequence ps c.final) = some (next, events) ∧ Silent events ∧
    events.filterMap act = c.actions s ps ∧ next.color = c.color cfg s ps ∧ next.scan = .none ∧ next.kept = []

/-- Where the parsers do what is meant. -/
def Read (cfg : Config) : Code → List Parameter → Prop
  | .cup, ps | .hvp, ps => ps.length = 2 → (ps.getD 0 none).isSome = (ps.getD 1 none).isSome
  | .cha, ps | .vpa, ps => amount 1 (ps.getD 0 none) ≠ 0
  | .cht, ps => ps.getD 0 none = none
  | .dl, ps => ps.getD 0 none = none → cfg.ansiMusic = false
  | .sgr, ps => 2 ≤ ps.length → none ∉ ps
  | _, _ => True

/-- `q_current_color` after `CSI m` is that of the console. -/
def Console (cfg : Config) : Prop :=
  cfg.consoleText = { bold := cfg.consoleBold, pair := cfg.consoleFg * 8 + cfg.consoleBg }

/-- Between two sequences. -/
structure Ground (cfg : Config) (s : State) : Prop where
  ansi : cfg.emulator = .ansi
  scan : s.scan = .none
  kept : s.kept = []
  last : s.lastState ≠ .manyChars

/-! ### One byte -/

variable {cfg : Config} {s : State} {ch : UInt8}

theorem receive_quiet (he : cfg.emulator = .ansi) (hlast : s.lastState ≠ .manyChars) (hroom : s.kept.length < room - 1)
    (hch : ch ≠ 13 ∧ ch ≠ 10) {reply : Reply} (hreply : ansi cfg s ch = some reply)
    (hstatus : reply.status = .noCharYet) :
    receive cfg s ch = some ({ reply.state with lastState := .noCharYet }, reply.events) := by
  have hjunk : junk s = s := if_neg (by omega)
  rw [receive, terminalEmulator, hjunk]
  dsimp only
  rw [if_neg hlast, if_neg (by simp [hch.1]), if_neg (by simp [hch.2]), emulate, he]
  dsimp only
  rw [hreply, Option.map_some, Option.bind_some, Reply.remember, hstatus]
  simp [drain, room]

theorem drain_events (fuel : ℕ) {reply : Reply} {t : State} {events : List Event}
    (h : drain cfg fuel reply = some (t, events)) : ∀ e ∈ reply.events, e ∈ events := by
  intro e he
  cases fuel with
  | zero => simp [drain] at h
  | succ fuel =>
    rw [drain] at h
    split at h
    · obtain ⟨-, rfl⟩ := Prod.mk.inj (Option.some.inj h)
      exact List.mem_append_left _ he
    · obtain ⟨-, rfl⟩ := Prod.mk.inj (Option.some.inj h)
      exact he
    · obtain ⟨next, -, h⟩ := Option.bind_eq_some_iff.1 h
      obtain ⟨rest, -, h⟩ := Option.map_eq_some_iff.1 h
      obtain ⟨-, rfl⟩ := Prod.mk.inj h
      exact List.mem_append_left _ he

/-- A rejected sequence is not silent. -/
theorem receive_rejected (he : cfg.emulator = .ansi) (hlast : s.lastState ≠ .manyChars)
    (hroom : s.kept.length < room - 1) (hch : ch ≠ 13 ∧ ch ≠ 10) {t : State} (hreply : ansi cfg s ch = unknown t ch)
    {next : State} {events : List Event} (h : receive cfg s ch = some (next, events)) : ¬ Silent events := by
  have hjunk : junk s = s := if_neg (by omega)
  rw [receive, terminalEmulator, hjunk] at h
  rw [if_neg hlast, if_neg (by simp [hch.1]), if_neg (by simp [hch.2]), emulate, he] at h
  dsimp only at h
  rw [hreply] at h
  obtain ⟨reply, hreply, hdrain⟩ := Option.bind_eq_some_iff.1 h
  obtain ⟨reply, hunknown, rfl⟩ := Option.map_eq_some_iff.1 hreply
  have hrejected : Event.rejected ∈ reply.events := by
    rw [unknown] at hunknown
    obtain ⟨u, -, hunknown⟩ := Option.bind_eq_some_iff.1 hunknown
    obtain ⟨first, -, rfl⟩ := Option.map_eq_some_iff.1 hunknown
    split <;> simp
  exact fun hsilent => (hsilent _ (drain_events _ hdrain _ hrejected)).1 rfl

theorem feed_cons {rest : List UInt8} {next : State} {events : List Event}
    (h : receive cfg s ch = some (next, events)) :
    feed cfg s (ch :: rest) = (feed cfg next rest).map fun last => (last.1, events ++ last.2) := by
  rw [feed, h, Option.bind_some]

/-! ### The bytes that are kept -/

theorem isDigit_ne {ch : UInt8} (h : isDigit ch = true) : ch ≠ 13 ∧ ch ≠ 10 ∧ ch ≠ code ';' ∧ ch ≠ 0 := by
  refine ⟨?_, ?_, ?_, ?_⟩ <;> rintro rfl <;> exact absurd h (by decide)

/-- A digit or a semicolon. -/
def Part (ch : UInt8) : Prop := isDigit ch = true ∨ ch = code ';'

theorem Part.ne {ch : UInt8} (h : Part ch) : ch ≠ 13 ∧ ch ≠ 10 := by
  rcases h with h | rfl
  · exact ⟨(isDigit_ne h).1, (isDigit_ne h).2.1⟩
  · decide

/-- The scan state behind so many semicolons. -/
def scanOf : ℕ → Scan
  | 0 => .count
  | 1 => .countTwo
  | _ => .countMany

def semicolons (text : List UInt8) : ℕ := text.count (code ';')

theorem saveChar_eq {s : State} (hroom : s.kept.length < room) (ch : UInt8) :
    s.saveChar ch = some { s with kept := s.kept ++ [ch] } := if_pos hroom

/-- None, one, or more. -/
theorem count_cases (n : ℕ) : n = 0 ∨ n = 1 ∨ ∃ k, n = k + 2 := by
  rcases n with _ | _ | n
  · exact .inl rfl
  · exact .inr (.inl rfl)
  · exact .inr (.inr ⟨n, rfl⟩)

/-- One more digit or semicolon. -/
theorem ansi_part {n : ℕ} (hscan : s.scan = scanOf n) (hroom : s.kept.length < room) (hpart : Part ch) :
    ansi cfg s ch = some ⟨.noCharYet, 1, [.stored ch],
      { s with kept := s.kept ++ [ch], scan := scanOf (n + semicolons [ch]) }⟩ := by
  have hkeep (scan : Scan) : keep s ch scan =
      some ⟨.noCharYet, 1, [.stored ch], { s with kept := s.kept ++ [ch], scan := scan }⟩ := by
    rw [keep, saveChar_eq hroom]
    rfl
  rcases hpart with hdigit | rfl
  · have hnot := (isDigit_ne hdigit).2.2.1
    have hzero : semicolons [ch] = 0 := by simp [semicolons, hnot]
    rw [hzero, Nat.add_zero, ← hscan]
    rcases count_cases n with rfl | rfl | ⟨n, rfl⟩
    · simp [ansi, hscan, scanOf, ansiCount, hdigit, hkeep]
    · simp [ansi, hscan, scanOf, ansiCountTwo, hdigit, hkeep]
    · simp [ansi, hscan, scanOf, ansiCountMany, hdigit, hkeep]
  · have hone : semicolons [code ';'] = 1 := by simp [semicolons]
    have hdigit : isDigit (code ';') = false := by decide
    rw [hone]
    rcases count_cases n with rfl | rfl | ⟨n, rfl⟩
    · simp [ansi, hscan, scanOf, ansiCount, hdigit, hkeep]
    · simp [ansi, hscan, scanOf, ansiCountTwo, hdigit, hkeep]
    · simp [ansi, hscan, scanOf, ansiCountMany, hdigit, hkeep]

theorem silent_stored (text : List UInt8) : Silent (text.map Event.stored) := by
  intro e he
  obtain ⟨ch, -, rfl⟩ := List.mem_map.1 he
  exact ⟨nofun, nofun⟩

theorem act_stored (text : List UInt8) : (text.map Event.stored).filterMap act = [] := by
  induction text with
  | nil => rfl
  | cons ch text ih => exact ih

theorem act_acts (actions : List Action) : (actions.map Event.act).filterMap act = actions := by
  induction actions with
  | nil => rfl
  | cons a actions ih =>
    rw [List.map_cons, List.filterMap_cons]
    exact congrArg (a :: ·) ih

/-- All the bytes of the parameters are kept. -/
theorem feed_parts {text : List UInt8} (hparts : ∀ ch ∈ text, Part ch) (he : cfg.emulator = .ansi) {n : ℕ}
    (hscan : s.scan = scanOf n) (hlast : s.lastState = .noCharYet) (hroom : s.kept.length + text.length < room)
    (rest : List UInt8) : feed cfg s (text ++ rest) =
      (feed cfg { s with kept := s.kept ++ text, scan := scanOf (n + semicolons text) } rest).map fun last =>
        (last.1, text.map Event.stored ++ last.2) := by
  induction text generalizing s n with
  | nil => simp [semicolons, ← hscan]
  | cons ch text ih =>
    rw [List.length_cons] at hroom
    have hpart := hparts ch List.mem_cons_self
    have hstep := receive_quiet he (by simp [hlast]) (by omega) hpart.ne
      (ansi_part hscan (by omega) hpart) rfl
    have hcount : n + semicolons (ch :: text) = n + semicolons [ch] + semicolons text := by
      simp only [semicolons, List.count_cons, List.count_nil]
      omega
    rw [List.cons_append, feed_cons hstep, ih (fun x hx => hparts x (List.mem_cons_of_mem _ hx)) rfl rfl
      (by simp only [List.length_append, List.length_cons, List.length_nil]; omega), Option.map_map, hcount]
    simp [hlast, Function.comp_def]

/-! ### The parameters as they are read -/

/-- Digits in the buffer, with no digit behind them. -/
theorem ansiPs_number {kept pre : List UInt8} (n : Number) (back : List UInt8)
    (hkept : kept = pre ++ (n.digits ++ back))
    (hroom : kept.length < room) (hback : isDigit (back.getD 0 0) = false) :
    ansiPs kept pre.length = some (some n.value, pre.length + n.digits.length) := by
  have hget (i : ℕ) : kept.getD (pre.length + i) 0 = (n.digits ++ back).getD i 0 := by
    rw [hkept, List.getD_append_right _ _ _ _ (by omega), Nat.add_sub_cancel_left]
  have hlength : kept.length = pre.length + (n.digits.length + back.length) := by simp [hkept]
  have hzero := hget 0
  rw [Nat.add_zero] at hzero
  have hend : isDigit (back[0]?.getD 0) = false := by simpa using hback
  obtain ⟨digits, hsome, hfew, hplain⟩ := n
  dsimp only at *
  rw [ansiPs]
  rcases digits with _ | ⟨a, _ | ⟨b, _ | ⟨c, _ | ⟨d, rest⟩⟩⟩⟩
  · exact absurd rfl hsome
  · have ha := hplain a (by simp)
    simp only [List.length_cons, List.length_nil] at hlength
    rw [readChar_eq (by omega), readChar_eq (by omega), hget 1, hzero]
    simp [ha, hend, Number.value]
  · have ha := hplain a (by simp)
    have hb := hplain b (by simp)
    simp only [List.length_cons, List.length_nil] at hlength
    rw [readChar_eq (by omega), readChar_eq (by omega), readChar_eq (by omega), hget 1, hget 2, hzero]
    simp [ha, hb, hend, Number.value]
  · have ha := hplain a (by simp)
    have hb := hplain b (by simp)
    have hc := hplain c (by simp)
    simp only [List.length_cons, List.length_nil] at hlength
    rw [readChar_eq (by omega), readChar_eq (by omega), readChar_eq (by omega), readChar_eq (by omega), hget 1, hget 2,
      hget 3, hzero]
    simp [ha, hb, hc, hend, Number.value]
  · simp only [List.length_cons] at hfew
    omega

/-- No digit, no number. -/
theorem ansiPs_omitted {kept : List UInt8} {count : ℕ} (hcount : count < room)
    (hback : isDigit (kept.getD count 0) = false) : ansiPs kept count = some (none, count) := by
  rw [ansiPs, readChar_eq hcount, Option.bind_some, hback]
  rfl

theorem isDigit_semicolon : isDigit (code ';') = false := by decide

/-- The first digit of a number. -/
theorem Number.head (n : Number) : ∃ ch rest, n.digits = ch :: rest ∧ isDigit ch = true := by
  cases h : n.digits with
  | nil => exact absurd h n.some
  | cons ch rest => exact ⟨ch, rest, rfl, n.plain ch (by simp [h])⟩

/-- One number at the end of the buffer. -/
theorem oneParameter_number (least omitted : ℕ) {kept : List UInt8} (pre : List UInt8) (n : Number) (hkept : kept = pre ++ n.digits)
    (hroom : kept.length < room) :
    oneParameter least omitted kept pre.length = some (if n.value < least then none else some (n.value - least)) := by
  obtain ⟨ch, rest, hhead, hdigit⟩ := n.head
  have hlength : kept.length = pre.length + n.digits.length := by simp [hkept]
  have hpos : 0 < n.digits.length := by simp [hhead]
  have hfirst : kept.getD pre.length 0 = ch := by
    rw [hkept, List.getD_append_right _ _ _ _ le_rfl, Nat.sub_self, hhead]
    rfl
  have hlast : kept.getD (pre.length + n.digits.length) 0 = 0 := List.getD_eq_default _ _ (by omega)
  rw [oneParameter, readChar_eq (by omega), Option.bind_some, hfirst, if_neg (isDigit_ne hdigit).2.2.1,
    ansiPs_number n [] (by simpa using hkept) hroom (by decide), Option.bind_some]
  dsimp only
  rw [readChar_eq (by omega), hlast]
  split <;> simp

/-- The parameters from a place on, as `ansi_position` reads them. -/
theorem ansiPosition_none_none {kept : List UInt8} {count : ℕ} (hcount : count + 2 < room)
    (hkept : kept.length = count + 1) (hfirst : kept.getD count 0 = code ';') :
    ansiPosition kept count = some (some (0, 0)) := by
  have hback (i : ℕ) (hi : count + 1 ≤ i) : kept.getD i 0 = 0 := List.getD_eq_default _ _ (by omega)
  rw [ansiPosition]
  dsimp only
  rw [readChar_eq (by omega), Option.bind_some, if_pos hfirst, readChar_eq (by omega), Option.bind_some,
    hback _ le_rfl, if_pos rfl, readChar_eq (by omega), Option.bind_some, hback _ (by omega), if_pos rfl]

/-- A number behind a leading semicolon is not read. -/
theorem ansiPosition_none_some {kept : List UInt8} {count : ℕ} (hcount : count + 1 < room)
    (hfirst : kept.getD count 0 = code ';') (hsecond : isDigit (kept.getD (count + 1) 0) = true) :
    ansiPosition kept count = some none := by
  obtain ⟨-, -, hsemicolon, hzero⟩ := isDigit_ne hsecond
  rw [ansiPosition]
  dsimp only
  rw [readChar_eq (by omega), Option.bind_some, if_pos hfirst, readChar_eq (by omega), Option.bind_some, if_neg hzero,
    if_pos hsemicolon]

theorem ansiPosition_row {kept : List UInt8} (pre : List UInt8) (r : Number) (hkept : kept = pre ++ r.digits)
    (hroom : kept.length + 1 < room) : ansiPosition kept pre.length = some (some (r.value - 1, 0)) := by
  obtain ⟨ch, rest, hhead, hdigit⟩ := r.head
  have hlength : kept.length = pre.length + r.digits.length := by simp [hkept]
  have hpos : 0 < r.digits.length := by simp [hhead]
  have hfirst : kept.getD pre.length 0 = ch := by
    rw [hkept, List.getD_append_right _ _ _ _ le_rfl, Nat.sub_self, hhead]
    rfl
  have hback (i : ℕ) (hi : kept.length ≤ i) : kept.getD i 0 = 0 := List.getD_eq_default _ _ hi
  rw [ansiPosition]
  dsimp only
  rw [readChar_eq (by omega), Option.bind_some, hfirst, if_neg (isDigit_ne hdigit).2.2.1,
    ansiPs_number r [] (by simpa using hkept) (by omega) (by decide), Option.bind_some]
  dsimp only
  rw [readChar_eq (by omega), Option.bind_some, hback _ (by omega), if_pos rfl, readChar_eq (by omega),
    Option.bind_some, hback _ (by omega), if_pos rfl]

/-- A row, and behind the semicolon a column or none. -/
theorem ansiPosition_row_column {kept pre : List UInt8} (r : Number) (p : Parameter)
    (hkept : kept = pre ++ (r.digits ++ code ';' :: sent p)) (hroom : kept.length + 1 < room) :
    ansiPosition kept pre.length = some (p.elim none fun c => some (r.value - 1, c.value - 1)) := by
  obtain ⟨ch, rest, hhead, hdigit⟩ := r.head
  have hlength : kept.length = pre.length + r.digits.length + 1 + (sent p).length := by
    simp [hkept]
    omega
  have hpos : 0 < r.digits.length := by simp [hhead]
  have hfirst : kept.getD pre.length 0 = ch := by
    rw [hkept, List.getD_append_right _ _ _ _ le_rfl, Nat.sub_self, hhead]
    rfl
  have hmiddle : kept.getD (pre.length + r.digits.length) 0 = code ';' := by
    rw [hkept, ← List.append_assoc, ← List.length_append, List.getD_append_right _ _ _ _ le_rfl, Nat.sub_self]
    rfl
  have hback (i : ℕ) (hi : kept.length ≤ i) : kept.getD i 0 = 0 := List.getD_eq_default _ _ hi
  rw [ansiPosition]
  dsimp only
  rw [readChar_eq (by omega), Option.bind_some, hfirst, if_neg (isDigit_ne hdigit).2.2.1,
    ansiPs_number r _ hkept (by omega) isDigit_semicolon, Option.bind_some]
  dsimp only
  rw [readChar_eq (by omega), Option.bind_some, hmiddle, if_neg (by decide), if_neg (by simp)]
  cases p with
  | none =>
    rw [ansiPs_omitted (by omega) (by rw [hback _ (by simp [hlength, sent])]; decide)]
    rfl
  | some c =>
    have hsecond : pre.length + r.digits.length + 1 = (pre ++ (r.digits ++ [code ';'])).length := by
      simp
      omega
    have hsent : (sent (some c)).length = c.digits.length := rfl
    rw [hsecond, ansiPs_number c [] (by simp [hkept, sent]) (by omega) (by decide), ← hsecond,
      Option.bind_some]
    dsimp only
    rw [readChar_eq (by omega), Option.bind_some, hback _ (by omega), if_pos rfl]
    rfl

theorem body_cons_cons (p q : Parameter) (ps : List Parameter) :
    body (p :: q :: ps) = sent p ++ code ';' :: body (q :: ps) := rfl

theorem body_singleton (p : Parameter) : body [p] = sent p := rfl

theorem sent_parts (p : Parameter) : ∀ ch ∈ sent p, Part ch := by
  intro ch hch
  cases p with
  | none => cases hch
  | some n => exact .inl (n.plain ch hch)

theorem body_parts (ps : List Parameter) : ∀ ch ∈ body ps, Part ch := by
  induction ps with
  | nil => intro ch hch; cases hch
  | cons p ps ih =>
    cases ps with
    | nil => exact sent_parts p
    | cons q ps =>
      intro ch hch
      rw [body_cons_cons] at hch
      rcases List.mem_append.1 hch with hch | hch
      · exact sent_parts p ch hch
      · rcases List.mem_cons.1 hch with rfl | hch
        · exact .inr rfl
        · exact ih ch hch

/-- The loop of `ansi_color` over the parameters from a place on. -/
theorem ansiColorLoop_body (cfg : Config) {kept : List UInt8} (hroom : kept.length < room) {ps : List Parameter}
    (hps : ps ≠ []) (pre : List UInt8) (hkept : kept = pre ++ body ps) {fuel : ℕ} (hfuel : ps.length ≤ fuel)
    (now : Attr × ℕ × ℕ) :
    (none ∉ ps → ansiColorLoop cfg kept fuel pre.length now.1 now.2.1 now.2.2 =
      some (true, painted ((ps.map (amount 0)).foldl (paint cfg) now))) ∧
    (none ∈ ps → ∃ output, ansiColorLoop cfg kept fuel pre.length now.1 now.2.1 now.2.2 = some (false, output)) := by
  induction ps generalizing pre fuel now with
  | nil => exact absurd rfl hps
  | cons p ps ih =>
    rw [List.length_cons] at hfuel
    obtain ⟨fuel, rfl⟩ : ∃ k, fuel = k + 1 := ⟨fuel - 1, by omega⟩
    have hcount : pre.length < room := by
      rw [hkept, List.length_append] at hroom
      omega
    have hlast : isDigit (kept.getD kept.length 0) = false := by
      rw [List.getD_eq_default _ _ le_rfl]
      decide
    cases p with
    | none =>
      have hback : isDigit (kept.getD pre.length 0) = false := by
        cases ps with
        | nil => simpa [hkept, body_singleton, sent] using hlast
        | cons q ps =>
          rw [hkept, body_cons_cons, List.getD_append_right _ _ _ _ le_rfl, Nat.sub_self]
          exact isDigit_semicolon
      refine ⟨fun hnone => absurd List.mem_cons_self hnone, fun _ => ⟨now.1, ?_⟩⟩
      rw [ansiColorLoop, if_pos hcount, ansiPs_omitted hcount hback]
      rfl
    | some n =>
      cases ps with
      | nil =>
        have hread := ansiPs_number n [] (by simpa [body_singleton, sent] using hkept) hroom (by decide)
        have hend : pre.length + n.digits.length = kept.length := by simp [hkept, body_singleton, sent]
        refine ⟨fun _ => ?_, fun hmem => absurd hmem (by simp)⟩
        rw [ansiColorLoop, if_pos hcount, hread, Option.bind_some]
        dsimp only
        rw [hend, readChar_eq hroom, Option.bind_some, List.getD_eq_default _ _ le_rfl, if_pos (by decide)]
        rfl
      | cons q ps =>
        have hsplit : kept = pre ++ (n.digits ++ code ';' :: body (q :: ps)) := hkept
        have hread := ansiPs_number n _ hsplit hroom isDigit_semicolon
        have hlong : pre.length + n.digits.length < kept.length := by
          rw [hsplit]
          simp only [List.length_append, List.length_cons]
          omega
        have hnext : kept.getD (pre.length + n.digits.length) 0 = code ';' := by
          rw [hsplit, ← List.append_assoc, ← List.length_append, List.getD_append_right _ _ _ _ le_rfl, Nat.sub_self]
          rfl
        have hplace : pre.length + n.digits.length + 1 = (pre ++ (n.digits ++ [code ';'])).length := by
          simp
          omega
        have hloop : ansiColorLoop cfg kept (fuel + 1) pre.length now.1 now.2.1 now.2.2 =
            ansiColorLoop cfg kept fuel (pre ++ (n.digits ++ [code ';'])).length (paint cfg now n.value).1
              (paint cfg now n.value).2.1 (paint cfg now n.value).2.2 := by
          rw [ansiColorLoop, if_pos hcount, hread, Option.bind_some]
          dsimp only
          rw [readChar_eq (by omega), Option.bind_some, hnext, if_neg (by simp), hplace]
          rfl
        obtain ⟨hall, hsome⟩ := ih (by simp) (pre ++ (n.digits ++ [code ';'])) (by simp [hsplit])
          (by simpa using hfuel) (paint cfg now n.value)
        rw [hloop]
        refine ⟨fun hnone => ?_, fun hmem => hsome (by simpa using hmem)⟩
        rw [hall fun hmem => hnone (List.mem_cons_of_mem _ hmem)]
        rfl

/-! ### Up to the code -/

/-- Behind `CSI`. -/
def started (s : State) : State :=
  { s with attributes := s.color, kept := [escape, code '['], scan := .startSequence, lastState := .noCharYet }

/-- Behind the parameters. -/
def collected (s : State) (text : List UInt8) : State :=
  { started s with kept := escape :: code '[' :: text, scan := scanOf (semicolons text), count := 2 }

theorem feed_start (h : Ground cfg s) (rest : List UInt8) :
    feed cfg s (escape :: code '[' :: rest) = (feed cfg (started s) rest).map fun last => (last.1,
      [.began (memory cfg { s with attributes := s.color }), .stored escape, .stored (code '[')] ++ last.2) := by
  have hkept : s.kept.length < room - 1 := by simp [h.kept, room]
  have hescape : ansi cfg s escape = some ⟨.noCharYet, 1,
      [.began (memory cfg { s with attributes := s.color }), .stored escape],
      { s with attributes := s.color, kept := [escape], scan := .esc }⟩ := by
    rw [ansi, h.scan]
    dsimp only
    rw [if_pos rfl, beginSequence, saveChar_eq (by simp [h.kept, room])]
    simp [h.kept]
  have hfirst := receive_quiet h.ansi h.last hkept (by decide) hescape rfl
  rw [feed_cons hfirst]
  dsimp only
  have hbracket : ansi cfg { s with attributes := s.color, kept := [escape], scan := .esc, lastState := .noCharYet }
      (code '[') = some ⟨.noCharYet, 1, [.stored (code '[')], started s⟩ := by
    rw [ansi]
    dsimp only
    rw [if_pos rfl, keep, saveChar_eq (by simp [room])]
    rfl
  have hsecond := receive_quiet h.ansi (by simp) (by simp [room]) (by decide) hbracket rfl
  rw [feed_cons hsecond, Option.map_map]
  simp [Function.comp_def, started]

theorem feed_collected (he : cfg.emulator = .ansi) {text : List UInt8} (hparts : ∀ ch ∈ text, Part ch)
    (htext : text ≠ []) (hroom : text.length + 2 < room) (rest : List UInt8) : feed cfg (started s) (text ++ rest) =
      (feed cfg (collected s text) rest).map fun last => (last.1, text.map Event.stored ++ last.2) := by
  cases text with
  | nil => exact absurd rfl htext
  | cons ch text =>
    have hpart := hparts ch List.mem_cons_self
    have hfirst : ansi cfg (started s) ch = some ⟨.noCharYet, 1, [.stored ch], collected s [ch]⟩ := by
      rw [ansi]
      dsimp only [started]
      rcases hpart with hdigit | rfl
      · have hzero : semicolons [ch] = 0 := by simp [semicolons, (isDigit_ne hdigit).2.2.1]
        rw [ansiStart, if_pos hdigit, keep, saveChar_eq (by simp [room])]
        simp [collected, started, hzero, scanOf]
      · rw [ansiStart, if_neg (by decide), if_neg (by decide), if_pos rfl, keep, saveChar_eq (by simp [room])]
        rfl
    have hstep := receive_quiet he (s := started s) (by simp [started]) (by simp [started, room]) hpart.ne hfirst rfl
    have hrest : ∀ x ∈ text, Part x := fun x hx => hparts x (List.mem_cons_of_mem _ hx)
    rw [List.cons_append, feed_cons hstep, feed_parts (n := semicolons [ch]) hrest he rfl rfl
      (by simp only [collected, started, List.length_cons, List.length_nil] at hroom ⊢; omega), Option.map_map]
    have hcount : semicolons (ch :: text) = semicolons [ch] + semicolons text := by
      simp only [semicolons, List.count_cons, List.count_nil]
      omega
    simp [Function.comp_def, collected, started, hcount]

/-- The state in which the code comes. -/
def before (s : State) (ps : List Parameter) : State := if body ps = [] then started s else collected s (body ps)

/-- What comes before the code says nothing and does nothing. -/
theorem feed_sequence (h : Ground cfg s) {ps : List Parameter} (hroom : (body ps).length + 2 < room) (final : Char) :
    ∃ front, Silent front ∧ front.filterMap act = [] ∧ feed cfg s (sequence ps final) =
      (receive cfg (before s ps) (code final)).map fun last => (last.1, front ++ last.2) := by
  have hsingle (t : State) : feed cfg t [code final] = receive cfg t (code final) := by
    rw [feed]
    cases receive cfg t (code final) with
    | none => rfl
    | some r => simp [feed]
  have hstart : Silent [.began (memory cfg { s with attributes := s.color }), .stored escape, .stored (code '[')] := by
    intro e he
    simp only [List.mem_cons, List.not_mem_nil, or_false] at he
    rcases he with rfl | rfl | rfl <;> exact ⟨nofun, nofun⟩
  rw [sequence, feed_start h, before]
  by_cases hbody : body ps = []
  · refine ⟨_, hstart, rfl, ?_⟩
    rw [hbody, List.nil_append, if_pos rfl, hsingle]
  · refine ⟨[.began (memory cfg { s with attributes := s.color }), .stored escape, .stored (code '[')] ++
      (body ps).map Event.stored, ?_, ?_, ?_⟩
    · intro e he
      exact (List.mem_append.1 he).elim (hstart e) (silent_stored _ e)
    · rw [List.filterMap_append, act_stored]
      rfl
    · rw [feed_collected h.ansi (body_parts ps) hbody hroom, if_neg hbody, hsingle, Option.map_map]
      simp [Function.comp_def]

theorem before_kept {ps : List Parameter} (hroom : (body ps).length + 2 < room - 1) :
    (before s ps).kept.length < room - 1 ∧ (before s ps).lastState ≠ .manyChars ∧ (before s ps).color = s.color ∧
      (before s ps).repCharacter = s.repCharacter := by
  rw [before]
  split
  · exact ⟨by simp [started, room], by simp [started], rfl, rfl⟩
  · exact ⟨by simpa [collected] using hroom, by simp [collected, started], rfl, rfl⟩

/-- The bytes of a code. -/
theorem final_ne (c : Code) : code c.final ≠ 13 ∧ code c.final ≠ 10 := by cases c <;> decide

section Final
variable {c : Code} {ps : List Parameter}

/-- A code that ends its sequence. -/
theorem means_done (h : Ground cfg s) (hroom : (body ps).length + 2 < room - 1) {t : State} {actions : List Action}
    (hdone : ansi cfg (before s ps) (code c.final) = done t actions) :
    Means cfg s c ps ↔ actions = c.actions s ps ∧ t.color = c.color cfg s ps := by
  obtain ⟨front, hsilent, hact, hfeed⟩ := feed_sequence h (by omega : (body ps).length + 2 < room) c.final
  obtain ⟨hkept, hlast, -⟩ := before_kept (s := s) hroom
  have hacts := act_acts actions
  have hreceive := receive_quiet h.ansi hlast hkept (final_ne c) hdone rfl
  rw [Means, hfeed, hreceive, Option.map_some]
  constructor
  · rintro ⟨next, events, heq, -, hactions, hcolor, -⟩
    obtain ⟨rfl, rfl⟩ := Prod.mk.inj (Option.some.inj heq)
    rw [List.filterMap_append, hact, List.nil_append, hacts] at hactions
    exact ⟨hactions, hcolor⟩
  · rintro ⟨hactions, hcolor⟩
    refine ⟨_, _, rfl, fun e he => ?_, ?_, hcolor, rfl, rfl⟩
    · rcases List.mem_append.1 he with he | he
      · exact hsilent e he
      · obtain ⟨a, -, rfl⟩ := List.mem_map.1 he
        exact ⟨nofun, nofun⟩
    · rw [List.filterMap_append, hact, List.nil_append, hacts, hactions]

theorem means_unknown (h : Ground cfg s) (hroom : (body ps).length + 2 < room - 1) {t : State}
    (hunknown : ansi cfg (before s ps) (code c.final) = unknown t (code c.final)) : ¬ Means cfg s c ps := by
  obtain ⟨front, -, -, hfeed⟩ := feed_sequence h (by omega : (body ps).length + 2 < room) c.final
  obtain ⟨hkept, hlast, -⟩ := before_kept (s := s) hroom
  rintro ⟨next, events, heq, hsilent, -⟩
  rw [hfeed] at heq
  obtain ⟨last, hreceive, hlast'⟩ := Option.map_eq_some_iff.1 heq
  obtain ⟨rfl, rfl⟩ := Prod.mk.inj hlast'
  exact receive_rejected h.ansi hlast hkept (final_ne c) hunknown hreceive fun e he =>
    hsilent e (List.mem_append_right _ he)

/-- The codes with one number: how it is taken, and what they do with it. -/
def Code.takes : Code → ℕ × ℕ
  | .cha | .vpa => (1, 0)
  | .cht => (1, 1)
  | _ => (0, 1)

def Code.single : Code → Bool
  | .cup | .hvp | .sgr => false
  | _ => true

def Code.doing (s : State) (n : ℕ) : Code → List Action
  | .cha => [.cursorColumn n]
  | .vpa => [.cursorRow n]
  | .ich => [.insertBlanks n]
  | .dch => [.deleteCharacter n]
  | .il => [.scrollDown n]
  | .dl => [.scrollUp n]
  | .cht => [.tab n]
  | .rep => [.repeatChar s.repCharacter n]
  | _ => []

theorem ansi_single (cfg : Config) (hc : c.single) {t : State} (hscan : t.scan = .count) : ansi cfg t (code c.final) =
    (oneParameter c.takes.1 c.takes.2 t.kept t.count).bind fun value =>
      match value with
      | some n => done t (c.doing t n)
      | none => unknown t (code c.final) := by
  rw [ansi, hscan]
  cases c with
  | cup | hvp | sgr => cases hc
  | cha | vpa | ich | dch | il | dl | cht | rep => rfl

theorem ansi_missing (hc : c.single) (hmusic : c = .dl → cfg.ansiMusic = false) (t : State)
    (hscan : t.scan = .startSequence) : ansi cfg t (code c.final) = done t (c.doing t c.takes.2) := by
  rw [ansi, hscan]
  cases c with
  | cup | hvp | sgr => cases hc
  | dl =>
    have hoff := hmusic rfl
    simp only [ansiStart, hoff, Bool.false_eq_true, if_false]
    rfl
  | cha | vpa | ich | dch | il | cht | rep => rfl

/-- With ANSI music `CSI M` begins a piece of it. -/
theorem not_means_music (h : Ground cfg s) (hbody : body ps = []) (hmusic : cfg.ansiMusic = true) :
    ¬ Means cfg s .dl ps := by
  obtain ⟨front, -, -, hfeed⟩ := feed_sequence h (by simp [hbody, room] : (body ps).length + 2 < room) Code.dl.final
  obtain ⟨hkept, hlast, -⟩ := before_kept (by simp [hbody, room] : (body ps).length + 2 < room - 1)
  have hansi : ansi cfg (before s ps) (code Code.dl.final) =
      some ⟨.noCharYet, 1, [], { started s with scan := .music, music := [code 'M'] }⟩ := by
    rw [before, if_pos hbody, ansi]
    dsimp only [started]
    simp only [ansiStart, hmusic, if_true]
    rfl
  rintro ⟨next, events, heq, -, -, -, hscan, -⟩
  rw [hfeed, receive_quiet h.ansi hlast hkept (final_ne .dl) hansi rfl, Option.map_some] at heq
  obtain ⟨rfl, -⟩ := Prod.mk.inj (Option.some.inj heq)
  cases hscan

theorem semicolons_digits (n : Number) : semicolons n.digits = 0 := by
  rw [semicolons, List.count_eq_zero]
  exact fun hmem => absurd (n.plain _ hmem) (by decide)

theorem body_eq_nil_iff : body ps = [] ↔ ps = [] ∨ ps = [none] := by
  match ps with
  | [] => simp [body, joined]
  | [none] => simp [body_singleton, sent]
  | [some n] => simpa [body_singleton, sent] using n.some
  | p :: q :: ps => simp [body_cons_cons]

/-- A list of one parameter at most. -/
theorem short_cases (hps : ps.length ≤ 1) : (body ps = [] ∧ ps.getD 0 none = none) ∨ ∃ n, ps = [some n] := by
  match ps, hps with
  | [], _ => exact .inl ⟨rfl, rfl⟩
  | [none], _ => exact .inl ⟨rfl, rfl⟩
  | [some n], _ => exact .inr ⟨n, rfl⟩

theorem before_number (n : Number) : before s [some n] = collected s n.digits := by
  have hne : body [some n] ≠ [] := n.some
  rw [before, if_neg hne]
  rfl

/-- One number at most. -/
theorem means_single (h : Ground cfg s) (hc : c.single) (hps : ps.length ≤ 1)
    (hroom : (body ps).length + 2 < room - 1) : Means cfg s c ps ↔ Read cfg c ps := by
  rcases short_cases hps with ⟨hbody, hnone⟩ | ⟨n, rfl⟩
  · have hbefore : before s ps = started s := if_pos hbody
    have hzero : ps[0]?.getD none = none := by simpa using hnone
    by_cases hmusic : c = .dl → cfg.ansiMusic = false
    · rw [means_done h hroom (by rw [hbefore]; exact ansi_missing hc hmusic _ rfl)]
      have hread : Read cfg c ps := by
        cases c with
        | cup | hvp | sgr => cases hc
        | cha | vpa => simp [Read, amount, hzero]
        | cht => exact hnone
        | dl => exact fun _ => hmusic rfl
        | ich | dch | il | rep => trivial
      refine ⟨fun _ => hread, fun _ => ?_⟩
      cases c with
      | cup | hvp | sgr => cases hc
      | cha | vpa | ich | dch | il | dl | cht | rep =>
        simp [Code.actions, Code.doing, Code.takes, Code.color, fromOne, amount, hzero, started]
    · obtain ⟨rfl, hon⟩ := Classical.not_imp.1 hmusic
      refine ⟨fun hmeans => absurd hmeans (not_means_music h hbody (by simpa using hon)), fun hread => ?_⟩
      exact absurd (hread hnone) hon
  · have hscan : (collected s n.digits).scan = .count := by simp [collected, semicolons_digits, scanOf]
    have hlong : (collected s n.digits).kept.length < room := by
      have hlength : n.digits.length + 2 < room - 1 := hroom
      simp only [collected, List.length_cons]
      omega
    have hparameter : oneParameter c.takes.1 c.takes.2 (collected s n.digits).kept (collected s n.digits).count =
        some (if n.value < c.takes.1 then none else some (n.value - c.takes.1)) :=
      oneParameter_number c.takes.1 c.takes.2 [escape, code '['] n rfl hlong
    have hansi := ansi_single cfg hc hscan
    rw [hparameter, Option.bind_some] at hansi
    by_cases hleast : n.value < c.takes.1
    · rw [if_pos hleast] at hansi
      refine ⟨fun hmeans => absurd hmeans (means_unknown h hroom (by rw [before_number]; exact hansi)), fun hread => ?_⟩
      cases c with
      | cup | hvp | sgr => cases hc
      | ich | dch | il | dl | rep => exact absurd hleast (Nat.not_lt_zero _)
      | cha | vpa =>
        have hvalue : n.value ≠ 0 := hread
        exact absurd (Nat.lt_one_iff.1 hleast) hvalue
      | cht => cases hread
    · rw [if_neg hleast] at hansi
      rw [means_done h hroom (by rw [before_number]; exact hansi)]
      cases c with
      | cup | hvp | sgr => cases hc
      | ich | dch | il | dl | rep =>
        simp [Code.actions, Code.doing, Code.takes, Code.color, amount, Read, collected, started]
      | cha | vpa =>
        have hpos : 1 ≤ n.value := not_lt.1 hleast
        simp [Code.actions, Code.doing, Code.takes, Code.color, fromOne, amount, Read, collected, started]
        omega
      | cht =>
        have hpos : 1 ≤ n.value := not_lt.1 hleast
        simp [Code.actions, Code.doing, Code.takes, Code.color, amount, Read, collected, started]
        omega

/-- `H` and `f` behind parameters. -/
theorem ansi_cursor (cfg : Config) {t : State} (hc : c = .cup ∨ c = .hvp) (hscan : t.scan = .count ∨ t.scan = .countTwo) :
    ansi cfg t (code c.final) = ansiCursor t (code c.final) := by
  rcases hc with rfl | rfl <;> rcases hscan with hscan | hscan <;> rw [ansi, hscan] <;> rfl

theorem body_pair (p q : Parameter) : body [p, q] = sent p ++ code ';' :: sent q := rfl

theorem semicolons_sent (p : Parameter) : semicolons (sent p) = 0 := by
  cases p with
  | none => rfl
  | some n => exact semicolons_digits n

theorem before_pair (p q : Parameter) : before s [p, q] = collected s (body [p, q]) :=
  if_neg (by simp [body_pair])

theorem scan_pair (p q : Parameter) : (before s [p, q]).scan = .countTwo := by
  have hcount : semicolons (body [p, q]) = 1 := by
    have hp := semicolons_sent p
    have hq := semicolons_sent q
    rw [semicolons] at hp hq ⊢
    rw [body_pair, List.count_append, List.count_cons, hp, hq]
    simp
  rw [before_pair]
  simp [collected, hcount, scanOf]

/-- Two parameters of `H` and `f`. -/
theorem means_pair (h : Ground cfg s) (hc : c = .cup ∨ c = .hvp) (p q : Parameter)
    (hroom : (body [p, q]).length + 2 < room - 1) : Means cfg s c [p, q] ↔ p.isSome = q.isSome := by
  have hansi := ansi_cursor cfg hc (.inr (scan_pair (s := s) p q))
  have hkept : (before s [p, q]).kept = [escape, code '['] ++ (sent p ++ code ';' :: sent q) := by
    rw [before_pair]
    rfl
  have hcount : (before s [p, q]).count = [escape, code '['].length := by
    rw [before_pair]
    rfl
  have hlong : (before s [p, q]).kept.length + 1 < room := by
    rw [hkept, List.length_append, ← body_pair]
    simp only [List.length_cons, List.length_nil]
    omega
  rw [ansiCursor, hcount] at hansi
  have hcolor : (before s [p, q]).color = s.color := (before_kept (s := s) hroom).2.2.1
  have hsame : c.color cfg s [p, q] = s.color := by rcases hc with rfl | rfl <;> rfl
  have hactions : c.actions s [p, q] = [.cursorPosition (fromOne p) (fromOne q)] := by rcases hc with rfl | rfl <;> rfl
  cases p with
  | none =>
    cases q with
    | none =>
      rw [ansiPosition_none_none (by decide) (by rw [hkept]; rfl) (by rw [hkept]; rfl), Option.bind_some] at hansi
      rw [means_done h hroom hansi, hactions, hsame]
      exact ⟨fun _ => rfl, fun _ => ⟨rfl, hcolor⟩⟩
    | some n =>
      obtain ⟨ch, rest, hhead, hdigit⟩ := n.head
      have hsent : sent (some n) = ch :: rest := hhead
      rw [ansiPosition_none_some (by decide) (by rw [hkept]; rfl) (by rw [hkept, hsent]; exact hdigit),
        Option.bind_some] at hansi
      exact ⟨fun hmeans => absurd hmeans (means_unknown h hroom hansi), fun hsome => by cases hsome⟩
  | some r =>
    rw [ansiPosition_row_column r q hkept hlong, Option.bind_some] at hansi
    cases q with
    | none => exact ⟨fun hmeans => absurd hmeans (means_unknown h hroom hansi), fun hsome => by cases hsome⟩
    | some n =>
      rw [means_done h hroom hansi, hactions, hsame]
      refine ⟨fun _ => rfl, fun _ => ⟨?_, hcolor⟩⟩
      simp only [fromOne, amount, Option.elim_some]
      congr 2 <;> omega

/-- `H` and `f`. -/
theorem means_cursor (h : Ground cfg s) (hc : c = .cup ∨ c = .hvp) (hps : ps.length ≤ 2)
    (hroom : (body ps).length + 2 < room - 1) : Means cfg s c ps ↔ Read cfg c ps := by
  have hread : Read cfg c ps ↔ (ps.length = 2 → (ps.getD 0 none).isSome = (ps.getD 1 none).isSome) := by
    rcases hc with rfl | rfl <;> rfl
  have hcolor : c.color cfg s ps = s.color := by rcases hc with rfl | rfl <;> rfl
  have hactions : c.actions s ps = [.cursorPosition (fromOne (ps.getD 0 none)) (fromOne (ps.getD 1 none))] := by
    rcases hc with rfl | rfl <;> rfl
  by_cases hshort : ps.length ≤ 1
  · rw [hread]
    refine iff_of_true ?_ fun htwo => absurd htwo (by omega)
    have hone : ps.getD 1 none = none := List.getD_eq_default _ _ hshort
    rcases short_cases hshort with ⟨hbody, hnone⟩ | ⟨n, rfl⟩
    · have hansi : ansi cfg (before s ps) (code c.final) = done (started s) [.cursorPosition 0 0] := by
        rw [before, if_pos hbody]
        rcases hc with rfl | rfl <;> rfl
      rw [means_done h hroom hansi, hactions, hcolor, hnone, hone]
      exact ⟨rfl, rfl⟩
    · have hscan : (before s [some n]).scan = .count := by
        rw [before_number]
        simp [collected, semicolons_digits, scanOf]
      have hlong : (before s [some n]).kept.length + 1 < room := by
        have := (before_kept (s := s) hroom).1
        omega
      have hansi := ansi_cursor cfg hc (.inl hscan)
      have hposition : ansiPosition (before s [some n]).kept (before s [some n]).count =
          some (some (n.value - 1, 0)) := by
        rw [before_number] at hlong ⊢
        exact ansiPosition_row [escape, code '['] n rfl hlong
      rw [ansiCursor, hposition, Option.bind_some] at hansi
      rw [means_done h hroom hansi, hactions, hcolor, hone]
      refine ⟨?_, (before_kept (s := s) hroom).2.2.1⟩
      simp [fromOne, amount]
      omega
  · obtain ⟨p, q, rfl⟩ := List.length_eq_two.1 (show ps.length = 2 by omega)
    rw [hread, means_pair h hc p q hroom]
    exact ⟨fun hsame _ => hsame, fun hsame => hsame rfl⟩

/-- `m` behind parameters. -/
theorem ansi_m {t : State} {n : ℕ} (hscan : t.scan = scanOf n) : ansi cfg t (code 'm') = ansiSgr cfg t (code 'm') := by
  rw [ansi, hscan]
  rcases count_cases n with rfl | rfl | ⟨n, rfl⟩
  · rfl
  · rfl
  · rfl

theorem means_sgr (h : Ground cfg s) (hconsole : Console cfg) (hroom : (body ps).length + 2 < room - 1) :
    Means cfg s .sgr ps ↔ Read cfg .sgr ps := by
  by_cases hbody : body ps = []
  · have hansi : ansi cfg (before s ps) (code Code.sgr.final) =
        done { started s with color := cfg.consoleText } [] := by
      rw [before, if_pos hbody]
      rfl
    have hcolor : Code.sgr.color cfg s ps = cfg.consoleText := by
      have hlist : (if ps = [] then [none] else ps).map (amount 0) = [0] := by
        rcases body_eq_nil_iff.1 hbody with rfl | rfl <;> rfl
      rw [Code.color, hlist, hconsole]
      simp only [sgr, painted, paint, ansiColorOne, List.foldl_cons, List.foldl_nil]
      cases cfg.consoleBold <;> rfl
    rw [means_done h hroom hansi, hcolor]
    refine iff_of_true ⟨rfl, rfl⟩ fun htwo => ?_
    rcases body_eq_nil_iff.1 hbody with rfl | rfl <;> simp at htwo
  · have hne : ps ≠ [] := fun hnil => hbody (by rw [hnil]; rfl)
    have hbefore : before s ps = collected s (body ps) := if_neg hbody
    have hlong : (escape :: code '[' :: body ps).length < room := by
      simp only [List.length_cons]
      omega
    have hmany : none ∈ ps → 2 ≤ ps.length := by
      intro hmem
      match ps, hmem, hne, hbody with
      | [none], _, _, hbody => exact absurd rfl hbody
      | [some n], hmem, _, _ => simp at hmem
      | p :: q :: ps, _, _, _ => simp
    have hfew : ps.length ≤ room := by
      have hcount : ps.length ≤ (body ps).length + 1 := by
        clear hbody hbefore hlong hmany hroom hne
        induction ps with
        | nil => simp
        | cons p ps ih =>
          cases ps with
          | nil => simp
          | cons q ps =>
            rw [body_cons_cons]
            simp only [List.length_cons, List.length_append] at ih ⊢
            omega
      omega
    obtain ⟨hall, hsome⟩ := ansiColorLoop_body cfg hlong hne [escape, code '['] rfl hfew
      ({ s.color with pair := 0 }, s.color.pair / 8 % 8, s.color.pair % 8)
    have hansi : ansi cfg (before s ps) (code Code.sgr.final) = ansiSgr cfg (collected s (body ps)) (code 'm') := by
      rw [hbefore]
      exact ansi_m rfl
    have hloop : ansiColor cfg (collected s (body ps)) (collected s (body ps)).kept =
        ansiColorLoop cfg (escape :: code '[' :: body ps) room 2 { s.color with pair := 0 } (s.color.pair / 8 % 8)
          (s.color.pair % 8) := rfl
    rw [ansiSgr, hloop] at hansi
    by_cases hnone : none ∈ ps
    · obtain ⟨output, hfalse⟩ := hsome hnone
      have hrejected : ansiColorLoop cfg (escape :: code '[' :: body ps) room 2 { s.color with pair := 0 }
          (s.color.pair / 8 % 8) (s.color.pair % 8) = some (false, output) := hfalse
      rw [hrejected, Option.bind_some] at hansi
      exact ⟨fun hmeans => absurd hmeans (means_unknown h hroom hansi), fun hread => absurd hnone (hread (hmany hnone))⟩
    · have hparsed : ansiColorLoop cfg (escape :: code '[' :: body ps) room 2 { s.color with pair := 0 }
          (s.color.pair / 8 % 8) (s.color.pair % 8) = some (true, sgr cfg (ps.map (amount 0)) s.color) := hall hnone
      rw [hparsed, Option.bind_some] at hansi
      rw [means_done h hroom hansi]
      refine iff_of_true ⟨rfl, ?_⟩ fun _ => hnone
      rw [Code.color, if_neg hne]

end Final

/-- `cursor_position` without margins and origin mode: a place beyond the screen is its last row or column. -/
theorem ends_clamped {t : Screen} (hband : t.band.Bounded) (horigin : t.originMode = false)
    (hmargin : t.emulationRightMargin ≤ 0) (row col : ℕ) : Ends (cursorPosition row col) (fun _ => True)
      (fun _ u => u.cursorY = min (row : ℤ) (t.rows - 1) ∧ u.cursorX = min (col : ℤ) (t.width - 1)) t := by
  refine (ends_position hband).post fun _ u hu => ?_
  obtain ⟨hrow, -, doubleWidth, hcolumn⟩ := hu
  constructor
  · have hy : u.band.cursorY = (t.band.position row).cursorY := congrArg Band.cursorY hrow
    change u.cursorY = _ at hy
    rw [hy]
    change min (t.rows - 1) (if t.originMode then (row : ℤ) + t.scrollRegionTop else row) = _
    rw [horigin]
    exact min_comm _ _
  · rw [cursorX_of_besideRows hcolumn, Screen.toColumn]
    dsimp only
    rw [if_neg (by omega)]
    split <;> omega

/-- Sequences with parameters mean what is meant exactly where the parsers read them so; and `cursor_position` keeps to
the screen. -/
theorem parameters_mean {cfg : Config} {s : State} (h : Ground cfg s) (hconsole : Console cfg) (c : Code)
    {ps : List Parameter} (hps : c.Takes ps) (hroom : (sequence ps c.final).length < room) :
    (Means cfg s c ps ↔ Read cfg c ps) ∧
      ∀ t : Screen, t.band.Bounded → t.originMode = false → t.emulationRightMargin ≤ 0 → ∀ row col : ℕ,
        Ends (cursorPosition row col) (fun _ => True)
          (fun _ u => u.cursorY = min (row : ℤ) (t.rows - 1) ∧ u.cursorX = min (col : ℤ) (t.width - 1)) t := by
  refine ⟨?_, fun t hband horigin hmargin row col => ends_clamped hband horigin hmargin row col⟩
  have hlong : (body ps).length + 2 < room - 1 := by
    simp only [sequence, List.length_cons, List.length_append, List.length_nil] at hroom
    omega
  cases c with
  | cup => exact means_cursor h (.inl rfl) hps hlong
  | hvp => exact means_cursor h (.inr rfl) hps hlong
  | sgr => exact means_sgr h hconsole hlong
  | cha | vpa | ich | dch | il | dl | cht | rep => exact means_single h rfl hps hlong

/-- An ANSI emulation with gray on black. -/
def grays : Config where
  emulator := .ansi
  codepageMapChar := fun ch => ch.toNat
  iscntrl := fun ch => ch < 32
  vt52Char := fun _ ch => ch.toNat
  c64Char := fun _ _ ch => ch.toNat
  c64Unicode := fun _ ch => ch.toNat
  consoleText := { pair := 56 }
  consoleFg := 7
  consoleBg := 0
  consoleBold := false
  ansiMusic := false
  vt52Color := false
  petsciiColor := false
  petsciiUseUnicode := false

def five : Number := ⟨[53], by simp, by simp, by simp [isDigit]⟩

theorem grays_ground : Ground grays (reset grays) := ⟨rfl, rfl, rfl, nofun⟩

theorem parameters_mean_five :
    (Means grays (reset grays) .cup [some five, some five] ↔ Read grays .cup [some five, some five]) ∧
      ∀ t : Screen, t.band.Bounded → t.originMode = false → t.emulationRightMargin ≤ 0 → ∀ row col : ℕ,
        Ends (cursorPosition row col) (fun _ => True)
          (fun _ u => u.cursorY = min (row : ℤ) (t.rows - 1) ∧ u.cursorX = min (col : ℤ) (t.width - 1)) t :=
  parameters_mean grays_ground rfl .cup (by simp [Code.Takes]) (by decide)

/-- `CSI ;5H`: the row is left out, and the sequence is given up. -/
theorem not_parameters_mean :
    Code.cup.Takes [none, some five] ∧ (sequence [none, some five] Code.cup.final).length < room ∧
      ¬ Means grays (reset grays) .cup [none, some five] := by
  refine ⟨by simp [Code.Takes], by decide, fun h => ?_⟩
  have hsame := (means_pair grays_ground (.inl rfl) none (some five) (by decide)).1 h
  cases hsame

end CProgram.Terminal.Collected.Parameters
