import CProgram.Terminal.Parameters

/-! PETSCII with the ANSI fallback on: a sequence that PETSCII gives up is replayed through the ANSI emulation, which
then gets the bytes until it has a character. -/
namespace CProgram.Terminal.Collected.Fallback
open Parameters

/-! ### ANSI in a buffer that was not emptied -/

/-- `m`, with the whole of `q_emul_buffer`. -/
def sgrOver (cfg : Config) (buffer : List UInt8) (s : State) (ch : UInt8) : Option Reply :=
  (ansiColor cfg s buffer).bind fun (parsed, output) =>
  if parsed then done { s with color := output, attributes := output } [] else unknown { s with attributes := output } ch

/-- `H` and `f`. -/
def cursorOver (buffer : List UInt8) (s : State) (ch : UInt8) : Option Reply :=
  (ansiPosition buffer s.count).bind fun position =>
  match position with
  | some (row, col) => done s [.cursorPosition row col]
  | none => unknown s ch

def countOver (cfg : Config) (buffer : List UInt8) (s : State) (ch : UInt8) : Option Reply :=
  if isDigit ch then keep s ch .count
  else if ch = code ';' then keep s ch .countTwo
  else if ch = code 'H' ∨ ch = code 'f' then cursorOver buffer s ch
  else if ch = code 'm' then sgrOver cfg buffer s ch
  else if ch = code 'n' then done s (if s.kept.length = 3 ∧ buffer.getD 2 0 = code '6' then [.report] else [])
  else if ch = code '!' then done s []
  else match numberActions.find? fun row => code row.1 = ch with
    | some row =>
      (ansiPs buffer s.count).bind fun (ps, _) =>
      match ps with
      | some n => done s (row.2 n)
      | none => unknown s ch
    | none =>
      match (parameterActions s).find? fun row => code row.1 = ch with
      | some row =>
        (oneParameter row.2.1 row.2.2.1 buffer s.count).bind fun value =>
        match value with
        | some n => done s (row.2.2.2 n)
        | none => unknown s ch
      | none => unknown s ch

def countTwoOver (cfg : Config) (buffer : List UInt8) (s : State) (ch : UInt8) : Option Reply :=
  if isDigit ch then keep s ch .countTwo
  else if ch = code ';' then keep s ch .countMany
  else if ch = code 'H' ∨ ch = code 'f' then cursorOver buffer s ch
  else if ch = code 'm' then sgrOver cfg buffer s ch
  else unknown s ch

def countManyOver (cfg : Config) (buffer : List UInt8) (s : State) (ch : UInt8) : Option Reply :=
  if isDigit ch ∨ ch = code ';' then keep s ch .countMany
  else if ch = code 'm' then sgrOver cfg buffer s ch
  else unknown s ch

/-- `ansi`, where the bytes behind the kept ones are not NUL. -/
def ansiOver (cfg : Config) (behind : List UInt8) (s : State) (ch : UInt8) : Option Reply :=
  match s.scan with
  | .count => countOver cfg (s.kept ++ behind) s ch
  | .countTwo => countTwoOver cfg (s.kept ++ behind) s ch
  | .countMany => countManyOver cfg (s.kept ++ behind) s ch
  | _ => ansi cfg s ch

/-- What is behind the kept bytes then. -/
def left (behind : List UInt8) (s : State) (reply : Reply) (ch : UInt8) : List UInt8 :=
  if reply.state.kept.length = s.kept.length + 1 then behind.tail
  else if s.scan = .none then behind
  else if reply.status = .oneChar then ch :: behind.tail
  else if reply.state.scan = .none then []
  else behind

/-! ### PETSCII -/

/-- The statics of the two emulations. `q_emul_buffer`, the color and `last_state` are those of `petscii`. -/
structure Machine where
  petscii : State
  ansi : State
  /-- `SCAN_ANSI_FALLBACK`. -/
  fallback : Bool
  /-- What is in `q_emul_buffer` behind the kept bytes. -/
  behind : List UInt8
  /-- The bytes of `ansi_buffer` from `ansi_buffer_i` on. -/
  ansiBuffer : List UInt8

/-- Who gets a byte. -/
inductive Emulation where
  | petscii | ansi
  deriving DecidableEq

structure Answer where
  status : Status
  toScreen : ℕ
  events : List Event
  log : List (Emulation × UInt8)
  machine : Machine

/-- The ANSI emulation with what the two share. -/
def Machine.view (m : Machine) : State :=
  { m.ansi with kept := m.petscii.kept, i := m.petscii.i, color := m.petscii.color, lastState := m.petscii.lastState }

def callAnsi (cfg : Config) (m : Machine) (ch : UInt8) : Option Answer :=
  (ansiOver cfg m.behind m.view ch).map fun reply =>
  { status := reply.status
    toScreen := reply.toScreen
    events := reply.events
    log := [(.ansi, ch)]
    machine :=
      { m with
        ansi := reply.state
        petscii := { m.petscii with kept := reply.state.kept, i := reply.state.i, color := reply.state.color }
        behind := left m.behind m.view reply ch } }

/-- "We can be ourselves again now." -/
def Answer.ourselves (a : Answer) : Answer :=
  if a.status = .noCharYet then a
  else { a with machine := { a.machine with fallback := false, petscii := { a.machine.petscii with scan := .none } } }

/-- The loop over `ansi_buffer`. -/
def fallbackLoop (cfg : Config) : List UInt8 → Machine → Option Answer
  | [], _ => none
  | ch :: rest, m =>
    (callAnsi cfg m ch).bind fun a =>
    let a := a.ourselves
    let a := { a with machine := { a.machine with ansiBuffer := rest } }
    if rest = [] ∨ a.status ≠ .noCharYet then some a
    else (fallbackLoop cfg rest a.machine).map fun next =>
      { next with events := a.events ++ next.events, log := a.log ++ next.log }

/-- `SCAN_ANSI_FALLBACK`. -/
def ansiFallback (cfg : Config) (m : Machine) (ch : UInt8) : Option Answer :=
  (fallbackLoop cfg (if m.ansiBuffer = [] then [ch] else m.ansiBuffer) m).map fun a =>
  if a.status = .manyChars then
    { a with machine := { a.machine with petscii := { a.machine.petscii with scan := .dump } } }
  else a

/-- The bytes so far go to `ansi_buffer`, and `q_emul_buffer` is not emptied. -/
def giveUp (cfg : Config) (m : Machine) (ch : UInt8) : Option Answer :=
  ansiFallback cfg
    { m with
      fallback := true
      ansiBuffer := m.petscii.kept
      behind := m.petscii.kept ++ m.behind
      petscii := { m.petscii with kept := [], i := 0 } } ch

/-- The byte goes to `q_emul_buffer`. -/
def Machine.save (m : Machine) (ch : UInt8) : Option Machine :=
  (m.petscii.saveChar ch).map fun s => { m with petscii := s, behind := m.behind.tail }

/-- The sequence goes on. -/
def goesOn (m : Machine) (ch : UInt8) (s : State) : Option Answer :=
  some ⟨.noCharYet, 1, [.stored ch], [], { m with petscii := s }⟩

/-- PETSCII has done the sequence itself. -/
def own (m : Machine) (ch : UInt8) (s : State) : Option Answer :=
  some ⟨.noCharYet, 1, [.stored ch, .act .insertModeOff], m.petscii.kept.map fun ch => (.petscii, ch),
    { m with petscii := s.clear, behind := [] }⟩

/-- A byte between two sequences. -/
def ground (cfg : Config) (m : Machine) (ch : UInt8) : Option Answer :=
  if ch = escape then
    (m.save ch).map fun m => ⟨.noCharYet, 1, [.stored ch], [], { m with petscii := { m.petscii with scan := .esc } }⟩
  else
    (petsciiGround cfg m.petscii ch).map fun reply =>
    ⟨reply.status, reply.toScreen, reply.events, [(.petscii, ch)], { m with petscii := reply.state }⟩

def petsciiStep (cfg : Config) (m : Machine) (ch : UInt8) : Option Answer :=
  if m.fallback then ansiFallback cfg m ch
  else match m.petscii.scan with
  | .esc =>
    (m.save ch).bind fun m =>
    if ch = code '[' ∧ cfg.petsciiColor then goesOn m ch { m.petscii with scan := .csi } else giveUp cfg m ch
  | .csi =>
    (m.save ch).bind fun m =>
    if isDigit ch then goesOn m ch { m.petscii with count := m.petscii.kept.length - 1, scan := .csiParam }
    else if ch = code 'm' then own m ch { m.petscii with color := cfg.consoleText }
    else giveUp cfg m ch
  | .csiParam =>
    (m.save ch).bind fun m =>
    if isDigit ch ∨ ch = code ';' then goesOn m ch m.petscii
    else if ch = code 'm' then
      (ansiColor cfg m.petscii (m.petscii.kept ++ m.behind)).bind fun (parsed, output) =>
      if parsed then own m ch { m.petscii with color := output, attributes := output }
      else giveUp cfg { m with petscii := { m.petscii with attributes := output } } ch
    else giveUp cfg m ch
  | .dump =>
    (petsciiDump cfg m.petscii).map fun reply =>
    ⟨reply.status, reply.toScreen, reply.events, [],
      { m with petscii := reply.state, behind := if reply.state.scan = .none then [] else m.behind }⟩
  | _ => ground cfg m ch

/-! ### The terminal and the console -/

/-- "Junk extraneous data". -/
def junked (m : Machine) : Machine :=
  if room - 1 ≤ m.petscii.kept.length then
    { m with petscii := { m.petscii with kept := [], i := 0, lastState := .noCharYet }, behind := [] }
  else m

def terminal (cfg : Config) (m : Machine) (ch : UInt8) : Option Answer :=
  (petsciiStep cfg (junked m) ch).map fun a =>
  { a with machine := { a.machine with petscii := { a.machine.petscii with lastState := a.status } } }

/-- The loop of the console around one byte. -/
def drained (cfg : Config) : ℕ → Answer → Option Answer
  | 0, _ => none
  | fuel + 1, a =>
    match a.status with
    | .oneChar => some { a with events := a.events ++ [.print a.toScreen] }
    | .noCharYet => some a
    | .manyChars =>
      (terminal cfg a.machine 255).bind fun next =>
      (drained cfg fuel next).map fun rest =>
      { rest with events := a.events ++ .print a.toScreen :: rest.events, log := a.log ++ rest.log }

def console (cfg : Config) (m : Machine) (ch : UInt8) : Option Answer :=
  (terminal cfg m ch).bind (drained cfg (2 * room))

/-- What became of some bytes. -/
structure Outcome where
  machine : Machine
  events : List Event
  log : List (Emulation × UInt8)

def run (cfg : Config) : Machine → List UInt8 → Option Outcome
  | m, [] => some ⟨m, [], []⟩
  | m, ch :: rest =>
    (console cfg m ch).bind fun a =>
    (run cfg a.machine rest).map fun last => ⟨last.machine, a.events ++ last.events, a.log ++ last.log⟩

/-- Between two sequences; what is left over in `q_emul_buffer` is where the next ESC goes. -/
structure Machine.Ground (m : Machine) : Prop where
  fallback : m.fallback = false
  scan : m.petscii.scan = .none
  kept : m.petscii.kept = []
  behind : m.behind.tail = []
  last : m.petscii.lastState ≠ .manyChars
  ansi : m.ansi.scan = .none
  ansiBuffer : m.ansiBuffer = []

/-- The options with the ANSI emulation. -/
def ansiConfig (cfg : Config) : Config := { cfg with emulator := .ansi }

/-- One sequence that the ANSI emulation takes whole. -/
structure Accepted (cfg : Config) (s : State) (sequence : List UInt8) (t : State) (events : List Event) : Prop where
  first : ∃ rest, sequence = escape :: rest
  fed : feed (ansiConfig cfg) s sequence = some (t, events)
  silent : Parameters.Silent events
  ground : t.scan = .none ∧ t.kept = []
  whole : ∀ front back, sequence = front ++ back → front ≠ [] → back ≠ [] → ∀ u passed,
    feed (ansiConfig cfg) s front = some (u, passed) → u.scan ≠ .none

/-- What is seen of it. -/
def seen (events : List Event) : List Action := (events.filterMap act).filter (· ≠ .insertModeOff)

/-- PETSCII does with the sequence what ANSI does, and is in its ground state then. -/
def Transparent (cfg : Config) (m : Machine) (sequence : List UInt8) (t : State) (events : List Event) : Prop :=
  ∃ o, run cfg m sequence = some o ∧ Parameters.Silent o.events ∧ o.machine.Ground ∧ seen o.events = seen events ∧
    o.machine.petscii.color = t.color

/-! ### The color of a sequence -/

inductive Flag where
  | bold | dim | underline | blink | reverse | protect | invis

def Flag.of : Flag → Attr → Bool
  | .bold, a => a.bold
  | .dim, a => a.dim
  | .underline, a => a.underline
  | .blink, a => a.blink
  | .reverse, a => a.reverse
  | .protect, a => a.protect
  | .invis, a => a.invis

/-- The parameters behind which a flag is the same whatever it was. -/
def Flag.Settled (cfg : Config) (n : ℕ) : Flag → Prop
  | .bold => n = 0 ∨ n = 1 ∨ n = 21 ∨ n = 22 ∨ (n = 38 ∨ n = 39) ∧ cfg.consoleBold = true
  | .dim => n = 0 ∨ n = 2 ∨ n = 21 ∨ n = 22
  | .underline => n = 0 ∨ n = 4 ∨ n = 24 ∨ n = 38 ∨ n = 39 ∨ n = 49
  | .blink => n = 0 ∨ n = 5 ∨ n = 25
  | .reverse => n = 0 ∨ n = 7 ∨ n = 27
  | .protect | .invis => n = 0

/-- The numbers that `ansi_color` reads. -/
def numbers (kept : List UInt8) : ℕ → ℕ → List ℕ
  | 0, _ => []
  | fuel + 1, count =>
    match ansiPs kept count with
    | some (some n, next) => n :: if kept.getD next 0 = code ';' then numbers kept fuel (next + 1) else []
    | _ => []

/-- Each flag is the same before, or settled by a parameter. -/
def Agree (cfg : Config) (a b : Attr) (ns : List ℕ) : Prop :=
  ∀ f : Flag, f.of a = f.of b ∨ ∃ n ∈ ns, f.Settled cfg n

/-- The buffer that a byte comes to. -/
def roomy (kept : List UInt8) : List UInt8 := if room - 1 ≤ kept.length then [] else kept

def held (kept : List UInt8) (ch : UInt8) : List UInt8 := roomy kept ++ [ch]

/-- What PETSCII does itself: `CSI m`, and `m` behind parameters of which the first is not left out. -/
def Own (cfg : Config) (m : Machine) (sequence : List UInt8) : Prop :=
  cfg.petsciiColor = true ∧
    (sequence = [escape, code '[', code 'm'] ∨
      ∃ d body, isDigit d = true ∧ (∀ ch ∈ body, Parameters.Part ch) ∧
        sequence = escape :: code '[' :: d :: (body ++ [code 'm']) ∧
        Agree cfg m.petscii.attributes m.petscii.color
          (numbers (roomy (body.foldl held [escape, code '[', d])) room 2))

variable {cfg : Config} {m : Machine} {s : State} {ch : UInt8}

theorem ansiColorOne_settled {f : Flag} {n : ℕ} (h : f.Settled cfg n) (fg bg : ℕ) (a b : Attr) :
    f.of (ansiColorOne cfg n a fg bg).1 = f.of (ansiColorOne cfg n b fg bg).1 := by
  cases f with
  | bold =>
    rcases h with rfl | rfl | rfl | rfl | ⟨rfl | rfl, hbold⟩
    · rfl
    · rfl
    · rfl
    · rfl
    · simp [ansiColorOne, hbold, Flag.of]
    · simp [ansiColorOne, hbold, Flag.of]
  | dim => rcases h with rfl | rfl | rfl | rfl <;> rfl
  | underline => rcases h with rfl | rfl | rfl | rfl | rfl | rfl <;> rfl
  | blink | reverse => rcases h with rfl | rfl | rfl <;> rfl
  | protect | invis => rcases h with rfl <;> rfl

theorem ansiColorOne_unsettled {f : Flag} {n : ℕ} (h : ¬ f.Settled cfg n) (fg bg : ℕ) (a : Attr) :
    f.of (ansiColorOne cfg n a fg bg).1 = f.of a := by
  unfold ansiColorOne
  dsimp only
  split
  all_goals cases f <;> first | rfl | simp_all [Flag.of, Flag.Settled]
  all_goals split_ifs <;> rfl

theorem ansiColorOne_flag (cfg : Config) (n fg bg : ℕ) (a b : Attr) (f : Flag) :
    f.of (ansiColorOne cfg n a fg bg).1 = f.of (ansiColorOne cfg n b fg bg).1 ↔
      f.Settled cfg n ∨ f.of a = f.of b := by
  by_cases h : f.Settled cfg n
  · simp [h, ansiColorOne_settled h fg bg a b]
  · simp [h, ansiColorOne_unsettled h fg bg]

theorem ansiColorOne_snd (cfg : Config) (n fg bg : ℕ) (a : Attr) :
    (ansiColorOne cfg n a fg bg).2 =
      if n = 0 then (cfg.consoleFg, cfg.consoleBg) else if n = 38 ∨ n = 39 then (cfg.consoleFg, bg)
      else if n = 49 then (fg, cfg.consoleBg) else if 30 ≤ n ∧ n ≤ 37 then (n - 30, bg)
      else if 40 ≤ n ∧ n ≤ 47 then (fg, n - 40) else (fg, bg) := by
  unfold ansiColorOne
  dsimp only
  split
  all_goals first | rfl | simp_all
  all_goals split_ifs <;> rfl

theorem ansiColorOne_colors (cfg : Config) (n fg bg : ℕ) (a b : Attr) :
    (ansiColorOne cfg n a fg bg).2 = (ansiColorOne cfg n b fg bg).2 := by
  rw [ansiColorOne_snd, ansiColorOne_snd]

theorem pair_eq_iff (x y : Attr) (p : ℕ) :
    ({ x with pair := p } : Attr) = { y with pair := p } ↔ ∀ f : Flag, f.of x = f.of y := by
  constructor
  · intro h f
    cases f <;> simp_all [Flag.of]
  · intro h
    have hbold := h .bold
    have hdim := h .dim
    have hunderline := h .underline
    have hblink := h .blink
    have hreverse := h .reverse
    have hprotect := h .protect
    have hinvis := h .invis
    simp_all [Flag.of]

/-- The colors of one sequence from two attributes. -/
theorem loop_flags (cfg : Config) (kept : List UInt8) (fuel count fg bg : ℕ) (a b ra : Attr)
    (h : ansiColorLoop cfg kept fuel count a fg bg = some (true, ra)) :
    ∃ rb, ansiColorLoop cfg kept fuel count b fg bg = some (true, rb) ∧
      (rb = ra ↔ ∀ f : Flag, f.of b = f.of a ∨ ∃ n ∈ numbers kept fuel count, f.Settled cfg n) := by
  induction fuel generalizing count a b fg bg with
  | zero => cases h
  | succ fuel ih =>
    rw [ansiColorLoop] at h ⊢
    split at h
    case isFalse => cases h
    case isTrue hcount =>
      obtain ⟨⟨ps, next⟩, hps, h⟩ := Option.bind_eq_some_iff.1 h
      rw [if_pos hcount, hps, Option.bind_some]
      cases ps with
      | none => cases h
      | some n =>
        have hcolors := ansiColorOne_colors cfg n fg bg b a
        have hflag := ansiColorOne_flag cfg n fg bg b a
        dsimp only at h ⊢
        generalize ansiColorOne cfg n a fg bg = x at h hcolors hflag
        generalize ansiColorOne cfg n b fg bg = y at hcolors hflag ⊢
        obtain ⟨oa, fa, ga⟩ := x
        obtain ⟨ob, fb, gb⟩ := y
        obtain ⟨rfl, rfl⟩ := Prod.mk.inj hcolors
        dsimp only at h hflag ⊢
        obtain ⟨last, hread, h⟩ := Option.bind_eq_some_iff.1 h
        have hlast : kept.getD next 0 = last := by
          rw [readChar] at hread
          split at hread
          · exact Option.some.inj hread
          · cases hread
        rw [hread, Option.bind_some]
        have hnumbers : numbers kept (fuel + 1) count =
            n :: if last = code ';' then numbers kept fuel (next + 1) else [] := by
          rw [numbers, hps]
          dsimp only
          rw [hlast]
        rw [hnumbers]
        split at h
        case isTrue hend =>
          have hra := (Prod.mk.inj (Option.some.inj h)).2
          rw [if_pos hend, if_neg hend]
          refine ⟨_, rfl, ?_⟩
          rw [← hra, pair_eq_iff]
          refine forall_congr' fun f => ?_
          rw [hflag]
          simp [or_comm]
        case isFalse hmore =>
          obtain ⟨rb, hloop, hiff⟩ := ih (next + 1) _ _ _ ob h
          rw [if_neg hmore, if_pos (not_not.1 hmore)]
          refine ⟨rb, hloop, hiff.trans (forall_congr' fun f => ?_)⟩
          rw [hflag]
          simp only [List.mem_cons, exists_eq_or_imp]
          tauto

/-- A byte that ends the parameters. -/
def Blank (ch : UInt8) : Prop := isDigit ch = false ∧ ch ≠ code ';'

def Alike (x y : List UInt8) : Prop := ∀ i, x.getD i 0 = y.getD i 0 ∨ Blank (x.getD i 0) ∧ Blank (y.getD i 0)

theorem bind_alike {β : Type} {x y : List UInt8} (h : Alike x y) (i : ℕ) {k l : UInt8 → Option β}
    (hsame : ∀ a, k a = l a) (hblank : ∀ a b, Blank a → Blank b → k a = l b) :
    (readChar x i).bind k = (readChar y i).bind l := by
  rw [readChar, readChar]
  split
  · rw [Option.bind_some, Option.bind_some]
    rcases h i with heq | ⟨hx, hy⟩
    · rw [heq, hsame]
    · exact hblank _ _ hx hy
  · rfl

theorem ansiPs_alike {x y : List UInt8} (h : Alike x y) (count : ℕ) : ansiPs x count = ansiPs y count := by
  rw [ansiPs, ansiPs]
  refine bind_alike h count (fun first => ?_) fun a b ha hb => by simp [ha.1, hb.1]
  split
  · rfl
  · refine bind_alike h _ (fun second => ?_) fun a b ha hb => by simp [ha.1, hb.1]
    split
    · rfl
    · refine bind_alike h _ (fun third => ?_) fun a b ha hb => by simp [ha.1, hb.1]
      split
      · rfl
      · exact bind_alike h _ (fun _ => rfl) fun a b ha hb => by simp [ha.1, hb.1]

theorem loop_alike {x y : List UInt8} (h : Alike x y) (cfg : Config) (fuel count fg bg : ℕ) (a : Attr) :
    ansiColorLoop cfg x fuel count a fg bg = ansiColorLoop cfg y fuel count a fg bg := by
  induction fuel generalizing count a fg bg with
  | zero => rfl
  | succ fuel ih =>
    rw [ansiColorLoop, ansiColorLoop, ansiPs_alike h]
    split
    · refine congrArg _ (funext fun p => ?_)
      obtain ⟨ps, next⟩ := p
      dsimp only
      cases ps with
      | none => rfl
      | some n =>
        refine bind_alike h next (fun last => ?_) fun a b ha hb => by rw [if_pos ha.2, if_pos hb.2]
        rw [ih]
    · rfl

theorem alike_append (kept : List UInt8) (hch : Blank ch) : Alike (kept ++ [ch]) kept := by
  intro i
  rcases Nat.lt_trichotomy i kept.length with hlt | rfl | hgt
  · exact .inl (List.getD_append _ _ _ _ hlt)
  · refine .inr ⟨?_, ?_⟩
    · rw [List.getD_append_right _ _ _ _ le_rfl, Nat.sub_self]
      exact hch
    · rw [List.getD_eq_default _ _ le_rfl]
      exact ⟨by decide, by decide⟩
  · left
    rw [List.getD_eq_default _ _ (by simp; omega), List.getD_eq_default _ _ hgt.le]

theorem loop_config (cfg : Config) (kept : List UInt8) (fuel count fg bg : ℕ) (a : Attr) :
    ansiColorLoop (ansiConfig cfg) kept fuel count a fg bg = ansiColorLoop cfg kept fuel count a fg bg := by
  induction fuel generalizing count a fg bg with
  | zero => rfl
  | succ fuel ih =>
    have hone (n : ℕ) : ansiColorOne (ansiConfig cfg) n a fg bg = ansiColorOne cfg n a fg bg := rfl
    rw [ansiColorLoop, ansiColorLoop]
    simp only [ih, hone]

/-! ### A byte that nothing is printed for -/

theorem roomy_length (kept : List UInt8) : (roomy kept).length < room - 1 := by
  rw [roomy]
  split
  · decide
  · omega

theorem silent_append {a b : List Event} : Parameters.Silent (a ++ b) ↔ Parameters.Silent a ∧ Parameters.Silent b := by
  constructor
  · intro h
    exact ⟨fun e he => h e (List.mem_append_left _ he), fun e he => h e (List.mem_append_right _ he)⟩
  · rintro ⟨ha, hb⟩ e he
    rcases List.mem_append.1 he with he | he
    · exact ha e he
    · exact hb e he

/-- Where nothing is printed the console does not ask again. -/
theorem console_silent {a : Answer} (h : console cfg m ch = some a) (hsilent : Parameters.Silent a.events) :
    terminal cfg m ch = some a ∧ a.status = .noCharYet := by
  obtain ⟨b, hterminal, hdrained⟩ := Option.bind_eq_some_iff.1 h
  have hfuel : 2 * room = 255 + 1 := by decide
  rw [hfuel, drained] at hdrained
  split at hdrained
  case h_1 =>
    rw [← Option.some.inj hdrained] at hsilent
    exact absurd rfl ((hsilent (.print b.toScreen) (by simp)).2 _)
  case h_2 hstatus =>
    obtain rfl := Option.some.inj hdrained
    exact ⟨hterminal, hstatus⟩
  case h_3 =>
    obtain ⟨next, -, hrest⟩ := Option.bind_eq_some_iff.1 hdrained
    obtain ⟨rest, -, rfl⟩ := Option.map_eq_some_iff.1 hrest
    exact absurd rfl ((hsilent (.print b.toScreen) (by simp)).2 _)

theorem console_quiet {a : Answer} (h : terminal cfg m ch = some a) (hstatus : a.status = .noCharYet) :
    console cfg m ch = some a := by
  have hfuel : 2 * room = 255 + 1 := by decide
  rw [console, h, Option.bind_some, hfuel, drained, hstatus]

/-- As long as ANSI has no character the fallback goes on. -/
theorem fallbackLoop_stays {queue : List UInt8} {a : Answer} (hm : m.fallback = true)
    (h : fallbackLoop cfg queue m = some a) (hstatus : a.status = .noCharYet) : a.machine.fallback = true := by
  induction queue generalizing m a with
  | nil => cases h
  | cons ch rest ih =>
    rw [fallbackLoop] at h
    obtain ⟨b, hcall, h⟩ := Option.bind_eq_some_iff.1 h
    have hb : b.machine.fallback = true := by
      obtain ⟨reply, -, rfl⟩ := Option.map_eq_some_iff.1 hcall
      exact hm
    have hstays : b.status = .noCharYet → b.ourselves = b := fun hquiet => by rw [Answer.ourselves, if_pos hquiet]
    have hsame : b.ourselves.status = b.status := by
      rw [Answer.ourselves]
      split <;> rfl
    dsimp only at h
    split at h
    case isTrue =>
      obtain rfl := Option.some.inj h
      have hquiet : b.status = .noCharYet := hsame.symm.trans hstatus
      rw [hstays hquiet]
      exact hb
    case isFalse hmore =>
      have hquiet : b.status = .noCharYet := by
        rw [← hsame]
        exact not_not.1 fun hnot => hmore (.inr hnot)
      obtain ⟨next, hnext, rfl⟩ := Option.map_eq_some_iff.1 h
      have hours : b.ourselves.machine.fallback = true := by
        rw [hstays hquiet]
        exact hb
      exact ih (m := { b.ourselves.machine with ansiBuffer := rest }) (a := next) hours hnext hstatus

theorem ansiFallback_stays {a : Answer} (hm : m.fallback = true) (h : ansiFallback cfg m ch = some a)
    (hstatus : a.status = .noCharYet) : a.machine.fallback = true := by
  obtain ⟨b, hloop, hb⟩ := Option.map_eq_some_iff.1 h
  split at hb
  case isTrue hmany =>
    rw [← hb] at hstatus
    exact absurd (hmany.symm.trans hstatus) nofun
  case isFalse =>
    subst hb
    exact fallbackLoop_stays hm hloop hstatus

theorem giveUp_stays {a : Answer} (h : giveUp cfg m ch = some a) (hstatus : a.status = .noCharYet) :
    a.machine.fallback = true := ansiFallback_stays rfl h hstatus

theorem junked_fallback (m : Machine) : (junked m).fallback = m.fallback := by
  rw [junked]
  split <;> rfl

/-- Bytes that nothing is printed for do not end the fallback. -/
theorem run_stays {bytes : List UInt8} {o : Outcome} (hm : m.fallback = true) (h : run cfg m bytes = some o)
    (hsilent : Parameters.Silent o.events) : o.machine.fallback = true := by
  induction bytes generalizing m o with
  | nil =>
    obtain rfl := Option.some.inj h
    exact hm
  | cons ch bytes ih =>
    obtain ⟨a, hconsole, h⟩ := Option.bind_eq_some_iff.1 h
    obtain ⟨last, hlast, rfl⟩ := Option.map_eq_some_iff.1 h
    obtain ⟨ha, hrest⟩ := silent_append.1 hsilent
    obtain ⟨hterminal, hstatus⟩ := console_silent hconsole ha
    obtain ⟨b, hstep, rfl⟩ := Option.map_eq_some_iff.1 hterminal
    rw [petsciiStep, junked_fallback, if_pos hm] at hstep
    have hstays : b.machine.fallback = true :=
      ansiFallback_stays ((junked_fallback m).trans hm) hstep hstatus
    exact ih (m := { b.machine with petscii := { b.machine.petscii with lastState := b.status } }) (o := last) hstays
      hlast hrest

theorem run_cons {bytes : List UInt8} {o : Outcome} (h : run cfg m (ch :: bytes) = some o) (hsilent : Parameters.Silent o.events) :
    ∃ a last, terminal cfg m ch = some a ∧ a.status = .noCharYet ∧ run cfg a.machine bytes = some last ∧
      Parameters.Silent last.events ∧ o.machine = last.machine := by
  obtain ⟨a, hconsole, h⟩ := Option.bind_eq_some_iff.1 h
  obtain ⟨last, hlast, rfl⟩ := Option.map_eq_some_iff.1 h
  obtain ⟨ha, hrest⟩ := silent_append.1 hsilent
  obtain ⟨hterminal, hstatus⟩ := console_silent hconsole ha
  exact ⟨a, last, hterminal, hstatus, hlast, hrest, rfl⟩

/-- A run that begins to fall back does not come back to the ground state. -/
theorem not_ground_of_giveUp {n : Machine} {bytes : List UInt8} {o : Outcome}
    (hstep : petsciiStep cfg (junked m) ch = giveUp cfg n ch) (h : run cfg m (ch :: bytes) = some o)
    (hsilent : Parameters.Silent o.events) : ¬ o.machine.Ground := by
  obtain ⟨a, last, hterminal, hstatus, hlast, hrest, hsame⟩ := run_cons h hsilent
  obtain ⟨b, hb, rfl⟩ := Option.map_eq_some_iff.1 hterminal
  rw [hstep] at hb
  have hstays := run_stays (m := { b.machine with petscii := { b.machine.petscii with lastState := b.status } })
    (giveUp_stays hb hstatus) hlast hrest
  intro hground
  rw [hsame] at hground
  rw [hground.fallback] at hstays
  cases hstays

/-! ### The two emulations side by side -/

/-- Both behind the first parameter of a sequence. -/
structure Along (m : Machine) (s : State) (flags hue : Attr) (front : List UInt8) : Prop where
  fallback : m.fallback = false
  scan : m.petscii.scan = .csiParam
  kept : m.petscii.kept = front
  count : m.petscii.count = 2
  attributes : m.petscii.attributes = flags
  color : m.petscii.color = hue
  behind : m.behind = []
  ansi : m.ansi.scan = .none
  ansiBuffer : m.ansiBuffer = []
  scanOver : ∃ n, s.scan = scanOf n
  keptOver : s.kept = front
  countOver : s.count = 2
  attributesOver : s.attributes = hue
  colorOver : s.color = hue
  lastOver : s.lastState = .noCharYet

variable {attributes color : Attr} {kept : List UInt8}

theorem Along.junk (h : Along m s attributes color kept) :
    Along (junked m) (Collected.junk s) attributes color (roomy kept) := by
  rw [junked, Collected.junk, roomy, h.kept, h.keptOver]
  split
  · exact ⟨h.fallback, h.scan, rfl, h.count, h.attributes, h.color, rfl, h.ansi, h.ansiBuffer, h.scanOver, rfl,
      h.countOver, h.attributesOver, h.colorOver, rfl⟩
  · exact h

theorem receive_junk (cfg : Config) (s : State) (ch : UInt8) : receive cfg (Collected.junk s) ch = receive cfg s ch := by
  have htwice : Collected.junk (Collected.junk s) = Collected.junk s := by
    rw [Collected.junk, Collected.junk]
    split
    · rfl
    · rfl
  rw [receive, receive, terminalEmulator, terminalEmulator, htwice]

/-- One more parameter byte. -/
theorem Along.part (h : Along m s attributes color kept) (cfg : Config) (hpart : Parameters.Part ch) :
    ∃ m' s', terminal cfg m ch = some ⟨.noCharYet, 1, [.stored ch], [], m'⟩ ∧
      receive (ansiConfig cfg) s ch = some (s', [.stored ch]) ∧ Along m' s' attributes color (held kept ch) := by
  have hj := h.junk
  obtain ⟨n, hscan⟩ := hj.scanOver
  have hroom := roomy_length kept
  have hsmall : (junked m).petscii.kept.length < room := by
    rw [hj.kept]
    omega
  have hsmallOver : (Collected.junk s).kept.length < room - 1 := by
    rw [hj.keptOver]
    exact hroom
  have hstep : petsciiStep cfg (junked m) ch = some ⟨.noCharYet, 1, [.stored ch], [],
      { junked m with
        petscii := { (junked m).petscii with kept := (junked m).petscii.kept ++ [ch] }
        behind := (junked m).behind.tail }⟩ := by
    rw [petsciiStep, hj.fallback, if_neg (by decide), hj.scan]
    dsimp only
    rw [Machine.save, saveChar_eq hsmall, Option.map_some, Option.bind_some,
      if_pos (show isDigit ch = true ∨ ch = code ';' from hpart), goesOn]
  have hquiet := receive_quiet (show (ansiConfig cfg).emulator = .ansi from rfl) (by rw [hj.lastOver]; exact nofun)
    hsmallOver hpart.ne (ansi_part hscan (by omega) hpart) rfl
  rw [receive_junk] at hquiet
  refine ⟨_, _, by rw [terminal, hstep, Option.map_some], hquiet, ?_⟩
  exact ⟨hj.fallback, hj.scan, by rw [held, ← hj.kept], hj.count, hj.attributes, hj.color, by rw [hj.behind]; rfl, hj.ansi,
    hj.ansiBuffer, ⟨_, rfl⟩, by rw [held, ← hj.keptOver], hj.countOver, hj.attributesOver, hj.colorOver, rfl⟩

/-- What `ansi_color` makes of the parameters. -/
def colored (cfg : Config) (kept : List UInt8) (flags color : Attr) : Option (Bool × Attr) :=
  ansiColorLoop cfg kept room 2 { flags with pair := 0 } (color.pair / 8 % 8) (color.pair % 8)

theorem colored_flags {a b c ra : Attr} (h : colored cfg kept a c = some (true, ra)) :
    ∃ rb, colored cfg kept b c = some (true, rb) ∧ (rb = ra ↔ Agree cfg b a (numbers kept room 2)) := by
  obtain ⟨rb, hloop, hiff⟩ := loop_flags cfg kept room 2 _ _ _ { b with pair := 0 } ra h
  refine ⟨rb, hloop, hiff.trans (forall_congr' fun f => ?_)⟩
  cases f <;> rfl

/-- `m` in PETSCII. -/
theorem Along.petsciiColor (h : Along m s attributes color kept) (cfg : Config) :
    petsciiStep cfg (junked m) (code 'm') = (colored cfg (roomy kept) attributes color).bind fun (parsed, output) =>
      if parsed then
        own { junked m with petscii := { (junked m).petscii with kept := roomy kept ++ [code 'm'] }, behind := [] } (code 'm')
          { (junked m).petscii with kept := roomy kept ++ [code 'm'], color := output, attributes := output }
      else
        giveUp cfg
          { junked m with
            petscii := { (junked m).petscii with kept := roomy kept ++ [code 'm'], attributes := output }
            behind := [] } (code 'm') := by
  have hj := h.junk
  have hroom := roomy_length kept
  have hsmall : (junked m).petscii.kept.length < room := by
    rw [hj.kept]
    omega
  have hblank : Blank (code 'm') := ⟨by decide, by decide⟩
  rw [petsciiStep, hj.fallback, if_neg (by decide), hj.scan]
  dsimp only
  rw [Machine.save, saveChar_eq hsmall, Option.map_some, Option.bind_some, if_neg (by decide), if_pos rfl]
  dsimp only
  rw [ansiColor, hj.behind, hj.kept]
  dsimp only [List.tail_nil]
  rw [hj.count, hj.attributes, hj.color, List.append_nil, loop_alike (alike_append (roomy kept) hblank)]
  rfl

/-- `m` in ANSI. -/
theorem Along.ansiColor (h : Along m s attributes color kept) (cfg : Config) :
    Collected.ansi (ansiConfig cfg) (Collected.junk s) (code 'm') =
      (colored cfg (roomy kept) color color).bind fun (parsed, output) =>
        if parsed then done { Collected.junk s with color := output, attributes := output } []
        else unknown { Collected.junk s with attributes := output } (code 'm') := by
  have hj := h.junk
  obtain ⟨n, hscan⟩ := hj.scanOver
  have hcolor : Collected.ansiColor (ansiConfig cfg) (Collected.junk s) (Collected.junk s).kept =
      colored cfg (roomy kept) color color := by
    rw [Collected.ansiColor, hj.keptOver, hj.countOver, hj.attributesOver, hj.colorOver, loop_config]
    rfl
  rw [ansi_m hscan, ansiSgr, hcolor]

theorem Along.taken (h : Along m s attributes color kept) {output : Attr}
    (hcolored : colored cfg (roomy kept) color color = some (true, output)) :
    ∃ m' s' log, terminal cfg m (code 'm') =
        some ⟨.noCharYet, 1, [.stored (code 'm'), .act .insertModeOff], log, m'⟩ ∧ m'.Ground ∧
      receive (ansiConfig cfg) s (code 'm') = some (s', []) ∧ s'.scan = .none ∧
      (m'.petscii.color = s'.color ↔ Agree cfg attributes color (numbers (roomy kept) room 2)) := by
  have hj := h.junk
  obtain ⟨result, hresult, hagree⟩ := colored_flags (b := attributes) hcolored
  have hstep := h.petsciiColor cfg
  rw [hresult, Option.bind_some] at hstep
  dsimp only at hstep
  rw [if_pos rfl, own] at hstep
  have hansi := h.ansiColor cfg
  rw [hcolored, Option.bind_some] at hansi
  dsimp only at hansi
  rw [if_pos rfl, done] at hansi
  have hsmallOver : (Collected.junk s).kept.length < room - 1 := by
    rw [hj.keptOver]
    exact roomy_length kept
  have hquiet := receive_quiet (show (ansiConfig cfg).emulator = .ansi from rfl) (by rw [hj.lastOver]; exact nofun)
    hsmallOver (by decide) hansi rfl
  rw [receive_junk] at hquiet
  refine ⟨_, _, _, by rw [terminal, hstep, Option.map_some], ?_, hquiet, rfl, hagree⟩
  exact ⟨hj.fallback, rfl, rfl, rfl, nofun, hj.ansi, hj.ansiBuffer⟩

theorem Along.refused (h : Along m s attributes color kept)
    (hcolored : ∀ output, colored cfg (roomy kept) color color ≠ some (true, output)) :
    (∀ text o, run cfg m (code 'm' :: text) = some o → Parameters.Silent o.events → ¬ o.machine.Ground) ∧
      ∀ s' events, receive (ansiConfig cfg) s (code 'm') = some (s', events) → ¬ Parameters.Silent events := by
  have hj := h.junk
  constructor
  · intro text o hrun hsilent
    have hstep := h.petsciiColor cfg
    cases hresult : colored cfg (roomy kept) attributes color with
    | none =>
      rw [hresult, Option.bind_none] at hstep
      rw [run, console, terminal, hstep, Option.map_none, Option.bind_none, Option.bind_none] at hrun
      cases hrun
    | some r =>
      obtain ⟨parsed, output⟩ := r
      cases parsed with
      | true =>
        obtain ⟨other, hother, -⟩ := colored_flags (b := color) hresult
        exact absurd hother (hcolored other)
      | false =>
        rw [hresult, Option.bind_some] at hstep
        dsimp only at hstep
        rw [if_neg (by decide)] at hstep
        exact not_ground_of_giveUp hstep hrun hsilent
  · intro s' events hreceive
    have hansi := h.ansiColor cfg
    have hsmallOver : (Collected.junk s).kept.length < room - 1 := by
      rw [hj.keptOver]
      exact roomy_length kept
    have hlast : (Collected.junk s).lastState ≠ .manyChars := by
      rw [hj.lastOver]
      exact nofun
    rw [← receive_junk] at hreceive
    cases hresult : colored cfg (roomy kept) color color with
    | none =>
      rw [hresult, Option.bind_none] at hansi
      have hjunk : Collected.junk (Collected.junk s) = Collected.junk s := if_neg (by omega)
      have hnone : terminalEmulator (ansiConfig cfg) (Collected.junk s) (code 'm') = none := by
        rw [terminalEmulator, hjunk]
        rw [if_neg hlast, if_neg (by simp [code]), if_neg (by simp [code]), emulate]
        rw [show (ansiConfig cfg).emulator = .ansi from rfl]
        exact congrArg (Option.map Reply.remember) hansi
      rw [receive, hnone, Option.bind_none] at hreceive
      cases hreceive
    | some r =>
      obtain ⟨parsed, output⟩ := r
      cases parsed with
      | true => exact absurd hresult (hcolored output)
      | false =>
        rw [hresult, Option.bind_some] at hansi
        dsimp only at hansi
        rw [if_neg (by decide)] at hansi
        exact receive_rejected (show (ansiConfig cfg).emulator = .ansi from rfl) hlast hsmallOver (by decide) hansi
          hreceive

/-- Behind the first parameter, a run to the ground state is one of parameters and `m`. -/
theorem Along.ends (h : Along m s attributes color kept) {text : List UInt8} {o : Outcome} (hrun : run cfg m text = some o)
    (hsilent : Parameters.Silent o.events) (hground : o.machine.Ground) :
    ∃ body back, (∀ ch ∈ body, Parameters.Part ch) ∧ text = body ++ code 'm' :: back ∧
      ∃ s' events, feed (ansiConfig cfg) s (body ++ [code 'm']) = some (s', events) ∧ s'.scan = .none ∧
        (back = [] → (o.machine.petscii.color = s'.color ↔
          Agree cfg attributes color (numbers (roomy (body.foldl held kept)) room 2))) := by
  induction text generalizing m s kept o with
  | nil =>
    obtain rfl := Option.some.inj hrun
    have hscan := hground.scan
    rw [h.scan] at hscan
    cases hscan
  | cons ch text ih =>
    by_cases hpart : Parameters.Part ch
    · obtain ⟨m', s', hterminal, hreceive, hnext⟩ := h.part cfg hpart
      obtain ⟨a, last, ha, -, hlast, hrest, hsame⟩ := run_cons hrun hsilent
      rw [hterminal] at ha
      obtain rfl := Option.some.inj ha
      rw [hsame] at hground ⊢
      obtain ⟨body, back, hbody, rfl, t, events, hfeed, hscan, hcolor⟩ := ih hnext hlast hrest hground
      refine ⟨ch :: body, back, ?_, rfl, t, [.stored ch] ++ events, ?_, hscan, hcolor⟩
      · intro x hx
        rcases List.mem_cons.1 hx with rfl | hx
        · exact hpart
        · exact hbody x hx
      · rw [List.cons_append, feed_cons hreceive, hfeed, Option.map_some]
    · by_cases hm : ch = code 'm'
      · subst hm
        by_cases hcolored : ∃ output, colored cfg (roomy kept) color color = some (true, output)
        · obtain ⟨output, hcolored⟩ := hcolored
          obtain ⟨m', s', log, hterminal, -, hreceive, hscan, hcolor⟩ := h.taken hcolored
          refine ⟨[], text, fun _ hx => absurd hx List.not_mem_nil, rfl, s', [] ++ [], ?_, hscan, ?_⟩
          · rw [List.nil_append, feed_cons hreceive, feed, Option.map_some]
          · rintro rfl
            obtain ⟨a, last, ha, -, hlast, -, hsame⟩ := run_cons hrun hsilent
            rw [hterminal] at ha
            obtain rfl := Option.some.inj ha
            obtain rfl := Option.some.inj hlast
            rw [hsame]
            exact hcolor
        · exact absurd hground ((h.refused fun output heq => hcolored ⟨output, heq⟩).1 text o hrun hsilent)
      · have hj := h.junk
        have hsmall : (junked m).petscii.kept.length < room := by
          have hroom := roomy_length kept
          rw [hj.kept]
          omega
        have hstep : petsciiStep cfg (junked m) ch = giveUp cfg
            { junked m with
              petscii := { (junked m).petscii with kept := (junked m).petscii.kept ++ [ch] }
              behind := (junked m).behind.tail } ch := by
          rw [petsciiStep, hj.fallback, if_neg (by decide), hj.scan]
          dsimp only
          rw [Machine.save, saveChar_eq hsmall, Option.map_some, Option.bind_some,
            if_neg (show ¬ (isDigit ch = true ∨ ch = code ';') from hpart), if_neg hm]
        exact absurd hground (not_ground_of_giveUp hstep hrun hsilent)

theorem run_step {bytes : List UInt8} {a : Answer} (h : terminal cfg m ch = some a) (hstatus : a.status = .noCharYet) :
    run cfg m (ch :: bytes) = (run cfg a.machine bytes).map fun last =>
      ⟨last.machine, a.events ++ last.events, a.log ++ last.log⟩ := by
  rw [run, console_quiet h hstatus, Option.bind_some]

/-- Behind the first parameter, parameters and `m` that ANSI takes are a run to the ground state. -/
theorem Along.own (h : Along m s attributes color kept) {body : List UInt8} (hbody : ∀ ch ∈ body, Parameters.Part ch)
    {t : State} {events : List Event} (hfeed : feed (ansiConfig cfg) s (body ++ [code 'm']) = some (t, events))
    (hsilent : Parameters.Silent events) :
    ∃ o, run cfg m (body ++ [code 'm']) = some o ∧ Parameters.Silent o.events ∧ o.machine.Ground ∧ seen o.events = [] ∧
      seen events = [] ∧ (o.machine.petscii.color = t.color ↔
        Agree cfg attributes color (numbers (roomy (body.foldl held kept)) room 2)) := by
  induction body generalizing m s kept events with
  | nil =>
    rw [List.nil_append] at hfeed ⊢
    by_cases hcolored : ∃ output, colored cfg (roomy kept) color color = some (true, output)
    · obtain ⟨output, hcolored⟩ := hcolored
      obtain ⟨m', s', log, hterminal, hground, hreceive, -, hcolor⟩ := h.taken hcolored
      rw [feed_cons hreceive, feed, Option.map_some] at hfeed
      obtain ⟨rfl, rfl⟩ := Prod.mk.inj (Option.some.inj hfeed)
      refine ⟨_, by rw [run_step hterminal rfl, run, Option.map_some], ?_, hground, rfl, rfl, hcolor⟩
      intro e he
      simp only [List.append_nil, List.mem_cons, List.not_mem_nil, or_false] at he
      rcases he with rfl | rfl
      · exact ⟨(fun h => by cases h), fun ch h => by cases h⟩
      · exact ⟨(fun h => by cases h), fun ch h => by cases h⟩
    · rw [feed] at hfeed
      obtain ⟨⟨s', passed⟩, hreceive, hlast⟩ := Option.bind_eq_some_iff.1 hfeed
      obtain ⟨last, -, heq⟩ := Option.map_eq_some_iff.1 hlast
      have hpassed := (h.refused fun output heq => hcolored ⟨output, heq⟩).2 s' passed hreceive
      rw [← (Prod.mk.inj heq).2] at hsilent
      exact absurd (silent_append.1 hsilent).1 hpassed
  | cons ch body ih =>
    obtain ⟨m', s', hterminal, hreceive, hnext⟩ := h.part cfg (hbody ch List.mem_cons_self)
    rw [List.cons_append, feed_cons hreceive] at hfeed
    obtain ⟨⟨u, passed⟩, hpassed, heq⟩ := Option.map_eq_some_iff.1 hfeed
    obtain ⟨rfl, rfl⟩ := Prod.mk.inj heq
    obtain ⟨o, hrun, hquiet, hground, hseen, hover, hcolor⟩ :=
      ih hnext (fun x hx => hbody x (List.mem_cons_of_mem _ hx)) hpassed (silent_append.1 hsilent).2
    refine ⟨⟨o.machine, [.stored ch] ++ o.events, [] ++ o.log⟩, ?_, ?_, hground, hseen, hover, hcolor⟩
    · rw [List.cons_append, run_step hterminal rfl, hrun, Option.map_some]
    · exact silent_append.2 ⟨silent_stored [ch], hquiet⟩

/-! ### The first bytes -/

/-- Behind an ESC. -/
def begun (m : Machine) : Machine :=
  { m with petscii := { m.petscii with kept := [escape], scan := .esc, lastState := .noCharYet }, behind := [] }

/-- Behind `CSI`. -/
def opened (m : Machine) : Machine :=
  { m with petscii := { m.petscii with kept := [escape, code '['], scan := .csi, lastState := .noCharYet }, behind := [] }

theorem junked_short (h : m.petscii.kept.length < room - 1) : junked m = m := if_neg (by omega)

theorem terminal_escape (cfg : Config) (h : m.Ground) :
    terminal cfg m escape = some ⟨.noCharYet, 1, [.stored escape], [], begun m⟩ := by
  rw [terminal, junked_short (by rw [h.kept]; decide), petsciiStep, h.fallback, if_neg (by decide), h.scan]
  dsimp only
  rw [ground, if_pos rfl, Machine.save, saveChar_eq (by rw [h.kept]; decide), h.kept, h.behind]
  rfl

theorem terminal_bracket (hcolor : cfg.petsciiColor = true) (h : m.fallback = false) :
    terminal cfg (begun m) (code '[') = some ⟨.noCharYet, 1, [.stored (code '[')], [], opened m⟩ := by
  rw [terminal, junked_short (by simp [begun, room]), petsciiStep, show (begun m).fallback = false from h, if_neg (by decide),
    show (begun m).petscii.scan = .esc from rfl]
  dsimp only
  rw [Machine.save, saveChar_eq (by simp [begun, room]), Option.map_some, Option.bind_some, if_pos ⟨rfl, hcolor⟩]
  rfl

theorem terminal_digit (cfg : Config) (h : m.fallback = false) (hdigit : isDigit ch = true) :
    terminal cfg (opened m) ch = some ⟨.noCharYet, 1, [.stored ch], [],
      { opened m with
        petscii := { (opened m).petscii with kept := [escape, code '[', ch], scan := .csiParam, count := 2 } }⟩ := by
  rw [terminal, junked_short (by simp [opened, room]), petsciiStep, show (opened m).fallback = false from h, if_neg (by decide),
    show (opened m).petscii.scan = .csi from rfl]
  dsimp only
  rw [Machine.save, saveChar_eq (by simp [opened, room]), Option.map_some, Option.bind_some, if_pos hdigit]
  rfl

theorem terminal_m (cfg : Config) (h : m.fallback = false) :
    terminal cfg (opened m) (code 'm') = some ⟨.noCharYet, 1, [.stored (code 'm'), .act .insertModeOff],
      [(.petscii, escape), (.petscii, code '['), (.petscii, code 'm')],
      { m with
        petscii := { m.petscii.clear with color := cfg.consoleText, lastState := .noCharYet }
        behind := [] }⟩ := by
  rw [terminal, junked_short (by simp [opened, room]), petsciiStep, show (opened m).fallback = false from h, if_neg (by decide),
    show (opened m).petscii.scan = .csi from rfl]
  dsimp only
  rw [Machine.save, saveChar_eq (by simp [opened, room]), Option.map_some, Option.bind_some, if_neg (by decide), if_pos rfl]
  rfl

theorem petsciiStep_begun (h : m.fallback = false) (hch : ¬ (ch = code '[' ∧ cfg.petsciiColor = true)) :
    ∃ n, petsciiStep cfg (junked (begun m)) ch = giveUp cfg n ch := by
  rw [junked_short (by simp [begun, room]), petsciiStep, show (begun m).fallback = false from h, if_neg (by decide),
    show (begun m).petscii.scan = .esc from rfl]
  dsimp only
  rw [Machine.save, saveChar_eq (by simp [begun, room]), Option.map_some, Option.bind_some, if_neg hch]
  exact ⟨_, rfl⟩

theorem petsciiStep_opened (cfg : Config) (h : m.fallback = false) (hdigit : ¬ isDigit ch = true) (hm : ch ≠ code 'm') :
    ∃ n, petsciiStep cfg (junked (opened m)) ch = giveUp cfg n ch := by
  rw [junked_short (by simp [opened, room]), petsciiStep, show (opened m).fallback = false from h, if_neg (by decide),
    show (opened m).petscii.scan = .csi from rfl]
  dsimp only
  rw [Machine.save, saveChar_eq (by simp [opened, room]), Option.map_some, Option.bind_some, if_neg hdigit, if_neg hm]
  exact ⟨_, rfl⟩

theorem Machine.Ground.view (h : m.Ground) : Parameters.Ground (ansiConfig cfg) m.view := ⟨rfl, h.ansi, h.kept, h.last⟩

/-- The first parameter in ANSI. -/
theorem receive_digit (cfg : Config) (s : State) (hdigit : isDigit ch = true) :
    receive (ansiConfig cfg) (started s) ch = some (Parameters.collected s [ch], [.stored ch]) := by
  have hpart : Parameters.Part ch := .inl hdigit
  have hzero : semicolons [ch] = 0 := by simp [semicolons, (isDigit_ne hdigit).2.2.1]
  have hfirst : Collected.ansi (ansiConfig cfg) (started s) ch =
      some ⟨.noCharYet, 1, [.stored ch], Parameters.collected s [ch]⟩ := by
    rw [Collected.ansi]
    dsimp only [started]
    rw [ansiStart, if_pos hdigit, keep, saveChar_eq (by simp [room])]
    simp [Parameters.collected, started, hzero, scanOf]
  exact receive_quiet rfl (by simp [started]) (by simp [started, room]) hpart.ne hfirst rfl

/-- `m` in ANSI right behind `CSI`. -/
theorem receive_m (cfg : Config) (s : State) :
    receive (ansiConfig cfg) (started s) (code 'm') =
      some ({ (started s).clear with color := cfg.consoleText }, []) := by
  have hfirst : Collected.ansi (ansiConfig cfg) (started s) (code 'm') =
      done { started s with color := cfg.consoleText } [] := rfl
  exact receive_quiet rfl (by simp [started]) (by simp [started, room]) (by decide) hfirst rfl

theorem along_start (h : m.Ground) :
    Along { opened m with
        petscii := { (opened m).petscii with kept := [escape, code '[', ch], scan := .csiParam, count := 2 } }
      (Parameters.collected m.view [ch]) m.petscii.attributes m.petscii.color [escape, code '[', ch] :=
  ⟨h.fallback, rfl, rfl, rfl, rfl, rfl, rfl, h.ansi, h.ansiBuffer, ⟨_, rfl⟩, rfl, rfl, rfl, rfl, rfl⟩

/-! ### The exact condition -/

/-- What ANSI says to `CSI`. -/
def openedEvents (cfg : Config) (s : State) : List Event :=
  [.began (memory (ansiConfig cfg) { s with attributes := s.color }), .stored escape, .stored (code '[')]

theorem feed_digit (cfg : Config) (h : m.Ground) (hdigit : isDigit ch = true) (rest : List UInt8) :
    feed (ansiConfig cfg) m.view (escape :: code '[' :: ch :: rest) =
      (feed (ansiConfig cfg) (Parameters.collected m.view [ch]) rest).map fun last =>
        (last.1, openedEvents cfg m.view ++ ([.stored ch] ++ last.2)) := by
  rw [feed_start h.view, feed_cons (receive_digit cfg m.view hdigit), Option.map_map]
  rfl

theorem feed_m (cfg : Config) (h : m.Ground) :
    feed (ansiConfig cfg) m.view [escape, code '[', code 'm'] =
      some ({ (started m.view).clear with color := cfg.consoleText }, openedEvents cfg m.view ++ ([] ++ [])) := by
  rw [feed_start h.view, feed_cons (receive_m cfg m.view)]
  rfl

/-- A sequence that ANSI takes is done alike, and PETSCII is in its ground state then, exactly where PETSCII does it
itself. -/
theorem transparent_iff (h : m.Ground) {sequence : List UInt8} {t : State} {events : List Event}
    (haccepted : Accepted cfg m.view sequence t events) :
    Transparent cfg m sequence t events ↔ Own cfg m sequence := by
  constructor
  · rintro ⟨o, hrun, hsilent, hground, -, hcolor⟩
    obtain ⟨rest, rfl⟩ := haccepted.first
    obtain ⟨a, last, ha, -, hlast, hrest, hsame⟩ := run_cons hrun hsilent
    rw [terminal_escape cfg h] at ha
    obtain rfl := Option.some.inj ha
    rw [hsame] at hground hcolor
    dsimp only at hlast
    clear hrun hsilent hsame
    cases rest with
    | nil =>
      obtain rfl := Option.some.inj hlast
      exact absurd hground.scan nofun
    | cons c rest =>
      by_cases hc : c = code '[' ∧ cfg.petsciiColor = true
      · obtain ⟨rfl, hpetscii⟩ := hc
        refine ⟨hpetscii, ?_⟩
        obtain ⟨b, next, hb, -, hnext, hquiet, hsame⟩ := run_cons hlast hrest
        rw [terminal_bracket hpetscii h.fallback] at hb
        obtain rfl := Option.some.inj hb
        rw [hsame] at hground hcolor
        dsimp only at hnext
        cases rest with
        | nil =>
          obtain rfl := Option.some.inj hnext
          exact absurd hground.scan nofun
        | cons d rest =>
          obtain ⟨e, final, he, -, hfinal, hstill, hend⟩ := run_cons hnext hquiet
          by_cases hdigit : isDigit d = true
          · rw [terminal_digit cfg h.fallback hdigit] at he
            obtain rfl := Option.some.inj he
            rw [hend] at hground hcolor
            obtain ⟨body, back, hbody, rfl, s', passed, hfeed, hscan, hiff⟩ :=
              (along_start h).ends hfinal hstill hground
            have hfront := feed_digit cfg h hdigit (body ++ [code 'm'])
            rw [hfeed, Option.map_some] at hfront
            have hback : back = [] := by
              by_contra hne
              exact haccepted.whole (escape :: code '[' :: d :: (body ++ [code 'm'])) back (by simp)
                (List.cons_ne_nil _ _) hne _ _ hfront hscan
            subst hback
            have hfed := haccepted.fed
            rw [hfront] at hfed
            obtain ⟨rfl, -⟩ := Prod.mk.inj (Option.some.inj hfed)
            exact .inr ⟨d, body, hdigit, hbody, rfl, (hiff rfl).1 hcolor⟩
          · by_cases hm : d = code 'm'
            · subst hm
              left
              have hback : rest = [] := by
                by_contra hne
                exact haccepted.whole [escape, code '[', code 'm'] rest rfl (List.cons_ne_nil _ _) hne _ _
                  (feed_m cfg h) rfl
              rw [hback]
            · obtain ⟨n, hstep⟩ := petsciiStep_opened cfg h.fallback hdigit hm
              exact absurd hground (not_ground_of_giveUp hstep hnext hquiet)
      · obtain ⟨n, hstep⟩ := petsciiStep_begun h.fallback hc
        exact absurd hground (not_ground_of_giveUp hstep hlast hrest)
  · rintro ⟨hpetscii, rfl | ⟨d, body, hdigit, hbody, rfl, hagree⟩⟩
    · have hfed := haccepted.fed
      rw [feed_m cfg h] at hfed
      obtain ⟨rfl, rfl⟩ := Prod.mk.inj (Option.some.inj hfed)
      refine ⟨_, by
        rw [run_step (terminal_escape cfg h) rfl, run_step (terminal_bracket hpetscii h.fallback) rfl,
          run_step (terminal_m cfg h.fallback) rfl, run, Option.map_some, Option.map_some, Option.map_some], ?_, ?_, rfl,
        rfl⟩
      · intro e he
        simp only [List.append_nil, List.mem_append, List.mem_cons, List.not_mem_nil, or_false] at he
        rcases he with rfl | rfl | rfl | rfl <;> exact ⟨nofun, nofun⟩
      · exact ⟨h.fallback, rfl, rfl, rfl, nofun, h.ansi, h.ansiBuffer⟩
    · have hfed := haccepted.fed
      rw [feed_digit cfg h hdigit] at hfed
      obtain ⟨⟨u, passed⟩, hpassed, heq⟩ := Option.map_eq_some_iff.1 hfed
      obtain ⟨rfl, rfl⟩ := Prod.mk.inj heq
      obtain ⟨o, hrun, hquiet, hground, hseen, hover, hcolor⟩ := (along_start h).own hbody hpassed
        (silent_append.1 (silent_append.1 haccepted.silent).2).2
      refine ⟨⟨o.machine, [.stored escape] ++ ([.stored (code '[')] ++ ([.stored d] ++ o.events)),
        [] ++ ([] ++ ([] ++ o.log))⟩, ?_, ?_, hground, hseen.trans hover.symm, hcolor.2 hagree⟩
      · rw [run_step (terminal_escape cfg h) rfl, run_step (terminal_bracket hpetscii h.fallback) rfl,
          run_step (terminal_digit cfg h.fallback hdigit) rfl, hrun, Option.map_some, Option.map_some, Option.map_some]
      · have hstored := silent_append.2 ⟨silent_stored [escape, code '[', d], hquiet⟩
        exact hstored

/-! ### What becomes of every byte -/

/-- An answer of ANSI: it has a character in the ground state only, and nothing is kept there but to be dumped. -/
def Fine (reply : Reply) : Prop :=
  (reply.status = .noCharYet ∨ reply.state.scan = .none) ∧
    (reply.state.scan = .none → reply.status = .manyChars ∨ reply.state.kept = [])

def AllFine (o : Option Reply) : Prop := ∀ reply, o = some reply → Fine reply

theorem allFine_none : AllFine none := by
  intro reply hreply
  cases hreply

theorem allFine_some {reply : Reply} (h : Fine reply) : AllFine (some reply) := by
  rintro _ ⟨⟩
  exact h

theorem allFine_bind {β : Type} {o : Option β} {k : β → Option Reply} (h : ∀ b, AllFine (k b)) : AllFine (o.bind k) := by
  intro reply hreply
  obtain ⟨b, -, hb⟩ := Option.bind_eq_some_iff.1 hreply
  exact h b reply hb

theorem allFine_keep (s : State) (ch : UInt8) {scan : Scan} (hscan : scan ≠ .none) : AllFine (keep s ch scan) := by
  intro reply hreply
  obtain ⟨t, -, rfl⟩ := Option.map_eq_some_iff.1 hreply
  exact ⟨.inl rfl, fun h => absurd h hscan⟩

theorem allFine_done (s : State) (actions : List Action) : AllFine (done s actions) :=
  allFine_some ⟨.inl rfl, fun _ => .inr rfl⟩

theorem allFine_unknown (s : State) (ch : UInt8) : AllFine (unknown s ch) := by
  intro reply hreply
  obtain ⟨t, -, h⟩ := Option.bind_eq_some_iff.1 hreply
  obtain ⟨first, -, rfl⟩ := Option.map_eq_some_iff.1 h
  split
  · exact ⟨.inr rfl, fun _ => .inr rfl⟩
  · exact ⟨.inr rfl, fun _ => .inl rfl⟩

theorem allFine_sgrOver (cfg : Config) (buffer : List UInt8) (s : State) (ch : UInt8) :
    AllFine (sgrOver cfg buffer s ch) := by
  refine allFine_bind fun ⟨parsed, output⟩ => ?_
  dsimp only
  split
  · exact allFine_done _ _
  · exact allFine_unknown _ _

theorem allFine_cursorOver (buffer : List UInt8) (s : State) (ch : UInt8) : AllFine (cursorOver buffer s ch) := by
  refine allFine_bind fun position => ?_
  cases position with
  | none => exact allFine_unknown _ _
  | some p => exact allFine_done _ _

theorem allFine_countOver (cfg : Config) (buffer : List UInt8) (s : State) (ch : UInt8) :
    AllFine (countOver cfg buffer s ch) := by
  rw [countOver]
  split
  · exact allFine_keep _ _ nofun
  split
  · exact allFine_keep _ _ nofun
  split
  · exact allFine_cursorOver _ _ _
  split
  · exact allFine_sgrOver _ _ _ _
  split
  · exact allFine_done _ _
  split
  · exact allFine_done _ _
  split
  · refine allFine_bind fun ⟨ps, count⟩ => ?_
    cases ps with
    | none => exact allFine_unknown _ _
    | some n => exact allFine_done _ _
  · split
    · refine allFine_bind fun value => ?_
      cases value with
      | none => exact allFine_unknown _ _
      | some n => exact allFine_done _ _
    · exact allFine_unknown _ _

theorem allFine_countTwoOver (cfg : Config) (buffer : List UInt8) (s : State) (ch : UInt8) :
    AllFine (countTwoOver cfg buffer s ch) := by
  rw [countTwoOver]
  split
  · exact allFine_keep _ _ nofun
  split
  · exact allFine_keep _ _ nofun
  split
  · exact allFine_cursorOver _ _ _
  split
  · exact allFine_sgrOver _ _ _ _
  · exact allFine_unknown _ _

theorem allFine_countManyOver (cfg : Config) (buffer : List UInt8) (s : State) (ch : UInt8) :
    AllFine (countManyOver cfg buffer s ch) := by
  rw [countManyOver]
  split
  · exact allFine_keep _ _ nofun
  split
  · exact allFine_sgrOver _ _ _ _
  · exact allFine_unknown _ _

theorem allFine_ansiStart (cfg : Config) (s : State) (ch : UInt8) (hs : s.scan = .startSequence) :
    AllFine (ansiStart cfg s ch) := by
  have hgoes {reply : Reply} (hstatus : reply.status = .noCharYet) (hscan : reply.state.scan ≠ .none) :
      AllFine (some reply) := allFine_some ⟨.inl hstatus, fun h => absurd h hscan⟩
  rw [ansiStart]
  split
  · exact allFine_keep _ _ (fun h => by cases h)
  split
  · exact allFine_done _ _
  split
  · exact allFine_keep _ _ (fun h => by cases h)
  split
  · split
    · exact hgoes rfl (fun h => by cases h)
    · exact allFine_done _ _
  split
  · exact hgoes rfl (fun h => by cases hs.symm.trans h)
  split
  · exact hgoes rfl (fun h => by cases hs.symm.trans h)
  split
  · exact allFine_done _ _
  · exact allFine_unknown _ _

theorem allFine_music (s : State) (ch : UInt8) (hs : s.scan = .music) : AllFine (ansiMusic s ch) := by
  rw [ansiMusic]
  split
  · exact allFine_done _ _
  split
  · dsimp only
    split
    · exact allFine_done _ _
    · exact allFine_some ⟨.inl rfl, fun h => by cases hs.symm.trans h⟩
  · exact allFine_none

theorem allFine_ansiOver (cfg : Config) (behind : List UInt8) (s : State) (ch : UInt8)
    (hs : s.scan = .none → s.kept = []) : AllFine (ansiOver cfg behind s ch) := by
  rw [ansiOver]
  split
  · exact allFine_countOver _ _ _ _
  · exact allFine_countTwoOver _ _ _ _
  · exact allFine_countManyOver _ _ _ _
  · rw [Collected.ansi]
    split
    case h_1 hnone =>
      split
      · intro reply hreply
        obtain ⟨t, -, rfl⟩ := Option.map_eq_some_iff.1 hreply
        exact ⟨.inl rfl, fun h => by cases h⟩
      split
      · exact allFine_some ⟨.inl rfl, fun _ => .inr (hs hnone)⟩
      · exact allFine_some ⟨.inr hnone, fun _ => .inr (hs hnone)⟩
    case h_2 hesc =>
      split
      · exact allFine_keep _ _ (fun h => by cases h)
      split
      · exact allFine_done _ _
      split
      · exact allFine_some ⟨.inl rfl, fun h => by cases hesc.symm.trans h⟩
      · exact allFine_unknown _ _
    case h_3 hstart => exact allFine_ansiStart _ _ _ hstart
    case h_7 hmusic => exact allFine_music _ _ hmusic
    all_goals first | exact allFine_unknown _ _ | (exfalso; simp_all)

/-- The bytes that PETSCII has not decided about. -/
def pending (m : Machine) : List UInt8 :=
  if m.fallback then [] else
  match m.petscii.scan with
  | .esc | .csi | .csiParam => m.petscii.kept
  | _ => []

/-- What PETSCII keeps in each of its scan states. -/
inductive Shape : Scan → List UInt8 → Prop
  | none : Shape .none []
  | esc : Shape .esc [escape]
  | csi : Shape .csi [escape, code '[']
  | param {text : List UInt8} (h : ∀ ch ∈ text, Parameters.Part ch) : Shape .csiParam (escape :: code '[' :: text)

/-- Between two received bytes. -/
structure Steady (m : Machine) : Prop where
  ansiBuffer : m.ansiBuffer = []
  falling : m.fallback = true → m.ansi.scan = .none → m.petscii.kept = []
  own : m.fallback = false → m.ansi.scan = .none ∧ Shape m.petscii.scan m.petscii.kept

/-- The bytes that a scan state of ANSI takes into the buffer one after the other. -/
inductive Follows : Scan → List UInt8 → Prop
  | nil (scan : Scan) : Follows scan []
  | escape {rest : List UInt8} (h : Follows .esc rest) : Follows .none (escape :: rest)
  | bracket {rest : List UInt8} (h : Follows .startSequence rest) : Follows .esc (code '[' :: rest)
  | first {n : ℕ} {ch : UInt8} {rest : List UInt8} (hpart : Parameters.Part ch)
      (h : ∀ n, Follows (scanOf n) rest) : Follows .startSequence (ch :: rest)
  | part {n : ℕ} {ch : UInt8} {rest : List UInt8} (hpart : Parameters.Part ch)
      (h : ∀ n, Follows (scanOf n) rest) : Follows (scanOf n) (ch :: rest)

theorem follows_parts {text : List UInt8} (h : ∀ ch ∈ text, Parameters.Part ch) (n : ℕ) : Follows (scanOf n) text := by
  induction text generalizing n with
  | nil => exact .nil _
  | cons ch text ih =>
    exact .part (h ch List.mem_cons_self) fun n => ih (fun x hx => h x (List.mem_cons_of_mem _ hx)) n

/-- All but the last byte of what PETSCII gives up is kept by ANSI. -/
theorem Shape.follows {scan : Scan} {kept : List UInt8} (h : Shape scan kept) : Follows .none kept := by
  cases h with
  | none => exact .nil _
  | esc => exact .escape (.nil _)
  | csi => exact .escape (.bracket (.nil _))
  | @param text h =>
    cases text with
    | nil => exact .escape (.bracket (.nil _))
    | cons ch text =>
      exact .escape (.bracket (.first (n := 0) (h ch List.mem_cons_self)
        (follows_parts fun x hx => h x (List.mem_cons_of_mem _ hx))))

/-- A byte that goes on goes on. -/
theorem ansiOver_follows (cfg : Config) (behind : List UInt8) {ch : UInt8} {rest : List UInt8} {s : State}
    (h : Follows s.scan (ch :: rest)) (hroom : s.kept.length < room) :
    ∃ reply, ansiOver cfg behind s ch = some reply ∧ reply.status = .noCharYet ∧ Follows reply.state.scan rest ∧
      reply.state.kept = s.kept ++ [ch] := by
  generalize hscan : s.scan = scan at h
  cases h with
  | escape hrest =>
    rw [ansiOver, hscan]
    dsimp only
    rw [Collected.ansi, hscan]
    dsimp only
    rw [if_pos rfl, beginSequence]
    simp only [State.saveChar, hroom, if_true, Option.map_some]
    exact ⟨_, rfl, rfl, hrest, rfl⟩
  | bracket hrest =>
    rw [ansiOver, hscan]
    dsimp only
    rw [Collected.ansi, hscan]
    dsimp only
    rw [if_pos rfl, keep, saveChar_eq hroom]
    exact ⟨_, rfl, rfl, hrest, rfl⟩
  | first hpart hrest =>
    rw [ansiOver, hscan]
    dsimp only
    rw [Collected.ansi, hscan]
    dsimp only
    rw [ansiStart]
    rcases hpart with hdigit | rfl
    · rw [if_pos hdigit, keep]
      simp only [State.saveChar, hroom, if_true, Option.map_some]
      exact ⟨_, rfl, rfl, hrest 0, rfl⟩
    · rw [if_neg (by decide), if_neg (by decide), if_pos rfl, keep]
      simp only [State.saveChar, hroom, if_true, Option.map_some]
      exact ⟨_, rfl, rfl, hrest 1, rfl⟩
  | @part n _ _ hpart hrest =>
    have hkeep (scan : Scan) : keep s ch scan =
        some ⟨.noCharYet, 1, [.stored ch], { s with kept := s.kept ++ [ch], scan := scan }⟩ := by
      rw [keep, saveChar_eq hroom]
      rfl
    rcases hpart with hdigit | rfl
    · rcases count_cases n with rfl | rfl | ⟨n, rfl⟩
      · rw [ansiOver, hscan]
        simp only [scanOf, countOver, hdigit, if_true, hkeep]
        exact ⟨_, rfl, rfl, hrest 0, rfl⟩
      · rw [ansiOver, hscan]
        simp only [scanOf, countTwoOver, hdigit, if_true, hkeep]
        exact ⟨_, rfl, rfl, hrest 1, rfl⟩
      · rw [ansiOver, hscan]
        simp only [scanOf, countManyOver, hdigit, true_or, if_true, hkeep]
        exact ⟨_, rfl, rfl, hrest 2, rfl⟩
    · have hdigit : isDigit (code ';') = false := by decide
      rcases count_cases n with rfl | rfl | ⟨n, rfl⟩
      · rw [ansiOver, hscan]
        simp only [scanOf, countOver, hdigit, Bool.false_eq_true, if_false, if_true, hkeep]
        exact ⟨_, rfl, rfl, hrest 1, rfl⟩
      · rw [ansiOver, hscan]
        simp only [scanOf, countTwoOver, hdigit, Bool.false_eq_true, if_false, if_true, hkeep]
        exact ⟨_, rfl, rfl, hrest 2, rfl⟩
      · rw [ansiOver, hscan]
        simp only [scanOf, countManyOver, or_true, if_true, hkeep]
        exact ⟨_, rfl, rfl, hrest 2, rfl⟩

/-- The state that an answer of the fallback leaves. -/
structure Settled (a : Answer) : Prop where
  ansiBuffer : a.machine.ansiBuffer = []
  waiting : a.status = .noCharYet → a.machine.fallback = true ∧ (a.machine.ansi.scan = .none → a.machine.petscii.kept = [])
  ended : a.status ≠ .noCharYet →
    a.machine.fallback = false ∧ a.machine.ansi.scan = .none ∧ a.machine.petscii.scan = .none ∧
      (a.status = .manyChars ∨ a.machine.petscii.kept = [])

/-- The last byte of the buffer. -/
theorem fallbackLoop_last {a : Answer} (hm : m.fallback = true) (hkept : m.ansi.scan = .none → m.petscii.kept = [])
    (h : fallbackLoop cfg [ch] m = some a) : a.log = [(.ansi, ch)] ∧ Settled a := by
  rw [fallbackLoop] at h
  obtain ⟨b, hcall, h⟩ := Option.bind_eq_some_iff.1 h
  obtain ⟨reply, hreply, rfl⟩ := Option.map_eq_some_iff.1 hcall
  obtain ⟨hstatus, hscan⟩ := allFine_ansiOver cfg m.behind m.view ch hkept reply hreply
  dsimp only at h
  rw [if_pos (.inl rfl)] at h
  obtain rfl := Option.some.inj h
  by_cases hquiet : reply.status = .noCharYet
  · rw [Answer.ourselves, if_pos hquiet]
    refine ⟨rfl, rfl, fun _ => ⟨hm, fun hnone => ?_⟩, fun hnot => absurd hquiet hnot⟩
    rcases hscan hnone with hmany | hempty
    · exact absurd (hquiet.symm.trans hmany) nofun
    · exact hempty
  · rw [Answer.ourselves, if_neg hquiet]
    have hnone := hstatus.resolve_left hquiet
    exact ⟨rfl, rfl, fun hnot => absurd hnot hquiet, fun _ => ⟨rfl, hnone, rfl, hscan hnone⟩⟩

/-- Every byte of the buffer is handed to ANSI once. -/
theorem fallbackLoop_all {front : List UInt8} {a : Answer} (hm : m.fallback = true)
    (hfollows : Follows m.ansi.scan front) (hroom : m.petscii.kept.length + front.length < room)
    (hkept : m.ansi.scan = .none → m.petscii.kept = []) (h : fallbackLoop cfg (front ++ [ch]) m = some a) :
    a.log.map Prod.snd = front ++ [ch] ∧ Settled a := by
  induction front generalizing m a with
  | nil =>
    obtain ⟨hlog, hsettled⟩ := fallbackLoop_last hm hkept h
    exact ⟨by rw [hlog]; rfl, hsettled⟩
  | cons x front ih =>
    rw [List.length_cons] at hroom
    obtain ⟨reply, hreply, hquiet, hnext, hkeeps⟩ := ansiOver_follows cfg m.behind (s := m.view) hfollows
      (show m.petscii.kept.length < room by omega)
    rw [List.cons_append, fallbackLoop, callAnsi, hreply, Option.map_some, Option.bind_some, Answer.ourselves,
      if_pos hquiet] at h
    dsimp only at h
    rw [if_neg (by simp [hquiet])] at h
    obtain ⟨next, hloop, rfl⟩ := Option.map_eq_some_iff.1 h
    have hlength : reply.state.kept.length = m.petscii.kept.length + 1 := by
      rw [hkeeps]
      exact List.length_append
    have hempty : reply.state.scan = .none → reply.state.kept = [] := by
      intro hnone
      obtain ⟨-, hfine⟩ := allFine_ansiOver cfg m.behind m.view x hkept reply hreply
      rcases hfine hnone with hmany | hempty
      · exact absurd (hquiet.symm.trans hmany) nofun
      · exact hempty
    have hmore : reply.state.kept.length + front.length < room := by omega
    have hrest := fun p q r t => @ih _ next p q r t hloop
    obtain ⟨hlog, hsettled⟩ := hrest hm hnext hmore hempty
    refine ⟨?_, hsettled.ansiBuffer, hsettled.waiting, hsettled.ended⟩
    dsimp only
    rw [List.map_append, hlog]
    rfl

/-- The console empties the buffer, and nothing is lost by that. -/
theorem drained_dump {fuel : ℕ} {a b : Answer} (hstatus : a.status = .manyChars) (hfallback : a.machine.fallback = false)
    (hansi : a.machine.ansi.scan = .none) (hbuffer : a.machine.ansiBuffer = []) (hscan : a.machine.petscii.scan = .dump)
    (h : drained cfg fuel a = some b) : b.log = a.log ∧ Steady b.machine ∧ pending b.machine = [] := by
  induction fuel generalizing a b with
  | zero => cases h
  | succ fuel ih =>
    rw [drained, hstatus] at h
    dsimp only at h
    obtain ⟨next, hnext, h⟩ := Option.bind_eq_some_iff.1 h
    obtain ⟨rest, hrest, rfl⟩ := Option.map_eq_some_iff.1 h
    obtain ⟨c, hstep, rfl⟩ := Option.map_eq_some_iff.1 hnext
    have hjunk : (junked a.machine).fallback = false ∧ (junked a.machine).ansi.scan = .none ∧
        (junked a.machine).ansiBuffer = [] ∧ (junked a.machine).petscii.scan = .dump := by
      rw [junked]
      split <;> exact ⟨hfallback, hansi, hbuffer, hscan⟩
    obtain ⟨hfallback', hansi', hbuffer', hscan'⟩ := hjunk
    rw [petsciiStep, hfallback', if_neg (by decide), hscan'] at hstep
    dsimp only at hstep
    obtain ⟨reply, hreply, rfl⟩ := Option.map_eq_some_iff.1 hstep
    rw [petsciiDump] at hreply
    split at hreply
    · cases hreply
    · obtain ⟨char, -, rfl⟩ := Option.map_eq_some_iff.1 hreply
      cases fuel with
      | zero => cases hrest
      | succ fuel =>
        by_cases hlast : (junked a.machine).petscii.i + 1 = (junked a.machine).petscii.kept.length
        · rw [if_pos hlast, drained] at hrest
          dsimp only at hrest ⊢
          obtain rfl := Option.some.inj hrest
          dsimp only
          have hover : ¬ (false = true) := by decide
          refine ⟨List.append_nil _, ⟨hbuffer', fun h => absurd h hover, fun _ => ⟨hansi', .none⟩⟩, ?_⟩
          rw [pending]
          exact if_neg hover
        · rw [if_neg hlast] at hrest
          obtain ⟨hlog, hsteady, hpending⟩ := ih rfl rfl hansi' hbuffer' hscan' hrest
          exact ⟨by rw [hlog]; exact List.append_nil _, hsteady, hpending⟩

/-- The answer of the fallback, with what the console does then. -/
theorem ansiFallback_kept {n : Machine} {a b : Answer} {front : List UInt8} (hfallback : n.fallback = true)
    (hloop : ∀ a, fallbackLoop cfg (if n.ansiBuffer = [] then [ch] else n.ansiBuffer) n = some a →
      a.log.map Prod.snd = front ++ [ch] ∧ Settled a)
    (h : ansiFallback cfg n ch = some a)
    (hdrained : drained cfg (2 * room)
      { a with machine := { a.machine with petscii := { a.machine.petscii with lastState := a.status } } } = some b) :
    Steady b.machine ∧ b.log.map Prod.snd ++ pending b.machine = front ++ [ch] := by
  obtain ⟨c, hc, hca⟩ := Option.map_eq_some_iff.1 h
  obtain ⟨hlog, hsettled⟩ := hloop c hc
  have hfuel : 2 * room = 255 + 1 := by decide
  cases hstatus : c.status with
  | noCharYet =>
    rw [hstatus, if_neg nofun] at hca
    subst hca
    rw [hfuel, drained, hstatus] at hdrained
    obtain rfl := Option.some.inj hdrained
    obtain ⟨hstays, hempty⟩ := hsettled.waiting hstatus
    refine ⟨⟨hsettled.ansiBuffer, fun _ => hempty, fun hnot => absurd (hstays.symm.trans hnot) nofun⟩, ?_⟩
    rw [pending, if_pos hstays, List.append_nil]
    exact hlog
  | oneChar =>
    rw [hstatus, if_neg nofun] at hca
    subst hca
    rw [hfuel, drained, hstatus] at hdrained
    obtain rfl := Option.some.inj hdrained
    obtain ⟨hover, hansi, hscan, hkept⟩ := hsettled.ended (by rw [hstatus]; exact nofun)
    have hempty : c.machine.petscii.kept = [] := hkept.resolve_left (by rw [hstatus]; exact nofun)
    refine ⟨⟨hsettled.ansiBuffer, fun h => absurd (hover.symm.trans h) nofun, fun _ => ⟨hansi, ?_⟩⟩, ?_⟩
    · dsimp only
      rw [hscan, hempty]
      exact .none
    · rw [pending]
      dsimp only
      rw [hover, if_neg (by decide), hscan]
      dsimp only
      rw [List.append_nil]
      exact hlog
  | manyChars =>
    rw [hstatus, if_pos rfl] at hca
    subst hca
    obtain ⟨hover, hansi, -, -⟩ := hsettled.ended (by rw [hstatus]; exact nofun)
    have hdump := fun p q r t u => drained_dump p q r t u hdrained
    obtain ⟨hsame, hsteady, hpending⟩ := hdump rfl hover hansi hsettled.ansiBuffer rfl
    refine ⟨hsteady, ?_⟩
    rw [hpending, hsame, List.append_nil]
    exact hlog

/-- What PETSCII gives up is handed to ANSI, with nothing before or behind it. -/
theorem giveUp_kept {n : Machine} {a b : Answer} {front : List UInt8} (hkept : n.petscii.kept = front ++ [ch])
    (hfollows : Follows .none front) (hansi : n.ansi.scan = .none) (hroom : front.length < room)
    (h : giveUp cfg n ch = some a)
    (hdrained : drained cfg (2 * room)
      { a with machine := { a.machine with petscii := { a.machine.petscii with lastState := a.status } } } = some b) :
    Steady b.machine ∧ b.log.map Prod.snd ++ pending b.machine = front ++ [ch] := by
  refine ansiFallback_kept rfl (fun c hc => ?_) h hdrained
  dsimp only at hc
  rw [if_neg (by simp [hkept]), hkept] at hc
  exact fallbackLoop_all rfl (hansi ▸ hfollows) (by simpa using hroom) (fun _ => rfl) hc

/-- A byte that PETSCII gets in its ground state, and that is not ESC. -/
theorem console_plain {a : Answer} (hoff : m.fallback = false) (hscan : m.petscii.scan = .none)
    (hkept : m.petscii.kept = []) (hch : ch ≠ escape) (h : console cfg m ch = some a) :
    ∃ reply : Reply, a.machine = { m with petscii := { reply.state with lastState := reply.status } } ∧
      a.log = [(.petscii, ch)] ∧ reply.status ≠ .manyChars ∧ reply.state.scan = .none ∧ reply.state.kept = [] := by
  obtain ⟨b, hterminal, hdrained⟩ := Option.bind_eq_some_iff.1 h
  obtain ⟨c, hstep, rfl⟩ := Option.map_eq_some_iff.1 hterminal
  rw [junked_short (by simp [hkept, room]), petsciiStep, hoff, if_neg (by decide), hscan] at hstep
  dsimp only at hstep
  rw [ground, if_neg hch] at hstep
  obtain ⟨reply, hreply, rfl⟩ := Option.map_eq_some_iff.1 hstep
  have hplain : reply.status ≠ .manyChars ∧ reply.state.scan = .none ∧ reply.state.kept = [] := by
    rw [petsciiGround, if_neg fun hand => hch hand.1] at hreply
    split at hreply
    · obtain rfl := Option.some.inj hreply
      refine ⟨(fun h => by cases h), ?_, ?_⟩
      · rw [← hscan]
        dsimp only [petsciiControl]
        split <;> split_ifs <;> rfl
      · rw [← hkept]
        dsimp only [petsciiControl]
        split <;> split_ifs <;> rfl
    · split at hreply
      · obtain rfl := Option.some.inj hreply
        exact ⟨(fun h => by cases h), hscan, hkept⟩
      · obtain rfl := Option.some.inj hreply
        exact ⟨(fun h => by cases h), hscan, hkept⟩
  have hfuel : 2 * room = 255 + 1 := by decide
  rw [hfuel, drained] at hdrained
  dsimp only at hdrained
  split at hdrained
  · obtain rfl := Option.some.inj hdrained
    exact ⟨reply, rfl, rfl, hplain⟩
  · obtain rfl := Option.some.inj hdrained
    exact ⟨reply, rfl, rfl, hplain⟩
  · next hmany => exact absurd hmany hplain.1

/-- In its ground state PETSCII takes the bytes up to the next ESC itself. -/
theorem run_plain {text : List UInt8} {o : Outcome} (hoff : m.fallback = false) (hscan : m.petscii.scan = .none)
    (hkept : m.petscii.kept = []) (htext : escape ∉ text) (h : run cfg m text = some o) :
    o.log = text.map fun ch => (.petscii, ch) := by
  induction text generalizing m o with
  | nil =>
    obtain rfl := Option.some.inj h
    rfl
  | cons ch text ih =>
    obtain ⟨a, hconsole, hrest⟩ := Option.bind_eq_some_iff.1 h
    obtain ⟨last, hlast, rfl⟩ := Option.map_eq_some_iff.1 hrest
    obtain ⟨hne, hnot⟩ := not_or.1 (List.mem_cons.not.1 htext)
    obtain ⟨reply, hmachine, hlog, -, hground, hempty⟩ :=
      console_plain hoff hscan hkept (fun heq => hne heq.symm) hconsole
    rw [hmachine] at hlast
    dsimp only
    have hnext := fun p q r => ih p q r hnot hlast
    rw [hlog, hnext hoff hground hempty]
    rfl

/-- One received byte, with room for one more. -/
theorem console_kept {a : Answer} (h : Steady m) (hshort : m.petscii.kept.length < room - 2)
    (hconsole : console cfg m ch = some a) :
    Steady a.machine ∧ a.log.map Prod.snd ++ pending a.machine = pending m ++ [ch] := by
  obtain ⟨b, hterminal, hdrained⟩ := Option.bind_eq_some_iff.1 hconsole
  obtain ⟨c, hstep, rfl⟩ := Option.map_eq_some_iff.1 hterminal
  rw [junked_short (by omega)] at hstep
  have hfuel : 2 * room = 255 + 1 := by decide
  have hroom : m.petscii.kept.length < room := by omega
  by_cases hfallback : m.fallback = true
  · rw [petsciiStep, if_pos hfallback] at hstep
    have hpending : pending m = [] := by rw [pending, if_pos hfallback]
    rw [hpending]
    refine ansiFallback_kept hfallback (fun e he => ?_) hstep hdrained
    rw [h.ansiBuffer, if_pos rfl] at he
    obtain ⟨hlog, hsettled⟩ := fallbackLoop_last hfallback (h.falling hfallback) he
    exact ⟨by rw [hlog]; rfl, hsettled⟩
  · have hoff : m.fallback = false := by simpa using hfallback
    obtain ⟨hansi, hshape⟩ := h.own hoff
    have hfollows := hshape.follows
    have hquiet {d : Answer} (hd : d.status = .noCharYet) (hlast : drained cfg (2 * room) d = some a) : a = d := by
      rw [hfuel, drained, hd] at hlast
      exact (Option.some.inj hlast).symm
    have hsteady {n : Machine} (hn : n.fallback = false) (hi : n.ansi.scan = .none) (hbuffer : n.ansiBuffer = [])
        (hn' : Shape n.petscii.scan n.petscii.kept) : Steady n :=
      ⟨hbuffer, fun hon => absurd (hn.symm.trans hon) (by decide), fun _ => ⟨hi, hn'⟩⟩
    rw [petsciiStep, if_neg hfallback] at hstep
    generalize hscan : m.petscii.scan = scan at hshape hstep
    generalize hkept : m.petscii.kept = kept at hshape hfollows
    have hpending : pending m = kept := by
      rw [pending, if_neg hfallback, hscan, hkept]
      cases hshape <;> rfl
    rw [hpending]
    rw [hkept] at hroom
    have hsmall : kept.length < room := hroom
    cases hshape with
    | none =>
      dsimp only at hstep
      rw [ground] at hstep
      by_cases hch : ch = escape
      · rw [if_pos hch, Machine.save, saveChar_eq (hkept ▸ hroom), hkept] at hstep
        obtain rfl := Option.some.inj hstep
        obtain rfl := hquiet rfl hdrained
        refine ⟨hsteady hoff hansi h.ansiBuffer ?_, ?_⟩
        · rw [hch]
          exact .esc
        · rw [pending]
          exact if_neg hfallback
      · obtain ⟨reply, hmachine, hlog, -, hground, hempty⟩ := console_plain hoff hscan hkept hch hconsole
        rw [hmachine, hlog]
        refine ⟨hsteady hoff hansi h.ansiBuffer ?_, ?_⟩
        · dsimp only
          rw [hground, hempty]
          exact .none
        · rw [pending]
          dsimp only
          rw [hoff, if_neg (by decide), hground]
          rfl
    | esc =>
      dsimp only at hstep
      rw [Machine.save, saveChar_eq (hkept ▸ hroom), Option.map_some, Option.bind_some, hkept] at hstep
      split at hstep
      · next hch =>
        obtain rfl := Option.some.inj hstep
        obtain rfl := hquiet rfl hdrained
        refine ⟨hsteady hoff hansi h.ansiBuffer ?_, ?_⟩
        · rw [hch.1]
          exact .csi
        · rw [pending]
          exact if_neg hfallback
      · refine giveUp_kept ?_ hfollows ?_ hsmall hstep hdrained
        · rfl
        · exact hansi
    | csi =>
      dsimp only at hstep
      rw [Machine.save, saveChar_eq (hkept ▸ hroom), Option.map_some, Option.bind_some, hkept] at hstep
      split at hstep
      · next hdigit =>
        obtain rfl := Option.some.inj hstep
        obtain rfl := hquiet rfl hdrained
        refine ⟨hsteady hoff hansi h.ansiBuffer (.param fun x hx => ?_), ?_⟩
        · rw [List.mem_singleton.1 hx]
          exact .inl hdigit
        · rw [pending]
          exact if_neg hfallback
      · split at hstep
        · obtain rfl := Option.some.inj hstep
          obtain rfl := hquiet rfl hdrained
          refine ⟨hsteady hoff hansi h.ansiBuffer .none, ?_⟩
          rw [pending]
          dsimp only
          rw [if_neg hfallback]
          rfl
        · refine giveUp_kept ?_ hfollows ?_ hsmall hstep hdrained
          · rfl
          · exact hansi
    | @param text htext =>
      dsimp only at hstep
      rw [Machine.save, saveChar_eq (hkept ▸ hroom), Option.map_some, Option.bind_some, hkept] at hstep
      split at hstep
      · next hpart =>
        obtain rfl := Option.some.inj hstep
        obtain rfl := hquiet rfl hdrained
        refine ⟨hsteady hoff hansi h.ansiBuffer ?_, ?_⟩
        · dsimp only
          rw [hscan]
          refine .param fun x hx => ?_
          rcases List.mem_append.1 hx with hx | hx
          · exact htext x hx
          · rw [List.mem_singleton.1 hx]
            exact hpart
        · rw [pending]
          dsimp only
          rw [if_neg hfallback, hscan]
          rfl
      · split at hstep
        · obtain ⟨⟨parsed, output⟩, -, hstep⟩ := Option.bind_eq_some_iff.1 hstep
          dsimp only at hstep
          split at hstep
          · obtain rfl := Option.some.inj hstep
            obtain rfl := hquiet rfl hdrained
            refine ⟨hsteady hoff hansi h.ansiBuffer .none, ?_⟩
            rw [pending]
            dsimp only
            rw [if_neg hfallback, List.map_map]
            exact (List.append_nil _).trans (List.map_id _)
          · refine giveUp_kept ?_ hfollows ?_ hsmall hstep hdrained
            · rfl
            · exact hansi
        · refine giveUp_kept ?_ hfollows ?_ hsmall hstep hdrained
          · rfl
          · exact hansi

/-- No sequence in the run is as long as the buffer. -/
def Short (cfg : Config) (m : Machine) (bytes : List UInt8) : Prop :=
  ∀ front ch back, bytes = front ++ ch :: back → ∀ o, run cfg m front = some o →
    o.machine.petscii.kept.length < room - 2

theorem run_accounted {bytes : List UInt8} {o : Outcome} (h : Steady m) (hrun : run cfg m bytes = some o)
    (hshort : Short cfg m bytes) : Steady o.machine ∧ o.log.map Prod.snd ++ pending o.machine = pending m ++ bytes := by
  induction bytes generalizing m o with
  | nil =>
    obtain rfl := Option.some.inj hrun
    exact ⟨h, (List.append_nil _).symm⟩
  | cons ch bytes ih =>
    obtain ⟨a, hconsole, hrun⟩ := Option.bind_eq_some_iff.1 hrun
    obtain ⟨last, hlast, rfl⟩ := Option.map_eq_some_iff.1 hrun
    obtain ⟨hnext, hone⟩ := console_kept h (hshort [] ch bytes rfl ⟨m, [], []⟩ rfl) hconsole
    have hrest : Short cfg a.machine bytes := by
      rintro front c back rfl p hp
      refine hshort (ch :: front) c back rfl ⟨p.machine, a.events ++ p.events, a.log ++ p.log⟩ ?_
      rw [run, hconsole, Option.bind_some, hp, Option.map_some]
    obtain ⟨hsteady, hall⟩ := ih hnext hlast hrest
    refine ⟨hsteady, ?_⟩
    calc (a.log ++ last.log).map Prod.snd ++ pending last.machine
        = a.log.map Prod.snd ++ (last.log.map Prod.snd ++ pending last.machine) := by
          rw [List.map_append, List.append_assoc]
      _ = (a.log.map Prod.snd ++ pending a.machine) ++ bytes := by rw [hall, List.append_assoc]
      _ = pending m ++ ch :: bytes := by rw [hone, List.append_assoc]; rfl

theorem Machine.Ground.steady (h : m.Ground) : Steady m := by
  refine ⟨h.ansiBuffer, fun _ _ => h.kept, fun _ => ⟨h.ansi, ?_⟩⟩
  rw [h.scan, h.kept]
  exact .none

theorem Machine.Ground.pending (h : m.Ground) : pending m = [] := by
  rw [Fallback.pending, h.fallback, if_neg (by decide), h.scan]

/-- The fallback is not seen exactly where PETSCII does the sequence itself; behind such a sequence the bytes up to the
next ESC are its own; and every byte goes to one of the two emulations once, unless a sequence fills the buffer. -/
theorem fallback_transparent (h : m.Ground) {sequence : List UInt8} {t : State} {events : List Event}
    (haccepted : Accepted cfg m.view sequence t events) :
    (Transparent cfg m sequence t events ↔ Own cfg m sequence) ∧
      (Own cfg m sequence → ∃ o, run cfg m sequence = some o ∧ o.machine.Ground ∧
        ∀ text p, escape ∉ text → run cfg o.machine text = some p → p.log = text.map fun ch => (.petscii, ch)) ∧
      ∀ bytes o, run cfg m bytes = some o → Short cfg m bytes → o.log.map Prod.snd ++ pending o.machine = bytes := by
  refine ⟨transparent_iff h haccepted, fun hown => ?_, fun bytes o hrun hshort => ?_⟩
  · obtain ⟨o, hrun, -, hground, -, -⟩ := (transparent_iff h haccepted).2 hown
    exact ⟨o, hrun, hground, fun text p htext hp => run_plain hground.fallback hground.scan hground.kept htext hp⟩
  · obtain ⟨-, hall⟩ := run_accounted h.steady hrun hshort
    rw [hall, h.pending, List.nil_append]

/-- PETSCII in gray on black, with the ANSI fallback. -/
def commodore : Config := { grays with emulator := .petscii, petsciiColor := true }

def fresh : Machine where
  petscii := reset commodore
  ansi := reset commodore
  fallback := false
  behind := []
  ansiBuffer := []

theorem fresh_ground : fresh.Ground := ⟨rfl, rfl, rfl, rfl, nofun, rfl, rfl⟩

theorem accepted_three {last : UInt8} {t : State} {events : List Event}
    (hfed : feed (ansiConfig commodore) fresh.view [escape, code '[', last] = some (t, events)) (hsilent : Parameters.Silent events)
    (hground : t.scan = .none ∧ t.kept = []) :
    Accepted commodore fresh.view [escape, code '[', last] t events := by
  have hone : (feed (ansiConfig commodore) fresh.view [escape]).map (fun last => last.1.scan) = some .esc := rfl
  have htwo : (feed (ansiConfig commodore) fresh.view [escape, code '[']).map (fun last => last.1.scan) =
      some .startSequence := rfl
  refine ⟨⟨_, rfl⟩, hfed, hsilent, hground, fun front back heq hfront hback u passed hfeed => ?_⟩
  match front, heq with
  | [], _ => exact absurd rfl hfront
  | [a], heq =>
    have ha : a = escape := (List.cons.inj heq).1.symm
    rw [← ha, hfeed] at hone
    exact fun hnone => absurd (hnone.symm.trans (Option.some.inj hone)) nofun
  | [a, b], heq =>
    have ha : a = escape := (List.cons.inj heq).1.symm
    have hb : b = code '[' := (List.cons.inj (List.cons.inj heq).2).1.symm
    rw [← ha, ← hb, hfeed] at htwo
    exact fun hnone => absurd (hnone.symm.trans (Option.some.inj htwo)) nofun
  | _ :: _ :: _ :: front, heq =>
    have hlength := congrArg List.length heq
    simp only [List.length_cons, List.length_append, List.length_nil] at hlength
    exact absurd (List.eq_nil_of_length_eq_zero (by omega)) hback

/-- `CSI m`. -/
theorem fallback_transparent_m : ∃ t events,
    (Transparent commodore fresh [escape, code '[', code 'm'] t events ↔
        Own commodore fresh [escape, code '[', code 'm']) ∧
      (Own commodore fresh [escape, code '[', code 'm'] →
        ∃ o, run commodore fresh [escape, code '[', code 'm'] = some o ∧ o.machine.Ground ∧
          ∀ text p, escape ∉ text → run commodore o.machine text = some p →
            p.log = text.map fun ch => (.petscii, ch)) ∧
      ∀ bytes o, run commodore fresh bytes = some o → Short commodore fresh bytes →
        o.log.map Prod.snd ++ pending o.machine = bytes :=
  ⟨_, _, fallback_transparent fresh_ground (accepted_three (feed_m commodore fresh_ground) (by
    intro e he
    simp only [openedEvents, List.append_nil, List.mem_cons, List.not_mem_nil, or_false] at he
    rcases he with rfl | rfl | rfl <;> exact ⟨nofun, nofun⟩) ⟨rfl, rfl⟩)⟩

/-- The cursor goes up, and the next byte is still ANSI's. -/
theorem not_fallback_transparent :
    (∃ t events, Accepted commodore fresh.view [escape, code '[', code 'A'] t events ∧
      ¬ Transparent commodore fresh [escape, code '[', code 'A'] t events) ∧
      (run commodore fresh [escape, code '[', code 'A', 147]).map (fun o => o.log.getLast?) = some (some (.ansi, 147)) := by
  refine ⟨?_, rfl⟩
  have haccepted : ∃ t events, Accepted commodore fresh.view [escape, code '[', code 'A'] t events := by
    refine ⟨_, _, accepted_three rfl ?_ ⟨rfl, rfl⟩⟩
    intro e he
    rcases he with _ | ⟨_, _ | ⟨_, _ | ⟨_, _ | ⟨_, _ | ⟨_, he⟩⟩⟩⟩⟩ <;> exact ⟨nofun, nofun⟩
  obtain ⟨t, events, haccepted⟩ := haccepted
  refine ⟨t, events, haccepted, fun htransparent => ?_⟩
  rcases (transparent_iff fresh_ground haccepted).1 htransparent with ⟨-, heq | ⟨d, body, -, -, heq, -⟩⟩
  · exact absurd heq (by decide)
  · obtain ⟨-, hbody⟩ := List.cons.inj (List.cons.inj (List.cons.inj heq).2).2
    cases body <;> cases hbody

end CProgram.Terminal.Collected.Fallback
