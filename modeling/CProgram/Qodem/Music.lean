import CProgram.Lib.Loops

/-! ANSI music: the loop of `play_ansi_music` over the bytes of a sequence. -/
namespace CProgram.Qodem.Music

/-- `MUSIC_STATE`. -/
inductive MusicState where
  | none | sound
  | l | m | n | o | p | t
  | digitalFreq | digitalDuration | digitalCycles | digitalCycledelay | digitalVariation
deriving DecidableEq, Repr

inductive Style where
  | normal | legato | staccato
deriving DecidableEq, Repr

/-- What is put into the list; how long a note takes is worked out from its tempo, its length, its dots and its
style. -/
inductive Tone where
  | note (octave index tempo length : ℤ) (dots : ℕ) (style : Style)
  | pause (tempo length : ℤ) (dots : ℕ)
  | digital (freq duration : ℤ)
  | silence (duration : ℤ)
deriving DecidableEq, Repr

/-- The statics, the variables, and the list so far. -/
structure Score where
  tempo : ℤ
  octave : ℤ
  length : ℤ
  style : Style
  digitalFreq : ℤ
  digitalDuration : ℤ
  digitalCycles : ℤ
  digitalCycledelay : ℤ
  digitalVariation : ℤ
  noteOctave : ℤ
  noteLength : ℤ
  /-- Each has multiplied `note_length_multiplier` by 1.5. -/
  dots : ℕ
  currentNote : ℤ
  tones : List Tone
deriving DecidableEq, Repr

/-- The bytes of the sequence, and what memory holds in front of them and behind them. -/
structure Buffer where
  bytes : List UInt8
  inFront : UInt8
  behind : List UInt8
deriving DecidableEq, Repr

namespace Buffer

/-- From a byte of the buffer to the end of what can be read. -/
def tail (b : Buffer) (i : ℤ) : List UInt8 := (b.bytes ++ b.behind).drop i.toNat

/-- `buffer[i]`. -/
def read (b : Buffer) (i : ℤ) : UInt8 := if i < 0 then b.inFront else (b.tail i).headD 0

end Buffer

def isSpace (ch : UInt8) : Bool := ch = 0x20 || ch = 0x0D || ch = 0x0A

def isDigit (ch : UInt8) : Bool := 0x30 ≤ ch && ch ≤ 0x39

/-- `toupper`. -/
def toUpper (ch : UInt8) : UInt8 := if 0x61 ≤ ch ∧ ch ≤ 0x7A then ch - 0x20 else ch

/-- The notes: `c` to `b` in half tones. -/
def noteOf (ch : UInt8) : Option ℤ :=
  match (toUpper ch).toNat with
  | 0x43 => some 0
  | 0x44 => some 2
  | 0x45 => some 4
  | 0x46 => some 5
  | 0x47 => some 7
  | 0x41 => some 9
  | 0x42 => some 11
  | _ => none

/-- `strtol` of a row of digits, as an `int`, and how many there are. -/
def strtol (row : List UInt8) : ℤ × ℕ :=
  let digits := row.takeWhile isDigit
  let value := digits.foldl (fun (value : ℤ) ch => 10 * value + (ch.toNat - 0x30 : ℕ)) 0
  ((min value (2 ^ 63 - 1)).bmod (2 ^ 32), digits.length)

/-- Where the loop is: in front of its condition, or at `music_top`. -/
structure Config where
  state : MusicState
  i : ℤ
  atTop : Bool
  score : Score
deriving DecidableEq, Repr

namespace Score

/-- `frequency_table[note_octave][current_note]`. -/
def playNote (s : Score) : Score :=
  { s with tones := s.tones ++ [.note s.noteOctave s.currentNote s.tempo s.noteLength s.dots s.style] }

def resetNote (s : Score) : Score := { s with noteOctave := s.octave, noteLength := s.length, dots := 0 }

/-- What `MUSIC_NONE` begins with. -/
def begin (s : Score) : Score :=
  { s with noteLength := s.length, noteOctave := if s.noteOctave < 0 then s.octave else s.noteOctave, dots := 0 }

def lower (s : Score) : Score := { s with noteOctave := if s.octave - 1 < 0 then 0 else s.octave - 1 }

def raise (s : Score) : Score := { s with noteOctave := if 6 < s.octave + 1 then 6 else s.octave + 1 }

/-- One cycle of the second style: a tone, and the delay behind it. -/
def cycle (s : Score) : Score := { s with
  tones := s.tones ++ .digital s.digitalFreq s.digitalDuration ::
    (if 0 < s.digitalCycledelay then [.silence s.digitalCycledelay] else [])
  digitalFreq := s.digitalFreq + s.digitalVariation
  digitalCycles := s.digitalCycles - 1 }

/-- The arguments of the second style are checked. -/
def valid (s : Score) : Bool :=
  decide (0 < s.digitalFreq) && decide (0 < s.digitalDuration) && decide (s.digitalDuration ≤ 3000) &&
    decide (0 < s.digitalCycles) && decide (0 ≤ s.digitalCycledelay)

end Score

namespace Config

/-- `continue` and `break`. -/
def next (c : Config) : Config := { c with i := c.i + 1, atTop := false }

/-- `goto music_top`. -/
def again (c : Config) : Config := { c with atTop := true }

end Config

/-- `MUSIC_NONE`. -/
def passNone (b : Buffer) (c : Config) : Config :=
  let ch := b.read c.i
  let c := { c with score := c.score.begin }
  match (toUpper ch).toNat with
  | 0x4C => { c with state := .l }.next
  | 0x4D => { c with state := .m }.next
  | 0x4E => { c with state := .n }.next
  | 0x4F => { c with state := .o }.next
  | 0x50 => { c with state := .p }.next
  | 0x54 => { c with state := .t }.next
  | 0x3C => { c with score := c.score.lower }.next
  | 0x3E => { c with score := c.score.raise }.next
  | _ =>
    let c := match noteOf ch with
      | some note => { c with state := .sound, score := { c.score with currentNote := note } }
      | none => c
    let c := if isDigit ch then { c with state := .digitalFreq, i := c.i - 1 } else c
    (if b.read c.i = 0x3B then { c with state := .digitalDuration } else c).next

/-- `MUSIC_SOUND`: a note, an octave, an option of the note, or something else. -/
def passSound (b : Buffer) (c : Config) : Config :=
  let ch := b.read c.i
  let played := { c with score := c.score.playNote.resetNote }
  if (noteOf ch).isSome ∨ ch = 0x3E ∨ ch = 0x3C then
    if (ch = 0x3C ∨ ch = 0x3E) ∧ c.i + 1 = b.bytes.length then { played with state := .none }.next
    else
      let c := if ch = 0x3C then { played with score := played.score.lower, i := c.i + 1 }
        else if ch = 0x3E then { played with score := played.score.raise, i := c.i + 1 }
        else played
      { c with score := { c.score with currentNote := (noteOf (b.read c.i)).getD c.score.currentNote } }.next
  else if ch = 0x23 ∨ ch = 0x2B then { c with score := { c.score with currentNote := c.score.currentNote + 1 } }.next
  else if ch = 0x2D then { c with score := { c.score with currentNote := c.score.currentNote - 1 } }.next
  else if ch = 0x2E then { c with score := { c.score with dots := c.score.dots + 1 } }.next
  else if isDigit ch then
    { c with
      score := { c.score with noteLength := (strtol (b.tail c.i)).1 }
      i := c.i + (strtol (b.tail c.i)).2 - 1 }.next
  else { played with state := .none }.again

/-- `MUSIC_M`. -/
def passM (b : Buffer) (c : Config) : Config :=
  let ch := b.read c.i
  match (toUpper ch).toNat with
  | 0x46 | 0x42 => { c with state := .none }.next
  | 0x4E => { c with state := .none, score := { c.score with style := .normal } }.next
  | 0x4C => { c with state := .none, score := { c.score with style := .legato } }.next
  | 0x53 => { c with state := .none, score := { c.score with style := .staccato } }.next
  | _ =>
    let c := if isDigit ch then { c with state := .digitalFreq, i := c.i - 1 } else c
    if b.read c.i = 0x3B then { c with state := .digitalDuration }.next
    else { c with state := .none }.again

/-- `MUSIC_L`, `MUSIC_N`, `MUSIC_O` and `MUSIC_T`: a number, or a syntax error. -/
def passNumber (b : Buffer) (c : Config) (set : ℤ → Score → Score) : Config × Bool :=
  if isDigit (b.read c.i) then
    ({ c with
      state := .none
      score := set (strtol (b.tail c.i)).1 c.score
      i := c.i + (strtol (b.tail c.i)).2 - 1 }.next, false)
  else (c, true)

/-- `MUSIC_N`: the number of a note, which is played at once. -/
def rawNote (current : ℤ) (s : Score) : Score := { s with
  currentNote := current
  tones := s.tones ++ [.note (current.tdiv 12) (current.tmod 12) s.tempo s.noteLength s.dots s.style] }

def newOctave (octave : ℤ) (s : Score) : Score :=
  let octave := if octave < 0 ∨ 6 < octave then 4 else octave
  { s with octave := octave, noteOctave := octave }

/-- `MUSIC_P`. -/
def passP (b : Buffer) (c : Config) : Config :=
  let ch := b.read c.i
  if ch = 0x2E then { c with score := { c.score with dots := c.score.dots + 1 } }.next
  else if isDigit ch then
    { c with
      score := { c.score with noteLength := (strtol (b.tail c.i)).1 }
      i := c.i + (strtol (b.tail c.i)).2 - 1 }.next
  else
    { c with
      state := .none
      score := { c.score with
        tones := c.score.tones ++ [Tone.pause c.score.tempo c.score.noteLength c.score.dots] } }.again

/-- A byte that a number may begin with. -/
def beginsNumber (ch : UInt8) : Bool := isDigit ch || ch = 0x2E || ch = 0x2B || ch = 0x2D

/-- The first four fields of the second style; `strtod` gives a value and the number of bytes that it is made of. -/
def passField (strtod : List UInt8 → ℤ × ℕ) (b : Buffer) (c : Config) (set : ℤ → Score → Score) (after : MusicState) :
    Config × Bool :=
  let ch := b.read c.i
  if beginsNumber ch then
    ({ c with
      score := set (strtod (b.tail c.i)).1 c.score
      i := c.i + (strtod (b.tail c.i)).2 - 1 }.next, false)
  else if ch = 0x3B then ({ c with state := after }.next, false)
  else (c, true)

/-- `MUSIC_DIGITAL_VARIATION`, after which the tones of the second style are put into the list. -/
def passVariation (strtod : List UInt8 → ℤ × ℕ) (b : Buffer) (c : Config) : Config × Bool :=
  if beginsNumber (b.read c.i) then
    let c := { c with
      score := { c.score with digitalVariation := (strtod (b.tail c.i)).1 }
      i := c.i + ((strtod (b.tail c.i)).2 : ℤ) }
    if (b.bytes.length : ℤ) = c.i then
      (if c.score.valid then { c with score := Score.cycle^[c.score.digitalCycles.toNat] c.score } else c, true)
    else (c.next, false)
  else (c, true)

/-- A pass of the loop, and whether it is the last. -/
def pass (strtod : List UInt8 → ℤ × ℕ) (b : Buffer) (c : Config) : Config × Bool :=
  if ¬ c.atTop ∧ (b.bytes.length : ℤ) ≤ c.i then
    (if c.state = .sound then { c with score := c.score.playNote } else c, true)
  else if isSpace (b.read c.i) then (c.next, false)
  else
    match c.state with
    | .none => (passNone b c, false)
    | .sound => (passSound b c, false)
    | .m => (passM b c, false)
    | .l => passNumber b c fun length s => { s with length := length }
    | .n => passNumber b c rawNote
    | .o => passNumber b c newOctave
    | .t => passNumber b c fun tempo s => { s with tempo := tempo }
    | .p => (passP b c, false)
    | .digitalFreq => passField strtod b c (fun freq s => { s with digitalFreq := freq }) .digitalDuration
    | .digitalDuration =>
      passField strtod b c (fun duration s => { s with digitalDuration := duration }) .digitalCycles
    | .digitalCycles => passField strtod b c (fun cycles s => { s with digitalCycles := cycles }) .digitalCycledelay
    | .digitalCycledelay =>
      passField strtod b c (fun cycledelay s => { s with digitalCycledelay := cycledelay }) .digitalVariation
    | .digitalVariation => passVariation strtod b c

/-- The loop starts at the first byte, with what earlier sequences have left in the statics. -/
def start (tempo octave length : ℤ) (style : Style) (freq duration cycles cycledelay variation : ℤ) : Config where
  state := .none
  i := 0
  atTop := false
  score := {
    tempo := tempo
    octave := octave
    length := length
    style := style
    digitalFreq := freq
    digitalDuration := duration
    digitalCycles := cycles
    digitalCycledelay := cycledelay
    digitalVariation := variation
    noteOctave := -1
    noteLength := 4
    dots := 0
    currentNote := 0
    tones := [] }

/-- The loop of `play_ansi_music` ends. -/
def Terminates (strtod : List UInt8 → ℤ × ℕ) (b : Buffer) (c : Config) : Prop :=
  ∃ d, Loops.Returns (fun _ => pass strtod b) c d

/-! ### Passes that lead nowhere -/

/-- A byte that is not white space, in front of the end. -/
def Meets (b : Buffer) (c : Config) : Prop := c.i < b.bytes.length ∧ isSpace (b.read c.i) = false

instance {b : Buffer} {c : Config} : Decidable (Meets b c) := inferInstanceAs (Decidable (_ ∧ _))

/-- The four fields of the second style that step back behind their number. -/
def MusicState.isField : MusicState → Bool
  | .digitalFreq | .digitalDuration | .digitalCycles | .digitalCycledelay => true
  | _ => false

/-- A digit right behind an M, or a field that begins with a sign or a dot and has no number. -/
def Stuck (strtod : List UInt8 → ℤ × ℕ) (b : Buffer) (c : Config) : Prop :=
  Meets b c ∧
    (c.state = .m ∧ isDigit (b.read c.i) = true ∧ toUpper (b.read (c.i - 1)) = 0x4D ∨
      c.state.isField = true ∧ beginsNumber (b.read c.i) = true ∧ (strtod (b.tail c.i)).2 = 0)

variable {strtod : List UInt8 → ℤ × ℕ} {b : Buffer} {c d : Config} {set : ℤ → Score → Score} {after : MusicState}

/-- What holds before every pass. -/
structure Sound (b : Buffer) (c : Config) : Prop where
  nonneg : 0 ≤ c.i
  top : c.atTop = true → c.state = .none ∧ c.i < b.bytes.length
  option : c.state = .m → 1 ≤ c.i ∧ (toUpper (b.read (c.i - 1)) = 0x4D ∨ isSpace (b.read (c.i - 1)) = true)

/-- A configuration from which the loop goes round and round: stuck, or at an M in front of a digit. -/
def Trapped (strtod : List UInt8 → ℤ × ℕ) (b : Buffer) (c : Config) : Prop :=
  c.atTop = false ∧ Stuck strtod b c ∨
    c.atTop = true ∧ c.state = .none ∧ toUpper (b.read c.i) = 0x4D ∧ c.i + 1 < b.bytes.length ∧
      isDigit (b.read (c.i + 1)) = true

theorem isSpace_of_digit {ch : UInt8} (h : isDigit ch = true) : isSpace ch = false := by
  simp only [isDigit, isSpace, Bool.and_eq_true, decide_eq_true_eq, Bool.or_eq_false_iff, decide_eq_false_iff_not,
    UInt8.le_iff_toNat_le, ← UInt8.toNat_inj] at h ⊢
  refine ⟨⟨?_, ?_⟩, ?_⟩ <;> intro heq <;> rw [heq] at h <;> revert h <;> decide

theorem isSpace_of_m {ch : UInt8} (h : toUpper ch = 0x4D) : isSpace ch = false := by
  by_contra hspace
  simp only [isSpace, Bool.not_eq_false, Bool.or_eq_true, decide_eq_true_eq] at hspace
  rcases hspace with (rfl | rfl) | rfl <;> exact absurd h (by decide)

theorem toUpper_digit {ch : UInt8} (h : isDigit ch = true) :
    (toUpper ch).toNat < 0x3A ∧ noteOf ch = none ∧ ch ≠ 0x3B := by
  have hlow : ch.toNat < 0x3A := by
    simp only [isDigit, Bool.and_eq_true, decide_eq_true_eq, UInt8.le_iff_toNat_le] at h
    exact Nat.lt_succ_of_le h.2
  have hupper : toUpper ch = ch := by
    rw [toUpper, if_neg]
    rintro ⟨h61, -⟩
    have : 0x61 ≤ ch.toNat := UInt8.le_iff_toNat_le.mp h61
    omega
  refine ⟨by rwa [hupper], ?_, ?_⟩
  · unfold noteOf
    rw [hupper]
    split <;> first | omega | rfl
  · rintro rfl
    exact absurd h (by decide)

/-- A pass that finds a byte. -/
theorem pass_of_meets (h : Meets b c) : pass strtod b c =
    match c.state with
    | .none => (passNone b c, false)
    | .sound => (passSound b c, false)
    | .m => (passM b c, false)
    | .l => passNumber b c fun length s => { s with length := length }
    | .n => passNumber b c rawNote
    | .o => passNumber b c newOctave
    | .t => passNumber b c fun tempo s => { s with tempo := tempo }
    | .p => (passP b c, false)
    | .digitalFreq => passField strtod b c (fun freq s => { s with digitalFreq := freq }) .digitalDuration
    | .digitalDuration =>
      passField strtod b c (fun duration s => { s with digitalDuration := duration }) .digitalCycles
    | .digitalCycles => passField strtod b c (fun cycles s => { s with digitalCycles := cycles }) .digitalCycledelay
    | .digitalCycledelay =>
      passField strtod b c (fun cycledelay s => { s with digitalCycledelay := cycledelay }) .digitalVariation
    | .digitalVariation => passVariation strtod b c := by
  unfold pass
  rw [if_neg (fun hend => absurd hend.2 (not_le.mpr h.1)), if_neg (by simp [h.2])]

theorem passM_digit (hdigit : isDigit (b.read c.i) = true) (hprev : b.read (c.i - 1) ≠ 0x3B) :
    passM b c = { c with state := .none, i := c.i - 1, atTop := true } := by
  have hlow := (toUpper_digit hdigit).1
  unfold passM
  dsimp only
  split
  any_goals omega
  rw [if_pos hdigit, if_neg hprev]
  rfl

theorem ne_semicolon_of_m {ch : UInt8} (h : toUpper ch = 0x4D) : ch ≠ 0x3B := by
  rintro rfl
  exact absurd h (by decide)

theorem passField_number (hbegins : beginsNumber (b.read c.i) = true) : passField strtod b c set after =
    ({ c with
      score := set (strtod (b.tail c.i)).1 c.score
      i := c.i + (strtod (b.tail c.i)).2 - 1 + 1
      atTop := false }, false) := by
  unfold passField
  rw [if_pos hbegins]
  rfl

theorem isField_cases {state : MusicState} (h : state.isField = true) : state = .digitalFreq ∨
    state = .digitalDuration ∨ state = .digitalCycles ∨ state = .digitalCycledelay := by
  revert h
  cases state <;> decide

/-- The number that is not there leaves the field where it is. -/
theorem pass_field (hm : Meets b c) (hfield : c.state.isField = true) (hbegins : beginsNumber (b.read c.i) = true) :
    ∃ score, pass strtod b c =
      ({ c with score := score, i := c.i + (strtod (b.tail c.i)).2 - 1 + 1, atTop := false }, false) := by
  have hpass := @pass_of_meets strtod b c hm
  rcases isField_cases hfield with hstate | hstate | hstate | hstate
  all_goals
    rw [hstate] at hpass
    exact ⟨_, hpass.trans (passField_number hbegins)⟩

theorem trapped_step (h : Trapped strtod b c) :
    (pass strtod b c).2 = false ∧ Trapped strtod b (pass strtod b c).1 := by
  rcases h with ⟨htop, hm, ⟨hstate, hdigit, hprev⟩ | ⟨hfield, hbegins, hnone⟩⟩ | ⟨htop, hstate, hprev, hin, hdigit⟩
  · have hpass : pass strtod b c = (passM b c, false) := by rw [pass_of_meets hm, hstate]
    rw [hpass, passM_digit hdigit (ne_semicolon_of_m hprev)]
    have hback : c.i - 1 + 1 = c.i := by omega
    exact ⟨rfl, .inr ⟨rfl, rfl, hprev, by rw [hback]; exact hm.1, by rw [hback]; exact hdigit⟩⟩
  · obtain ⟨score, hpass⟩ := @pass_field strtod b c hm hfield hbegins
    have hback : c.i + (strtod (b.tail c.i)).2 - 1 + 1 = c.i := by
      rw [hnone]
      push_cast
      omega
    rw [hpass, hback]
    exact ⟨rfl, .inl ⟨rfl, hm, .inr ⟨hfield, hbegins, hnone⟩⟩⟩
  · have hm : Meets b c := ⟨by omega, isSpace_of_m hprev⟩
    have hpass : pass strtod b c = ({ c with
        state := .m
        i := c.i + 1
        atTop := false
        score := c.score.begin }, false) := by
      rw [pass_of_meets hm, hstate, passNone]
      simp only [hprev]
      rfl
    rw [hpass]
    have hback : c.i + 1 - 1 = c.i := by omega
    refine ⟨rfl, .inl ⟨rfl, ⟨hin, isSpace_of_digit hdigit⟩, .inl ⟨rfl, hdigit, ?_⟩⟩⟩
    show toUpper (b.read (c.i + 1 - 1)) = 0x4D
    rw [hback, hprev]

/-! ### Passes that lead on -/

def MusicState.rank : MusicState → ℕ
  | .none => 1
  | .digitalFreq | .digitalDuration | .digitalCycles | .digitalCycledelay | .digitalVariation => 0
  | _ => 3

/-- What is left of the buffer; a byte that is looked at again counts less and less. -/
def measure (b : Buffer) (c : Config) : ℕ :=
  if c.atTop && isSpace (b.read c.i) then 4 * (b.bytes.length - c.i - 1).toNat + 2
  else 4 * (b.bytes.length - c.i).toNat + c.state.rank

/-- A pass that leads on. -/
def LeadsTo (b : Buffer) (c d : Config) : Prop := Sound b d ∧ measure b d < measure b c

theorem rank_le (state : MusicState) : state.rank ≤ 3 := by cases state <;> decide

theorem measure_of_meets (h : Meets b c) : measure b c = 4 * (b.bytes.length - c.i).toNat + c.state.rank := by
  unfold measure
  rw [h.2, Bool.and_false, if_neg (by decide)]

/-- The byte is behind. -/
theorem leads_advance (hc : Sound b c) (hm : Meets b c) (htop : d.atTop = false) (hi : c.i + 1 ≤ d.i)
    (hstate : d.state ≠ .m) : LeadsTo b c d := by
  have hnonneg := hc.nonneg
  refine ⟨⟨by omega, fun h => absurd (htop.symm.trans h) (by decide), fun h => absurd h hstate⟩, ?_⟩
  have hrank := rank_le d.state
  have hin := hm.1
  rw [measure_of_meets hm, measure, htop, Bool.false_and, if_neg (by decide)]
  omega

/-- The byte is looked at again, from the beginning. -/
theorem leads_again (hc : Sound b c) (hm : Meets b c) (hi : d.i = c.i)
    (hstate : d.state = .none) (hrank : c.state.rank = 3) : LeadsTo b c d := by
  refine ⟨⟨hi ▸ hc.nonneg, fun _ => ⟨hstate, hi ▸ hm.1⟩, fun h => by rw [hstate] at h; cases h⟩, ?_⟩
  rw [measure_of_meets hm, hrank, measure, hi, hm.2, Bool.and_false, if_neg (by decide), hstate]
  exact Nat.add_lt_add_left (by decide) _

theorem strtol_pos (h0 : 0 ≤ c.i) (h : isDigit (b.read c.i) = true) : 1 ≤ (strtol (b.tail c.i)).2 := by
  unfold Buffer.read at h
  rw [if_neg (by omega)] at h
  cases htail : b.tail c.i with
  | nil =>
    rw [htail] at h
    exact absurd h (by decide)
  | cons ch row =>
    rw [htail] at h
    show 1 ≤ ((ch :: row).takeWhile isDigit).length
    rw [List.takeWhile_cons_of_pos (show isDigit ch = true from h)]
    simp

/-- An M is behind, and its option comes next. -/
theorem leads_option (hc : Sound b c) (hm : Meets b c) (htop : d.atTop = false) (hi : d.i = c.i + 1)
    (hupper : toUpper (b.read c.i) = 0x4D) : LeadsTo b c d := by
  have hnonneg := hc.nonneg
  have hback : c.i + 1 - 1 = c.i := by omega
  refine ⟨⟨by omega, fun h => absurd (htop.symm.trans h) (by decide), fun _ => ⟨by omega, .inl ?_⟩⟩, ?_⟩
  · rw [hi, hback, hupper]
  · have hrank := rank_le d.state
    have hin := hm.1
    rw [measure_of_meets hm, measure, htop, Bool.false_and, if_neg (by decide)]
    omega

/-- A digit is looked at again, as a part of the second style. -/
theorem leads_digital (hm : Meets b c) (hc : Sound b c) (htop : d.atTop = false) (hi : d.i = c.i)
    (hstate : d.state.rank = 0 ∧ d.state ≠ .m) (hrank : 0 < c.state.rank) : LeadsTo b c d := by
  refine ⟨⟨hi ▸ hc.nonneg, fun h => absurd (htop.symm.trans h) (by decide), fun h => absurd h hstate.2⟩, ?_⟩
  rw [measure_of_meets hm, measure, htop, Bool.false_and, if_neg (by decide), hi, hstate.1]
  exact Nat.add_lt_add_left hrank _

theorem leads_none (hc : Sound b c) (hm : Meets b c) (hstate : c.state = .none) : LeadsTo b c (passNone b c) := by
  have hrank : 0 < c.state.rank := by rw [hstate]; decide
  unfold passNone
  dsimp only
  split
  · exact leads_advance hc hm rfl le_rfl (by simp [Config.next])
  · rename_i hupper
    exact leads_option hc hm rfl rfl (UInt8.toNat_inj.mp hupper)
  · exact leads_advance hc hm rfl le_rfl (by simp [Config.next])
  · exact leads_advance hc hm rfl le_rfl (by simp [Config.next])
  · exact leads_advance hc hm rfl le_rfl (by simp [Config.next])
  · exact leads_advance hc hm rfl le_rfl (by simp [Config.next])
  · exact leads_advance hc hm rfl le_rfl (by simp [Config.next, hstate])
  · exact leads_advance hc hm rfl le_rfl (by simp [Config.next, hstate])
  · by_cases hdigit : isDigit (b.read c.i) = true
    · rw [(toUpper_digit hdigit).2.1]
      dsimp only
      rw [if_pos hdigit]
      split_ifs
      · exact leads_digital hm hc rfl (by simp [Config.next]) ⟨rfl, by simp [Config.next]⟩ hrank
      · exact leads_digital hm hc rfl (by simp [Config.next]) ⟨rfl, by simp [Config.next]⟩ hrank
    · rw [if_neg hdigit]
      cases noteOf (b.read c.i) with
      | none =>
        dsimp only
        split_ifs
        · exact leads_advance hc hm rfl le_rfl (by simp [Config.next])
        · exact leads_advance hc hm rfl le_rfl (by simp [Config.next, hstate])
      | some note =>
        dsimp only
        split_ifs
        · exact leads_advance hc hm rfl le_rfl (by simp [Config.next])
        · exact leads_advance hc hm rfl le_rfl (by simp [Config.next])

theorem leads_sound (hc : Sound b c) (hm : Meets b c) (hstate : c.state = .sound) : LeadsTo b c (passSound b c) := by
  unfold passSound
  dsimp only
  split_ifs with hnote hend hlower hraise hsharp hflat hdot hdigit
  · exact leads_advance hc hm rfl le_rfl (by simp [Config.next])
  · exact leads_advance hc hm rfl (by simp [Config.next]) (by simp [Config.next, hstate])
  · exact leads_advance hc hm rfl (by simp [Config.next]) (by simp [Config.next, hstate])
  · exact leads_advance hc hm rfl (by simp [Config.next]) (by simp [Config.next, hstate])
  · exact leads_advance hc hm rfl le_rfl (by simp [Config.next, hstate])
  · exact leads_advance hc hm rfl le_rfl (by simp [Config.next, hstate])
  · exact leads_advance hc hm rfl le_rfl (by simp [Config.next, hstate])
  · have hpos := strtol_pos hc.nonneg hdigit
    exact leads_advance hc hm rfl (by simp only [Config.next]; omega) (by simp [Config.next, hstate])
  · exact leads_again hc hm rfl rfl (by rw [hstate]; rfl)

theorem leads_p (hc : Sound b c) (hm : Meets b c) (hstate : c.state = .p) : LeadsTo b c (passP b c) := by
  unfold passP
  dsimp only
  split_ifs with hdot hdigit
  · exact leads_advance hc hm rfl le_rfl (by simp [Config.next, hstate])
  · have hpos := strtol_pos hc.nonneg hdigit
    exact leads_advance hc hm rfl (by simp only [Config.next]; omega) (by simp [Config.next, hstate])
  · exact leads_again hc hm rfl rfl (by rw [hstate]; rfl)

theorem leads_number (hc : Sound b c) (hm : Meets b c) (hgo : (passNumber b c set).2 = false) :
    LeadsTo b c (passNumber b c set).1 := by
  unfold passNumber at hgo ⊢
  split_ifs at hgo ⊢ with hdigit
  · have hpos := strtol_pos hc.nonneg hdigit
    exact leads_advance hc hm rfl (by simp only [Config.next]; omega) (by simp [Config.next])

theorem leads_field (hc : Sound b c) (hm : Meets b c) (hfield : c.state.isField = true)
    (hnumber : beginsNumber (b.read c.i) = true → 1 ≤ (strtod (b.tail c.i)).2) (hafter : after ≠ .m)
    (hgo : (passField strtod b c set after).2 = false) : LeadsTo b c (passField strtod b c set after).1 := by
  unfold passField at hgo ⊢
  dsimp only at hgo ⊢
  split_ifs at hgo ⊢ with hbegins hsemicolon
  · have hpos := hnumber hbegins
    refine leads_advance hc hm rfl (by simp only [Config.next]; omega) ?_
    rintro hbad
    have hstate : c.state = .m := hbad
    rw [hstate] at hfield
    cases hfield
  · exact leads_advance hc hm rfl le_rfl hafter

theorem leads_variation (hc : Sound b c) (hm : Meets b c) (hstate : c.state = .digitalVariation)
    (hgo : (passVariation strtod b c).2 = false) : LeadsTo b c (passVariation strtod b c).1 := by
  unfold passVariation at hgo ⊢
  dsimp only at hgo ⊢
  split_ifs at hgo ⊢ with hbegins hend
  · exact leads_advance hc hm rfl (by simp [Config.next]) (by simp [Config.next, hstate])

/-- The option is none: an M with white space behind it leaves the digit to the second style. -/
theorem leads_m (hc : Sound b c) (hm : Meets b c) (hstate : c.state = .m) (hstuck : ¬ Stuck strtod b c) :
    LeadsTo b c (passM b c) := by
  by_cases hdigit : isDigit (b.read c.i) = true
  · obtain ⟨hpos, hprev⟩ := hc.option hstate
    have hspace : isSpace (b.read (c.i - 1)) = true :=
      hprev.resolve_left fun hupper => hstuck ⟨hm, .inl ⟨hstate, hdigit, hupper⟩⟩
    have hsemicolon : b.read (c.i - 1) ≠ 0x3B := by
      intro heq
      rw [heq] at hspace
      exact absurd hspace (by decide)
    rw [passM_digit hdigit hsemicolon]
    have hin := hm.1
    refine ⟨⟨by simp only; omega, fun _ => ⟨rfl, by simp only; omega⟩, fun h => (by cases h)⟩, ?_⟩
    rw [measure_of_meets hm, hstate, measure]
    simp only [hspace, Bool.and_self, if_true]
    have hback : (b.bytes.length : ℤ) - (c.i - 1) - 1 = b.bytes.length - c.i := by omega
    rw [hback]
    exact Nat.add_lt_add_left (by decide) _
  · unfold passM
    dsimp only
    split
    any_goals exact leads_advance hc hm rfl le_rfl (by simp [Config.next])
    rw [if_neg hdigit]
    split_ifs
    · exact leads_advance hc hm rfl le_rfl (by simp [Config.next])
    · exact leads_again hc hm rfl rfl (by rw [hstate]; rfl)

/-- White space is skipped. -/
theorem leads_space (hc : Sound b c) (hin : c.i < b.bytes.length) (hspace : isSpace (b.read c.i) = true) :
    LeadsTo b c c.next := by
  have hnonneg := hc.nonneg
  have hback : c.i + 1 - 1 = c.i := by omega
  refine ⟨⟨by simp only [Config.next]; omega, fun h => (by cases h), fun _ => ⟨by simp only [Config.next]; omega, .inr ?_⟩⟩, ?_⟩
  · show isSpace (b.read (c.i + 1 - 1)) = true
    rw [hback, hspace]
  · have hnext : measure b c.next = 4 * (b.bytes.length - (c.i + 1)).toNat + c.state.rank := if_neg (by simp [Config.next])
    rw [hnext, measure, hspace, Bool.and_true]
    cases htop : c.atTop with
    | true =>
      rw [if_pos rfl, (hc.top htop).1]
      have hleft : (b.bytes.length : ℤ) - (c.i + 1) = b.bytes.length - c.i - 1 := by omega
      rw [hleft]
      exact Nat.add_lt_add_left (by decide) _
    | false =>
      rw [if_neg (by decide)]
      omega

/-- A pass that is not stuck, and not the last, leads on. -/
theorem leads_step (hc : Sound b c) (hstuck : ¬ Stuck strtod b c) (hgo : (pass strtod b c).2 = false) :
    LeadsTo b c (pass strtod b c).1 := by
  by_cases hin : c.i < b.bytes.length
  · by_cases hspace : isSpace (b.read c.i) = true
    · have hpass : pass strtod b c = (c.next, false) := by
        unfold pass
        rw [if_neg (fun hend => absurd hend.2 (not_le.mpr hin)), if_pos hspace]
      rw [hpass]
      exact leads_space hc hin hspace
    · have hm : Meets b c := ⟨hin, Bool.not_eq_true _ ▸ hspace⟩
      have hnumber : c.state.isField = true → beginsNumber (b.read c.i) = true → 1 ≤ (strtod (b.tail c.i)).2 := by
        intro hfield hbegins
        by_contra hnone
        exact hstuck ⟨hm, .inr ⟨hfield, hbegins, by omega⟩⟩
      rw [pass_of_meets hm] at hgo ⊢
      cases hstate : c.state with
      | none => exact leads_none hc hm hstate
      | sound => exact leads_sound hc hm hstate
      | m => exact leads_m hc hm hstate hstuck
      | p => exact leads_p hc hm hstate
      | l | n | o | t =>
        rw [hstate] at hgo
        exact leads_number hc hm hgo
      | digitalFreq | digitalDuration | digitalCycles | digitalCycledelay =>
        rw [hstate] at hgo
        have hfield : c.state.isField = true := by rw [hstate]; rfl
        exact leads_field hc hm hfield (hnumber hfield) (by decide) hgo
      | digitalVariation =>
        rw [hstate] at hgo
        exact leads_variation hc hm hstate hgo
  · have htop : ¬ c.atTop = true := fun h => hin (hc.top h).2
    unfold pass at hgo
    rw [if_pos ⟨htop, not_lt.mp hin⟩] at hgo
    cases hgo

/-! ### Runs -/

/-- The configurations before the passes. -/
def Reached (strtod : List UInt8 → ℤ × ℕ) (b : Buffer) (c d : Config) : Prop :=
  ∃ n, Loops.before (fun _ => pass strtod b) c n = some d

/-- No pass finds a digit right behind an M, or a field with a sign or a dot that begins no number. -/
def Progresses (strtod : List UInt8 → ℤ × ℕ) (b : Buffer) (c : Config) : Prop :=
  ∀ d, Reached strtod b c d → ¬ Stuck strtod b d

theorem sound_before (hc : Sound b c) (hprogress : Progresses strtod b c) {n : ℕ}
    (hn : Loops.before (fun _ => pass strtod b) c n = some d) : Sound b d := by
  induction n generalizing d with
  | zero => exact Option.some.inj hn ▸ hc
  | succ n ih =>
    obtain ⟨e, he, hpass⟩ := Loops.exists_before hn
    have hleads := leads_step (ih he) (hprogress e ⟨n, he⟩) (congrArg Prod.snd hpass)
    rw [hpass] at hleads
    exact hleads.1

theorem terminates_of_progresses (hc : Sound b c) (hprogress : Progresses strtod b c) : Terminates strtod b c := by
  refine Loops.exists_returns Nat.lt_wfRel.wf (fun _ => measure b) fun n d hn hgo => ?_
  exact (leads_step (sound_before hc hprogress hn) (hprogress d ⟨n, hn⟩) hgo).2

theorem not_terminates (hn : Reached strtod b c d) (hd : Trapped strtod b d) : ¬ Terminates strtod b c := by
  obtain ⟨n, hn⟩ := hn
  exact Loops.not_returns (P := Trapped strtod b) (fun _ _ => trapped_step) hn hd

variable {tempo octave length freq duration cycles cycledelay variation : ℤ} {style : Style}

theorem sound_start : Sound b (start tempo octave length style freq duration cycles cycledelay variation) :=
  ⟨le_rfl, fun h => (by cases h), fun h => (by cases h)⟩

/-- A stuck pass in front of the condition of the loop; one at `music_top` cannot be stuck. -/
theorem trapped_of_stuck (hd : Sound b d) (h : Stuck strtod b d) : Trapped strtod b d := by
  cases htop : d.atTop with
  | false => exact .inl ⟨htop, h⟩
  | true =>
    have hnone := (hd.top htop).1
    obtain ⟨-, ⟨hstate, -⟩ | ⟨hfield, -⟩⟩ := h
    · rw [hnone] at hstate
      cases hstate
    · rw [hnone] at hfield
      cases hfield

/-- The first pass that is stuck is reached on passes that are not. -/
theorem not_terminates_of_stuck (hc : Sound b c) {n : ℕ} (hn : Loops.before (fun _ => pass strtod b) c n = some d)
    (hd : Stuck strtod b d) : ¬ Terminates strtod b c := by
  induction n using Nat.strong_induction_on generalizing d with
  | h n ih =>
    by_cases hearlier : ∃ k e, k < n ∧ Loops.before (fun _ => pass strtod b) c k = some e ∧ Stuck strtod b e
    · obtain ⟨k, e, hk, he, hstuck⟩ := hearlier
      exact ih k hk he hstuck
    · have hsound : ∀ k ≤ n, ∀ e, Loops.before (fun _ => pass strtod b) c k = some e → Sound b e := by
        intro k hk
        induction k with
        | zero => exact fun e he => Option.some.inj he ▸ hc
        | succ k ihk =>
          intro e he
          obtain ⟨f, hf, hpass⟩ := Loops.exists_before he
          have hstuck : ¬ Stuck strtod b f := fun hstuck => hearlier ⟨k, f, by omega, hf, hstuck⟩
          have hleads := leads_step (ihk (by omega) f hf) hstuck (congrArg Prod.snd hpass)
          rw [hpass] at hleads
          exact hleads.1
      exact not_terminates ⟨n, hn⟩ (trapped_of_stuck (hsound n le_rfl d hn) hd)

/-- The loop ends if and only if no pass is stuck, whatever the sequence and the statics are. -/
theorem terminates_iff (strtod : List UInt8 → ℤ × ℕ) (b : Buffer) (tempo octave length : ℤ) (style : Style)
    (freq duration cycles cycledelay variation : ℤ) :
    Terminates strtod b (start tempo octave length style freq duration cycles cycledelay variation) ↔
      Progresses strtod b (start tempo octave length style freq duration cycles cycledelay variation) := by
  constructor
  · rintro hends d ⟨n, hn⟩ hstuck
    exact not_terminates_of_stuck sound_start hn hstuck hends
  · exact terminates_of_progresses sound_start

/-- `M1`: the M is looked at again and again. -/
theorem not_always_terminates : ¬ ∀ (strtod : List UInt8 → ℤ × ℕ) (b : Buffer) (c : Config), c.i = 0 →
    c.state = .none → c.atTop = false → Terminates strtod b c := by
  intro h
  have hends := h (fun _ => (0, 0)) ⟨[0x4D, 0x31], 0, []⟩ (start 120 4 4 .normal 0 0 0 0 0) rfl rfl rfl
  refine absurd hends (not_terminates_of_stuck (n := 1) sound_start rfl ⟨by decide, .inl ⟨by decide, by decide, ?_⟩⟩)
  decide

end CProgram.Qodem.Music
