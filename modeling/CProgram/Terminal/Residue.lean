import CProgram.Terminal.Vt100

/-! What an aborted sequence leaves behind. CAN clears the parser before it goes back to the ground
state; ESC and the 8-bit CSI only change the scan state. -/
namespace CProgram.Terminal
open CProgram.Bytes
namespace Parser
variable {e : Emulation} {p : Parser} {ch : UInt8}

/-- In the middle of a sequence in which ESC is recognised. -/
def Interruptible (e : Emulation) (p : Parser) : Prop :=
  p.Between e ∧ p.scanState ∉ .ground :: dcsStates

instance : Decidable (p.Interruptible e) := inferInstanceAs (Decidable (_ ∧ _))

/-- The bytes that start a sequence wherever they come. -/
def Starts (e : Emulation) (ch : UInt8) : Prop := ch = 0x1B ∨ (ch = 0x9B ∧ e.c1)

/-- One whole sequence: the last byte is the first to get back to the ground state. -/
def Whole (e : Emulation) (p : Parser) (bytes : List UInt8) : Prop :=
  (p.feed e bytes).scanState = .ground ∧
    ∀ front, front <+: bytes → front ≠ [] → front ≠ bytes → (p.feed e front).scanState ≠ .ground

/-- What CAN makes of a sequence. -/
def cancel (e : Emulation) (p : Parser) : Parser := (p.terminalEmulator e 0x18).parser

/-- A new sequence has the effect that it has after CAN. -/
def LeavesNoResidue (e : Emulation) (p : Parser) : Prop :=
  ∀ ch rest, Starts e ch → Whole e (p.cancel e) (ch :: rest) →
    p.effects e (ch :: rest) = (p.cancel e).effects e (ch :: rest) ∧
      p.feed e (ch :: rest) = (p.cancel e).feed e (ch :: rest)

theorem cancel_eq (hp : p.Interruptible e) : p.cancel e = (p.junk.sees e 0x18).finish := by
  rw [cancel, terminalEmulator_of_lt hp.1 (by decide), advance, anywhere, if_pos (Or.inl rfl), if_neg]
  intro h
  have hground : p.scanState = .ground := by simpa using h.1
  exact hp.2 (by simp [hground])

theorem terminalEmulator_csi (he : e.c1) :
    p.terminalEmulator e 0x9B = ⟨p.junk.goto .csiEntry, [], none⟩ := by
  cases e <;> simp [Emulation.c1] at he <;> rfl

theorem scanEscape_decsc : p.scanEscape e 0x37 = p.dispatch (some .decsc) := by cases e <;> rfl

/-- ESC 7 calls `decsc` in every mode, and what the call finds is what was collected before. -/
theorem terminalEmulator_decsc (hp : p.Between e) (hs : p.scanState = .escape) :
    p.terminalEmulator e 0x37 = ⟨(p.junk.sees e 0x37).finish, [⟨.decsc, p.junk.toArgs⟩], none⟩ := by
  have hscan : (p.junk.sees e 0x37).scan e 0x37 =
      .discard (p.junk.sees e 0x37).finish [⟨.decsc, p.junk.toArgs⟩] := by
    rw [scan, sees_scanState, junk_scanState, hs, ← @sees_toArgs e p.junk 0x37]
    exact scanEscape_decsc
  rw [terminalEmulator_of_lt hp (by decide), advance, anywhere]
  simp [hscan, conclude]

theorem goto_escape_args (h : p.junk.toArgs = .clear) :
    (p.junk.sees e 0x1B).goto .escape = ((p.junk.sees e 0x18).finish.sees e 0x1B).goto .escape := by
  revert h
  generalize p.junk = q
  intro h
  cases q with
  | mk args scanState vt52Mode printerControllerMode utf8State utf8Char =>
    subst h
    unfold sees
    split <;> rfl

theorem finish_junk : p.finish.junk = p.finish := junk_of_lt (by simp [finish, clearParams, goto, Args.clear])

theorem between_cancel : ((p.junk.sees e 0x18).finish).Between e := by
  intro he
  simp [sees, he, finish, clearParams, goto]

theorem terminalEmulator_cancel_esc (hp : p.Interruptible e) :
    (p.cancel e).terminalEmulator e 0x1B =
      ⟨((p.junk.sees e 0x18).finish.sees e 0x1B).goto .escape, [], none⟩ := by
  rw [cancel_eq hp, terminalEmulator_esc between_cancel (by simp [finish, goto, dcsStates]), finish_junk]

theorem terminalEmulator_interruptible_esc (hp : p.Interruptible e) :
    p.terminalEmulator e 0x1B = ⟨(p.junk.sees e 0x1B).goto .escape, [], none⟩ := by
  exact terminalEmulator_esc hp.1 fun h => hp.2 (List.mem_cons_of_mem _ h)

/-- With nothing collected a new sequence starts as it does after CAN. -/
theorem starts_alike (hp : p.Interruptible e) (h : p.junk.toArgs = .clear) (hs : Starts e ch) :
    p.terminalEmulator e ch = (p.cancel e).terminalEmulator e ch := by
  obtain rfl | ⟨rfl, he⟩ := hs
  · rw [terminalEmulator_interruptible_esc hp, terminalEmulator_cancel_esc hp, goto_escape_args h]
  · have hutf : e.utf8 = false := by cases e <;> simp_all [Emulation.c1, Emulation.utf8]
    rw [terminalEmulator_csi he, terminalEmulator_csi he, cancel_eq hp, finish_junk]
    simp only [sees, hutf, finish, clearParams, goto, Bool.false_eq_true, if_false, h]

theorem effects_decsc (hp : p.Interruptible e) : p.effects e [0x1B, 0x37] =
    [([], none), ([⟨.decsc, p.junk.toArgs⟩], none)] := by
  have hlen : ((p.junk.sees e 0x1B).goto .escape).emulBuffer.length < 127 := by
    have hbuf : ((p.junk.sees e 0x1B).goto .escape).toArgs = p.junk.toArgs := sees_toArgs
    rw [hbuf]
    exact junk_emulBuffer_length
  rw [effects_cons, terminalEmulator_interruptible_esc hp, effects_cons,
    terminalEmulator_decsc between_sees_goto rfl, junk_of_lt hlen]
  simp [effects, goto]

theorem effects_cancel_decsc (hp : p.Interruptible e) : (p.cancel e).effects e [0x1B, 0x37] =
    [([], none), ([⟨.decsc, .clear⟩], none)] := by
  have hargs : (((p.junk.sees e 0x18).finish.sees e 0x1B).goto .escape).toArgs = .clear := sees_toArgs
  have hlen : (((p.junk.sees e 0x18).finish.sees e 0x1B).goto .escape).emulBuffer.length < 127 := by
    rw [hargs]
    decide
  rw [effects_cons, terminalEmulator_cancel_esc hp, effects_cons,
    terminalEmulator_decsc between_sees_goto rfl, junk_of_lt hlen, hargs]
  rfl

theorem whole_decsc (hp : p.Interruptible e) : Whole e (p.cancel e) [0x1B, 0x37] := by
  constructor
  · rw [feed_cons, terminalEmulator_cancel_esc hp, feed_cons, terminalEmulator_decsc between_sees_goto rfl]
    rfl
  · intro front hfront hnil hall
    have hone : front = [0x1B] := by
      obtain _ | ⟨a, _ | ⟨b, _ | ⟨c, front⟩⟩⟩ := front
      · exact absurd rfl hnil
      · simpa using hfront
      · simp at hfront
        exact absurd (by rw [hfront.1, hfront.2]) hall
      · simp at hfront
    rw [hone, feed_cons, terminalEmulator_cancel_esc hp]
    simp [feed, goto]

/-- An aborted sequence leaves no residue exactly if it had collected nothing. -/
theorem leavesNoResidue_iff_junk (hp : p.Interruptible e) :
    p.LeavesNoResidue e ↔ p.junk.toArgs = .clear := by
  constructor
  · intro h
    have heff := (h 0x1B [0x37] (Or.inl rfl) (whole_decsc hp)).1
    rw [effects_decsc hp, effects_cancel_decsc hp] at heff
    simpa using heff
  · intro h ch rest hs _
    have hsame := starts_alike hp h hs
    exact ⟨by rw [effects_cons, effects_cons, hsame], by rw [feed_cons, feed_cons, hsame]⟩

/-- The parser after a stream that breaks off inside a sequence lets go of that sequence at ESC as it
does at CAN exactly if no parameter, marker or intermediate of it has been collected. -/
theorem leavesNoResidue_iff (e : Emulation) (bytes : List UInt8) (h : (reset.feed e bytes).Interruptible e) :
    (reset.feed e bytes).LeavesNoResidue e ↔ (reset.feed e bytes).junk.toArgs = .clear :=
  leavesNoResidue_iff_junk h

theorem leavesNoResidue_csi :
    (reset.feed .vt100 [0x1B, 0x5B]).LeavesNoResidue .vt100 ↔
      (reset.feed .vt100 [0x1B, 0x5B]).junk.toArgs = .clear :=
  leavesNoResidue_iff .vt100 [0x1B, 0x5B] (by decide)

/-- CSI 5, then ESC and CSI A: the cursor goes up five lines. -/
theorem not_leavesNoResidue_cuu :
    ¬ ∀ e bytes, (reset.feed e bytes).Interruptible e → (reset.feed e bytes).LeavesNoResidue e := by
  intro hall
  have hwhole : Whole .vt100 ((reset.feed .vt100 [0x1B, 0x5B, 0x35]).cancel .vt100) [0x1B, 0x5B, 0x41] := by
    refine ⟨by decide, ?_⟩
    intro front hfront hnil hne
    obtain _ | ⟨a, _ | ⟨b, _ | ⟨c, _ | ⟨d, front⟩⟩⟩⟩ := front <;> simp at hfront hnil hne
    · subst hfront
      decide
    · obtain ⟨rfl, rfl⟩ := hfront
      decide
    · exact absurd hfront.2.2 (hne hfront.1 hfront.2.1)
  have h := (hall .vt100 [0x1B, 0x5B, 0x35] (by decide) 0x1B [0x5B, 0x41] (Or.inl rfl) hwhole).1
  revert h
  decide

end Parser
end CProgram.Terminal
