import CProgram.Terminal.Vt100

/-! Strings: DCS, SOS, PM, APC and OSC, from the introducer to the terminator. -/
namespace CProgram.Terminal
open CProgram.Bytes

inductive StringKind where
  | dcs | sosPmApc | osc
deriving DecidableEq, Repr

namespace StringKind

def scanState : StringKind → ScanState
  | .dcs => .dcsEntry
  | .sosPmApc => .sosPmApcString
  | .osc => .oscString

/-- What follows ESC in an introducer. -/
def finals : StringKind → List UInt8
  | .dcs => [0x50]
  | .sosPmApc => [0x58, 0x5E, 0x5F]
  | .osc => [0x5D]

/-- The introducers that are one byte. -/
def c1s : StringKind → List UInt8
  | .dcs => [0x90]
  | .sosPmApc => [0x98, 0x9E, 0x9F]
  | .osc => [0x9D]

end StringKind

/-- An introducer that the emulation accepts where the parser stands. -/
inductive Introduces (e : Emulation) (p : Parser) (kind : StringKind) : List UInt8 → Prop where
  | esc (ch : UInt8) (hch : ch ∈ kind.finals) (hp : p.Between e) (hs : p.scanState ∉ dcsStates)
      (hv : p.vt52Mode = false) : Introduces e p kind [0x1B, ch]
  | c1 (ch : UInt8) (hch : ch ∈ kind.c1s) (he : e.c1) : Introduces e p kind [ch]

/-- The forms of the string terminator. -/
inductive Terminates (e : Emulation) : List UInt8 → Prop where
  | esc : Terminates e [0x1B, 0x5C]
  | c1 (he : e.c1) : Terminates e [0x9C]

/-- No ESC, CAN, SUB or C1 byte. -/
def Plain (ch : UInt8) : Prop := ch ≠ 0x18 ∧ ch ≠ 0x1A ∧ ch ≠ 0x1B ∧ within 0x80 0x9F ch = false

instance (ch : UInt8) : Decidable (Plain ch) := inferInstanceAs (Decidable (_ ∧ _))

/-- Nothing is returned and nothing is called but what may change the window title. -/
def Silent (effect : List Call × Option Glyph) : Prop :=
  effect.2 = none ∧ ∀ call ∈ effect.1, call.handler = .osc

/-- The string is over after its terminator, and the screen has seen nothing of it. -/
structure EndsString (e : Emulation) (p : Parser) (introducer contents terminator : List UInt8) : Prop where
  silent : ∀ effect ∈ (p.feed e introducer).effects e (contents ++ terminator), Silent effect
  ground : (p.feed e (introducer ++ (contents ++ terminator))).scanState = .ground
  clear : (p.feed e (introducer ++ (contents ++ terminator))).toArgs = .clear
  shown : (e = .vt220 → p.printerControllerMode = false) → ∀ ch, within 0x20 0x7E ch →
    ((p.feed e (introducer ++ (contents ++ terminator))).terminalEmulator e ch).glyph = some (.mapped ch)

/-! ### Contents that cause no trouble -/

/-- Where a byte of a device control string leads: parameters, an intermediate, a final byte and then
anything. `byC1` says that the string ends with `9C`, so that it may also go wrong. -/
def follow (e : Emulation) (byC1 : Bool) (s : ScanState) (ch : UInt8) : Option ScanState :=
  if ignored ch || decide (ch = 0x7F) || decide (0x80 ≤ ch) then some s
  else
    match s with
    | .dcsEntry =>
      if within 0x20 0x2F ch then some .dcsIntermediate
      else if within 0x30 0x39 ch || within 0x3B 0x3F ch then some .dcsParam
      else if within 0x40 0x7E ch then some .dcsPassthrough
      else if e.vtxxx then some s else none
    | .dcsParam =>
      if within 0x20 0x2F ch then some .dcsIntermediate
      else if within 0x30 0x39 ch || decide (ch = 0x3B) then some .dcsParam
      else if within 0x3C 0x3F ch then if byC1 then some .dcsIgnore else none
      else if within 0x40 0x7E ch then some .dcsPassthrough
      else if e.vtxxx then some s else none
    | .dcsIntermediate =>
      if within 0x30 0x3F ch then if byC1 then some .dcsIgnore else none
      else if within 0x40 0x7E ch then some .dcsPassthrough
      else if e.vtxxx then some s else none
    | _ => some s

/-- The Linux console's `R` and `P nrrggbb`, complete at the last byte. -/
def PaletteCommand (put : List UInt8) : Prop :=
  put.head? = some 0x52 ∨ (put.head? = some 0x50 ∧ 8 ≤ put.length)

/-- No control byte of those that end an OSC, and no complete palette command for the Linux console;
the buffer that tells starts anew after 127 bytes. -/
def OscOpen (e : Emulation) (buffer contents : List UInt8) : Prop :=
  (∀ ch ∈ contents, 0x08 ≤ ch) ∧
    (e.console → ∀ n, ¬ PaletteCommand (((buffer ++ contents.filter (within 0x20 0x7E)).drop (127 * n)).take 127))

/-- Contents for which nothing but the terminator ends the string. -/
structure Quiet (e : Emulation) (kind : StringKind) (byC1 : Bool) (contents : List UInt8) : Prop where
  ascii : ∀ ch ∈ contents, 0x80 ≤ ch → e.vtxxx
  dcs : kind = .dcs → ((contents.map (Parser.strip e)).foldlM (follow e byC1) .dcsEntry).isSome
  osc : kind = .osc → OscOpen e [] (contents.map (Parser.strip e))

namespace Parser
variable {e : Emulation} {p q : Parser} {ch : UInt8} {contents : List UInt8} {byC1 : Bool} {s : ScanState}

/-- A string in which each byte is silent and keeps `I` is silent. -/
theorem silent_run {I : List UInt8 → Parser → Prop}
    (hstep : ∀ ch rest q, I (ch :: rest) q →
      ∃ q', q.terminalEmulator e ch = ⟨q', [], none⟩ ∧ I rest q') (h : I contents q) :
    (∀ effect ∈ q.effects e contents, Silent effect) ∧ I [] (q.feed e contents) := by
  induction contents generalizing q with
  | nil =>
    refine ⟨?_, h⟩
    intro effect heffect
    cases heffect
  | cons ch rest ih =>
    obtain ⟨q', hq', hI⟩ := hstep ch rest q h
    obtain ⟨hsilent, hend⟩ := ih hI
    constructor
    · intro effect heffect
      rw [effects, hq', List.mem_cons] at heffect
      obtain rfl | hrest := heffect
      · exact ⟨rfl, by simp⟩
      · exact hsilent effect hrest
    · rw [feed, List.foldl_cons, hq']
      exact hend

theorem plain_strip (h : Plain ch) : Plain (strip e ch) := by
  have hall : ∀ ch : UInt8, Plain ch → Plain (ch &&& 0x7F) := by
    apply forall_byte
    decide +kernel
  unfold strip
  split
  · exact hall ch h
  · exact h

/-- In a string nothing that is plain leads anywhere. -/
theorem advance_plain (h : Plain ch) (hs : p.scanState ≠ .ground) :
    p.advance e ch = if ch = 0x7F then ⟨p, [], none⟩ else p.conclude e ch (p.scan e ch) := by
  obtain ⟨hcan, hsub, hesc, hc1⟩ := h
  have hne : ∀ c, within 0x80 0x9F c = true → ch ≠ c := by
    rintro c hc rfl
    rw [hc1] at hc
    cases hc
  have h9B := hne 0x9B (by decide)
  have h9D := hne 0x9D (by decide)
  have h90 := hne 0x90 (by decide)
  have h98 := hne 0x98 (by decide)
  have h9E := hne 0x9E (by decide)
  have h9F := hne 0x9F (by decide)
  rw [advance, anywhere]
  simp only [hcan, hsub, hesc, hs, h9B, h9D, h90, h98, h9E, h9F, or_false, false_and, and_false,
    if_false]
  split_ifs <;> rfl

theorem fallOff_vtxxx (he : e.vtxxx) : p.fallOff e ch = ⟨p, [], none⟩ := by
  cases e <;> simp_all [Emulation.vtxxx, fallOff, Emulation.codepage, Emulation.utf8]

/-! ### Device control strings -/

/-- How many bytes of a device control string can have been collected. -/
def room : ScanState → ℕ
  | .dcsEntry => 0
  | .dcsParam => 1
  | _ => 2

/-- What a plain byte of a device control string changes. -/
structure DcsMove (q q' : Parser) (ch : UInt8) (s : ScanState) : Prop where
  scanState : q'.scanState = s
  printer : q'.printerControllerMode = q.printerControllerMode
  utf8State : q'.utf8State = q.utf8State
  buffer : q'.emulBuffer = q.emulBuffer ∧ room q.scanState ≤ room s ∨
    q'.emulBuffer = q.emulBuffer ++ [ch] ∧ room q.scanState + 1 ≤ room s

theorem DcsMove.stay (hs : q.scanState = s) : DcsMove q q ch s := ⟨hs, rfl, rfl, Or.inl ⟨rfl, by rw [hs]⟩⟩

theorem DcsMove.goto (h : room q.scanState ≤ room s) : DcsMove q (q.goto s) ch s :=
  ⟨rfl, rfl, rfl, Or.inl ⟨rfl, h⟩⟩

theorem DcsMove.collect (h : room q.scanState + 1 ≤ room s) : DcsMove q ((q.collect ch).goto s) ch s :=
  ⟨rfl, rfl, rfl, Or.inr ⟨rfl, h⟩⟩

theorem param_keeps : (q.param ch).printerControllerMode = q.printerControllerMode ∧
    (q.param ch).utf8State = q.utf8State ∧ (q.param ch).emulBuffer = q.emulBuffer ∧
    (q.param ch).scanState = q.scanState := by
  unfold param
  split_ifs <;> exact ⟨rfl, rfl, rfl, rfl⟩

theorem DcsMove.param (h : room q.scanState ≤ room s) : DcsMove q ((q.param ch).goto s) ch s := by
  obtain ⟨hprinter, hutf8, hbuffer, _⟩ := @param_keeps q ch
  exact ⟨rfl, hprinter, hutf8, Or.inl ⟨hbuffer, h⟩⟩

theorem DcsMove.paramStay (hs : q.scanState = s) : DcsMove q (q.param ch) ch s := by
  obtain ⟨hprinter, hutf8, hbuffer, hscan⟩ := @param_keeps q ch
  exact ⟨hscan.trans hs, hprinter, hutf8, Or.inl ⟨hbuffer, by rw [hs]⟩⟩

theorem terminated_plain (h : Plain ch) (hesc : 0x1B ∉ q.emulBuffer) : q.terminated ch = none := by
  have h9C : ch ≠ 0x9C := by
    rintro rfl
    exact absurd h (by decide)
  have hlast : q.emulBuffer.getLast? ≠ some 0x1B := fun hlast => hesc (List.mem_of_getLast? hlast)
  rw [terminated, if_neg h9C, if_neg h.2.2.1, if_neg fun h => hlast h.2]

/-- A verdict that shows nothing and moves on to `s`. -/
def MovesTo (e : Emulation) (q : Parser) (ch : UInt8) (s : ScanState) (v : Verdict) : Prop :=
  ∃ q', q.conclude e ch v = ⟨q', [], none⟩ ∧ DcsMove q q' ch s

theorem movesTo_discard {q' : Parser} (h : DcsMove q q' ch s) : MovesTo e q ch s (.discard q' []) :=
  ⟨q', rfl, h⟩

theorem movesTo_fall (hs : q.scanState = s) (he : e.vtxxx) : MovesTo e q ch s .fall :=
  ⟨q, fallOff_vtxxx he, .stay hs⟩

theorem scanDcsEntry_follow (hs : q.scanState = .dcsEntry) (hplain : Plain ch)
    (h8 : 0x80 ≤ ch → e.vtxxx) (hesc : 0x1B ∉ q.emulBuffer) (hf : follow e byC1 .dcsEntry ch = some s) :
    MovesTo e q ch s (q.scanDcsEntry ch) := by
  rw [scanDcsEntry, terminated_plain hplain hesc, Option.getD_none]
  obtain ⟨hcan, hsub, hesc', hc1⟩ := hplain
  unfold follow at hf
  simp only [Bool.or_eq_true, ← Bool.not_eq_true, decide_eq_true_eq, within_iff, ignored_iff,
    UInt8.le_iff_toNat_le, ne_eq, ← UInt8.toNat_inj, UInt8.reduceToNat] at *
  split_ifs at hf ⊢ <;> first | omega | cases hf
  · exact movesTo_discard (.collect (by rw [hs]; decide))
  · exact movesTo_discard (.param (by rw [hs]; decide))
  · exact movesTo_discard (.collect (by rw [hs]; decide))
  · exact movesTo_discard (.stay hs)
  · exact movesTo_discard (.goto (by rw [hs]; decide))
  · exact movesTo_fall hs (h8 (by omega))
  · exact movesTo_fall hs (by assumption)

theorem scanDcsIntermediate_follow (hs : q.scanState = .dcsIntermediate) (hplain : Plain ch)
    (h8 : 0x80 ≤ ch → e.vtxxx) (hesc : 0x1B ∉ q.emulBuffer) (hf : follow e byC1 .dcsIntermediate ch = some s) :
    MovesTo e q ch s (q.scanDcsIntermediate ch) := by
  rw [scanDcsIntermediate, terminated_plain hplain hesc, Option.getD_none]
  obtain ⟨hcan, hsub, hesc', hc1⟩ := hplain
  unfold follow at hf
  simp only [Bool.or_eq_true, ← Bool.not_eq_true, decide_eq_true_eq, within_iff, ignored_iff,
    UInt8.le_iff_toNat_le, ne_eq, ← UInt8.toNat_inj, UInt8.reduceToNat] at *
  split_ifs at hf ⊢ <;> first | omega | cases hf
  · exact movesTo_discard (.goto (by rw [hs]; decide))
  · exact movesTo_discard (.goto (by rw [hs]; decide))
  · exact movesTo_discard (.stay hs)
  · exact movesTo_fall hs (h8 (by omega))
  · exact movesTo_fall hs (by assumption)

theorem scanDcsParam_follow (hs : q.scanState = .dcsParam) (hplain : Plain ch)
    (h8 : 0x80 ≤ ch → e.vtxxx) (hesc : 0x1B ∉ q.emulBuffer) (hf : follow e byC1 .dcsParam ch = some s) :
    MovesTo e q ch s (q.scanDcsParam ch) := by
  rw [scanDcsParam, terminated_plain hplain hesc, Option.getD_none]
  obtain ⟨hcan, hsub, hesc', hc1⟩ := hplain
  unfold follow at hf
  simp only [Bool.or_eq_true, ← Bool.not_eq_true, decide_eq_true_eq, within_iff, ignored_iff,
    UInt8.le_iff_toNat_le, ne_eq, ← UInt8.toNat_inj, UInt8.reduceToNat] at *
  split_ifs at hf ⊢ <;> first | omega | cases hf
  · exact movesTo_discard (.collect (by rw [hs]; decide))
  · exact movesTo_discard (.paramStay hs)
  · exact movesTo_discard (.stay hs)
  · exact movesTo_discard (.goto (by rw [hs]; decide))
  · exact movesTo_discard (.goto (by rw [hs]; decide))
  · exact movesTo_fall hs (h8 (by omega))
  · exact movesTo_fall hs (by assumption)

theorem scanDcsPassthrough_follow (hs : q.scanState = .dcsPassthrough) (hplain : Plain ch)
    (h8 : 0x80 ≤ ch → e.vtxxx) (hesc : 0x1B ∉ q.emulBuffer) (hf : follow e byC1 .dcsPassthrough ch = some s) :
    MovesTo e q ch s (q.scanDcsPassthrough ch) := by
  rw [scanDcsPassthrough, terminated_plain hplain hesc, Option.getD_none]
  obtain ⟨hcan, hsub, hesc', hc1⟩ := hplain
  unfold follow at hf
  simp only [Bool.or_eq_true, ← Bool.not_eq_true, decide_eq_true_eq, within_iff, ignored_iff,
    UInt8.le_iff_toNat_le, ne_eq, ← UInt8.toNat_inj, UInt8.reduceToNat] at *
  split_ifs at hf ⊢ <;> first | omega | cases hf
  · exact movesTo_discard (.stay hs)
  · exact movesTo_discard (.stay hs)
  · exact movesTo_fall hs (h8 (by omega))

theorem conclude_ignored (hplain : Plain ch) (h8 : 0x80 ≤ ch → e.vtxxx) :
    q.conclude e ch (q.scanIgnoredString ch) = ⟨q, [], none⟩ := by
  obtain ⟨hcan, hsub, hesc, hc1⟩ := hplain
  rw [scanIgnoredString]
  split_ifs with hlow
  · rfl
  · simp only [Bool.or_eq_true, ← Bool.not_eq_true, within_iff, ignored_iff, UInt8.le_iff_toNat_le, ne_eq,
      ← UInt8.toNat_inj, UInt8.reduceToNat] at *
    have hhigh : 0xA0 ≤ ch.toNat := by omega
    have hnone : q.terminated ch = none := by
      simp only [terminated, ← UInt8.toNat_inj, UInt8.reduceToNat]
      rw [if_neg (by omega), if_neg (by omega), if_neg (by omega)]
    rw [hnone]
    exact fallOff_vtxxx (h8 (by omega))

/-- The parser follows a device control string. -/
theorem scan_follow (hs : q.scanState ∈ dcsStates) (hplain : Plain ch) (h8 : 0x80 ≤ ch → e.vtxxx)
    (hesc : 0x1B ∉ q.emulBuffer) (hf : follow e byC1 q.scanState ch = some s) :
    MovesTo e q ch s (q.scan e ch) := by
  simp only [dcsStates, List.mem_cons, List.not_mem_nil, or_false] at hs
  obtain hs | hs | hs | hs | hs := hs <;> rw [hs] at hf <;> simp only [scan, hs]
  · exact scanDcsEntry_follow hs hplain h8 hesc hf
  · exact scanDcsIntermediate_follow hs hplain h8 hesc hf
  · exact scanDcsParam_follow hs hplain h8 hesc hf
  · exact scanDcsPassthrough_follow hs hplain h8 hesc hf
  · have hstay : s = .dcsIgnore := by
      simp only [follow] at hf
      split_ifs at hf <;> cases hf <;> rfl
    subst hstay
    exact ⟨q, conclude_ignored hplain h8, .stay hs⟩

/-- The states that `follow` leads to. -/
theorem follow_cases {s' : ScanState} (hf : follow e byC1 s ch = some s') :
    s' = s ∨ s' = .dcsIntermediate ∨ s' = .dcsParam ∨ s' = .dcsPassthrough ∨ s' = .dcsIgnore ∧ byC1 = true := by
  unfold follow at hf
  grind

theorem follow_dcsStates (hs : s ∈ dcsStates) {s' : ScanState} (hf : follow e byC1 s ch = some s') :
    s' ∈ dcsStates ∧ (s' = .dcsIgnore → s = .dcsIgnore ∨ byC1) := by
  obtain rfl | rfl | rfl | rfl | ⟨rfl, hbyC1⟩ := follow_cases hf
  · exact ⟨hs, Or.inl⟩
  · exact ⟨by decide, nofun⟩
  · exact ⟨by decide, nofun⟩
  · exact ⟨by decide, nofun⟩
  · exact ⟨by decide, fun _ => Or.inr hbyC1⟩

theorem strip_vtxxx (h8 : 0x80 ≤ ch → e.vtxxx) : 0x80 ≤ strip e ch → e.vtxxx := by
  intro h
  have hvt : e.vt10x = true → e.vtxxx = true := by cases e <;> decide
  cases hv : e.vt10x with
  | true => exact hvt hv
  | false =>
    rw [strip, if_neg (by simp [hv])] at h
    exact h8 h

theorem strip_one (h8 : 0x80 ≤ ch → e.vtxxx) : strip e ch < 0x80 ∨ e.utf8 = false := by
  by_cases h : 0x80 ≤ ch
  · have hv := h8 h
    right
    cases e <;> simp_all [Emulation.vtxxx, Emulation.utf8]
  · have hlt : ch < 0x80 := UInt8.not_le.mp h
    left
    rwa [strip_of_lt hlt]

@[simp] theorem sees_printer : (p.sees e ch).printerControllerMode = p.printerControllerMode := by
  unfold sees
  split <;> rfl

/-- In a device control string, with these contents still to come. -/
structure InDcs (e : Emulation) (byC1 printer : Bool) (rest : List UInt8) (q : Parser) : Prop where
  between : q.Between e
  printer : q.printerControllerMode = printer
  plain : ∀ ch ∈ rest, Plain ch
  ascii : ∀ ch ∈ rest, 0x80 ≤ ch → e.vtxxx
  follows : ((rest.map (strip e)).foldlM (follow e byC1) q.scanState).isSome
  state : q.scanState ∈ dcsStates
  ignore : q.scanState = .dcsIgnore → byC1
  collected : q.emulBuffer.length ≤ room q.scanState
  noEsc : 0x1B ∉ q.emulBuffer

theorem room_le : room s ≤ 2 := by cases s <;> decide

theorem InDcs.junk {printer : Bool} (h : InDcs e byC1 printer contents q) : q.junk = q := by
  apply junk_of_lt
  have hroom : room q.scanState ≤ 2 := room_le
  have hlen := h.collected
  omega

theorem InDcs.step {printer : Bool} {rest : List UInt8} (h : InDcs e byC1 printer (ch :: rest) q) :
    ∃ q', q.terminalEmulator e ch = ⟨q', [], none⟩ ∧ InDcs e byC1 printer rest q' := by
  have h8 := h.ascii ch List.mem_cons_self
  have hplain : Plain (strip e ch) := plain_strip (h.plain ch List.mem_cons_self)
  have hrest : ∀ c ∈ rest, Plain c := fun c hc => h.plain c (List.mem_cons_of_mem ch hc)
  have hascii : ∀ c ∈ rest, 0x80 ≤ c → e.vtxxx := fun c hc => h.ascii c (List.mem_cons_of_mem ch hc)
  obtain ⟨last, hlast⟩ := Option.isSome_iff_exists.mp h.follows
  rw [List.map_cons, List.foldlM_cons] at hlast
  obtain ⟨s, hs, hlast⟩ := Option.bind_eq_some_iff.mp hlast
  obtain ⟨hstate, hignore⟩ := follow_dcsStates h.state hs
  have hground : q.scanState ≠ .ground := by
    intro hground
    have hmem := h.state
    rw [hground] at hmem
    exact absurd hmem (by decide)
  rw [terminalEmulator_strip h.between (strip_one h8), h.junk, advance_plain hplain (by simpa using hground)]
  split_ifs with hdel
  · -- DEL is dropped before the scan state sees it
    have hstay : s = q.scanState := by simpa [follow, hdel, eq_comm] using hs
    subst hstay
    refine ⟨_, rfl, between_sees, ?_, hrest, hascii, ?_, ?_, ?_, ?_, ?_⟩
    · simpa using h.printer
    · simp [hlast]
    · simpa using hstate
    · simpa using h.ignore
    · simpa [sees_emulBuffer] using h.collected
    · simpa [sees_emulBuffer] using h.noEsc
  · have hmove : MovesTo e (q.sees e (strip e ch)) (strip e ch) s ((q.sees e (strip e ch)).scan e (strip e ch)) := by
      have hf : follow e byC1 (q.sees e (strip e ch)).scanState (strip e ch) = some s := by simpa using hs
      apply scan_follow _ hplain (strip_vtxxx h8) _ hf
      · simpa using h.state
      · rw [sees_emulBuffer]
        exact h.noEsc
    obtain ⟨q', hq', hto⟩ := hmove
    refine ⟨q', hq', ?_, hto.printer.trans (by simpa using h.printer), hrest, hascii, ?_, ?_, ?_, ?_, ?_⟩
    · intro he
      rw [hto.utf8State]
      exact between_sees he
    · rw [hto.scanState, hlast]
      rfl
    · rw [hto.scanState]
      exact hstate
    · intro hi
      exact (hignore (hto.scanState ▸ hi)).elim h.ignore id
    · have hlen := h.collected
      have hbuf := hto.buffer
      rw [sees_emulBuffer, sees_scanState] at hbuf
      rw [hto.scanState]
      obtain ⟨hsame, hroom⟩ | ⟨hmore, hroom⟩ := hbuf
      · rw [hsame]
        omega
      · rw [hmore, List.length_append, List.length_singleton]
        omega
    · have hbuf := hto.buffer
      rw [sees_emulBuffer] at hbuf
      obtain ⟨hsame, -⟩ | ⟨hmore, -⟩ := hbuf
      · rw [hsame]
        exact h.noEsc
      · rw [hmore, List.mem_append, List.mem_singleton, not_or]
        exact ⟨h.noEsc, fun heq => hplain.2.2.1 heq.symm⟩

/-! ### The terminator -/

theorem scan_terminated {v : Verdict} (hs : q.scanState ∈ dcsStates) (hi : q.scanState ≠ .dcsIgnore)
    (hv : q.terminated ch = some v) : q.scan e ch = v := by
  simp only [dcsStates, List.mem_cons, List.not_mem_nil, or_false] at hs
  obtain hs | hs | hs | hs | hs := hs <;> simp only [scan, hs]
  · rw [scanDcsEntry, hv, Option.getD_some]
  · rw [scanDcsIntermediate, hv, Option.getD_some]
  · rw [scanDcsParam, hv, Option.getD_some]
  · rw [scanDcsPassthrough, hv, Option.getD_some]
  · exact absurd hs hi

/-- Back in the ground state, with nothing collected. -/
structure Back (e : Emulation) (printer : Bool) (q : Parser) : Prop where
  between : q.Between e
  ground : q.scanState = .ground
  clear : q.toArgs = .clear
  printer : q.printerControllerMode = printer

theorem back_finish (h : q.Between e) : Back e q.printerControllerMode q.finish := ⟨h, rfl, rfl, rfl⟩

theorem advance_esc_dcs (hs : q.scanState ∈ dcsStates) (hi : q.scanState ≠ .dcsIgnore) :
    q.advance e 0x1B = ⟨q.collect 0x1B, [], none⟩ := by
  have hv : q.terminated 0x1B = some (.discard (q.collect 0x1B) []) := by simp [terminated]
  rw [advance, anywhere, scan_terminated hs hi hv]
  simp only [dcsStates, List.mem_cons, List.not_mem_nil, or_false] at hs
  obtain hs | hs | hs | hs | hs := hs <;> simp [hs, conclude]

theorem advance_backslash_dcs (hs : q.scanState ∈ dcsStates) (hi : q.scanState ≠ .dcsIgnore)
    (hlast : q.emulBuffer.getLast? = some 0x1B) : q.advance e 0x5C = ⟨q.finish, [], none⟩ := by
  have hv : q.terminated 0x5C = some (.discard q.finish []) := by simp [terminated, hlast]
  have hground : q.scanState ≠ .ground := by
    intro hground
    rw [hground] at hs
    exact absurd hs (by decide)
  rw [advance_plain (by decide) hground, scan_terminated hs hi hv]
  rfl

/-- ESC \ ends a device control string that is not ignored. -/
theorem InDcs.esc {printer : Bool} (h : InDcs e false printer [] q) :
    ∃ q₁ q₂, q.terminalEmulator e 0x1B = ⟨q₁, [], none⟩ ∧ q₁.terminalEmulator e 0x5C = ⟨q₂, [], none⟩ ∧
      Back e printer q₂ := by
  have hi : q.scanState ≠ .dcsIgnore := fun hi => absurd (h.ignore hi) (by decide)
  have hlen : ((q.sees e 0x1B).collect 0x1B).emulBuffer.length < 127 := by
    have hroom : room q.scanState ≤ 2 := room_le
    have hcollected := h.collected
    simp only [collect, sees_emulBuffer, List.length_append, List.length_singleton]
    omega
  have hbetween : ((q.sees e 0x1B).collect 0x1B).Between e := between_sees
  refine ⟨(q.sees e 0x1B).collect 0x1B, (((q.sees e 0x1B).collect 0x1B).sees e 0x5C).finish, ?_, ?_, ?_⟩
  · rw [terminalEmulator_of_lt h.between (by decide), h.junk]
    exact advance_esc_dcs (by simpa using h.state) (by simpa using hi)
  · rw [terminalEmulator_of_lt hbetween (by decide), junk_of_lt hlen]
    apply advance_backslash_dcs
    · simpa [collect] using h.state
    · simpa [collect] using hi
    · rw [sees_emulBuffer]
      simp [collect]
  · have hback : Back e _ (((q.sees e 0x1B).collect 0x1B).sees e 0x5C).finish := back_finish between_sees
    simpa [collect, h.printer] using hback

theorem advance_9C (hs : q.scanState ∈ .sosPmApcString :: dcsStates) :
    q.advance e 0x9C = ⟨q.finish, [], none⟩ := by
  simp only [dcsStates, List.mem_cons, List.not_mem_nil, or_false] at hs
  obtain hs | hs | hs | hs | hs | hs := hs <;>
    simp [advance, anywhere, scan, scanDcsEntry, scanDcsIntermediate, scanDcsParam, scanDcsPassthrough,
      scanIgnoredString, terminated, ignored, within, conclude, hs]

theorem terminalEmulator_c1 (he : e.c1) : q.terminalEmulator e ch = q.junk.advance e ch := by
  have hstrip : strip e ch = ch := by cases e <;> first | rfl | cases he
  have hutf8 : e.utf8 = false := by cases e <;> first | rfl | cases he
  rw [terminalEmulator, vt100, hstrip, decode, if_neg (by simp [hutf8])]

theorem between_c1 (he : e.c1) : q.Between e := by
  have hutf8 : e.utf8 = false := by cases e <;> first | rfl | cases he
  intro h
  rw [hutf8] at h
  cases h

/-- `9C` ends a device control string, an ignored one too. -/
theorem InDcs.c1 {printer : Bool} (he : e.c1) (h : InDcs e byC1 printer [] q) :
    ∃ q', q.terminalEmulator e 0x9C = ⟨q', [], none⟩ ∧ Back e printer q' := by
  refine ⟨q.finish, ?_, ?_⟩
  · rw [terminalEmulator_c1 he, h.junk]
    exact advance_9C (List.mem_cons_of_mem _ h.state)
  · have hback := back_finish h.between
    rwa [h.printer] at hback

/-! ### SOS, PM and APC -/

/-- In a string that is skipped. -/
structure InSkipped (e : Emulation) (printer : Bool) (rest : List UInt8) (q : Parser) : Prop where
  between : q.Between e
  printer : q.printerControllerMode = printer
  plain : ∀ ch ∈ rest, Plain ch
  ascii : ∀ ch ∈ rest, 0x80 ≤ ch → e.vtxxx
  state : q.scanState = .sosPmApcString

@[simp] theorem junk_printer : q.junk.printerControllerMode = q.printerControllerMode := by
  unfold junk
  split <;> rfl

theorem InSkipped.step {printer : Bool} {rest : List UInt8} (h : InSkipped e printer (ch :: rest) q) :
    ∃ q', q.terminalEmulator e ch = ⟨q', [], none⟩ ∧ InSkipped e printer rest q' := by
  have h8 := h.ascii ch List.mem_cons_self
  have hplain : Plain (strip e ch) := plain_strip (h.plain ch List.mem_cons_self)
  have hstate : (q.junk.sees e (strip e ch)).scanState = .sosPmApcString := by simpa using h.state
  refine ⟨q.junk.sees e (strip e ch), ?_, between_sees, by simpa using h.printer, ?_, ?_, hstate⟩
  · rw [terminalEmulator_strip h.between (strip_one h8), advance_plain hplain (by rw [hstate]; decide)]
    split_ifs with hdel
    · rfl
    · rw [scan, hstate]
      exact conclude_ignored hplain (strip_vtxxx h8)
  · exact fun c hc => h.plain c (List.mem_cons_of_mem ch hc)
  · exact fun c hc => h.ascii c (List.mem_cons_of_mem ch hc)

/-! ### The other strings -/

/-- ESC and a backslash end every sequence in which ESC is recognised. -/
theorem terminalEmulator_st (hp : q.Between e) (hs : q.scanState ∉ dcsStates) :
    ∃ q₁ q₂, q.terminalEmulator e 0x1B = ⟨q₁, [], none⟩ ∧ q₁.terminalEmulator e 0x5C = ⟨q₂, [], none⟩ ∧
      Back e q.printerControllerMode q₂ := by
  refine ⟨(q.junk.sees e 0x1B).goto .escape, (((q.junk.sees e 0x1B).goto .escape).junk.sees e 0x5C).finish,
    ?_, ?_, ?_⟩
  · exact terminalEmulator_esc hp hs
  · rw [terminalEmulator_of_lt between_sees_goto (by decide)]
    have hscan : ((((q.junk.sees e 0x1B).goto .escape).junk.sees e 0x5C)).scanState = .escape := by simp [goto]
    have hback : ∀ r : Parser, r.scanEscape e 0x5C = .discard r.finish [] := by
      intro r
      cases e <;> rfl
    rw [advance_plain (by decide) (by rw [hscan]; decide), if_neg (by decide), scan, hscan]
    simp only [hback, conclude]
  · have hback : Back e _ (((q.junk.sees e 0x1B).goto .escape).junk.sees e 0x5C).finish := back_finish between_sees
    simpa [goto] using hback

theorem InSkipped.c1 {printer : Bool} (he : e.c1) (h : InSkipped e printer [] q) :
    ∃ q', q.terminalEmulator e 0x9C = ⟨q', [], none⟩ ∧ Back e printer q' := by
  refine ⟨q.junk.finish, ?_, ?_⟩
  · rw [terminalEmulator_c1 he]
    exact advance_9C (by simp [h.state])
  · have hback := back_finish (between_junk h.between)
    rwa [junk_printer, h.printer] at hback

/-- In an OSC. -/
structure InOsc (e : Emulation) (printer : Bool) (rest : List UInt8) (q : Parser) : Prop where
  between : q.Between e
  printer : q.printerControllerMode = printer
  plain : ∀ ch ∈ rest, Plain ch
  ascii : ∀ ch ∈ rest, 0x80 ≤ ch → e.vtxxx
  state : q.scanState = .oscString
  stays : OscOpen e q.emulBuffer (rest.map (strip e))
  room : q.emulBuffer.length ≤ 127

theorem PaletteCommand.append {put more : List UInt8} (h : PaletteCommand put) : PaletteCommand (put ++ more) := by
  obtain hr | ⟨hp, hlen⟩ := h
  · left
    rw [List.head?_append, hr]
    rfl
  · right
    rw [List.head?_append, hp, List.length_append]
    exact ⟨rfl, by omega⟩

/-- What has been put into the buffer so far is no complete command. -/
theorem OscOpen.put {buffer rest : List UInt8} (h : OscOpen e buffer (ch :: rest)) (hch : within 0x20 0x7E ch)
    (hlen : buffer.length < 127) (he : e.console) : ¬ PaletteCommand (buffer ++ [ch]) := by
  intro hcommand
  apply h.2 he 0
  have hsplit : ((buffer ++ (ch :: rest).filter (within 0x20 0x7E)).drop (127 * 0)).take 127 =
      (buffer ++ [ch]) ++ (rest.filter (within 0x20 0x7E)).take (127 - (buffer ++ [ch]).length) := by
    rw [Nat.mul_zero, List.drop_zero, List.filter_cons, if_pos hch, List.append_cons, List.take_append,
      List.take_of_length_le (by simpa using hlen)]
  rw [hsplit]
  exact PaletteCommand.append hcommand

/-- A buffer that is full is dropped. -/
theorem OscOpen.junk {contents : List UInt8} (h : OscOpen e q.emulBuffer contents)
    (hlen : q.emulBuffer.length ≤ 127) : OscOpen e q.junk.emulBuffer contents := by
  refine ⟨h.1, ?_⟩
  intro he n
  unfold Parser.junk
  split_ifs with hfull
  · have hn := h.2 he (n + 1)
    have hexact : q.emulBuffer.length = 127 := by omega
    rw [Nat.mul_succ, Nat.add_comm, ← List.drop_drop, List.drop_append, hexact, Nat.sub_self, List.drop_zero,
      List.drop_of_length_le hlen, List.nil_append] at hn
    exact hn
  · exact h.2 he n

theorem OscOpen.tail {buffer rest : List UInt8} (h : OscOpen e buffer (ch :: rest))
    (hch : within 0x20 0x7E ch = false) : OscOpen e buffer rest := by
  refine ⟨fun c hc => h.1 c (List.mem_cons_of_mem ch hc), ?_⟩
  have hopen := h.2
  rwa [List.filter_cons, if_neg (by simp [hch])] at hopen

theorem OscOpen.append {buffer rest : List UInt8} (h : OscOpen e buffer (ch :: rest))
    (hch : within 0x20 0x7E ch) : OscOpen e (buffer ++ [ch]) rest := by
  refine ⟨fun c hc => h.1 c (List.mem_cons_of_mem ch hc), ?_⟩
  have hopen := h.2
  rwa [List.filter_cons, if_pos hch, List.append_cons] at hopen

/-- A command that is not complete goes on. -/
theorem oscPut_open (hput : e.console → ¬ PaletteCommand (q.emulBuffer ++ [ch])) :
    q.oscPut e ch = { q with emulBuffer := q.emulBuffer ++ [ch] } := by
  unfold oscPut
  cases he : e.console with
  | false => simp
  | true =>
    have hopen := hput he
    rw [PaletteCommand, not_or, not_and, not_le] at hopen
    simp only [if_true]
    rw [if_neg hopen.1]
    split_ifs with hp hlen
    · rfl
    · exact absurd (hopen.2 hp) hlen
    · rfl

/-- What an OSC makes of a byte that does not end it. -/
theorem scanOscString_open (hplain : Plain ch) (hne : ch ≠ 0x7F) (hlow : 0x08 ≤ ch) (h8 : 0x80 ≤ ch → e.vtxxx)
    (hput : within 0x20 0x7E ch → e.console → ¬ PaletteCommand (q.emulBuffer ++ [ch])) :
    q.conclude e ch (q.scanOscString e ch) =
      ⟨if within 0x20 0x7E ch then { q with emulBuffer := q.emulBuffer ++ [ch] } else q, [], none⟩ := by
  have hrange : within 0x20 0x7E ch = within 0x20 0x7F ch := by
    rw [Bool.eq_iff_iff, within_iff, within_iff]
    simp only [ne_eq, ← UInt8.toNat_inj, UInt8.reduceToNat] at *
    omega
  obtain ⟨hcan, hsub, hesc, hc1⟩ := hplain
  have hend : ¬ ((decide (ch = 0x9C) || within 0 0x07 ch) = true) := by
    simp only [Bool.or_eq_true, ← Bool.not_eq_true, within_iff, decide_eq_true_eq, UInt8.le_iff_toNat_le,
      ← UInt8.toNat_inj, UInt8.reduceToNat] at *
    omega
  rw [scanOscString, if_neg hend, hrange]
  split_ifs with hignored htext htext
  · simp only [within_iff, ignored_iff, UInt8.reduceToNat] at *
    omega
  · rfl
  · rw [oscPut_open (hput (hrange ▸ htext))]
    rfl
  · apply fallOff_vtxxx
    apply h8
    simp only [← Bool.not_eq_true, within_iff, ignored_iff, UInt8.le_iff_toNat_le, ne_eq, ← UInt8.toNat_inj,
      UInt8.reduceToNat] at *
    omega

theorem InOsc.step {printer : Bool} {rest : List UInt8} (h : InOsc e printer (ch :: rest) q) :
    ∃ q', q.terminalEmulator e ch = ⟨q', [], none⟩ ∧ InOsc e printer rest q' := by
  have h8 := h.ascii ch List.mem_cons_self
  have hplain : Plain (strip e ch) := plain_strip (h.plain ch List.mem_cons_self)
  have hrest : ∀ c ∈ rest, Plain c := fun c hc => h.plain c (List.mem_cons_of_mem ch hc)
  have hascii : ∀ c ∈ rest, 0x80 ≤ c → e.vtxxx := fun c hc => h.ascii c (List.mem_cons_of_mem ch hc)
  have hstate : (q.junk.sees e (strip e ch)).scanState = .oscString := by simpa using h.state
  have hopen : OscOpen e (q.junk.sees e (strip e ch)).emulBuffer (strip e ch :: rest.map (strip e)) := by
    rw [sees_emulBuffer]
    exact OscOpen.junk h.stays h.room
  have hlen : (q.junk.sees e (strip e ch)).emulBuffer.length < 127 := by
    rw [sees_emulBuffer]
    exact junk_emulBuffer_length
  have hkeep : ∀ q', q'.printerControllerMode = (q.junk.sees e (strip e ch)).printerControllerMode →
      q'.utf8State = (q.junk.sees e (strip e ch)).utf8State → q'.scanState = .oscString →
      OscOpen e q'.emulBuffer (rest.map (strip e)) → q'.emulBuffer.length ≤ 127 → InOsc e printer rest q' := by
    intro q' hprinter hutf8 hs hstays hroom
    refine ⟨?_, ?_, hrest, hascii, hs, hstays, hroom⟩
    · intro he
      rw [hutf8]
      exact between_sees he
    · rw [hprinter, sees_printer, junk_printer, h.printer]
  rw [terminalEmulator_strip h.between (strip_one h8), advance_plain hplain (by rw [hstate]; decide)]
  split_ifs with hdel
  · have htail := OscOpen.tail hopen (by rw [hdel]; decide)
    exact ⟨_, rfl, hkeep _ rfl rfl hstate htail hlen.le⟩
  · have hlow := hopen.1 (strip e ch) List.mem_cons_self
    rw [scan, hstate]
    simp only
    rw [scanOscString_open hplain hdel hlow (strip_vtxxx h8) fun hch he => OscOpen.put hopen hch hlen he]
    split_ifs with hch
    · have hnext := OscOpen.append hopen hch
      refine ⟨_, rfl, hkeep _ rfl rfl hstate hnext ?_⟩
      simpa using hlen
    · have htail := OscOpen.tail hopen (by simpa using hch)
      exact ⟨_, rfl, hkeep _ rfl rfl hstate htail hlen.le⟩

theorem InOsc.c1 {printer : Bool} (he : e.c1) (h : InOsc e printer [] q) :
    ∃ q', q.terminalEmulator e 0x9C = ⟨q', [q.junk.call .osc], none⟩ ∧ Back e printer q' := by
  refine ⟨q.junk.finish, ?_, ?_⟩
  · rw [terminalEmulator_c1 he]
    simp [advance, anywhere, scan, h.state, scanOscString, conclude]
  · have hback := back_finish (between_junk h.between)
    rwa [junk_printer, h.printer] at hback

/-! ### From the introducer to the terminator -/

theorem feed_append (front rest : List UInt8) : p.feed e (front ++ rest) = (p.feed e front).feed e rest :=
  List.foldl_append

theorem effects_append (front rest : List UInt8) :
    p.effects e (front ++ rest) = p.effects e front ++ (p.feed e front).effects e rest := by
  induction front generalizing p with
  | nil => rfl
  | cons ch front ih =>
    rw [List.cons_append, effects_cons, effects_cons, ih]
    rfl

/-- The terminator leads back to the ground state, in silence. -/
def Stops (e : Emulation) (printer : Bool) (q : Parser) (terminator : List UInt8) : Prop :=
  (∀ effect ∈ q.effects e terminator, Silent effect) ∧ Back e printer (q.feed e terminator)

theorem stops_pair {printer : Bool} {q₁ q₂ : Parser} (h₁ : q.terminalEmulator e 0x1B = ⟨q₁, [], none⟩)
    (h₂ : q₁.terminalEmulator e 0x5C = ⟨q₂, [], none⟩) (hback : Back e printer q₂) :
    Stops e printer q [0x1B, 0x5C] := by
  constructor
  · rw [effects_cons, effects_cons, h₁]
    simp [h₂, effects, Silent]
  · rw [feed_cons, feed_cons, h₁]
    rw [h₂]
    exact hback

theorem stops_single {printer : Bool} {q' : Parser} {calls : List Call}
    (h : q.terminalEmulator e 0x9C = ⟨q', calls, none⟩) (hcalls : ∀ call ∈ calls, call.handler = .osc)
    (hback : Back e printer q') : Stops e printer q [0x9C] := by
  constructor
  · rw [effects_cons, h]
    simpa [effects, Silent] using hcalls
  · rw [feed_cons, h]
    exact hback

/-- In the ground state characters are shown. -/
theorem Back.shown {printer : Bool} (h : Back e printer q) (hprinter : e = .vt220 → printer = false)
    (hch : within 0x20 0x7E ch) : (q.terminalEmulator e ch).glyph = some (.mapped ch) := by
  have hjunk : q.junk = q := junk_of_lt (by rw [h.clear]; decide)
  have hlt : ch < 0x80 := by
    simp only [within_iff, UInt8.lt_iff_toNat_lt, UInt8.reduceToNat] at *
    omega
  have hstate : (q.sees e ch).scanState = .ground := by simpa using h.ground
  have hanywhere : (q.sees e ch).anywhere e ch = none := by
    simp only [within_iff, UInt8.reduceToNat] at hch
    simp only [anywhere, ← UInt8.toNat_inj, UInt8.reduceToNat]
    repeat rw [if_neg (by omega)]
  have hexec : executes e ch = false := by
    simp only [executes, ← Bool.not_eq_true, Bool.or_eq_true, Bool.and_eq_true, within_iff, UInt8.reduceToNat] at *
    omega
  have hprint : within 0x20 0x7F ch = true := by
    simp only [within_iff, UInt8.reduceToNat] at *
    omega
  have htrash : ¬ ((decide (e = .vt220) && (q.sees e ch).printerControllerMode) = true) := by
    rw [sees_printer, h.printer, Bool.and_eq_true, decide_eq_true_eq]
    rintro ⟨he, hon⟩
    rw [hprinter he] at hon
    cases hon
  rw [terminalEmulator_of_lt h.between hlt, hjunk, advance, hanywhere, scan, hstate]
  simp only [scanGround, hexec, hprint, if_neg htrash, Bool.false_eq_true, if_false, if_true, conclude]

theorem scanEscape_introducer {kind : StringKind} (hv : q.vt52Mode = false) (hch : ch ∈ kind.finals) :
    q.scanEscape e ch = .discard (q.goto kind.scanState) [] := by
  cases kind <;> simp only [StringKind.finals, List.mem_cons, List.not_mem_nil, or_false] at hch
  · subst hch
    simp [scanEscape, executes, within, hv, StringKind.scanState]
  · obtain rfl | rfl | rfl := hch <;> simp [scanEscape, executes, within, hv, StringKind.scanState]
  · subst hch
    simp [scanEscape, executes, within, hv, StringKind.scanState]

theorem finals_plain {kind : StringKind} (hch : ch ∈ kind.finals) : Plain ch ∧ ch < 0x80 ∧ ch ≠ 0x7F := by
  cases kind <;> simp only [StringKind.finals, List.mem_cons, List.not_mem_nil, or_false] at hch
  · subst hch
    decide
  · obtain rfl | rfl | rfl := hch <;> decide
  · subst hch
    decide

/-- What is true when an introducer has been accepted. -/
structure Introduced (e : Emulation) (kind : StringKind) (p q : Parser) : Prop where
  between : q.Between e
  printer : q.printerControllerMode = p.printerControllerMode
  state : q.scanState = kind.scanState
  collected : q.emulBuffer = []

theorem introduced {kind : StringKind} {introducer : List UInt8} (h : Introduces e p kind introducer)
    (hbuf : p.emulBuffer = []) : Introduced e kind p (p.feed e introducer) := by
  have hjunk : p.junk = p := junk_of_lt (by simp [hbuf])
  cases h with
  | esc ch hch hp hs hv =>
    obtain ⟨hplain, hlt, hne⟩ := finals_plain hch
    have hbuf' : ((p.sees e 0x1B).goto .escape).emulBuffer = [] := sees_emulBuffer.trans hbuf
    have hesc : ((p.sees e 0x1B).goto .escape).terminalEmulator e ch =
        ⟨(((p.sees e 0x1B).goto .escape).sees e ch).goto kind.scanState, [], none⟩ := by
      have hstate : (((p.sees e 0x1B).goto .escape).sees e ch).scanState = .escape := by simp [goto]
      rw [terminalEmulator_of_lt between_sees_goto hlt, junk_of_lt (by simp [hbuf']),
        advance_plain hplain (by rw [hstate]; decide), if_neg hne, scan, hstate]
      simp only
      rw [scanEscape_introducer (by simpa [goto] using hv) hch]
      rfl
    rw [feed_cons, terminalEmulator_esc hp hs, hjunk, feed_cons, hesc]
    refine ⟨between_sees_goto, ?_, rfl, ?_⟩
    · simp [feed, goto]
    · exact (sees_emulBuffer).trans hbuf'
  | c1 ch hch he =>
    have hgoto : p.terminalEmulator e ch = ⟨p.goto kind.scanState, [], none⟩ := by
      rw [terminalEmulator_c1 he, hjunk, advance]
      cases kind <;> simp only [StringKind.c1s, List.mem_cons, List.not_mem_nil, or_false] at hch
      · subst hch
        simp [anywhere, he, StringKind.scanState]
      · obtain rfl | rfl | rfl := hch <;> simp [anywhere, he, StringKind.scanState]
      · subst hch
        simp [anywhere, he, StringKind.scanState]
    rw [feed_cons, hgoto]
    exact ⟨between_c1 he, rfl, rfl, hbuf⟩

theorem stops_dcs {printer : Bool} {terminator : List UInt8} (hterm : Terminates e terminator)
    (h : InDcs e (decide (terminator = [0x9C])) printer [] q) : Stops e printer q terminator := by
  cases hterm with
  | esc =>
    obtain ⟨q₁, q₂, h₁, h₂, hback⟩ := InDcs.esc h
    exact stops_pair h₁ h₂ hback
  | c1 he =>
    obtain ⟨q', hq', hback⟩ := h.c1 he
    exact stops_single hq' (by simp) hback

theorem stops_other {printer : Bool} {terminator : List UInt8} (hterm : Terminates e terminator)
    (hbetween : q.Between e) (hprinter : q.printerControllerMode = printer) (hs : q.scanState ∉ dcsStates)
    (hc1 : e.c1 → Stops e printer q [0x9C]) : Stops e printer q terminator := by
  cases hterm with
  | esc =>
    obtain ⟨q₁, q₂, h₁, h₂, hback⟩ := terminalEmulator_st hbetween hs
    exact stops_pair h₁ h₂ (hprinter ▸ hback)
  | c1 he => exact hc1 he

/-- The contents are silent, and the terminator finds the string still open. -/
theorem stops_of_quiet {kind : StringKind} {terminator : List UInt8} (h : Introduced e kind p q)
    (hplain : ∀ ch ∈ contents, Plain ch) (hterm : Terminates e terminator)
    (hquiet : Quiet e kind (decide (terminator = [0x9C])) contents) :
    (∀ effect ∈ q.effects e contents, Silent effect) ∧
      Stops e p.printerControllerMode (q.feed e contents) terminator := by
  cases kind with
  | dcs =>
    have hin : InDcs e (decide (terminator = [0x9C])) p.printerControllerMode contents q := by
      have hstate : q.scanState = .dcsEntry := h.state
      refine ⟨h.between, h.printer, hplain, hquiet.ascii, ?_, ?_, ?_, ?_, ?_⟩
      · rw [hstate]
        exact hquiet.dcs rfl
      · rw [hstate]
        decide
      · simp [hstate]
      · simp [h.collected]
      · simp [h.collected]
    obtain ⟨hsilent, hend⟩ := silent_run (fun ch rest q hq => hq.step) hin
    exact ⟨hsilent, stops_dcs hterm hend⟩
  | sosPmApc =>
    have hin : InSkipped e p.printerControllerMode contents q :=
      ⟨h.between, h.printer, hplain, hquiet.ascii, h.state⟩
    obtain ⟨hsilent, hend⟩ := silent_run (fun ch rest q hq => hq.step) hin
    refine ⟨hsilent, stops_other hterm hend.between hend.printer (by rw [hend.state]; decide) ?_⟩
    intro he
    obtain ⟨q', hq', hback⟩ := hend.c1 he
    exact stops_single hq' (by simp) hback
  | osc =>
    have hin : InOsc e p.printerControllerMode contents q := by
      refine ⟨h.between, h.printer, hplain, hquiet.ascii, h.state, ?_, by simp [h.collected]⟩
      rw [h.collected]
      exact hquiet.osc rfl
    obtain ⟨hsilent, hend⟩ := silent_run (fun ch rest q hq => hq.step) hin
    refine ⟨hsilent, stops_other hterm hend.between hend.printer (by rw [hend.state]; decide) ?_⟩
    intro he
    obtain ⟨q', hq', hback⟩ := hend.c1 he
    exact stops_single hq' (by simp [call]) hback

end Parser

/-- Every string of quiet contents is over after its terminator. -/
theorem endsString_of_quiet (e : Emulation) (p : Parser) (kind : StringKind)
    (introducer contents terminator : List UInt8) (hintro : Introduces e p kind introducer)
    (hbuf : p.emulBuffer = []) (hplain : ∀ ch ∈ contents, Plain ch) (hterm : Terminates e terminator)
    (hquiet : Quiet e kind (decide (terminator = [0x9C])) contents) :
    EndsString e p introducer contents terminator := by
  obtain ⟨hsilent, hstops, hback⟩ := Parser.stops_of_quiet (Parser.introduced hintro hbuf) hplain hterm hquiet
  have hfeed : p.feed e (introducer ++ (contents ++ terminator)) =
      ((p.feed e introducer).feed e contents).feed e terminator := by
    rw [Parser.feed_append, Parser.feed_append]
  refine ⟨?_, ?_, ?_, ?_⟩
  · intro effect heffect
    rw [Parser.effects_append, List.mem_append] at heffect
    exact heffect.elim (hsilent effect) (hstops effect)
  · rw [hfeed]
    exact hback.ground
  · rw [hfeed]
    exact hback.clear
  · intro hprinter ch hch
    rw [hfeed]
    exact hback.shown hprinter hch

/-- DCS 1 $ q m, then ST. -/
theorem endsString_decrqss : EndsString .vt220 .reset [0x1B, 0x50] [0x31, 0x24, 0x71, 0x6D] [0x1B, 0x5C] := by
  apply endsString_of_quiet .vt220 .reset .dcs
  · exact .esc 0x50 (by decide) (by decide) (by decide) rfl
  · rfl
  · decide +kernel
  · exact .esc
  · exact ⟨by decide +kernel, fun _ => by decide, fun h => by cases h⟩

/-- BEL ends an OSC as ST does: what follows it is shown. -/
theorem not_endsString_bel : ¬ ∀ e p kind introducer contents terminator, Introduces e p kind introducer →
    (∀ ch ∈ contents, Plain ch) → Terminates e terminator → EndsString e p introducer contents terminator := by
  intro hall
  have h := hall .xterm .reset .osc [0x1B, 0x5D] [0x30, 0x3B, 0x61, 0x07, 0x62] [0x1B, 0x5C]
    (.esc 0x5D (by decide) (by decide) (by decide) rfl) (by decide +kernel) .esc
  have hshown := h.silent ([], some (.mapped 0x62)) (by decide)
  exact absurd hshown.1 (by decide)

end CProgram.Terminal
