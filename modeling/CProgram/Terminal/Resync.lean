import CProgram.Terminal.Utf8Decode

/-! How the UTF-8 emulations come back from malformed bytes. The rejecting state is left only with the
byte after the one that led to it, so that a stray byte takes one more byte with it. -/
namespace CProgram.Terminal
open CProgram.Bytes Utf8Decode
variable {e : Emulation} {p : Parser} {σ : ℕ} {b : UInt8} {bytes stray rest : List UInt8} {c : Char}

/-- The state of the decoder after a byte: the same state twice is taken for an error. -/
def settle (σ : ℕ) (b : UInt8) : ℕ := if σ = next σ b ∧ next σ b ≠ 0 then 0 else next σ b

def settles (σ : ℕ) (bytes : List UInt8) : ℕ := bytes.foldl settle σ

/-- No character begins in the stray bytes. -/
def Malformed : List UInt8 → List UInt8 → Prop
  | [], _ => True
  | b :: stray, rest => ¬ Completes 0 (b :: (stray ++ rest)) ∧ Malformed stray rest

/-- Stray bytes and the character after them. -/
structure Stretch where
  stray : List UInt8
  char : Char

def spell (stretches : List Stretch) (tail : List UInt8) : List UInt8 :=
  stretches.foldr (fun s bytes => s.stray ++ (String.utf8EncodeChar s.char ++ bytes)) tail

def Printable (c : Char) : Prop := 0x20 ≤ c.toNat ∧ c.toNat ≠ 0x7F

/-- A stream of printable characters and malformed bytes; `tail` is what comes after the last character. -/
def Proper : List Stretch → List UInt8 → Prop
  | [], tail => Malformed tail []
  | s :: stretches, tail =>
    Malformed s.stray (String.utf8EncodeChar s.char ++ spell stretches tail) ∧ Printable s.char ∧
      Proper stretches tail

/-- The stray bytes fall into rows that end in their rejection, with one more byte after each row. -/
inductive Absorbed : List UInt8 → Prop
  | nil : Absorbed []
  | row (bytes : List UInt8) (b : UInt8) (rest : List UInt8) :
    Rejected 0 bytes → Absorbed rest → Absorbed (bytes ++ b :: rest)

def glyphOf (c : Char) : Glyph := if c.toNat < 0x80 then .mapped (UInt8.ofNat c.toNat) else .codePoint c.val

/-- The characters that a stream shows. -/
def Parser.shown (e : Emulation) (p : Parser) (bytes : List UInt8) : List Glyph :=
  (p.effects e bytes).filterMap Prod.snd

/-! ### The state of the decoder -/

@[simp] theorem settles_nil : settles σ [] = σ := rfl

@[simp] theorem settles_cons : settles σ (b :: bytes) = settles (settle σ b) bytes := rfl

theorem settle_reject : settle 1 b = 0 := by simp [settle]

theorem settle_next (h : σ < 9) (h1 : σ ≠ 1) : settle σ b = next σ b := by
  unfold settle
  split
  · obtain ⟨hloop, hne⟩ := ‹_ ∧ _›
    exact absurd hloop.symm (next_ne h (by omega) h1)
  · rfl

theorem settle_lt (h : σ < 9) : settle σ b < 9 := by
  unfold settle
  split
  · omega
  · exact next_lt h

theorem settles_rejected (h : σ < 9) (h1 : σ ≠ 1) (hr : Rejected σ bytes) : settles σ bytes = 1 := by
  induction bytes generalizing σ with
  | nil => exact hr.elim
  | cons b bytes ih =>
    rw [Rejected] at hr
    rw [settles_cons, settle_next h h1]
    split at hr
    · rw [hr, settles_nil]
      assumption
    · exact ih (next_lt h) (by assumption) hr.2

theorem settles_reads {acc cp : UInt32} (h : σ < 9) (h1 : σ ≠ 1) (hr : Reads σ acc bytes cp) :
    settles σ bytes = 0 := by
  induction bytes generalizing σ acc with
  | nil => exact hr.elim
  | cons b bytes ih =>
    rw [settles_cons, settle_next h h1]
    cases bytes with
    | nil => exact hr.1
    | cons b' bytes =>
      have hrest := (reads_cons.mp hr).2
      apply ih (next_lt h) _ hrest
      intro hone
      rw [hone] at hrest
      exact not_reads_reject hrest

/-- Where stray bytes leave the decoder between two characters, they went through the rejecting state. -/
theorem rejected_of_settles (h : σ < 9) (h0 : σ ≠ 0) (hc : ¬ Completes σ stray) (hs : settles σ stray = 0) :
    ∃ bytes b rest, stray = bytes ++ b :: rest ∧ (if σ = 1 then bytes = [] else Rejected σ bytes) ∧
      settles 0 rest = 0 := by
  induction stray generalizing σ with
  | nil => exact absurd hs h0
  | cons b stray ih =>
    rw [settles_cons] at hs
    by_cases h1 : σ = 1
    · subst h1
      rw [settle_reject] at hs
      exact ⟨[], b, stray, rfl, by simp, hs⟩
    · rw [Completes, not_or] at hc
      rw [settle_next h h1] at hs
      obtain ⟨bytes, b', rest, rfl, hbytes, hrest⟩ := ih (next_lt h) hc.1 hc.2 hs
      refine ⟨b :: bytes, b', rest, rfl, ?_, hrest⟩
      rw [if_neg h1, Rejected]
      split at hbytes
      · rwa [if_pos (by assumption)]
      · rw [if_neg (by assumption)]
        exact ⟨hc.1, hbytes⟩

theorem malformed_drop (h : Malformed (stray ++ bytes) rest) : Malformed bytes rest := by
  induction stray with
  | nil => exact h
  | cons b stray ih => exact ih h.2

theorem not_completes_stray (h : Malformed (b :: stray) rest) : ¬ Completes 0 (b :: stray) := by
  intro hc
  exact h.1 (completes_append hc)

theorem settles_eq_zero_iff (h : Malformed stray rest) : settles 0 stray = 0 ↔ Absorbed stray := by
  constructor
  · induction hlen : stray.length using Nat.strong_induction_on generalizing stray with
    | _ n ih =>
      intro hs
      cases stray with
      | nil => exact .nil
      | cons b stray =>
        have hc := not_completes_stray h
        rw [Completes, not_or] at hc
        rw [settles_cons, settle_next (by omega) (by omega)] at hs
        obtain ⟨bytes, b', remaining, rfl, hbytes, hremaining⟩ :=
          rejected_of_settles (next_lt (by omega)) hc.1 hc.2 hs
        have hrejected : Rejected 0 (b :: bytes) := by
          rw [Rejected]
          split at hbytes
          · rwa [if_pos (by assumption)]
          · rw [if_neg (by assumption)]
            exact ⟨hc.1, hbytes⟩
        have hmalformed : Malformed remaining rest := by
          apply @malformed_drop remaining (b :: (bytes ++ [b']))
          simpa using h
        have hshorter : remaining.length < n := by
          simp only [List.length_cons, List.length_append] at hlen
          omega
        exact Absorbed.row (b :: bytes) b' remaining hrejected (ih _ hshorter hmalformed rfl hremaining)
  · intro ha
    clear h
    induction ha with
    | nil => rfl
    | row bytes b remaining hrejected _ ih =>
      have hbytes := settles_rejected (by omega) (by omega) hrejected
      unfold settles at *
      rw [List.foldl_append, hbytes, List.foldl_cons, settle_reject, ih]

/-! ### One byte in the ground state -/

theorem utf8_not (he : e.utf8) : e.c1 = false ∧ e.codepage = false ∧ e.vtxxx = false ∧ e ≠ .vt220 ∧
    e.vt10x = false := by
  cases e <;> simp [Emulation.utf8] at he <;> decide

theorem shown_cons : p.shown e (b :: bytes) =
    (p.terminalEmulator e b).glyph.toList ++ (p.terminalEmulator e b).parser.shown e bytes := by
  rw [Parser.shown, Parser.effects_cons, List.filterMap_cons]
  cases (p.terminalEmulator e b).glyph <;> rfl

theorem decode_utf8 (he : e.utf8) : p.decode e b =
    ({ p with utf8Char := gather p.utf8State p.utf8Char b, utf8State := settle p.utf8State b },
      decide (next p.utf8State b = 0)) := by
  have hdecoded : p.utf8Decode b =
      { p with utf8Char := gather p.utf8State p.utf8Char b, utf8State := next p.utf8State b } := rfl
  rw [Parser.decode, if_pos he, hdecoded]
  simp only [settle]
  split
  · have hne : next p.utf8State b ≠ 0 := (‹_ ∧ _›).2
    simp [hne]
  · rfl

/-- The parser with its decoder moved on by a byte. -/
def Parser.heard (p : Parser) (b : UInt8) : Parser :=
  { p.junk with utf8Char := gather p.utf8State p.utf8Char b, utf8State := settle p.utf8State b }

theorem junk_decoder : p.junk.utf8State = p.utf8State ∧ p.junk.utf8Char = p.utf8Char := by
  unfold Parser.junk
  split <;> exact ⟨rfl, rfl⟩

theorem terminalEmulator_utf8 (he : e.utf8) : p.terminalEmulator e b =
    if next p.utf8State b = 0 then (p.heard b).advance e b else ⟨p.heard b, [], none⟩ := by
  obtain ⟨hc1, hcodepage, hvtxxx, hvt220, hvt10x⟩ := utf8_not he
  have hstrip : Parser.strip e b = b := by simp [Parser.strip, hvt10x]
  rw [Parser.terminalEmulator, Parser.vt100, hstrip, decode_utf8 he, junk_decoder.1, junk_decoder.2]
  by_cases hn : next p.utf8State b = 0
  · rw [if_pos hn, decide_eq_true hn]
    rfl
  · rw [if_neg hn, decide_eq_false hn]
    rfl

theorem shown_waits (he : e.utf8) (hn : next p.utf8State b ≠ 0) :
    p.shown e (b :: bytes) = (p.heard b).shown e bytes := by
  rw [shown_cons, terminalEmulator_utf8 he, if_neg hn]
  rfl

/-- A 7-bit character in the ground state is shown through the character sets. -/
theorem shown_ascii (he : e.utf8) (hg : p.scanState = .ground) (hp : p.utf8State = 0)
    (hlo : 0x20 ≤ b.toNat) (hhi : b.toNat < 0x7F) :
    p.shown e (b :: bytes) = .mapped b :: (p.heard b).shown e bytes := by
  obtain ⟨hc1, hcodepage, hvtxxx, hvt220, hvt10x⟩ := utf8_not he
  have hn : next p.utf8State b = 0 := by
    rw [hp]
    exact next_zero_iff.mpr (UInt8.lt_iff_toNat_lt.mpr (by change _ < 0x80; omega))
  have hground : (p.heard b).scanState = .ground := by rw [← hg]; exact Parser.junk_scanState
  have hadvance : (p.heard b).advance e b = ⟨p.heard b, [], some (.mapped b)⟩ := by
    have hctl : executes e b = false := by
      simp only [executes, hvtxxx, Bool.false_and, Bool.or_false, ← Bool.not_eq_true, within_iff]
      simp
      omega
    have hrange : within 0x20 0x7F b = true := within_iff.mpr ⟨hlo, by simp; omega⟩
    have hanywhere : (p.heard b).anywhere e b = none := by
      have hne : ∀ k : UInt8, k.toNat < 0x20 ∨ 0x7F ≤ k.toNat → b ≠ k := by
        rintro k hk rfl
        omega
      simp [Parser.anywhere, hc1, hcodepage, hne]
    rw [Parser.advance, hanywhere]
    simp only [Parser.scan, hground, Parser.scanGround, hctl, hrange, hvt220, decide_false, Bool.false_and,
      Bool.false_eq_true, if_false, if_true, Parser.conclude]
  rw [shown_cons, terminalEmulator_utf8 he, if_pos hn, hadvance]
  rfl

/-- The last byte of a longer character falls off, and the code point is shown. -/
theorem shown_codePoint (he : e.utf8) (hg : p.scanState = .ground) (hn : next p.utf8State b = 0)
    (hlo : 0x80 ≤ b) : p.shown e (b :: bytes) =
      .codePoint (gather p.utf8State p.utf8Char b) :: (p.heard b).finish.shown e bytes := by
  obtain ⟨hc1, hcodepage, hvtxxx, hvt220, hvt10x⟩ := utf8_not he
  have hground : (p.heard b).scanState = .ground := by rw [← hg]; exact Parser.junk_scanState
  have hhigh : 0x80 ≤ b.toNat := UInt8.le_iff_toNat_le.mp hlo
  have hadvance : (p.heard b).advance e b =
      ⟨(p.heard b).finish, [], some (.codePoint (gather p.utf8State p.utf8Char b))⟩ := by
    have hctl : executes e b = false := by
      simp only [executes, hvtxxx, Bool.false_and, Bool.or_false, ← Bool.not_eq_true, within_iff]
      simp
      omega
    have hrange : within 0x20 0x7F b = false := by
      rw [← Bool.not_eq_true, within_iff]
      simp
      omega
    have hanywhere : (p.heard b).anywhere e b = none := by
      have hne : ∀ k : UInt8, k.toNat < 0x80 → b ≠ k := by
        rintro k hk rfl
        omega
      simp [Parser.anywhere, hc1, hcodepage, hne]
    rw [Parser.advance, hanywhere]
    simp only [Parser.scan, hground, Parser.scanGround, hctl, hrange, hc1, Bool.and_false,
      Bool.false_eq_true, if_false, Parser.conclude, Parser.fallOff, hcodepage, he, if_true]
    rfl
  rw [shown_cons, terminalEmulator_utf8 he, if_pos hn, hadvance]
  rfl

/-! ### Characters and stray bytes -/

/-- In the ground state with the decoder in this state. -/
structure Ready (p : Parser) (σ : ℕ) : Prop where
  ground : p.scanState = .ground
  decoder : p.utf8State = σ

theorem ready_heard (hp : Ready p σ) : Ready (p.heard b) (settle σ b) where
  ground := by rw [← hp.ground]; exact Parser.junk_scanState
  decoder := by rw [← hp.decoder]; rfl

theorem ready_gathers (hp : Ready p σ) : (p.heard b).utf8Char = gather σ p.utf8Char b := by
  rw [← hp.decoder]
  rfl

/-- The bytes of a character that are still to come bring it to the screen. -/
theorem shown_reads (he : e.utf8) {cp : UInt32} (hσ : σ < 9) (h0 : σ ≠ 0) (hp : Ready p σ)
    (hr : Reads σ p.utf8Char bytes cp) :
    ∃ p', Ready p' 0 ∧ ∀ rest, p.shown e (bytes ++ rest) = .codePoint cp :: p'.shown e rest := by
  induction bytes generalizing p σ with
  | nil => exact hr.elim
  | cons b bytes ih =>
    have hb : 0x80 ≤ b ∧ b < 0xC0 := continuation_of_reads hσ h0 hr List.mem_cons_self
    cases bytes with
    | nil =>
      obtain ⟨hn, hcp⟩ := reads_singleton.mp hr
      rw [← hp.decoder] at hn hcp
      have hdecoder : settle p.utf8State b = 0 := by simp [settle, hn]
      refine ⟨(p.heard b).finish, ⟨rfl, hdecoder⟩, ?_⟩
      intro rest
      rw [List.singleton_append, shown_codePoint he hp.ground hn hb.1, hcp]
    | cons b' bytes =>
      obtain ⟨hn, hrest⟩ := reads_cons.mp hr
      have h1 : σ ≠ 1 := by
        rintro rfl
        exact not_reads_reject hr
      have hheard := ready_heard (b := b) hp
      rw [settle_next hσ h1] at hheard
      obtain ⟨p', hp', hshown⟩ := ih (p := p.heard b) (next_lt hσ) hn hheard
        (by rw [ready_gathers hp]; exact hrest)
      refine ⟨p', hp', ?_⟩
      intro rest
      rw [List.cons_append, shown_waits he (by rw [hp.decoder]; exact hn), hshown]

/-- A character that finds the decoder between two characters is shown. -/
theorem shown_char (he : e.utf8) (hp : Ready p 0) (hc : Printable c) :
    ∃ p', Ready p' 0 ∧ ∀ rest,
      p.shown e (String.utf8EncodeChar c ++ rest) = glyphOf c :: p'.shown e rest := by
  by_cases hascii : c.toNat < 0x80
  · have hbyte : (UInt8.ofNat c.toNat).toNat = c.toNat := by
      rw [UInt8.toNat_ofNat']
      omega
    have hzero : next 0 (UInt8.ofNat c.toNat) = 0 :=
      next_zero_iff.mpr (UInt8.lt_iff_toNat_lt.mpr (by rw [hbyte]; exact hascii))
    refine ⟨p.heard (UInt8.ofNat c.toNat), ?_, ?_⟩
    · have hheard := ready_heard (b := UInt8.ofNat c.toNat) hp
      rwa [show settle 0 (UInt8.ofNat c.toNat) = 0 by simp [settle, hzero]] at hheard
    · intro rest
      have hprintable : 0x20 ≤ c.toNat ∧ c.toNat < 0x7F := ⟨hc.1, by have := hc.2; omega⟩
      rw [Utf8.encode_ascii hascii, List.singleton_append,
        shown_ascii he hp.ground hp.decoder (by omega) (by omega), glyphOf, if_pos hascii]
  · have hr : Reads 0 p.utf8Char (String.utf8EncodeChar c) c.val := reads_encode c
    rw [glyphOf, if_neg hascii]
    cases hbytes : String.utf8EncodeChar c with
    | nil => exact absurd hbytes String.utf8EncodeChar_ne_nil
    | cons b bytes =>
      rw [hbytes] at hr
      cases bytes with
      | nil =>
        have hlt : b < 0x80 := next_zero_iff.mp (reads_singleton.mp hr).1
        have hhigh : 0x80 ≤ b.toNat := by
          apply Utf8.high_of_mem (c := c) (by omega)
          simp [hbytes]
        exact absurd (UInt8.lt_iff_toNat_lt.mp hlt) (by simpa using hhigh)
      | cons b' bytes =>
        obtain ⟨hn, hrest⟩ := reads_cons.mp hr
        have hheard := ready_heard (b := b) hp
        rw [settle_next (by omega) (by omega)] at hheard
        rw [← ready_gathers hp] at hrest
        obtain ⟨p', hp', hshown⟩ := shown_reads he (next_lt (by omega)) hn hheard hrest
        refine ⟨p', hp', ?_⟩
        intro rest
        rw [List.cons_append, shown_waits he (by rw [hp.decoder]; exact hn), hshown]

/-- Continuation bytes with no character to continue bring nothing. -/
theorem shown_continuations (he : e.utf8) (hσ : σ = 0 ∨ σ = 1) (hp : Ready p σ)
    (hb : ∀ b ∈ bytes, 0x80 ≤ b ∧ b < 0xC0) :
    ∃ p', Ready p' (settles σ bytes) ∧ (settles σ bytes = 0 ∨ settles σ bytes = 1) ∧
      ∀ rest, p.shown e (bytes ++ rest) = p'.shown e rest := by
  induction bytes generalizing p σ with
  | nil => exact ⟨p, hp, hσ, fun _ => rfl⟩
  | cons b bytes ih =>
    have hfirst := hb b List.mem_cons_self
    have hn : next σ b = 1 := by
      rcases hσ with rfl | rfl
      · exact next_continuation hfirst.1 hfirst.2
      · exact next_reject
    have hsettle : settle σ b = 0 ∨ settle σ b = 1 := by
      unfold settle
      split
      · exact Or.inl rfl
      · exact Or.inr hn
    obtain ⟨p', hp', hsettles, hshown⟩ :=
      ih hsettle (ready_heard hp) (fun b hmem => hb b (List.mem_cons_of_mem _ hmem))
    refine ⟨p', hp', hsettles, ?_⟩
    intro rest
    rw [List.cons_append, shown_waits he (by rw [hp.decoder, hn]; omega), hshown]

/-- A character that finds the decoder elsewhere is lost. -/
theorem shown_lost (he : e.utf8) (hσ : σ < 9) (h0 : σ ≠ 0) (hp : Ready p σ)
    (hc : ¬ Completes σ (String.utf8EncodeChar c)) :
    ∃ p', Ready p' (settles σ (String.utf8EncodeChar c)) ∧
      (settles σ (String.utf8EncodeChar c) = 0 ∨ settles σ (String.utf8EncodeChar c) = 1) ∧
      ∀ rest, p.shown e (String.utf8EncodeChar c ++ rest) = p'.shown e rest := by
  have hr : Reads 0 0 (String.utf8EncodeChar c) c.val := reads_encode c
  cases hbytes : String.utf8EncodeChar c with
  | nil => exact absurd hbytes String.utf8EncodeChar_ne_nil
  | cons b bytes =>
    rw [hbytes] at hr hc
    rw [Completes, not_or] at hc
    have hlead : next 0 b ≠ 1 := by
      cases bytes with
      | nil => have hzero := hr.1; omega
      | cons b' bytes =>
        intro hone
        have hrest := (reads_cons.mp hr).2
        rw [hone] at hrest
        exact not_reads_reject hrest
    have hn : next σ b = 1 := by
      by_contra hone
      have hcont := continuation hσ h0 hone
      exact hlead (next_continuation hcont.1 hcont.2)
    have hsettle : settle σ b = 0 ∨ settle σ b = 1 := by
      unfold settle
      split
      · exact Or.inl rfl
      · exact Or.inr hn
    have hconts : ∀ b' ∈ bytes, 0x80 ≤ b' ∧ b' < 0xC0 := by
      intro b' hmem
      cases bytes with
      | nil => simp at hmem
      | cons b'' bytes =>
        obtain ⟨hne, hrest⟩ := reads_cons.mp hr
        exact continuation_of_reads (next_lt (by omega)) hne hrest hmem
    obtain ⟨p', hp', hsettles, hshown⟩ := shown_continuations he hsettle (ready_heard hp) hconts
    refine ⟨p', hp', hsettles, ?_⟩
    intro rest
    rw [List.cons_append, shown_waits he (by rw [hp.decoder, hn]; omega), hshown]

/-- Stray bytes show nothing, and nothing in what follows becomes a character through them. -/
theorem shown_stray (he : e.utf8) (hσ : σ < 9) (hp : Ready p σ) (hm : Malformed stray rest)
    (hc : σ = 0 ∨ ¬ Completes σ (stray ++ rest)) :
    ∃ p', Ready p' (settles σ stray) ∧ p.shown e (stray ++ rest) = p'.shown e rest ∧
      settles σ stray < 9 ∧ (settles σ stray = 0 ∨ ¬ Completes (settles σ stray) rest) := by
  induction stray generalizing p σ with
  | nil => exact ⟨p, hp, rfl, hσ, hc⟩
  | cons b stray ih =>
    have hnot : ¬ Completes σ (b :: (stray ++ rest)) := by
      rcases hc with rfl | hc
      · exact hm.1
      · exact hc
    rw [Completes, not_or] at hnot
    have hnext : settle σ b = 0 ∨ ¬ Completes (settle σ b) (stray ++ rest) := by
      unfold settle
      split
      · exact Or.inl rfl
      · exact Or.inr hnot.2
    obtain ⟨p', hp', hshown, hlt, hrest⟩ := ih (settle_lt hσ) (ready_heard hp) hm.2 hnext
    refine ⟨p', hp', ?_, hlt, hrest⟩
    rw [List.cons_append, shown_waits he (by rw [hp.decoder]; exact hnot.1), hshown]

/-! ### Whole streams -/

/-- The characters that find the decoder between two characters. -/
def heard : ℕ → List Stretch → List Char
  | _, [] => []
  | σ, s :: stretches =>
    (if settles σ s.stray = 0 then [s.char] else []) ++
      heard (settles (settles σ s.stray) (String.utf8EncodeChar s.char)) stretches

theorem shown_heard (he : e.utf8) {stretches : List Stretch} {tail : List UInt8} (hσ : σ < 9)
    (hp : Ready p σ) (hproper : Proper stretches tail) (hc : σ = 0 ∨ ¬ Completes σ (spell stretches tail)) :
    p.shown e (spell stretches tail) = (heard σ stretches).map glyphOf := by
  induction stretches generalizing p σ with
  | nil =>
    have hstray := @shown_stray e p σ tail [] he hσ hp hproper (by simpa [spell] using hc)
    obtain ⟨p', _, hshown, _⟩ := hstray
    rw [List.append_nil] at hshown
    exact hshown
  | cons s stretches ih =>
    obtain ⟨hm, hprintable, hrest⟩ := hproper
    obtain ⟨p', hp', hshown, hlt, hcompletes⟩ := shown_stray he hσ hp hm hc
    have hspell : spell (s :: stretches) tail =
      s.stray ++ (String.utf8EncodeChar s.char ++ spell stretches tail) := rfl
    rw [hspell, hshown, heard]
    by_cases h0 : settles σ s.stray = 0
    · rw [h0] at hp'
      obtain ⟨p'', hp'', hchar⟩ := shown_char he hp' hprintable
      have hzero : settles 0 (String.utf8EncodeChar s.char) = 0 :=
        @settles_reads 0 _ 0 _ (by omega) (by omega) (reads_encode s.char)
      rw [hchar, h0, if_pos rfl, hzero, List.singleton_append, List.map_cons,
        ih (by omega) hp'' hrest (Or.inl rfl)]
    · have hnot : ¬ Completes (settles σ s.stray) (String.utf8EncodeChar s.char) := by
        intro hcomplete
        exact hcompletes.resolve_left h0 (completes_append hcomplete)
      obtain ⟨p'', hp'', hsettles, hchar⟩ := shown_lost he hlt h0 hp' hnot
      rw [hchar, if_neg h0, List.nil_append]
      apply ih (by omega) hp'' hrest
      rcases hsettles with hzero | hone
      · exact Or.inl hzero
      · rw [hone]
        exact Or.inr not_completes_reject

theorem heard_length {stretches : List Stretch} : (heard σ stretches).length ≤ stretches.length := by
  induction stretches generalizing σ with
  | nil => exact Nat.le_refl _
  | cons s stretches ih =>
    rw [heard, List.length_append, List.length_cons]
    have hrest := @ih (settles (settles σ s.stray) (String.utf8EncodeChar s.char))
    split <;> simp <;> omega

theorem heard_eq_iff {stretches : List Stretch} :
    heard 0 stretches = stretches.map Stretch.char ↔ ∀ s ∈ stretches, settles 0 s.stray = 0 := by
  induction stretches with
  | nil => simp [heard]
  | cons s stretches ih =>
    rw [heard, List.map_cons, List.forall_mem_cons]
    by_cases h0 : settles 0 s.stray = 0
    · have hzero : settles 0 (String.utf8EncodeChar s.char) = 0 :=
        @settles_reads 0 _ 0 _ (by omega) (by omega) (reads_encode s.char)
      rw [if_pos h0, h0, hzero, List.singleton_append, List.cons.injEq, ih]
      simp
    · rw [if_neg h0, List.nil_append]
      constructor
      · intro heq
        have hlen := congrArg List.length heq
        have hle := @heard_length (settles (settles 0 s.stray) (String.utf8EncodeChar s.char)) stretches
        rw [List.length_cons, List.length_map] at hlen
        omega
      · intro h
        exact absurd h.1 h0

theorem proper_malformed {stretches : List Stretch} {tail : List UInt8} (h : Proper stretches tail)
    {s : Stretch} (hs : s ∈ stretches) : ∃ rest, Malformed s.stray rest := by
  induction stretches with
  | nil => simp at hs
  | cons s' stretches ih =>
    rcases List.mem_cons.mp hs with rfl | hs
    · exact ⟨_, h.1⟩
    · exact ih h.2.2 hs

theorem glyphOf_injective : Function.Injective glyphOf := by
  intro c c' h
  unfold glyphOf at h
  apply Char.toNat_inj.mp
  split at h <;> split at h
  · have hnat := congrArg UInt8.toNat (Glyph.mapped.inj h)
    rw [UInt8.toNat_ofNat', UInt8.toNat_ofNat'] at hnat
    omega
  · cases h
  · cases h
  · exact congrArg UInt32.toNat (Glyph.codePoint.inj h)

/-- Every character is shown, once and in order, just when the stray bytes before each fall into rejected
rows with a byte to spare after each. -/
theorem resynchronises_iff (e : Emulation) (p : Parser) (stretches : List Stretch) (tail : List UInt8)
    (he : e.utf8) (hp : Ready p 0) (hproper : Proper stretches tail) :
    p.shown e (spell stretches tail) = (stretches.map Stretch.char).map glyphOf ↔
      ∀ s ∈ stretches, Absorbed s.stray := by
  rw [shown_heard he (by omega) hp hproper (Or.inl rfl),
    (List.map_injective_iff.mpr glyphOf_injective).eq_iff, heard_eq_iff]
  constructor
  · intro h s hs
    obtain ⟨rest, hm⟩ := proper_malformed hproper hs
    exact (settles_eq_zero_iff hm).mp (h s hs)
  · intro h s hs
    obtain ⟨rest, hm⟩ := proper_malformed hproper hs
    exact (settles_eq_zero_iff hm).mpr (h s hs)

/-- A lone continuation byte, then `A`. -/
def strayThenA : List Stretch := [⟨[0x80], 'A'⟩]

theorem proper_strayThenA : Proper strayThenA [] := by
  have hcompletes : ¬ Completes 0 [0x80, 0x41] := by
    simp only [Completes]
    decide +kernel
  exact ⟨⟨hcompletes, trivial⟩, by unfold Printable; decide, trivial⟩

theorem ready_reset : Ready .reset 0 := ⟨rfl, rfl⟩

/-- The lone continuation byte takes the `A` with it. -/
theorem not_resynchronises : ¬ ∀ (e : Emulation) (p : Parser) (stretches : List Stretch) (tail : List UInt8),
    e.utf8 → Ready p 0 → Proper stretches tail →
      p.shown e (spell stretches tail) = (stretches.map Stretch.char).map glyphOf := by
  intro h
  have hshown := h .linuxUtf8 .reset strayThenA [] rfl ready_reset proper_strayThenA
  revert hshown
  decide +kernel

theorem resynchronises_iff_strayThenA :
    Parser.reset.shown .linuxUtf8 (spell strayThenA []) = (strayThenA.map Stretch.char).map glyphOf ↔
      ∀ s ∈ strayThenA, Absorbed s.stray :=
  resynchronises_iff .linuxUtf8 .reset strayThenA [] rfl ready_reset proper_strayThenA

end CProgram.Terminal
