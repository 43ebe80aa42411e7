import CProgram.Terminal.Band

/-! The cursor and the scrolling region. The region never leaves the screen, and neither does the cursor. In
origin mode the cursor is to stay in the region; which movements let it out is said here, for each handler in
terms of the state before it. -/
namespace CProgram.Terminal
open CProgram.Programs

namespace Band
variable {b : Band} {row count : ℤ} {honorScrollRegion : Bool}

/-- The row is in the region, or as far down as the screen goes. -/
def Fits (row : ℤ) (b : Band) : Prop := b.originMode = true → b.landing row ≤ b.bottom

/-- There is room for one row more. -/
def HasBelow (b : Band) : Prop := b.originMode = true → b.cursorY < b.bottom ∨ b.bottom = b.rows - 1

def HasAbove (b : Band) : Prop := b.originMode = true → b.top < b.cursorY ∨ b.top = 0

theorem bounded_down (hb : b.Bounded) : (b.down count honorScrollRegion).Bounded := by
  obtain ⟨htop, hregion, hbottom, hcursor, hrow⟩ := hb
  refine ⟨htop, hregion, hbottom, ?_, ?_⟩ <;> simp only [down] <;> split <;> omega

theorem bounded_up (hb : b.Bounded) : (b.up count honorScrollRegion).Bounded := by
  obtain ⟨htop, hregion, hbottom, hcursor, hrow⟩ := hb
  refine ⟨htop, hregion, hbottom, ?_, ?_⟩ <;> simp only [up] <;> split <;> omega

theorem bounded_position (hb : b.Bounded) (hrow : 0 ≤ row) : (b.position row).Bounded := by
  obtain ⟨htop, hregion, hbottom, hcursor, hlast⟩ := hb
  refine ⟨htop, hregion, hbottom, ?_, ?_⟩ <;> simp only [position, landing] <;> split <;> omega

theorem bounded_wrap (hb : b.Bounded) : b.wrap.Bounded := by
  obtain ⟨htop, hregion, hbottom, hcursor, hrow⟩ := hb
  refine ⟨htop, hregion, hbottom, ?_, ?_⟩ <;> simp only [wrap] <;> split <;> omega

theorem inside_down (h : b.Inside) : (b.down count true).Inside := by
  intro horigin
  have hrow := h horigin
  simp only [down, if_true]
  omega

theorem inside_up (h : b.Inside) : (b.up count true).Inside := by
  intro horigin
  have hrow := h horigin
  simp only [up, if_true]
  omega

theorem inside_down_one (h : b.Inside) (hbelow : b.HasBelow) : (b.down 1 false).Inside := by
  intro horigin
  have hrow := h horigin
  have hroom := hbelow horigin
  simp only [down, Bool.false_eq_true, if_false]
  omega

theorem inside_up_one (h : b.Inside) (habove : b.HasAbove) : (b.up 1 false).Inside := by
  intro horigin
  have hrow := h horigin
  have hroom := habove horigin
  simp only [up, Bool.false_eq_true, if_false]
  omega

theorem inside_wrap (h : b.Inside) (hbelow : b.HasBelow) : b.wrap.Inside := by
  intro horigin
  have hrow := h horigin
  have hroom := hbelow horigin
  simp only [wrap]
  split <;> omega

theorem inside_linefeed (h : b.Inside) : b.linefeed.Inside := by
  intro horigin
  have hrow := h horigin
  simp only [linefeed]
  split <;> omega

theorem inside_position (hb : b.Bounded) (hrow : 0 ≤ row) (hfits : b.Fits row) : (b.position row).Inside := by
  intro horigin
  have hbottom := hb.bottom
  have hregion := hb.region
  refine ⟨?_, hfits horigin⟩
  have horigin' : b.originMode = true := horigin
  simp only [position, landing, horigin', if_true]
  omega

/-- The first row is always in the region. -/
theorem fits_zero (hb : b.Bounded) : b.Fits 0 := by
  intro horigin
  have hregion := hb.region
  simp only [landing, horigin, if_true]
  omega

end Band

/-! ### The condition -/

/-- A character that wraps the line has a row to go to. -/
def PrintFine (ch : UInt32) (t : Vt) : Prop := t.visible ch → t.waits → t.band.HasBelow

/-- The saved row is looked up under the current origin mode, and stays under the saved one. -/
def DecrcFine (t : Vt) : Prop := t.savedCursorX ≠ -1 → t.savedOriginMode = true →
  t.scrollRegionTop ≤ t.band.landing t.savedCursorY ∧ t.band.landing t.savedCursorY ≤ t.scrollRegionBottom

def ToggleFine (e : Emulation) (decPrivateModeFlag value : Bool) (mode : ℤ) (t : Vt) : Prop :=
  decPrivateModeFlag = true → e.anyXterm = true → value = false → mode = 1048 ∨ mode = 1049 → DecrcFine t

/-- What a handler needs to keep the cursor in the region. -/
def CallFine (looks : Looks) (e : Emulation) (call : Call) (t : Vt) : Prop :=
  match call.handler with
  | .printCharacter glyph => PrintFine (looks.character t.history glyph) t
  | .handleControlChar ch => ch = 0 → t.displayNull = true → PrintFine 0x20 t
  | .decrc => DecrcFine t
  | .cursorUp => t.band.HasAbove
  | .cursorDown => t.band.HasBelow
  | .cursorAddress line _ => t.band.Fits (line.toNat - 0x20)
  | .decaln => t.band.Fits t.cursorY
  | .cha => call.args.decPrivateModeFlag = false → t.band.Fits t.cursorY
  | .cup | .hvp => call.args.decPrivateModeFlag = false → t.band.Fits (call.args.place 0)
  | .vpa => call.args.decPrivateModeFlag = false → t.band.Fits call.args.address
  | .cbt => call.args.decPrivateModeFlag = false →
    Throughout (fun _ t => t.band.Fits t.cursorY) (fun _ => cbtOne) (List.range call.args.count.toNat) t
  | .rep => call.args.decPrivateModeFlag = false →
    Throughout (fun _ t => PrintFine t.repCh t) (fun _ => repOne) (List.range call.args.count.toNat) t
  | .restoreCursor => call.args.decPrivateModeFlag = false → t.savedCursorX ≠ -1 → t.band.Fits t.savedCursorY
  | .setToggle value => Throughout (ToggleFine e call.args.decPrivateModeFlag value)
    (toggle e call.args.decPrivateModeFlag value) call.args.modes t
  | _ => True

def GlyphFine (looks : Looks) (glyph : Glyph) (t : Vt) : Prop := PrintFine (looks.character t.history glyph) t

/-- The condition on a run: every handler and every character finds what it needs. -/
def Careful (looks : Looks) (e : Emulation) : Parser → List UInt8 → Vt → Prop
  | _, [], _ => True
  | p, ch :: bytes, t =>
    let outcome := p.terminalEmulator e ch
    Throughout (CallFine looks e) (perform looks e) outcome.calls t ∧
      Ends (outcome.calls.forM (perform looks e)) (fun _ => True) (fun _ u =>
        Throughout (GlyphFine looks) (showGlyph looks) outcome.glyph.toList u ∧
          Ends (outcome.glyph.toList.forM (showGlyph looks)) (fun _ => True)
            (fun _ v => Careful looks e outcome.parser bytes v) u) t

/-! ### Rows of the terminal -/

def Vt.rowsOf (t : Vt) : Band := t.toScreen.band

/-- The invariant; that the cursor is inside the region is promised only to `careful` runs. -/
structure Sound (careful : Prop) (t : Vt) : Prop where
  bounded : t.band.Bounded
  inside : careful → t.band.Inside

/-- What the program leaves is sound. -/
abbrev Leaves (careful : Prop) {α : Type} (m : VtM α) (t : Vt) : Prop :=
  Ends m (fun _ => True) (fun _ u => Sound careful u) t

variable {careful : Prop} {t : Vt} {e : Emulation} {a : Args} {looks : Looks}

theorem Keeps.onScreen {α : Type} {m : ScreenM α} (h : Keeps Screen.band m) : Keeps Vt.rowsOf (onScreen m) := by
  intro t
  rw [CProgram.Terminal.onScreen, ends_zoom]
  exact h t.toScreen

theorem Sound.of_keeps {α : Type} {m : VtM α} (ht : Sound careful t) (hm : Keeps Vt.rowsOf m) : Leaves careful m t := by
  refine (hm t).post fun _ u hu => ?_
  have hband : u.band = t.band := hu
  exact ⟨hband ▸ ht.bounded, fun hcareful => hband ▸ ht.inside hcareful⟩

theorem ends_onScreen {α : Type} {m : ScreenM α} {Q : α → Vt → Prop} :
    Ends (onScreen m) (fun _ => True) Q t ↔
      Ends m (fun _ => True) (fun x s => Q x { t with toScreen := s }) t.toScreen := ends_zoom

theorem Sound.of_band {s : Screen} {b : Band} (hs : s.band = b) (hb : b.Bounded) (hi : careful → b.Inside) :
    Sound careful { t with toScreen := s } := by
  subst hs
  exact ⟨hb, hi⟩

namespace Sound
variable {count row col : ℤ}

theorem position (ht : Sound careful t) (hfits : careful → t.band.Fits row) :
    Leaves careful (onScreen (cursorPosition row col)) t := by
  rw [Leaves, ends_onScreen]
  refine (ends_cursorPosition ht.bounded).post fun _ s hs => ?_
  apply of_band hs.1 (Band.bounded_position ht.bounded hs.2)
  intro hcareful
  exact Band.inside_position ht.bounded hs.2 (hfits hcareful)

/-- The cursor that goes home is in the region, wherever it was. -/
theorem home (ht : t.band.Bounded) : Leaves careful (onScreen (cursorPosition 0 col)) t := by
  rw [Leaves, ends_onScreen]
  refine (ends_cursorPosition ht).post fun _ s hs => ?_
  apply of_band hs.1 (Band.bounded_position ht le_rfl)
  intro _
  exact Band.inside_position ht le_rfl (Band.fits_zero ht)

theorem down (ht : Sound careful t) : Leaves careful (onScreen (cursorDown count true)) t := by
  rw [Leaves, ends_onScreen]
  refine ends_cursorDown.post fun _ s hs => ?_
  apply of_band hs (Band.bounded_down ht.bounded)
  exact fun hcareful => Band.inside_down (ht.inside hcareful)

theorem up (ht : Sound careful t) : Leaves careful (onScreen (cursorUp count true)) t := by
  rw [Leaves, ends_onScreen]
  refine ends_cursorUp.post fun _ s hs => ?_
  apply of_band hs (Band.bounded_up ht.bounded)
  exact fun hcareful => Band.inside_up (ht.inside hcareful)

theorem down_one (ht : Sound careful t) (hbelow : careful → t.band.HasBelow) :
    Leaves careful (onScreen (cursorDown 1 false)) t := by
  rw [Leaves, ends_onScreen]
  refine ends_cursorDown.post fun _ s hs => ?_
  apply of_band hs (Band.bounded_down ht.bounded)
  exact fun hcareful => Band.inside_down_one (ht.inside hcareful) (hbelow hcareful)

theorem up_one (ht : Sound careful t) (habove : careful → t.band.HasAbove) :
    Leaves careful (onScreen (cursorUp 1 false)) t := by
  rw [Leaves, ends_onScreen]
  refine ends_cursorUp.post fun _ s hs => ?_
  apply of_band hs (Band.bounded_up ht.bounded)
  exact fun hcareful => Band.inside_up_one (ht.inside hcareful) (habove hcareful)

theorem linefeed (ht : Sound careful t) {newLineMode : Bool} :
    Leaves careful (onScreen (cursorLinefeed newLineMode)) t := by
  rw [Leaves, ends_onScreen]
  refine ends_cursorLinefeed.post fun _ s hs => ?_
  apply of_band hs (Band.bounded_linefeed ht.bounded)
  exact fun hcareful => Band.inside_linefeed (ht.inside hcareful)

theorem carriageReturn (ht : Sound careful t) : Leaves careful (onScreen cursorCarriageReturn) t := by
  rw [Leaves, ends_onScreen]
  refine ends_cursorCarriageReturn.post fun _ s hs => ?_
  cases hs with
  | inl hsame => exact of_band hsame ht.bounded ht.inside
  | inr hlinefeed =>
    apply of_band hlinefeed (Band.bounded_linefeed ht.bounded)
    exact fun hcareful => Band.inside_linefeed (ht.inside hcareful)

theorem print (ht : Sound careful t) {ch : UInt32} (hfine : careful → PrintFine ch t) :
    Leaves careful (onScreen (printCharacter ch)) t := by
  rw [Leaves, ends_onScreen]
  refine ends_printCharacter.post fun _ s hs => ?_
  cases hs with
  | inl hsame => exact of_band hsame ht.bounded ht.inside
  | inr hwraps =>
    obtain ⟨hvisible, hwaits, hwrap⟩ := hwraps
    apply of_band hwrap (Band.bounded_wrap ht.bounded)
    intro hcareful
    exact Band.inside_wrap (ht.inside hcareful) (hfine hcareful hvisible hwaits)

end Sound

/-- A formfeed goes home, and leaves what is saved. -/
theorem ends_formfeed (ht : t.band.Bounded) :
    Ends (onScreen cursorFormfeed) (fun _ => True)
      (fun _ u => Sound careful u ∧ (DecrcFine t → DecrcFine u)) t := by
  rw [ends_onScreen]
  refine (ends_cursorFormfeed ht).post fun _ s hs => ⟨?_, ?_⟩
  · apply Sound.of_band hs (Band.bounded_position ht le_rfl)
    intro _
    exact Band.inside_position ht le_rfl (Band.fits_zero ht)
  · intro hfine hsaved horigin
    obtain ⟨hlow, hhigh⟩ := hfine hsaved horigin
    have hband : s.band = t.band.position 0 := hs
    have htop : s.scrollRegionTop = t.scrollRegionTop := congrArg Band.top hband
    have hbottom : s.scrollRegionBottom = t.scrollRegionBottom := congrArg Band.bottom hband
    have hlanding : s.band.landing t.savedCursorY = t.band.landing t.savedCursorY := by rw [hband]; rfl
    show s.scrollRegionTop ≤ s.band.landing t.savedCursorY ∧
      s.band.landing t.savedCursorY ≤ s.scrollRegionBottom
    rw [htop, hbottom, hlanding]
    exact ⟨hlow, hhigh⟩

/-! ### The handlers -/

/-- The handlers that change nothing that the rows depend on. -/
theorem keeps_eraseAll : Keeps Vt.rowsOf eraseAll := Keeps.get.bind fun _ => Keeps.onScreen keeps_eraseScreen

theorem keeps_ris : Keeps Vt.rowsOf (ris e) := Keeps.modifyThen (fun _ => rfl) keeps_eraseAll

theorem keeps_advanceToNextTabStop : Keeps Vt.rowsOf advanceToNextTabStop :=
  Keeps.get.bind fun _ => Keeps.onScreen keeps_cursorRight

theorem keeps_toFirstColumn : Keeps Vt.rowsOf toFirstColumn :=
  Keeps.get.bind fun _ => Keeps.onScreen keeps_cursorLeft

theorem keeps_ed {honorProtected : Bool} : Keeps Vt.rowsOf (ed a honorProtected) := by
  apply Keeps.get.bind
  intro t
  dsimp only
  apply Keeps.ite
  · have hline : Keeps Vt.rowsOf (do
        onScreen (eraseLine t.cursorX (t.width - 1) honorProtected)
        onScreen (setDoubleWidth false)) :=
      (Keeps.onScreen keeps_eraseLine).bind fun _ => Keeps.onScreen keeps_setDoubleWidth
    apply Keeps.ite _ hline
    apply (Keeps.onScreen keeps_eraseScreen).bind
    intro _
    exact (Keeps.onScreen keeps_setSingleWidth).bind fun _ => hline
  apply Keeps.ite
  · apply (Keeps.onScreen keeps_eraseScreen).bind
    intro _
    apply (Keeps.onScreen keeps_eraseLine).bind
    intro _
    exact (Keeps.onScreen keeps_setSingleWidth).bind fun _ => Keeps.onScreen keeps_setDoubleWidth
  apply Keeps.ite _ Keeps.pure
  exact (Keeps.onScreen keeps_eraseScreen).bind fun _ => Keeps.onScreen keeps_setSingleWidth

theorem keeps_el {honorProtected : Bool} : Keeps Vt.rowsOf (el a honorProtected) := by
  apply Keeps.get.bind
  intro t
  apply Keeps.ite (Keeps.onScreen keeps_eraseLine)
  apply Keeps.ite (Keeps.onScreen keeps_eraseLine)
  exact Keeps.ite (Keeps.onScreen keeps_eraseLine) Keeps.pure

theorem keeps_ech : Keeps Vt.rowsOf (ech a) := Keeps.get.bind fun _ => Keeps.onScreen keeps_eraseLine

theorem keeps_scrollFromCursor {scroll : ℤ → ℤ → ℤ → ScreenM Unit} {count : ℤ}
    (h : ∀ top bottom count, Keeps Screen.band (scroll top bottom count)) :
    Keeps Vt.rowsOf (scrollFromCursor scroll count) :=
  Keeps.get.bind fun _ => Keeps.ite (Keeps.onScreen (h _ _ _)) Keeps.pure

theorem keeps_scrollRegion {scroll : ℤ → ℤ → ℤ → ScreenM Unit} {count : ℤ}
    (h : ∀ top bottom count, Keeps Screen.band (scroll top bottom count)) :
    Keeps Vt.rowsOf (scrollRegion scroll count) := Keeps.get.bind fun _ => Keeps.onScreen (h _ _ _)

theorem keeps_tbc : Keeps Vt.rowsOf (tbc a) := by
  intro t
  rw [tbc, ends_modify, Vt.rowsOf, Vt.rowsOf]

theorem keeps_unlessPrivate {m : VtM Unit} (h : Keeps Vt.rowsOf m) : Keeps Vt.rowsOf (unlessPrivate a m) :=
  Keeps.ite Keeps.pure h

theorem Leaves.then {α β : Type} {m : VtM α} {f : α → VtM β} (hm : Leaves careful m t)
    (hf : ∀ a u, Sound careful u → Leaves careful (f a) u) : Leaves careful (m >>= f) t := hm.bind hf

theorem Leaves.unlessPrivate {m : VtM Unit} (ht : Sound careful t)
    (hm : a.decPrivateModeFlag = false → Leaves careful m t) : Leaves careful (unlessPrivate a m) t := by
  rw [Leaves, CProgram.Terminal.unlessPrivate, ends_ite]
  refine ⟨fun _ => ht, fun hflag => hm ?_⟩
  simpa using hflag

namespace Sound

theorem decrc (ht : Sound careful t) (hfine : careful → DecrcFine t) : Leaves careful (decrc e) t := by
  rw [Leaves, Terminal.decrc, ends_bind, ends_get, ends_ite]
  refine ⟨fun hsaved => ?_, fun _ => ?_⟩
  · rw [ends_bind, ends_onScreen]
    refine (ends_cursorPosition ht.bounded).post fun _ s hs => ?_
    rw [ends_modify]
    have hbounded := Band.bounded_position ht.bounded hs.2
    rw [← hs.1] at hbounded
    refine ⟨⟨hbounded.top, hbounded.region, hbounded.bottom, hbounded.cursor, hbounded.row⟩, ?_⟩
    intro hcareful horigin
    have hplace := hfine hcareful hsaved horigin
    have hrow : s.cursorY = t.band.landing t.savedCursorY := congrArg Band.cursorY hs.1
    have htop : s.scrollRegionTop = t.scrollRegionTop := congrArg Band.top hs.1
    have hbottom : s.scrollRegionBottom = t.scrollRegionBottom := congrArg Band.bottom hs.1
    show s.scrollRegionTop ≤ s.cursorY ∧ s.cursorY ≤ s.scrollRegionBottom
    rw [hrow, htop, hbottom]
    exact hplace
  · have hhome : Leaves False (onScreen (cursorPosition 0 0)) t := home ht.bounded
    apply hhome.bind
    intro _ u hu
    rw [ends_modify]
    have hbounded := hu.bounded
    refine ⟨⟨hbounded.top, hbounded.region, hbounded.bottom, hbounded.cursor, hbounded.row⟩, ?_⟩
    intro _ horigin
    cases horigin

theorem decom (ht : t.band.Bounded) {value : Bool} : Leaves careful (decom value) t := by
  rw [Leaves, Terminal.decom, ends_bind, ends_modify]
  exact home ⟨ht.top, ht.region, ht.bottom, ht.cursor, ht.row⟩

theorem deccolm (ht : t.band.Bounded) {value : Bool} : Leaves careful (deccolm e value) t := by
  rw [Leaves, Terminal.deccolm, ends_bind, ends_modify]
  apply (keeps_eraseAll _).bind
  intro _ u hu
  rw [ends_bind, ends_modify]
  have hband : u.band = t.band := hu
  rw [← hband] at ht
  apply home
  have hcursor := ht.cursor
  have hrow := ht.row
  refine ⟨le_rfl, ?_, le_rfl, hcursor, hrow⟩
  show 0 ≤ u.rows - 1
  exact hcursor.trans hrow

theorem decscnm (ht : Sound careful t) {value : Bool} : Leaves careful (decscnm value) t := by
  apply ht.of_keeps
  apply Keeps.get.bind
  intro t
  dsimp only
  apply Keeps.ite
  · exact Keeps.modify fun _ => rfl
  · exact (Keeps.onScreen keeps_invertScrollbackColors).bind fun _ => Keeps.modify fun _ => rfl

theorem toggle (ht : Sound careful t) {decPrivateModeFlag value : Bool} {mode : ℤ}
    (hfine : careful → ToggleFine e decPrivateModeFlag value mode t) :
    Leaves careful (toggle e decPrivateModeFlag value mode) t := by
  unfold Leaves Terminal.toggle
  simp only [ends_ite]
  refine ⟨fun hprivate => ⟨fun _ => deccolm ht.bounded, fun _ => ⟨fun _ => decscnm ht, fun _ =>
    ⟨fun _ => decom ht.bounded, fun _ => ⟨fun _ => ht.of_keeps (Keeps.modify fun _ => rfl), fun _ =>
    ⟨fun _ => (ends_formfeed ht.bounded).post fun _ _ hu => hu.1, fun _ => ⟨fun hmode => ?_, fun _ =>
    ⟨fun hmode => ?_, fun _ => ht⟩⟩⟩⟩⟩⟩⟩, fun _ => ?_⟩
  · refine ⟨fun _ => ht.of_keeps (Keeps.modify fun _ => rfl), fun hvalue => ht.decrc fun hcareful => ?_⟩
    exact hfine hcareful hprivate hmode.2 (by simpa using hvalue) (Or.inl hmode.1)
  · refine ⟨fun _ => ?_, fun hvalue => ?_⟩
    · apply (ht.of_keeps (m := decsc) (Keeps.modify fun _ => rfl)).bind
      intro _ u hu
      exact (ends_formfeed hu.bounded).post fun _ _ hv => hv.1
    · apply (ends_formfeed ht.bounded).bind
      intro _ u hu
      refine hu.1.decrc fun hcareful => hu.2 ?_
      exact hfine hcareful hprivate hmode.2 (by simpa using hvalue) (Or.inr hmode.1)
  · refine ⟨fun _ => ht.of_keeps (Keeps.modify fun _ => rfl), fun _ => ⟨fun _ => ?_, fun _ => ht⟩⟩
    exact ht.of_keeps (Keeps.modify fun _ => rfl)

end Sound

/-- The margins that are asked for are not above the screen. -/
theorem margins_nonneg (ht : t.band.Bounded) : 0 ≤ (margins a t).1 ∧ 0 ≤ (margins a t).2 := by
  have htop : 0 ≤ t.scrollRegionTop := ht.top
  have hrows : 0 ≤ t.rows - 1 := ht.cursor.trans ht.row
  unfold margins
  dsimp only
  generalize (if a.isEmpty 0 then (0 : ℤ) else a.param 0 - 1) = i
  generalize (if a.isEmpty 1 then t.rows - 1 else a.param 1 - 1) = j
  split
  · exact ⟨le_rfl, hrows⟩
  split
  · refine ⟨?_, hrows⟩
    dsimp only
    split <;> omega
  split
  · exact ⟨by omega, by omega⟩
  · exact ⟨le_rfl, hrows⟩

theorem sane_bounds {rows : ℤ} {region : ℤ × ℤ} (htop : 0 ≤ region.1) (hbottom : 0 ≤ region.2)
    (hrows : 0 ≤ rows - 1) :
    0 ≤ (sane rows region).1 ∧ (sane rows region).1 ≤ (sane rows region).2 ∧ (sane rows region).2 ≤ rows - 1 := by
  unfold sane
  dsimp only
  split <;> split <;> omega

theorem Sound.decstbm (ht : Sound careful t) : Leaves careful (decstbm a) t := by
  rw [Leaves, CProgram.Terminal.decstbm, ends_ite]
  refine ⟨fun _ => ht, fun _ => ?_⟩
  rw [ends_bind, ends_modify]
  apply Sound.home
  obtain ⟨htop, hbottom⟩ := margins_nonneg (a := a) ht.bounded
  have hrows : 0 ≤ t.rows - 1 := ht.bounded.cursor.trans ht.bounded.row
  obtain ⟨hlow, hregion, hhigh⟩ := sane_bounds htop hbottom hrows
  exact ⟨hlow, hregion, hhigh, ht.bounded.cursor, ht.bounded.row⟩

namespace Sound

theorem ind (ht : Sound careful t) : Leaves careful ind t := by
  rw [Leaves, Terminal.ind, ends_bind, ends_get]
  dsimp only
  rw [ends_ite]
  refine ⟨fun _ => ?_, fun _ => ht.down⟩
  exact (ht.of_keeps (Keeps.onScreen keeps_scrollingRegionScrollUp)).bind fun _ u hu => hu.down

theorem nel (ht : Sound careful t) : Leaves careful nel t :=
  ht.ind.bind fun _ _ hu => hu.of_keeps (Keeps.modify fun _ => rfl)

theorem ri (ht : Sound careful t) : Leaves careful ri t := by
  rw [Leaves, Terminal.ri, ends_bind, ends_get]
  dsimp only
  rw [ends_ite]
  refine ⟨fun _ => ?_, fun _ => ht.up⟩
  exact (ht.of_keeps (Keeps.onScreen keeps_scrollingRegionScrollDown)).bind fun _ u hu => hu.up

theorem alignRow {s : Screen} (hs : s.band.Bounded) :
    Ends alignRow (fun _ => True) (fun _ s' => s'.band.Bounded ∧ ∀ row, s'.band.position row = s.band.position row)
      s := by
  rw [Terminal.alignRow, ends_bind, ends_get]
  apply ((keeps_onText : Keeps Screen.band _) s).bind
  intro _ u hu
  refine ends_cursorDown.post fun _ v hv => ?_
  rw [hv, hu]
  exact ⟨Band.bounded_down hs, fun row => rfl⟩

/-- While the screen is filled the cursor may be anywhere. -/
theorem decaln (ht : Sound careful t) (hfits : careful → t.band.Fits t.cursorY) : Leaves careful decaln t := by
  rw [Leaves, Terminal.decaln, ends_bind, ends_get, ends_bind, ends_onScreen]
  refine (ends_cursorPosition ht.bounded).post fun _ s hs => ?_
  rw [ends_bind, ends_onScreen]
  have hloop : Ends (repeatFrom (fun _ => Terminal.alignRow) t.rows.toNat ()) (fun _ => True)
      (fun _ s' => s'.band.Bounded ∧ ∀ row, s'.band.position row = t.band.position row) s := by
    refine ends_repeatFrom_const ?_ ?_
    · rw [hs.1]
      exact ⟨Band.bounded_position ht.bounded le_rfl, fun row => rfl⟩
    · intro _ u hu
      refine (alignRow hu.1).post fun _ v hv => ⟨hv.1, fun row => ?_⟩
      rw [hv.2, hu.2]
  refine hloop.post fun _ u hu => ?_
  rw [ends_onScreen]
  refine (ends_cursorPosition hu.1).post fun _ v hv => ?_
  have hband : v.band = t.band.position t.cursorY := hv.1.trans (hu.2 _)
  apply of_band hband (Band.bounded_position ht.bounded hv.2)
  exact fun hcareful => Band.inside_position ht.bounded hv.2 (hfits hcareful)

theorem cnl (ht : Sound careful t) : Leaves careful (cnl a) t :=
  ht.down.bind fun _ _ hu => hu.of_keeps keeps_toFirstColumn

theorem cpl (ht : Sound careful t) : Leaves careful (cpl a) t :=
  ht.up.bind fun _ _ hu => hu.of_keeps keeps_toFirstColumn

theorem cbtOne (ht : Sound careful t) (hfits : careful → t.band.Fits t.cursorY) : Leaves careful cbtOne t := by
  rw [Leaves, Terminal.cbtOne, ends_bind, ends_get]
  exact ht.position hfits

theorem repOne (ht : Sound careful t) (hfine : careful → PrintFine t.repCh t) : Leaves careful repOne t := by
  rw [Leaves, Terminal.repOne, ends_bind, ends_get]
  exact ht.print hfine

theorem cha (ht : Sound careful t) (hfits : careful → t.band.Fits t.cursorY) : Leaves careful (cha a) t := by
  rw [Leaves, Terminal.cha, ends_bind, ends_get]
  exact ht.position hfits

theorem vpa (ht : Sound careful t) (hfits : careful → t.band.Fits a.address) : Leaves careful (vpa a) t := by
  rw [Leaves, Terminal.vpa, ends_bind, ends_get]
  exact ht.position hfits

/-- The rule for loops: each round keeps the invariant where it finds what it needs. -/
theorem forM {α : Type} {fine : α → Vt → Prop} {body : α → VtM Unit} {l : List α} (ht : Sound careful t)
    (hbody : ∀ x u, Sound careful u → (careful → fine x u) → Leaves careful (body x) u)
    (hl : careful → Throughout fine body l t) : Leaves careful (l.forM body) t := by
  by_cases hcareful : careful
  · exact ends_forM (fun x u hu hfine => hbody x u hu fun _ => hfine) ht (hl hcareful)
  · induction l generalizing t with
    | nil => exact ht
    | cons x l ih =>
      apply (hbody x t ht fun h => absurd h hcareful).bind
      intro _ u hu
      exact ih hu fun h => absurd h hcareful

theorem handleControlChar (ht : Sound careful t) {ch : UInt8}
    (hfine : careful → ch = 0 → t.displayNull = true → PrintFine 0x20 t) : Leaves careful (handleControlChar ch) t := by
  rw [Leaves, Terminal.handleControlChar, ends_bind, ends_get]
  split
  · rw [ends_ite]
    refine ⟨fun hnull => ht.print fun hcareful => hfine hcareful ?_ hnull, fun _ => ht⟩
    exact UInt8.toNat_inj.mp (by assumption)
  · exact ht.of_keeps (Keeps.onScreen keeps_cursorLeft)
  · exact ht.of_keeps keeps_advanceToNextTabStop
  · exact ht.linefeed
  · exact ht.linefeed
  · exact ht.linefeed
  · exact ht.carriageReturn
  · exact ht

theorem handleC1 (ht : Sound careful t) {ch : UInt8}
    (hfine : careful → ch = 0 → t.displayNull = true → PrintFine 0x20 t) : Leaves careful (handleC1 a ch) t := by
  unfold Terminal.handleC1
  split
  · exact Leaves.unlessPrivate ht fun _ => ht.ind
  · exact Leaves.unlessPrivate ht fun _ => ht.nel
  · exact ht.of_keeps (Keeps.modify fun _ => rfl)
  · exact Leaves.unlessPrivate ht fun _ => ht.ri
  · exact ht.handleControlChar hfine

end Sound

theorem Sound.printGlyph (ht : Sound careful t) {glyph : Glyph}
    (hfine : careful → PrintFine (looks.character t.history glyph) t) :
    Leaves careful (do let t ← get; onScreen (printCharacter (looks.character t.history glyph)) : VtM Unit) t := by
  rw [Leaves, ends_bind, ends_get]
  exact ht.print hfine

/-- Each handler leaves the cursor in the screen, and in the region where it finds what it needs. -/
theorem Sound.handle (ht : Sound careful t) {call : Call} (hfine : careful → CallFine looks e call t) :
    Leaves careful (handle looks e call.args call.handler) t := by
  obtain ⟨handler, a⟩ := call
  cases handler with
  | printCharacter glyph => exact ht.printGlyph hfine
  | handleControlChar ch => exact ht.handleC1 hfine
  | decsc => exact ht.of_keeps (Keeps.modify fun _ => rfl)
  | decrc => exact ht.decrc hfine
  | ind => exact Leaves.unlessPrivate ht fun _ => ht.ind
  | nel => exact Leaves.unlessPrivate ht fun _ => ht.nel
  | hts => exact ht.of_keeps (Keeps.modify fun _ => rfl)
  | ri => exact Leaves.unlessPrivate ht fun _ => ht.ri
  | ris => exact ht.of_keeps keeps_ris
  | decstr => exact ht.of_keeps keeps_ris
  | cursorUp => exact ht.up_one hfine
  | cursorDown => exact ht.down_one hfine
  | cursorRight => exact ht.of_keeps (Keeps.onScreen keeps_cursorRight)
  | cursorLeft => exact ht.of_keeps (Keeps.onScreen keeps_cursorLeft)
  | cursorHome => exact home ht.bounded
  | eraseToEndOfScreen =>
    apply ht.of_keeps
    apply Keeps.get.bind
    intro t
    exact (Keeps.onScreen keeps_eraseLine).bind fun _ => Keeps.onScreen keeps_eraseScreen
  | eraseToEndOfLine => exact ht.of_keeps (Keeps.get.bind fun _ => Keeps.onScreen keeps_eraseLine)
  | cursorAddress line column => exact ht.position hfine
  | dechdl topHalf =>
    exact ht.of_keeps ((Keeps.onScreen keeps_setDoubleWidth).bind fun _ => Keeps.onScreen keeps_setDoubleHeight)
  | decswl => exact ht.of_keeps (Keeps.onScreen keeps_setDoubleWidth)
  | decdwl => exact ht.of_keeps (Keeps.onScreen keeps_setDoubleWidth)
  | decaln => exact ht.decaln hfine
  | ich => exact ht.of_keeps (keeps_unlessPrivate (Keeps.onScreen keeps_insertBlanks))
  | cuu => exact Leaves.unlessPrivate ht fun _ => ht.up
  | cud => exact Leaves.unlessPrivate ht fun _ => ht.down
  | cuf => exact ht.of_keeps (keeps_unlessPrivate (Keeps.onScreen keeps_cursorRight))
  | cub => exact ht.of_keeps (keeps_unlessPrivate (Keeps.onScreen keeps_cursorLeft))
  | cnl => exact Leaves.unlessPrivate ht fun _ => ht.cnl
  | cpl => exact Leaves.unlessPrivate ht fun _ => ht.cpl
  | cha => exact Leaves.unlessPrivate ht fun hflag => ht.cha fun hcareful => hfine hcareful hflag
  | cup => exact Leaves.unlessPrivate ht fun hflag => ht.position fun hcareful => hfine hcareful hflag
  | hvp => exact Leaves.unlessPrivate ht fun hflag => ht.position fun hcareful => hfine hcareful hflag
  | cht => exact ht.of_keeps (keeps_unlessPrivate (Keeps.forM fun _ => keeps_advanceToNextTabStop))
  | ed => exact ht.of_keeps keeps_ed
  | el => exact ht.of_keeps keeps_el
  | il =>
    apply ht.of_keeps
    exact keeps_unlessPrivate (keeps_scrollFromCursor fun _ _ _ => keeps_scrollingRegionScrollDown)
  | dl =>
    apply ht.of_keeps
    exact keeps_unlessPrivate (keeps_scrollFromCursor fun _ _ _ => keeps_scrollingRegionScrollUp)
  | dch => exact ht.of_keeps (keeps_unlessPrivate (Keeps.onScreen keeps_deleteCharacter))
  | su =>
    apply ht.of_keeps
    exact keeps_unlessPrivate (keeps_scrollRegion fun _ _ _ => keeps_scrollingRegionScrollUp)
  | sd =>
    apply ht.of_keeps
    exact keeps_unlessPrivate (keeps_scrollRegion fun _ _ _ => keeps_scrollingRegionScrollDown)
  | ech => exact ht.of_keeps (keeps_unlessPrivate keeps_ech)
  | cbt =>
    apply Leaves.unlessPrivate ht
    intro hflag
    exact ht.forM (fun _ _ hu => hu.cbtOne) fun hcareful => hfine hcareful hflag
  | rep =>
    apply Leaves.unlessPrivate ht
    intro hflag
    exact ht.forM (fun _ _ hu => hu.repOne) fun hcareful => hfine hcareful hflag
  | vpa => exact Leaves.unlessPrivate ht fun hflag => ht.vpa fun hcareful => hfine hcareful hflag
  | tbc => exact ht.of_keeps (keeps_unlessPrivate keeps_tbc)
  | sgr => exact ht.of_keeps (Keeps.modify fun _ => rfl)
  | decsca => exact ht.of_keeps (Keeps.modify fun _ => rfl)
  | decstbm => exact ht.decstbm
  | saveCursor => exact ht.of_keeps (keeps_unlessPrivate (Keeps.modify fun _ => rfl))
  | restoreCursor =>
    apply Leaves.unlessPrivate ht
    intro hflag
    rw [Leaves, restoreCursor, ends_bind, ends_get, ends_ite]
    exact ⟨fun hsaved => ht.position fun hcareful => hfine hcareful hflag hsaved, fun _ => ht⟩
  | setToggle value => exact ht.forM (fun _ _ hu => hu.toggle) hfine
  | _ => exact ht

theorem Sound.perform (ht : Sound careful t) {call : Call} (hfine : careful → CallFine looks e call t) :
    Leaves careful (perform looks e call) t := by
  apply (ht.handle hfine).bind
  intro _ u hu
  rw [ends_modify]
  exact ⟨hu.bounded, hu.inside⟩

theorem Sound.showGlyph (ht : Sound careful t) {glyph : Glyph} (hfine : careful → GlyphFine looks glyph t) :
    Leaves careful (showGlyph looks glyph) t := by
  rw [Leaves, CProgram.Terminal.showGlyph, ends_bind, ends_get, ends_bind, ends_modify]
  have hsound : Sound careful { t with
      repCh := looks.character t.history glyph
      history := t.history ++ [.glyph glyph] } := ⟨ht.bounded, ht.inside⟩
  exact hsound.print hfine

/-- One byte: the calls on the way, and then the character. -/
theorem Sound.receive (ht : Sound careful t) (p : Parser) (bytes : List UInt8)
    (hfine : careful → Careful looks e p bytes t) : Leaves careful (receive looks e p bytes) t := by
  induction bytes generalizing p t with
  | nil => exact ht
  | cons ch bytes ih =>
    rw [Leaves, CProgram.Terminal.receive, process, bind_assoc]
    have hcalls : Leaves careful ((p.terminalEmulator e ch).calls.forM (Terminal.perform looks e)) t :=
      ht.forM (fun _ _ hu => hu.perform) fun hcareful => (hfine hcareful).1
    by_cases hcareful : careful
    · obtain ⟨_, hthen⟩ := hfine hcareful
      apply (hcalls.and hthen).bind
      intro _ u hu
      obtain ⟨hsound, hglyph, hrest⟩ := hu
      have hshown : Leaves careful ((p.terminalEmulator e ch).glyph.toList.forM (Terminal.showGlyph looks)) u :=
        hsound.forM (fun _ _ hu => hu.showGlyph) fun _ => hglyph
      apply (hshown.and hrest).bind
      intro _ v hv
      exact ih hv.1 _ fun _ => hv.2
    · apply hcalls.bind
      intro _ u hu
      have hshown : Leaves careful ((p.terminalEmulator e ch).glyph.toList.forM (Terminal.showGlyph looks)) u :=
        hu.forM (fun _ _ hv => hv.showGlyph) fun h => absurd h hcareful
      apply hshown.bind
      intro _ v hv
      exact ih hv _ fun h => absurd h hcareful

/-! ### Runs -/

/-- A terminal that `reset_emulation` has left, with the cursor anywhere in the screen. -/
structure IsReset (e : Emulation) (t : Vt) : Prop where
  emulation : t.emulation = .vt e
  scrollRegionTop : t.scrollRegionTop = 0
  scrollRegionBottom : t.scrollRegionBottom = t.rows - 1
  originMode : t.originMode = false
  savedCursorX : t.savedCursorX = -1
  cursorY : 0 ≤ t.cursorY ∧ t.cursorY ≤ t.rows - 1

theorem IsReset.sound (h : IsReset e t) : Sound careful t := by
  obtain ⟨hlow, hhigh⟩ := h.cursorY
  constructor
  · refine ⟨?_, ?_, ?_, hlow, hhigh⟩ <;> simp only [Screen.band, h.scrollRegionTop, h.scrollRegionBottom] <;> omega
  · intro _ horigin
    exact absurd (h.originMode.symm.trans horigin) (by decide)

/-- A screen of 24 rows and 80 columns with one line, as it is before anything has arrived. -/
def Screen.blank (e : Emulation) : Screen where
  rows := 24
  width := 80
  lines := fun a => if a = 0 then some ⟨⟨none, none⟩, ⟨fun _ => 0x20, fun _ => {}, 0, false, 0, false⟩⟩ else none
  fresh := 1
  buffer := some 0
  last := some 0
  current := some 0
  position := some 0
  scrollbackMax := 10000
  scrollbackLines := 1
  scrollbackEnabled := true
  vt100WrapLineFlag := false
  emulation := .vt e
  emulationRightMargin := -1
  cursorX := 0
  cursorY := 0
  scrollRegionTop := 0
  scrollRegionBottom := 23
  originMode := false
  lineWrap := true
  insertMode := false
  reverseVideo := false
  lineFeedOnCr := false
  displayNull := false
  assume80Columns := false
  petsciiHasWideFont := false
  atasciiHasWideFont := false
  currentColor := {}
  consoleText := {}

def Vt.blank (e : Emulation) : Vt where
  toScreen := .blank e
  savedCursorX := -1
  savedCursorY := -1
  savedOriginMode := false
  savedLinewrap := true
  savedAttributes := {}
  tabStops := resetTabStops 80
  statusHeight := 1
  newLineMode := false
  repCh := 0
  history := []

/-- Glyphs that all look alike. -/
def plainLooks : Looks := ⟨fun _ _ => 0x20, fun _ _ color => color⟩

/-- Bytes that call nothing and show nothing. -/
theorem Careful.quiet {p : Parser} {ch : UInt8} {bytes : List UInt8} (hcalls : (p.terminalEmulator e ch).calls = [])
    (hglyph : (p.terminalEmulator e ch).glyph = none)
    (h : Careful looks e (p.terminalEmulator e ch).parser bytes t) : Careful looks e p (ch :: bytes) t := by
  rw [Careful]
  rw [hcalls, hglyph]
  exact ⟨trivial, trivial, h⟩

theorem Careful.last {p : Parser} {ch : UInt8} {call : Call} (hcalls : (p.terminalEmulator e ch).calls = [call])
    (hglyph : (p.terminalEmulator e ch).glyph = none) (h : CallFine looks e call t) :
    Careful looks e p [ch] t := by
  rw [Careful]
  rw [hcalls, hglyph]
  refine ⟨⟨h, ?_⟩, ?_⟩
  · exact ends_forget.post fun _ _ _ => trivial
  · exact ends_forget.post fun _ _ _ => ⟨trivial, trivial⟩

/-- After every stream of bytes the region and the cursor are in the screen; and in origin mode the cursor is
in the region, if the run is careful. -/
theorem stays_in_region (h : IsReset e t) (bytes : List UInt8) :
    Ends (receive looks e .reset bytes) (fun _ => True)
      (fun _ u => u.band.Bounded ∧ (Careful looks e .reset bytes t → u.band.Inside)) t := by
  have hreset : Sound (Careful looks e .reset bytes t) t := h.sound
  refine (hreset.receive .reset bytes id).post fun _ u hu => ?_
  exact ⟨hu.bounded, hu.inside⟩

/-- `CSI ? 6 h`: origin mode takes the cursor home. -/
theorem stays_in_region_decom :
    Ends (receive plainLooks .vt100 .reset [0x1B, 0x5B, 0x3F, 0x36, 0x68]) (fun _ => True)
      (fun _ u => u.band.Bounded ∧ u.band.Inside) (Vt.blank .vt100) := by
  have hcareful : Careful plainLooks .vt100 .reset [0x1B, 0x5B, 0x3F, 0x36, 0x68] (Vt.blank .vt100) := by
    refine Careful.quiet (by decide) (by decide) ?_
    refine Careful.quiet (by decide) (by decide) ?_
    refine Careful.quiet (by decide) (by decide) ?_
    refine Careful.quiet (by decide) (by decide) ?_
    refine Careful.last (show _ = [Call.mk (.setToggle true) ⟨[0x36] :: List.replicate 15 [], 0, true, [0x3F]⟩]
      by decide) (by decide) ?_
    exact ⟨fun _ hxterm => (nomatch hxterm), ends_forget.post fun _ _ _ => trivial⟩
  have hreset : IsReset .vt100 (Vt.blank .vt100) := ⟨rfl, rfl, rfl, rfl, rfl, by decide⟩
  exact (stays_in_region hreset _).post fun _ u hu => ⟨hu.1, hu.2 hcareful⟩

/-! ### A run that is not careful -/

/-- The rows that a stream of bytes leaves. -/
def rowsAfter (e : Emulation) (bytes : List UInt8) (t : Vt) : Option Band :=
  match receive plainLooks e .reset bytes t with
  | .ok (_, u) => some u.rowsOf
  | .error _ => none

/-- `CSI 5;10 r`, `CSI ? 6 h` and `CSI 20 H`. -/
def pastTheBottom : List UInt8 :=
  [0x1B, 0x5B, 0x35, 0x3B, 0x31, 0x30, 0x72] ++ [0x1B, 0x5B, 0x3F, 0x36, 0x68] ++ [0x1B, 0x5B, 0x32, 0x30, 0x48]

/-- CUP takes the cursor below the region: the row is counted from the top margin, and nobody looks at the
bottom one. -/
theorem not_stays_in_region : IsReset .vt100 (.blank .vt100) ∧
    ∃ b, rowsAfter .vt100 pastTheBottom (.blank .vt100) = some b ∧ ¬ b.Inside := by
  refine ⟨⟨rfl, rfl, rfl, rfl, rfl, by decide⟩, ⟨24, 4, 9, 23, true⟩, ?_, by decide⟩
  decide +kernel

end CProgram.Terminal
