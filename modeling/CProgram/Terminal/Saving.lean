import CProgram.Terminal.Charsets
import CProgram.Terminal.Moves

/-! DECSC and DECRC: what is saved, what comes back, and what happens in between. -/
namespace CProgram.Terminal
open CProgram.Programs Screen

/-- `is_default_color` after SGR, which depends on the color too. -/
abbrev Marks := List Event → Call → Attr → Bool → Bool

/-- The terminal with its character sets, and with the marker of the default color. -/
structure Whole where
  vt : Vt
  charsets : Charsets
  isDefaultColor : Bool
  savedIsDefaultColor : Bool

abbrev WholeM (α : Type) := Program Whole Fault α

/-- What is remembered for DECRC. -/
@[ext] structure Saved where
  cursorX : ℤ
  cursorY : ℤ
  originMode : Bool
  linewrap : Bool
  attributes : Attr
  isDefaultColor : Bool
  g0Charset : Charset
  g1Charset : Charset
  g2Charset : Charset
  g3Charset : Charset
  grCharset : Charset
  lockshiftGl : Lockshift
  lockshiftGr : Lockshift
deriving DecidableEq

/-- The part of it that belongs to the screen. -/
def Vt.savedPart (t : Vt) : ℤ × ℤ × Bool × Bool × Attr :=
  (t.savedCursorX, t.savedCursorY, t.savedOriginMode, t.savedLinewrap, t.savedAttributes)

/-- The part of it that belongs to the character sets. -/
def Charsets.savedPart (c : Charsets) : Charset × Charset × Charset × Charset × Charset × Lockshift × Lockshift :=
  (c.savedG0Charset, c.savedG1Charset, c.savedG2Charset, c.savedG3Charset, c.savedGrCharset, c.savedLockshiftGl,
    c.savedLockshiftGr)

namespace Whole

/-- DECSC has been called. -/
def hasSaved (w : Whole) : Bool := decide (w.vt.savedCursorX ≠ -1)

/-- The marker after a call. -/
def marked (marks : Marks) (e : Emulation) (call : Call) (w : Whole) : Bool :=
  match call.handler with
  | .sgr => marks w.vt.history call w.vt.currentColor w.isDefaultColor
  | .ris | .decstr => false
  | .decrc => if w.hasSaved then w.savedIsDefaultColor else w.isDefaultColor
  | .setToggle value =>
    if call.args.decPrivateModeFlag && e.anyXterm && !value && w.hasSaved &&
        decide (1048 ∈ call.args.modes ∨ 1049 ∈ call.args.modes) then w.savedIsDefaultColor
    else w.isDefaultColor
  | _ => w.isDefaultColor

/-- DECSC does not save the marker, only a reset does. -/
def savedMarked (call : Call) (w : Whole) : Bool :=
  match call.handler with
  | .ris | .decstr => false
  | _ => w.savedIsDefaultColor

def perform (looks : Looks) (marks : Marks) (e : Emulation) (call : Call) : WholeM Unit := do
  let w ← get
  zoom Whole.vt (fun vt u => { u with vt := vt }) (Terminal.perform looks e call)
  modify fun u => { u with
    charsets := w.charsets.perform w.hasSaved e call
    isDefaultColor := w.marked marks e call
    savedIsDefaultColor := w.savedMarked call }

/-- A character that is mapped may use up a single shift. -/
def showGlyph (looks : Looks) (tables : Tables) (e : Emulation) (glyph : Glyph) : WholeM Unit := do
  let w ← get
  zoom Whole.vt (fun vt u => { u with vt := vt }) (Terminal.showGlyph looks glyph)
  match glyph with
  | .mapped ch =>
    match w.charsets.mapCharacter tables e ch with
    | .ok (_, charsets) => modify fun u => { u with charsets := charsets }
    | .error fault => throw fault
  | _ => pure ()

/-- What a sequence or a character does. -/
def step (looks : Looks) (marks : Marks) (tables : Tables) (e : Emulation) : Event → WholeM Unit
  | .call call => perform looks marks e call
  | .glyph glyph => showGlyph looks tables e glyph

def saved (w : Whole) : Saved where
  cursorX := w.vt.savedCursorX
  cursorY := w.vt.savedCursorY
  originMode := w.vt.savedOriginMode
  linewrap := w.vt.savedLinewrap
  attributes := w.vt.savedAttributes
  isDefaultColor := w.savedIsDefaultColor
  g0Charset := w.charsets.savedG0Charset
  g1Charset := w.charsets.savedG1Charset
  g2Charset := w.charsets.savedG2Charset
  g3Charset := w.charsets.savedG3Charset
  grCharset := w.charsets.savedGrCharset
  lockshiftGl := w.charsets.savedLockshiftGl
  lockshiftGr := w.charsets.savedLockshiftGr

end Whole

/-- What DECSC is there to save. -/
def Whole.current (w : Whole) : Saved where
  cursorX := w.vt.cursorX
  cursorY := w.vt.cursorY
  originMode := w.vt.originMode
  linewrap := w.vt.lineWrap
  attributes := w.vt.currentColor
  isDefaultColor := w.isDefaultColor
  g0Charset := w.charsets.g0Charset
  g1Charset := w.charsets.g1Charset
  g2Charset := w.charsets.g2Charset
  g3Charset := w.charsets.g3Charset
  grCharset := w.charsets.grCharset
  lockshiftGl := w.charsets.lockshiftGl
  lockshiftGr := w.charsets.lockshiftGr

/-- DECRC has brought back what there was, and in VT220 the other character sets and the line wrap too. -/
structure Restored (e : Emulation) (before after : Saved) : Prop where
  cursorX : after.cursorX = before.cursorX
  cursorY : after.cursorY = before.cursorY
  originMode : after.originMode = before.originMode
  attributes : after.attributes = before.attributes
  isDefaultColor : after.isDefaultColor = before.isDefaultColor
  g0Charset : after.g0Charset = before.g0Charset
  g1Charset : after.g1Charset = before.g1Charset
  vt220 : e = .vt220 → after.g2Charset = before.g2Charset ∧ after.g3Charset = before.g3Charset ∧
    after.grCharset = before.grCharset ∧ after.lockshiftGl = before.lockshiftGl ∧
    after.lockshiftGr = before.lockshiftGr ∧ after.linewrap = before.linewrap

instance {e : Emulation} {before after : Saved} : Decidable (Restored e before after) :=
  decidable_of_iff (after.cursorX = before.cursorX ∧ after.cursorY = before.cursorY ∧
      after.originMode = before.originMode ∧ after.attributes = before.attributes ∧
      after.isDefaultColor = before.isDefaultColor ∧ after.g0Charset = before.g0Charset ∧
      after.g1Charset = before.g1Charset ∧ (e = .vt220 → after.g2Charset = before.g2Charset ∧
        after.g3Charset = before.g3Charset ∧ after.grCharset = before.grCharset ∧
        after.lockshiftGl = before.lockshiftGl ∧ after.lockshiftGr = before.lockshiftGr ∧
        after.linewrap = before.linewrap))
    ⟨fun ⟨hx, hy, horigin, hcolor, hmark, hg0, hg1, hvt220⟩ => ⟨hx, hy, horigin, hcolor, hmark, hg0, hg1, hvt220⟩,
      fun ⟨hx, hy, horigin, hcolor, hmark, hg0, hg1, hvt220⟩ => ⟨hx, hy, horigin, hcolor, hmark, hg0, hg1, hvt220⟩⟩

/-- Neither a reset, nor a cursor that is saved again. -/
def LeavesSaved (e : Emulation) : Event → Prop
  | .glyph _ => True
  | .call call =>
    match call.handler with
    | .decsc | .saveCursor | .ris | .decstr => False
    | .setToggle value =>
      value = true → e.anyXterm = true → call.args.decPrivateModeFlag = true →
        1048 ∉ call.args.modes ∧ 1049 ∉ call.args.modes
    | _ => True

variable {w : Whole} {t : Vt} {c : Charsets} {a : Args} {e : Emulation} {looks : Looks} {marks : Marks}
  {tables : Tables} {call : Call} {event : Event}

/-! ### What is saved stays -/

theorem keeps_saved_onScreen {α : Type} {m : ScreenM α} : Keeps Vt.savedPart (onScreen m) := by
  intro t
  rw [ends_onScreen]
  exact ends_forget.post fun _ _ _ => rfl

theorem keeps_saved_unlessPrivate {m : VtM Unit} (h : Keeps Vt.savedPart m) : Keeps Vt.savedPart (unlessPrivate a m) :=
  Keeps.ite Keeps.pure h

theorem keeps_saved_decrc : Keeps Vt.savedPart (decrc e) := by
  refine Keeps.get.bind fun t => Keeps.ite ?_ ?_
  · exact Keeps.bind keeps_saved_onScreen fun _ => Keeps.modify fun _ => rfl
  · exact Keeps.bind keeps_saved_onScreen fun _ => Keeps.modify fun _ => rfl

theorem keeps_saved_eraseAll : Keeps Vt.savedPart eraseAll := Keeps.get.bind fun _ => keeps_saved_onScreen

theorem keeps_saved_deccolm {value : Bool} : Keeps Vt.savedPart (deccolm e value) := by
  refine Keeps.modifyThen (fun _ => rfl) ?_
  refine Keeps.bind keeps_saved_eraseAll fun _ => ?_
  exact Keeps.modifyThen (fun _ => rfl) keeps_saved_onScreen

theorem keeps_saved_decscnm {value : Bool} : Keeps Vt.savedPart (decscnm value) := by
  refine Keeps.get.bind fun t => ?_
  dsimp only
  refine Keeps.ite (Keeps.modify fun _ => rfl) ?_
  exact Keeps.bind keeps_saved_onScreen fun _ => Keeps.modify fun _ => rfl

theorem keeps_saved_toggle {decPrivateModeFlag value : Bool} {mode : ℤ}
    (h : value = true → e.anyXterm = true → decPrivateModeFlag = true → mode ≠ 1048 ∧ mode ≠ 1049) :
    Keeps Vt.savedPart (toggle e decPrivateModeFlag value mode) := by
  unfold toggle
  split_ifs with hprivate _ _ _ _ _ h1048 hset h1049 hset
  · exact keeps_saved_deccolm
  · exact keeps_saved_decscnm
  · exact Keeps.modifyThen (fun _ => rfl) keeps_saved_onScreen
  · exact Keeps.modify fun _ => rfl
  · exact keeps_saved_onScreen
  · exact absurd h1048.1 (h hset h1048.2 hprivate).1
  · exact keeps_saved_decrc
  · exact absurd h1049.1 (h hset h1049.2 hprivate).2
  · exact Keeps.bind keeps_saved_onScreen fun _ => keeps_saved_decrc
  · exact Keeps.pure
  · exact Keeps.modify fun _ => rfl
  · exact Keeps.modify fun _ => rfl
  · exact Keeps.pure

theorem keeps_saved_setToggle {value : Bool} (h : value = true → e.anyXterm = true → a.decPrivateModeFlag = true →
    1048 ∉ a.modes ∧ 1049 ∉ a.modes) : Keeps Vt.savedPart (setToggle e a value) := by
  unfold setToggle
  revert h
  generalize a.modes = modes
  intro h
  induction modes with
  | nil => exact Keeps.pure
  | cons mode modes ih =>
    refine Keeps.bind (keeps_saved_toggle fun hset hxterm hprivate => ?_) fun _ => ih fun hset hxterm hprivate => ?_
    · obtain ⟨h1048, h1049⟩ := h hset hxterm hprivate
      exact ⟨fun hmode => h1048 (hmode ▸ List.mem_cons_self), fun hmode => h1049 (hmode ▸ List.mem_cons_self)⟩
    · obtain ⟨h1048, h1049⟩ := h hset hxterm hprivate
      exact ⟨fun hmem => h1048 (List.mem_cons_of_mem _ hmem), fun hmem => h1049 (List.mem_cons_of_mem _ hmem)⟩

theorem keeps_saved_decstbm : Keeps Vt.savedPart (decstbm a) :=
  Keeps.ite Keeps.pure (Keeps.modifyThen (fun _ => rfl) keeps_saved_onScreen)

theorem keeps_saved_ind : Keeps Vt.savedPart ind := by
  refine Keeps.get.bind fun t => ?_
  dsimp only
  exact Keeps.ite (Keeps.bind keeps_saved_onScreen fun _ => keeps_saved_onScreen) keeps_saved_onScreen

theorem keeps_saved_nel : Keeps Vt.savedPart nel := Keeps.bind keeps_saved_ind fun _ => Keeps.modify fun _ => rfl

theorem keeps_saved_ri : Keeps Vt.savedPart ri := by
  refine Keeps.get.bind fun t => ?_
  dsimp only
  exact Keeps.ite (Keeps.bind keeps_saved_onScreen fun _ => keeps_saved_onScreen) keeps_saved_onScreen

theorem keeps_saved_hts : Keeps Vt.savedPart hts := Keeps.modify fun _ => rfl

theorem keeps_saved_tbc : Keeps Vt.savedPart (tbc a) := by
  intro t
  rw [tbc, ends_modify, Vt.savedPart, Vt.savedPart]

theorem keeps_saved_ed {honorProtected : Bool} : Keeps Vt.savedPart (ed a honorProtected) := by
  refine Keeps.get.bind fun t => ?_
  dsimp only
  refine Keeps.ite (Keeps.ite ?_ ?_) (Keeps.ite ?_ (Keeps.ite ?_ Keeps.pure))
  · refine Keeps.bind keeps_saved_onScreen fun _ => Keeps.bind keeps_saved_onScreen fun _ => ?_
    exact Keeps.bind keeps_saved_onScreen fun _ => keeps_saved_onScreen
  · exact Keeps.bind keeps_saved_onScreen fun _ => keeps_saved_onScreen
  · refine Keeps.bind keeps_saved_onScreen fun _ => Keeps.bind keeps_saved_onScreen fun _ => ?_
    exact Keeps.bind keeps_saved_onScreen fun _ => keeps_saved_onScreen
  · exact Keeps.bind keeps_saved_onScreen fun _ => keeps_saved_onScreen

theorem keeps_saved_el {honorProtected : Bool} : Keeps Vt.savedPart (el a honorProtected) := by
  refine Keeps.get.bind fun t => ?_
  exact Keeps.ite keeps_saved_onScreen (Keeps.ite keeps_saved_onScreen (Keeps.ite keeps_saved_onScreen Keeps.pure))

theorem keeps_saved_scrollFromCursor {scroll : ℤ → ℤ → ℤ → ScreenM Unit} {count : ℤ} :
    Keeps Vt.savedPart (scrollFromCursor scroll count) :=
  Keeps.get.bind fun _ => Keeps.ite keeps_saved_onScreen Keeps.pure

theorem keeps_saved_decaln : Keeps Vt.savedPart decaln := by
  refine Keeps.get.bind fun t => Keeps.bind keeps_saved_onScreen fun _ => ?_
  exact Keeps.bind keeps_saved_onScreen fun _ => keeps_saved_onScreen

theorem keeps_saved_toFirstColumn : Keeps Vt.savedPart toFirstColumn := Keeps.get.bind fun _ => keeps_saved_onScreen

theorem keeps_saved_times {n : ℤ} {body : VtM Unit} (h : Keeps Vt.savedPart body) : Keeps Vt.savedPart (times n body) :=
  Keeps.forM fun _ => h

theorem keeps_saved_handleControlChar {ch : UInt8} : Keeps Vt.savedPart (handleControlChar ch) := by
  refine Keeps.get.bind fun t => ?_
  split
  · exact Keeps.ite keeps_saved_onScreen Keeps.pure
  · exact keeps_saved_onScreen
  · exact Keeps.get.bind fun _ => keeps_saved_onScreen
  · exact keeps_saved_onScreen
  · exact keeps_saved_onScreen
  · exact keeps_saved_onScreen
  · exact keeps_saved_onScreen
  · exact Keeps.pure

theorem keeps_saved_handleC1 {ch : UInt8} : Keeps Vt.savedPart (handleC1 a ch) := by
  unfold handleC1
  split
  · exact keeps_saved_unlessPrivate keeps_saved_ind
  · exact keeps_saved_unlessPrivate keeps_saved_nel
  · exact keeps_saved_hts
  · exact keeps_saved_unlessPrivate keeps_saved_ri
  · exact keeps_saved_handleControlChar

theorem keeps_saved_handle (h : LeavesSaved e (.call call)) :
    Keeps Vt.savedPart (handle looks e call.args call.handler) := by
  obtain ⟨handler, args⟩ := call
  cases handler with
  | decsc | saveCursor | ris | decstr => exact h.elim
  | printCharacter glyph => exact Keeps.get.bind fun _ => keeps_saved_onScreen
  | handleControlChar ch => exact keeps_saved_handleC1
  | decrc => exact keeps_saved_decrc
  | ind => exact keeps_saved_unlessPrivate keeps_saved_ind
  | nel => exact keeps_saved_unlessPrivate keeps_saved_nel
  | hts => exact keeps_saved_hts
  | ri => exact keeps_saved_unlessPrivate keeps_saved_ri
  | eraseToEndOfScreen =>
    exact Keeps.get.bind fun _ => Keeps.bind keeps_saved_onScreen fun _ => keeps_saved_onScreen
  | eraseToEndOfLine => exact Keeps.get.bind fun _ => keeps_saved_onScreen
  | dechdl topHalf => exact Keeps.bind keeps_saved_onScreen fun _ => keeps_saved_onScreen
  | decaln => exact keeps_saved_decaln
  | cnl | cpl => exact keeps_saved_unlessPrivate (Keeps.bind keeps_saved_onScreen fun _ => keeps_saved_toFirstColumn)
  | cha | vpa => exact keeps_saved_unlessPrivate (Keeps.get.bind fun _ => keeps_saved_onScreen)
  | cht => exact keeps_saved_unlessPrivate (keeps_saved_times (Keeps.get.bind fun _ => keeps_saved_onScreen))
  | ed => exact keeps_saved_ed
  | el => exact keeps_saved_el
  | il | dl => exact keeps_saved_unlessPrivate keeps_saved_scrollFromCursor
  | su | sd | ech => exact keeps_saved_unlessPrivate (Keeps.get.bind fun _ => keeps_saved_onScreen)
  | cbt | rep => exact keeps_saved_unlessPrivate (keeps_saved_times (Keeps.get.bind fun _ => keeps_saved_onScreen))
  | tbc => exact keeps_saved_unlessPrivate keeps_saved_tbc
  | sgr | decsca => exact Keeps.modify fun _ => rfl
  | decstbm => exact keeps_saved_decstbm
  | restoreCursor =>
    exact keeps_saved_unlessPrivate (Keeps.get.bind fun _ => Keeps.ite keeps_saved_onScreen Keeps.pure)
  | setToggle value => exact keeps_saved_setToggle h
  | ich | cuu | cud | cuf | cub | cup | hvp | dch => exact keeps_saved_unlessPrivate keeps_saved_onScreen
  | cursorUp | cursorDown | cursorRight | cursorLeft | cursorHome | decswl | decdwl => exact keeps_saved_onScreen
  | cursorAddress line column => exact keeps_saved_onScreen
  | _ => exact Keeps.pure

/-! ### The character sets -/

theorem savedPart_toggle {saved decPrivateModeFlag value : Bool} {mode : ℤ}
    (h : value = true → e.anyXterm = true → decPrivateModeFlag = true → mode ≠ 1048 ∧ mode ≠ 1049) :
    (c.toggle saved e decPrivateModeFlag value mode).savedPart = c.savedPart := by
  unfold Charsets.toggle
  split_ifs with _ hmode hset
  · rfl
  · have := h hset hmode.2.2 hmode.1
    exact absurd hmode.2.1 (by omega)
  · unfold Charsets.restore
    split_ifs <;> rfl
  · rfl

theorem savedPart_foldl {saved decPrivateModeFlag value : Bool} {modes : List ℤ}
    (h : value = true → e.anyXterm = true → decPrivateModeFlag = true → 1048 ∉ modes ∧ 1049 ∉ modes) :
    (modes.foldl (Charsets.toggle saved e decPrivateModeFlag value) c).savedPart = c.savedPart := by
  induction modes generalizing c with
  | nil => rfl
  | cons mode modes ih =>
    have hfirst : value = true → e.anyXterm = true → decPrivateModeFlag = true → mode ≠ 1048 ∧ mode ≠ 1049 := by
      intro hset hxterm hprivate
      obtain ⟨h1048, h1049⟩ := h hset hxterm hprivate
      exact ⟨fun hmode => h1048 (hmode ▸ List.mem_cons_self), fun hmode => h1049 (hmode ▸ List.mem_cons_self)⟩
    rw [List.foldl_cons, ih fun hset hxterm hprivate => ?_, savedPart_toggle hfirst]
    obtain ⟨h1048, h1049⟩ := h hset hxterm hprivate
    exact ⟨fun hmem => h1048 (List.mem_cons_of_mem _ hmem), fun hmem => h1049 (List.mem_cons_of_mem _ hmem)⟩

theorem savedPart_perform {saved : Bool} (h : LeavesSaved e (.call call)) :
    (c.perform saved e call).savedPart = c.savedPart := by
  obtain ⟨handler, args⟩ := call
  cases handler with
  | decsc | ris | decstr => exact h.elim
  | lockshift mode => cases mode <;> rfl
  | designate set charset =>
    match set with
    | 0 | 1 | 2 | 3 => rfl
  | handleControlChar ch =>
    simp only [Charsets.perform, Charsets.handleControlChar]
    split <;> rfl
  | decrc =>
    simp only [Charsets.perform, Charsets.restore]
    split <;> rfl
  | decscl =>
    simp only [Charsets.perform, Charsets.decscl]
    split <;> rfl
  | setToggle value => exact savedPart_foldl h
  | _ => rfl

/-- Where the character comes from leaves the character sets alone. -/
theorem eq_of_shown {d : Charsets} {look : Except Fault UInt32} {shown : UInt32}
    (h : (do let shown ← look; pure (shown, c)) = (.ok (shown, d) : Except Fault (UInt32 × Charsets))) : d = c := by
  cases look with
  | error fault => cases h
  | ok shown => cases h; rfl

theorem savedPart_mapCharacter {d : Charsets} {ch : UInt8} {shown : UInt32}
    (h : c.mapCharacter tables e ch = .ok (shown, d)) : d.savedPart = c.savedPart := by
  unfold Charsets.mapCharacter at h
  split_ifs at h
  · cases h
    rfl
  · rw [eq_of_shown h]
  · rw [eq_of_shown h]
  · rw [eq_of_shown h]
  · have hused := eq_of_shown h
    rw [hused]
    rfl

/-! ### Runs -/

namespace Whole

theorem saved_eq {v w : Whole} (hvt : v.vt.savedPart = w.vt.savedPart)
    (hcharsets : v.charsets.savedPart = w.charsets.savedPart) (hmark : v.savedIsDefaultColor = w.savedIsDefaultColor) :
    v.saved = w.saved := by
  simp only [Vt.savedPart, Charsets.savedPart, Prod.mk.injEq] at hvt hcharsets
  ext <;> simp only [saved, hvt, hcharsets, hmark]

theorem keeps_saved_perform (h : LeavesSaved e (.call call)) : Keeps saved (perform looks marks e call) := by
  intro w
  have hvt : Keeps Vt.savedPart (Terminal.perform looks e call) :=
    Keeps.bind (keeps_saved_handle h) fun _ => Keeps.modify fun _ => rfl
  have hmark : w.savedMarked call = w.savedIsDefaultColor := by
    unfold savedMarked
    split
    · rename_i hris
      simp only [LeavesSaved, hris] at h
    · rename_i hdecstr
      simp only [LeavesSaved, hdecstr] at h
    · rfl
  rw [perform, ends_bind, ends_get, ends_bind, ends_zoom]
  refine (hvt w.vt).post fun _ vt hkept => ?_
  rw [ends_modify]
  exact saved_eq hkept (savedPart_perform h) hmark

theorem keeps_saved_showGlyph {glyph : Glyph} : Keeps saved (showGlyph looks tables e glyph) := by
  intro w
  have hvt : Keeps Vt.savedPart (Terminal.showGlyph looks glyph) := by
    refine Keeps.get.bind fun t => Keeps.modifyThen (fun _ => rfl) ?_
    exact keeps_saved_onScreen
  rw [showGlyph, ends_bind, ends_get, ends_bind, ends_zoom]
  refine (hvt w.vt).post fun _ vt hkept => ?_
  cases glyph with
  | mapped ch =>
    cases hmapped : w.charsets.mapCharacter tables e ch with
    | error fault => simp only [hmapped, ends_throw]
    | ok shown =>
      simp only [hmapped, ends_modify]
      exact saved_eq hkept (savedPart_mapCharacter hmapped) rfl
  | _ => exact saved_eq hkept rfl rfl

theorem keeps_saved_step (h : LeavesSaved e event) : Keeps saved (step looks marks tables e event) := by
  cases event with
  | call call => exact keeps_saved_perform h
  | glyph glyph => exact keeps_saved_showGlyph

/-- What is there in between stays in the screen. -/
theorem bounded_step (hw : w.vt.band.Bounded) :
    Ends (step looks marks tables e event) (fun _ => True) (fun _ u => u.vt.band.Bounded) w := by
  have hsound : Sound False w.vt := ⟨hw, False.elim⟩
  cases event with
  | call call =>
    rw [step, perform, ends_bind, ends_get, ends_bind, ends_zoom]
    exact (hsound.perform (fun h => h.elim)).post fun _ vt hvt => hvt.bounded
  | glyph glyph =>
    rw [step, showGlyph, ends_bind, ends_get, ends_bind, ends_zoom]
    refine (hsound.showGlyph (fun h => h.elim)).post fun _ vt hvt => ?_
    cases glyph with
    | mapped ch =>
      cases hmapped : w.charsets.mapCharacter tables e ch with
      | error fault => simp only [hmapped, ends_throw]
      | ok shown =>
        simp only [hmapped, ends_modify]
        exact hvt.bounded
    | _ => exact hvt.bounded

/-- DECSC saves all but the marker. -/
theorem ends_decsc : Ends (perform looks marks e ⟨.decsc, a⟩) (fun _ => True)
    (fun _ u => u.saved = { w.current with isDefaultColor := w.savedIsDefaultColor } ∧ u.vt.band = w.vt.band) w := by
  rw [perform, ends_bind, ends_get, ends_bind, ends_zoom]
  exact ⟨rfl, rfl⟩

/-- What DECRC needs: the row and the column are taken as they are in the modes and margins of now, and the marker is
what it was at the last reset. -/
structure Comes (w v : Whole) : Prop where
  row : v.vt.band.Stands w.vt.cursorY
  column : v.vt.Reaches w.vt.cursorX
  isDefaultColor : w.savedIsDefaultColor = w.isDefaultColor

/-- What DECRC leaves, if something has been saved. -/
structure Recalled (e : Emulation) (v u : Whole) : Prop where
  row : u.vt.cursorY = v.vt.band.landing v.vt.savedCursorY
  column : ∃ doubleWidth, u.vt.cursorX = (v.vt.toColumn v.vt.savedCursorX doubleWidth).cursorX
  originMode : u.vt.originMode = v.vt.savedOriginMode
  attributes : u.vt.currentColor = v.vt.savedAttributes
  linewrap : e = .vt220 → u.vt.lineWrap = v.vt.savedLinewrap
  isDefaultColor : u.isDefaultColor = v.savedIsDefaultColor
  charsets : u.charsets = v.charsets.restore true e

theorem ends_recalled {v : Whole} (hv : v.vt.band.Bounded) (hhas : v.vt.savedCursorX ≠ -1) :
    Ends (perform looks marks e ⟨.decrc, a⟩) (fun _ => True) (fun _ u => Recalled e v u) v := by
  have hcharsets : v.charsets.perform v.hasSaved e ⟨.decrc, a⟩ = v.charsets.restore true e := by
    rw [hasSaved, decide_eq_true hhas]
    rfl
  have hmarked : v.marked marks e ⟨.decrc, a⟩ = v.savedIsDefaultColor := if_pos (decide_eq_true hhas)
  rw [perform, ends_bind, ends_get, ends_bind, ends_zoom, Terminal.perform, ends_bind]
  change Ends (decrc e) _ _ v.vt
  rw [decrc, ends_bind, ends_get, if_pos hhas, ends_bind, ends_onScreen]
  refine (ends_position hv).post fun _ s hs => ?_
  obtain ⟨hband, -, doubleWidth, hcolumn⟩ := hs
  simp only [ends_modify]
  have hrow : s.cursorY = v.vt.band.landing v.vt.savedCursorY := congrArg Band.cursorY hband
  have hcol : s.cursorX = (v.vt.toColumn v.vt.savedCursorX doubleWidth).cursorX := cursorX_of_besideRows hcolumn
  refine ⟨hrow, ⟨doubleWidth, hcol⟩, rfl, rfl, ?_, hmarked, hcharsets⟩
  rintro rfl
  rfl

/-- DECRC, where all but the marker has been saved. -/
theorem ends_decrc {v : Whole} (hx : 0 ≤ w.vt.cursorX) (hv : v.vt.band.Bounded)
    (hsaved : v.saved = { w.current with isDefaultColor := w.savedIsDefaultColor }) :
    Ends (perform looks marks e ⟨.decrc, a⟩) (fun _ => True)
      (fun _ u => Restored e w.current u.current ↔ Comes w v) v := by
  have hx' : v.vt.savedCursorX = w.vt.cursorX := congrArg Saved.cursorX hsaved
  have hy : v.vt.savedCursorY = w.vt.cursorY := congrArg Saved.cursorY hsaved
  have hmark : v.savedIsDefaultColor = w.savedIsDefaultColor := congrArg Saved.isDefaultColor hsaved
  refine (ends_recalled hv (by omega)).post fun _ u hu => ?_
  obtain ⟨doubleWidth, hcol⟩ := hu.column
  have hrow := hu.row
  rw [hy] at hrow
  rw [hx'] at hcol
  constructor
  · intro h
    refine ⟨(Band.landing_eq_iff hv.top).mp (hrow.symm.trans h.cursorY),
      toColumn_eq_iff.mp (hcol.symm.trans h.cursorX), ?_⟩
    exact hmark.symm.trans (hu.isDefaultColor.symm.trans h.isDefaultColor)
  · intro h
    refine ⟨hcol.trans (toColumn_eq_iff.mpr h.column), hrow.trans ((Band.landing_eq_iff hv.top).mpr h.row),
      hu.originMode.trans (congrArg Saved.originMode hsaved), hu.attributes.trans (congrArg Saved.attributes hsaved),
      hu.isDefaultColor.trans (hmark.trans h.isDefaultColor),
      (congrArg Charsets.g0Charset hu.charsets).trans (congrArg Saved.g0Charset hsaved),
      (congrArg Charsets.g1Charset hu.charsets).trans (congrArg Saved.g1Charset hsaved), ?_⟩
    rintro rfl
    exact ⟨(congrArg Charsets.g2Charset hu.charsets).trans (congrArg Saved.g2Charset hsaved),
      (congrArg Charsets.g3Charset hu.charsets).trans (congrArg Saved.g3Charset hsaved),
      (congrArg Charsets.grCharset hu.charsets).trans (congrArg Saved.grCharset hsaved),
      (congrArg Charsets.lockshiftGl hu.charsets).trans (congrArg Saved.lockshiftGl hsaved),
      (congrArg Charsets.lockshiftGr hu.charsets).trans (congrArg Saved.lockshiftGr hsaved),
      (hu.linewrap rfl).trans (congrArg Saved.linewrap hsaved)⟩

/-- DECRC restores what there was at DECSC if and only if it can. -/
theorem restores_iff (hw : w.vt.band.Bounded) (hx : 0 ≤ w.vt.cursorX) {events : List Event}
    (hevents : ∀ event ∈ events, LeavesSaved e event) (a b : Args) :
    Ends (perform looks marks e ⟨.decsc, a⟩) (fun _ => True)
      (fun _ u => Ends (events.forM (step looks marks tables e)) (fun _ => True)
        (fun _ v => Ends (perform looks marks e ⟨.decrc, b⟩) (fun _ => True)
          (fun _ x => Restored e w.current x.current ↔ Comes w v) v) u) w := by
  refine ends_decsc.post fun _ u hu => ?_
  have hrun : Ends (events.forM (step looks marks tables e)) (fun _ => True)
      (fun _ v => v.vt.band.Bounded ∧ v.saved = u.saved) u := by
    have hstart : u.vt.band.Bounded := hu.2 ▸ hw
    clear hu
    induction events generalizing u with
    | nil => exact ⟨hstart, rfl⟩
    | cons event events ih =>
      have hquiet := hevents _ List.mem_cons_self
      refine ((bounded_step hstart).and (keeps_saved_step hquiet u)).bind fun _ v hv => ?_
      refine (ih (fun event hmem => hevents _ (List.mem_cons_of_mem _ hmem)) v hv.1).post fun _ x hx' => ?_
      exact ⟨hx'.1, hx'.2.trans hv.2⟩
  exact hrun.post fun _ v hv => ends_decrc hx hv.1 (hv.2.trans hu.1)

/-- A terminal that has just been reset, with a region from row 4 to row 9. -/
def inRegion : Whole where
  vt := { Vt.blank .vt100 with scrollRegionTop := 4, scrollRegionBottom := 9 }
  charsets := .reset
  isDefaultColor := false
  savedIsDefaultColor := false

/-- DECSC and DECRC with nothing in between. -/
theorem restores_at_once : Ends (perform plainLooks (fun _ _ _ mark => mark) .vt100 ⟨.decsc, .clear⟩) (fun _ => True)
    (fun _ u => Ends (([] : List Event).forM (step plainLooks (fun _ _ _ mark => mark)
        ⟨fun _ ch => ch.toUInt32, UInt8.toUInt32⟩ .vt100)) (fun _ => True)
      (fun _ v => Ends (perform plainLooks (fun _ _ _ mark => mark) .vt100 ⟨.decrc, .clear⟩) (fun _ => True)
        (fun _ x => Restored .vt100 inRegion.current x.current ↔ Comes inRegion v) v) u)
    inRegion :=
  restores_iff ⟨by decide, by decide, by decide, by decide, by decide⟩ (by decide)
    (fun _ h => absurd h (by simp)) .clear
    .clear

/-- Origin mode is set in between, and DECRC counts the row from the top margin. -/
theorem not_restores : ¬ Ends (perform plainLooks (fun _ _ _ mark => mark) .vt100 ⟨.decsc, .clear⟩) (fun _ => True)
    (fun _ u => Ends ([Event.call ⟨.setToggle true, ⟨[[0x36]], 0, true, [0x3F]⟩⟩].forM
        (step plainLooks (fun _ _ _ mark => mark) ⟨fun _ ch => ch.toUInt32, UInt8.toUInt32⟩ .vt100)) (fun _ => True)
      (fun _ v => Ends (perform plainLooks (fun _ _ _ mark => mark) .vt100 ⟨.decrc, .clear⟩) (fun _ => True)
        (fun _ x => Restored .vt100 inRegion.current x.current) v) u) inRegion := by
  decide +kernel

end Whole
end CProgram.Terminal
