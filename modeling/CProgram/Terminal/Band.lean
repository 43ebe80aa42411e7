import CProgram.Terminal.Handlers

/-! The rows of the screen: the scrolling region, the cursor's row and the origin mode. All that is written,
erased and scrolled leaves them alone; what moves the cursor does arithmetic on them. -/
namespace CProgram.Terminal
open CProgram.Programs

/-- The rows of a screen. -/
@[ext] structure Band where
  rows : ℤ
  top : ℤ
  bottom : ℤ
  cursorY : ℤ
  originMode : Bool
deriving DecidableEq, Repr

namespace Band
variable {b : Band}

/-- The scrolling region is a part of the screen, and so is the cursor's row. -/
structure Bounded (b : Band) : Prop where
  top : 0 ≤ b.top
  region : b.top ≤ b.bottom
  bottom : b.bottom ≤ b.rows - 1
  cursor : 0 ≤ b.cursorY
  row : b.cursorY ≤ b.rows - 1

/-- In origin mode the cursor is inside the scrolling region. -/
def Inside (b : Band) : Prop := b.originMode = true → b.top ≤ b.cursorY ∧ b.cursorY ≤ b.bottom

instance : Decidable b.Inside := inferInstanceAs (Decidable (_ → _))

/-- So many rows down, to the bottom of the region or of the screen. -/
def down (count : ℤ) (honorScrollRegion : Bool) (b : Band) : Band :=
  let limit := if honorScrollRegion then b.bottom else b.rows - 1
  { b with cursorY := max b.cursorY (min (b.cursorY + count.toNat) limit) }

def up (count : ℤ) (honorScrollRegion : Bool) (b : Band) : Band :=
  let limit := if honorScrollRegion then b.top else 0
  { b with cursorY := min b.cursorY (max (b.cursorY - count.toNat) limit) }

/-- The row of `cursor_position`. -/
def landing (row : ℤ) (b : Band) : ℤ := min (b.rows - 1) (if b.originMode then row + b.top else row)

def position (row : ℤ) (b : Band) : Band := { b with cursorY := b.landing row }

/-- The row after a line is wrapped, wherever the region ends. -/
def wrap (b : Band) : Band := { b with cursorY := if b.cursorY < b.rows - 1 then b.cursorY + 1 else b.cursorY }

def linefeed (b : Band) : Band := { b with cursorY := if b.cursorY < b.bottom then b.cursorY + 1 else b.cursorY }

end Band

namespace Screen

def band (s : Screen) : Band where
  rows := s.rows
  top := s.scrollRegionTop
  bottom := s.scrollRegionBottom
  cursorY := s.cursorY
  originMode := s.originMode

end Screen
open Screen

/-- The view does not show the list of lines, nor the cursor's place in it. -/
class Unlisted {γ : Type} (view : Screen → γ) : Prop where
  same (s : Screen) (lines : ℕ → Option Line) (fresh : ℕ) (buffer last current position : Option ℕ)
    (scrollbackLines : ℤ) : view { s with
      lines := lines
      fresh := fresh
      buffer := buffer
      last := last
      current := current
      position := position
      scrollbackLines := scrollbackLines } = view s

variable {γ : Type} {view : Screen → γ} [Unlisted view] {s t : Screen} {p : Option ℕ}

instance : Unlisted band := ⟨fun _ _ _ _ _ _ _ _ => rfl⟩

theorem unlisted (h : t = { s with
    lines := t.lines
    fresh := t.fresh
    buffer := t.buffer
    last := t.last
    current := t.current
    position := t.position
    scrollbackLines := t.scrollbackLines }) : view t = view s := by
  rw [h]
  exact Unlisted.same ..

/-! ### What is written -/

omit [Unlisted view] in
theorem keeps_lineAt : Keeps view (lineAt p) := by
  intro s
  cases p with
  | none => trivial
  | some a =>
    simp only [lineAt, ends_bind, ends_get]
    cases s.lines a with
    | none => trivial
    | some line => rfl

theorem keeps_alter {f : Line → Line} : Keeps view (alter p f) := by
  apply Keeps.bind keeps_lineAt
  intro line
  cases p with
  | none => exact Keeps.throw
  | some a => exact Keeps.modify fun s => unlisted rfl

theorem keeps_textAt : Keeps view (textAt p) := Keeps.bind keeps_lineAt fun _ => Keeps.pure

theorem keeps_nextOf : Keeps view (nextOf p) := Keeps.bind keeps_lineAt fun _ => Keeps.pure

theorem keeps_prevOf : Keeps view (prevOf p) := Keeps.bind keeps_lineAt fun _ => Keeps.pure

theorem keeps_onText {f : Text → Except Fault Text} : Keeps view (onText p f) := by
  apply Keeps.bind keeps_textAt
  intro text
  cases f text with
  | error fault => exact Keeps.throw
  | ok text => exact keeps_alter

theorem keeps_xmalloc {line : Line} : Keeps view (xmalloc line) :=
  fun _ => unlisted rfl

theorem keeps_xfree : Keeps view (xfree p) := by
  apply Keeps.bind keeps_lineAt
  intro line
  cases p with
  | none => exact Keeps.throw
  | some a => exact Keeps.modify fun s => unlisted rfl

/-! ### The list of lines -/

theorem keeps_climb {n : ℕ} : Keeps view (climb n p) := by
  induction n generalizing p with
  | zero => exact Keeps.pure
  | succ n ih =>
    apply Keeps.bind keeps_prevOf
    intro prev
    cases prev with
    | none => exact Keeps.pure
    | some up => exact ih

theorem keeps_findTop : Keeps view findTop := by
  apply Keeps.get.bind
  intro s
  apply Keeps.ite Keeps.throw
  apply Keeps.bind keeps_climb
  intro found
  exact Keeps.bind keeps_nextOf fun _ => Keeps.pure

theorem keeps_rollHead : Keeps view rollHead := by
  apply Keeps.get.bind
  intro s
  apply Keeps.bind keeps_nextOf
  intro next
  refine Keeps.modifyThen (fun _ => unlisted rfl) ?_
  exact Keeps.bind keeps_alter fun _ => keeps_xfree

theorem keeps_rollTop : Keeps view (rollTop p) := by
  apply Keeps.bind keeps_lineAt
  intro line
  apply Keeps.bind keeps_alter
  intro _
  dsimp only
  exact Keeps.ite (Keeps.bind keeps_alter fun _ => keeps_xfree) keeps_xfree

theorem keeps_attach {a : ℕ} : Keeps view (attach a) := by
  intro s
  rw [attach, ends_bind, ends_get, ends_ite]
  refine ⟨fun _ => unlisted rfl, fun _ => ?_⟩
  refine (Keeps.bind keeps_findTop fun top => ?_) s
  apply Keeps.bind keeps_alter
  intro _
  apply Keeps.bind keeps_alter
  intro _
  exact Keeps.modifyThen (fun _ => unlisted rfl) Keeps.pure

theorem keeps_newScrollbackLine : Keeps view newScrollbackLine := by
  apply Keeps.get.bind
  intro s
  apply Keeps.bind keeps_xmalloc
  intro a
  apply Keeps.bind keeps_attach
  intro top
  apply Keeps.ite
  · exact Keeps.ite keeps_rollHead keeps_rollTop
  · exact Keeps.modify fun _ => unlisted rfl

theorem keeps_rollTail : Keeps view rollTail := by
  apply Keeps.get.bind
  intro s
  apply Keeps.bind keeps_lineAt
  intro line
  refine Keeps.modifyThen (fun _ => unlisted rfl) ?_
  apply Keeps.bind keeps_alter
  intro _
  apply Keeps.bind keeps_xfree
  intro _
  apply Keeps.ite _ Keeps.pure
  exact Keeps.bind keeps_prevOf fun _ => Keeps.modify fun _ => unlisted rfl

theorem keeps_insertBefore {a : ℕ} : Keeps view (insertBefore p a) := by
  intro s
  rw [insertBefore, ends_bind, ends_get, ends_ite]
  refine ⟨fun _ => unlisted rfl, fun _ => ?_⟩
  refine (Keeps.bind keeps_prevOf fun prev => ?_) s
  apply Keeps.bind keeps_alter
  intro _
  apply Keeps.bind keeps_alter
  intro _
  exact Keeps.bind keeps_prevOf fun _ => Keeps.modify fun _ => unlisted rfl

theorem keeps_insertScrollbackLine : Keeps view (insertScrollbackLine p) := by
  apply Keeps.ite Keeps.throw
  apply Keeps.get.bind
  intro s
  apply Keeps.bind keeps_xmalloc
  intro a
  apply Keeps.bind keeps_insertBefore
  intro _
  exact Keeps.ite keeps_rollTail (Keeps.modify fun _ => unlisted rfl)

theorem keeps_stepDown : Keeps view (stepDown p) := by
  apply Keeps.bind keeps_nextOf
  intro next
  dsimp only
  exact Keeps.ite (Keeps.bind keeps_newScrollbackLine fun _ => keeps_nextOf) keeps_nextOf

theorem keeps_stepUp : Keeps view (stepUp p) := by
  apply Keeps.bind keeps_prevOf
  intro prev
  dsimp only
  exact Keeps.ite (Keeps.bind keeps_insertScrollbackLine fun _ => keeps_prevOf) keeps_prevOf

/-! ### Erasing and scrolling -/

theorem keeps_fillLineWithCharacter {start stop : ℤ} {ch : UInt32} {honorProtected : Bool} :
    Keeps view (fillLineWithCharacter start stop ch honorProtected) := Keeps.get.bind fun _ => keeps_onText

theorem keeps_eraseLine {start stop : ℤ} {honorProtected : Bool} :
    Keeps view (eraseLine start stop honorProtected) := keeps_fillLineWithCharacter

theorem keeps_eraseRows {startCol endCol : ℤ} {honorProtected : Bool} {n : ℕ} :
    Keeps view (eraseRows startCol endCol honorProtected n p) := by
  induction n generalizing p with
  | zero => exact Keeps.pure
  | succ n ih =>
    refine Keeps.modifyThen (fun _ => unlisted rfl) ?_
    apply Keeps.bind keeps_eraseLine
    intro _
    apply Keeps.ite Keeps.pure
    exact Keeps.bind keeps_stepDown fun _ => ih

theorem keeps_eraseScreen {startRow startCol endRow endCol : ℤ} {honorProtected : Bool} :
    Keeps view (eraseScreen startRow startCol endRow endCol honorProtected) := by
  apply Keeps.ite Keeps.pure
  apply Keeps.get.bind
  intro s
  apply Keeps.bind keeps_findTop
  intro top
  apply (Keeps.repeatFrom fun _ => keeps_stepDown).bind
  intro startLine
  apply Keeps.bind keeps_eraseRows
  intro _
  exact Keeps.modify fun _ => unlisted rfl

theorem keeps_copyUp {left right : ℤ} {color : Attr} {n : ℕ} {q : Option ℕ} :
    Keeps view (copyUp left right color n p q) := by
  induction n generalizing p q with
  | zero => exact Keeps.pure
  | succ n ih =>
    apply Keeps.bind keeps_textAt
    intro source
    apply Keeps.bind keeps_onText
    intro _
    apply Keeps.bind keeps_nextOf
    intro newNext
    apply Keeps.bind keeps_nextOf
    intro next
    exact Keeps.ite Keeps.pure ih

theorem keeps_rectangleScrollUp {top left bottom right count : ℤ} :
    Keeps view (rectangleScrollUp top left bottom right count) := by
  apply Keeps.ite Keeps.pure
  apply Keeps.ite Keeps.pure
  apply Keeps.ite keeps_eraseScreen
  apply Keeps.get.bind
  intro s
  apply Keeps.bind keeps_findTop
  intro screenTop
  apply (Keeps.repeatFrom fun _ => keeps_stepDown).bind
  intro newTopLine
  apply (Keeps.repeatFrom fun _ => keeps_stepDown).bind
  intro topLine
  exact Keeps.bind keeps_copyUp fun _ => keeps_eraseScreen

theorem keeps_copyDown {left right : ℤ} {color : Attr} {n : ℕ} {q : Option ℕ} :
    Keeps view (copyDown left right color n p q) := by
  induction n generalizing p q with
  | zero => exact Keeps.pure
  | succ n ih =>
    apply Keeps.bind keeps_onText
    intro _
    apply Keeps.bind keeps_textAt
    intro source
    apply Keeps.bind keeps_onText
    intro _
    apply Keeps.bind keeps_prevOf
    intro newPrev
    exact Keeps.bind keeps_prevOf fun _ => ih

theorem keeps_rectangleScrollDown {top left bottom right count : ℤ} :
    Keeps view (rectangleScrollDown top left bottom right count) := by
  apply Keeps.ite Keeps.pure
  apply Keeps.ite Keeps.pure
  apply Keeps.ite keeps_eraseScreen
  apply Keeps.get.bind
  intro s
  apply Keeps.bind keeps_findTop
  intro screenTop
  apply (Keeps.repeatFrom fun _ => keeps_stepDown).bind
  intro newBottomLine
  apply (Keeps.repeatFrom fun _ => keeps_stepUp).bind
  intro bottomLine
  exact Keeps.bind keeps_copyDown fun _ => keeps_eraseScreen

theorem keeps_scrollingRegionScrollUp {top bottom count : ℤ} :
    Keeps view (scrollingRegionScrollUp top bottom count) := keeps_rectangleScrollUp

theorem keeps_scrollingRegionScrollDown {top bottom count : ℤ} :
    Keeps view (scrollingRegionScrollDown top bottom count) := keeps_rectangleScrollDown

theorem keeps_deleteCharacter {count : ℤ} : Keeps view (deleteCharacter count) := by
  apply Keeps.get.bind
  intro s
  apply Keeps.bind keeps_textAt
  intro text
  exact Keeps.repeatFrom fun _ => keeps_onText

theorem keeps_insertBlanks {count : ℤ} : Keeps view (insertBlanks count) := Keeps.get.bind fun _ => keeps_onText

theorem keeps_setDoubleWidth {doubleWidth : Bool} : Keeps view (setDoubleWidth doubleWidth) :=
  Keeps.get.bind fun _ => keeps_onText

theorem keeps_setDoubleHeight {doubleHeight : ℕ} : Keeps view (setDoubleHeight doubleHeight) :=
  Keeps.get.bind fun _ => keeps_onText

theorem keeps_singleRows {n : ℕ} : Keeps view (singleRows n p) := by
  induction n generalizing p with
  | zero => exact Keeps.pure
  | succ n ih =>
    refine Keeps.modifyThen (fun _ => unlisted rfl) ?_
    apply Keeps.bind keeps_setDoubleWidth
    intro _
    apply Keeps.ite Keeps.pure
    exact Keeps.bind keeps_stepDown fun _ => ih

theorem keeps_setSingleWidth {startRow endRow : ℤ} : Keeps view (setSingleWidth startRow endRow) := by
  apply Keeps.ite Keeps.pure
  apply Keeps.get.bind
  intro s
  apply Keeps.bind keeps_findTop
  intro top
  apply (Keeps.repeatFrom fun _ => keeps_stepDown).bind
  intro startLine
  apply Keeps.bind keeps_singleRows
  intro _
  exact Keeps.modify fun _ => unlisted rfl

theorem keeps_eraseTail : Keeps view eraseTail := by
  apply Keeps.get.bind
  intro s
  apply Keeps.bind keeps_textAt
  intro text
  exact Keeps.ite keeps_eraseLine Keeps.pure

theorem keeps_invertRows {n : ℕ} : Keeps view (invertRows n) := by
  induction n with
  | zero => exact Keeps.pure
  | succ n ih =>
    apply Keeps.get.bind
    intro s
    apply Keeps.bind keeps_onText
    intro _
    apply Keeps.bind keeps_eraseTail
    intro _
    dsimp only
    apply Keeps.ite
    · exact Keeps.bind keeps_nextOf fun next => Keeps.modifyThen (fun _ => unlisted rfl) ih
    · exact Keeps.bind keeps_stepDown fun next => Keeps.modifyThen (fun _ => unlisted rfl) ih

theorem keeps_invertScrollbackColors : Keeps view invertScrollbackColors := by
  apply Keeps.get.bind
  intro s
  apply Keeps.bind keeps_findTop
  intro top
  refine Keeps.modifyThen (fun _ => unlisted rfl) ?_
  apply Keeps.bind keeps_invertRows
  intro _
  exact Keeps.modify fun _ => unlisted rfl

/-! ### The columns of the cursor -/

theorem keeps_leaveMargin {count : ℤ} : Keeps band (modify (leaveMargin count) : ScreenM Unit) :=
  Keeps.modify fun _ => rfl

theorem band_leftOne {honorScrollRegion : Bool} : (s.leftOne honorScrollRegion).band = s.band := by
  unfold leftOne
  split <;> rfl

theorem keeps_cursorLeft {count : ℤ} {honorScrollRegion : Bool} :
    Keeps band (cursorLeft count honorScrollRegion) := by
  apply Keeps.bind keeps_leaveMargin
  intro _
  exact Keeps.repeatFrom fun _ => Keeps.modify fun _ => band_leftOne

theorem keeps_rightOne {honorScrollRegion : Bool} {rightMargin : ℤ} :
    Keeps band (rightOne honorScrollRegion rightMargin) := by
  apply Keeps.get.bind
  intro s
  apply Keeps.ite Keeps.pure
  apply Keeps.ite _ Keeps.pure
  apply Keeps.bind keeps_textAt
  intro text
  dsimp only
  apply Keeps.ite
  · exact Keeps.bind keeps_onText fun _ => Keeps.modify fun _ => rfl
  · exact Keeps.modify fun _ => rfl

theorem keeps_cursorRight {count : ℤ} {honorScrollRegion : Bool} :
    Keeps band (cursorRight count honorScrollRegion) := by
  apply Keeps.bind keeps_leaveMargin
  intro _
  apply Keeps.get.bind
  intro s
  apply Keeps.bind keeps_textAt
  intro text
  exact Keeps.repeatFrom fun _ => keeps_rightOne

theorem keeps_padAppended : Keeps view padAppended := by
  apply Keeps.get.bind
  intro s
  apply Keeps.bind keeps_textAt
  intro text
  apply Keeps.ite _ Keeps.pure
  exact Keeps.ite keeps_onText Keeps.throw

theorem keeps_pushLine : Keeps view pushLine := by
  apply Keeps.get.bind
  intro s
  apply Keeps.bind keeps_stepDown
  intro next
  exact Keeps.modifyThen (fun _ => unlisted rfl) keeps_onText

/-! ### The rows of the cursor -/

namespace Band
variable {b : Band} {honorScrollRegion : Bool} {n : ℕ}

theorem down_zero : b.down 0 honorScrollRegion = b := by
  ext <;> simp [down]

theorem down_down : (b.down n honorScrollRegion).down 1 honorScrollRegion = b.down (n + 1 : ℕ) honorScrollRegion := by
  ext <;> simp only [down]
  cases honorScrollRegion <;> simp <;> omega

theorem up_zero : b.up 0 honorScrollRegion = b := by
  ext <;> simp [up]

theorem up_up : (b.up n honorScrollRegion).up 1 honorScrollRegion = b.up (n + 1 : ℕ) honorScrollRegion := by
  ext <;> simp only [up]
  cases honorScrollRegion <;> simp <;> omega

theorem down_of_le (h : (if honorScrollRegion then b.bottom else b.rows - 1) ≤ b.cursorY) {count : ℤ} :
    b.down count honorScrollRegion = b := by
  ext <;> simp only [down]
  omega

theorem up_of_le (h : b.cursorY ≤ if honorScrollRegion then b.top else 0) {count : ℤ} :
    b.up count honorScrollRegion = b := by
  ext <;> simp only [up]
  omega

end Band

theorem ends_downOne {honorScrollRegion : Bool} :
    Ends (downOne honorScrollRegion) (fun _ => True) (fun _ t => t.band = s.band.down 1 honorScrollRegion) s := by
  rw [downOne, ends_bind, ends_get, ends_ite]
  refine ⟨fun hbelow => ?_, fun _ => ends_ite.mpr ⟨fun habove => ?_, fun hlimit => ?_⟩⟩
  · rw [ends_pure, Band.down_of_le]
    simp only [hbelow.1, if_true, band]
    omega
  · have hmoved : ({ s with cursorY := s.cursorY + 1 } : Screen).band = s.band.down 1 honorScrollRegion := by
      ext <;> simp only [Band.down, band]
      split at habove <;> simp [*] <;> omega
    rw [ends_bind, ends_set, ← hmoved]
    revert hmoved
    generalize ({ s with cursorY := s.cursorY + 1 } : Screen) = moved
    intro _
    refine (Keeps.bind keeps_nextOf fun next => Keeps.bind keeps_stepDown fun below => ?_) moved
    refine Keeps.modifyThen (fun _ => rfl) ?_
    exact Keeps.ite keeps_padAppended Keeps.pure
  · rw [ends_pure, Band.down_of_le]
    simpa only [band, not_lt] using hlimit

theorem ends_cursorDown {count : ℤ} {honorScrollRegion : Bool} :
    Ends (cursorDown count honorScrollRegion) (fun _ => True)
      (fun _ t => t.band = s.band.down count honorScrollRegion) s := by
  rw [cursorDown, ends_bind, ends_modify]
  have hloop : Ends (repeatFrom (fun _ => downOne honorScrollRegion) count.toNat ()) (fun _ => True)
      (fun _ t => t.band = s.band.down count.toNat honorScrollRegion) (s.leaveMargin count) := by
    refine ends_repeatFrom (I := fun k _ (t : Screen) => t.band = s.band.down k honorScrollRegion) Band.down_zero.symm ?_
    intro k _ t _ ht
    refine ends_downOne.post fun _ u hu => ?_
    rw [hu, ht, Band.down_down]
  refine hloop.post fun _ t ht => ?_
  rw [ht]
  simp [Band.down]

theorem ends_upOne {honorScrollRegion : Bool} :
    Ends (upOne honorScrollRegion) (fun _ => True) (fun _ t => t.band = s.band.up 1 honorScrollRegion) s := by
  rw [upOne, ends_bind, ends_get, ends_ite]
  refine ⟨fun habove => ?_, fun _ => ends_ite.mpr ⟨fun hbelow => ?_, fun hlimit => ?_⟩⟩
  · rw [ends_pure, Band.up_of_le]
    simp only [habove.1, if_true, band]
    omega
  · apply ((keeps_prevOf : Keeps band _) s).bind
    intro prev t _
    rw [ends_set]
    ext <;> simp only [Band.up, band]
    split at hbelow <;> simp [*] <;> omega
  · rw [ends_pure, Band.up_of_le]
    simpa only [band, not_lt] using hlimit

theorem ends_cursorUp {count : ℤ} {honorScrollRegion : Bool} :
    Ends (cursorUp count honorScrollRegion) (fun _ => True)
      (fun _ t => t.band = s.band.up count honorScrollRegion) s := by
  rw [cursorUp, ends_bind, ends_modify]
  have hloop : Ends (repeatFrom (fun _ => upOne honorScrollRegion) count.toNat ()) (fun _ => True)
      (fun _ t => t.band = s.band.up count.toNat honorScrollRegion) (s.leaveMargin count) := by
    refine ends_repeatFrom (I := fun k _ (t : Screen) => t.band = s.band.up k honorScrollRegion) Band.up_zero.symm ?_
    intro k _ t _ ht
    refine ends_upOne.post fun _ u hu => ?_
    rw [hu, ht, Band.up_up]
  refine hloop.post fun _ t ht => ?_
  rw [ht]
  simp [Band.up]

namespace Band
variable {b : Band} {row : ℤ}

/-- The row that a row of the whole screen, or of the scrolling region, is. -/
def absolute (row : ℤ) (b : Band) : ℤ := if b.originMode then row + b.top else row

theorem down_absolute (hb : b.Bounded) (h : b.cursorY < b.absolute row) :
    b.down (b.absolute row - b.cursorY) false = b.position row := by
  have hrow := hb.row
  ext <;> simp only [down, position, landing]
  simp only [absolute] at h ⊢
  simp
  omega

theorem up_absolute (hb : b.Bounded) (hrow : 0 ≤ row) (h : b.absolute row < b.cursorY) :
    b.up (b.cursorY - b.absolute row) false = b.position row := by
  have hlast := hb.row
  have htop := hb.top
  ext <;> simp only [up, position, landing]
  have habsolute : 0 ≤ b.absolute row := by
    unfold absolute
    split <;> omega
  simp only [absolute] at h habsolute ⊢
  simp
  omega

theorem position_of_eq (hb : b.Bounded) (h : b.cursorY = b.absolute row) : b.position row = b := by
  have hrow := hb.row
  ext <;> simp only [position, landing]
  simp only [absolute] at h
  omega

end Band

theorem ends_cursorPosition (hs : s.band.Bounded) {row col : ℤ} :
    Ends (cursorPosition row col) (fun _ => True) (fun _ t => t.band = s.band.position row ∧ 0 ≤ row) s := by
  rw [cursorPosition, ends_ite]
  refine ⟨fun _ => trivial, fun hplace => ?_⟩
  have hrow : 0 ≤ row := by omega
  rw [ends_bind, ends_get]
  apply ((keeps_textAt : Keeps band _) s).bind
  intro text u hu
  rw [ends_bind, ends_modify]
  have hband : (u.toColumn col text.doubleWidth).band = s.band := hu
  generalize u.toColumn col text.doubleWidth = v at hband
  have hstay : Keeps band (modify fun t => { t with vt100WrapLineFlag := false } : ScreenM Unit) :=
    Keeps.modify fun _ => rfl
  show Ends (if s.cursorY < s.band.absolute row then _ else _) _ _ v
  rw [ends_ite]
  refine ⟨fun hbelow => ?_, fun hmost => ends_ite.mpr ⟨fun habove => ?_, fun hequal => ?_⟩⟩
  · apply ends_cursorDown.bind
    intro _ t ht
    refine (hstay t).post fun _ w hw => ⟨?_, hrow⟩
    rw [hw, ht, hband]
    exact Band.down_absolute hs hbelow
  · apply ends_cursorUp.bind
    intro _ t ht
    refine (hstay t).post fun _ w hw => ⟨?_, hrow⟩
    rw [hw, ht, hband]
    exact Band.up_absolute hs hrow habove
  · refine (hstay v).post fun _ w hw => ⟨?_, hrow⟩
    rw [hw, hband, Band.position_of_eq hs]
    have hleast : ¬ s.band.absolute row < s.cursorY := hequal
    show s.cursorY = _
    omega

theorem ends_cursorLinefeed {newLineMode : Bool} :
    Ends (cursorLinefeed newLineMode) (fun _ => True) (fun _ t => t.band = s.band.linefeed) s := by
  have hstay : Keeps band (modify fun t => { t with
      cursorX := if newLineMode then 0 else t.cursorX
      vt100WrapLineFlag := false } : ScreenM Unit) := Keeps.modify fun _ => rfl
  rw [cursorLinefeed, ends_bind, ends_get, ends_ite]
  refine ⟨fun habove => ?_, fun hlimit => ?_⟩
  · have hmoved : ({ s with cursorY := s.cursorY + 1 } : Screen).band = s.band.linefeed := by
      simp [Band.linefeed, band, habove]
    rw [ends_bind, ends_set, ← hmoved]
    refine (Keeps.bind keeps_stepDown fun next => ?_) _
    exact Keeps.modifyThen (fun _ => rfl) hstay
  · have hstays : s.band.linefeed = s.band := by simp [Band.linefeed, band, hlimit]
    rw [hstays]
    refine (Keeps.ite ?_ ?_) s
    · exact Keeps.bind keeps_pushLine fun _ => hstay
    · exact Keeps.bind keeps_scrollingRegionScrollUp fun _ => hstay

theorem ends_cursorCarriageReturn :
    Ends cursorCarriageReturn (fun _ => True) (fun _ t => t.band = s.band ∨ t.band = s.band.linefeed) s := by
  have hstay : Keeps band (modify fun t => { t with vt100WrapLineFlag := false } : ScreenM Unit) :=
    Keeps.modify fun _ => rfl
  rw [cursorCarriageReturn, ends_bind, ends_modify, ends_bind, ends_get]
  have hband : ({ s with cursorX := 0 } : Screen).band = s.band := rfl
  generalize ({ s with cursorX := 0 } : Screen) = u at hband
  dsimp only
  rw [ends_ite]
  refine ⟨fun _ => ?_, fun _ => ?_⟩
  · apply ends_cursorLinefeed.bind
    intro _ t ht
    refine (hstay t).post fun _ v hv => Or.inr ?_
    rw [hv, ht, hband]
  · refine (hstay u).post fun _ v hv => Or.inl ?_
    rw [hv, hband]

namespace Band
variable {b : Band}

theorem bounded_linefeed (hb : b.Bounded) : b.linefeed.Bounded := by
  have h := hb.cursor
  have h' := hb.row
  have hbottom := hb.bottom
  refine ⟨hb.top, hb.region, hb.bottom, ?_, ?_⟩ <;> simp only [linefeed] <;> split <;> omega

theorem position_linefeed {row : ℤ} : b.linefeed.position row = b.position row := rfl

end Band

/-- Whatever it scrolls, a formfeed ends in the first row, which origin mode counts from the top margin. -/
theorem ends_cursorFormfeed (hs : s.band.Bounded) :
    Ends cursorFormfeed (fun _ => True) (fun _ t => t.band = s.band.position 0) s := by
  rw [cursorFormfeed, ends_bind, ends_get, ends_bind]
  have hloop : Ends (repeatFrom (fun _ => cursorLinefeed false) (2 * (s.rows - 1) - s.cursorY + 1).toNat ())
      (fun _ => True) (fun _ t => t.band.Bounded ∧ t.band.position 0 = s.band.position 0) s := by
    refine ends_repeatFrom_const ⟨hs, rfl⟩ ?_
    intro _ t ht
    refine ends_cursorLinefeed.post fun _ u hu => ?_
    rw [hu, Band.position_linefeed]
    exact ⟨Band.bounded_linefeed ht.1, ht.2⟩
  refine hloop.post fun _ t ht => ?_
  apply ((keeps_eraseScreen : Keeps band _) t).bind
  intro _ u hu
  refine (ends_cursorPosition (hu ▸ ht.1)).post fun _ v hv => ?_
  rw [hv.1, hu, ht.2]

/-! ### Printing -/

/-- Whether a line is of double width; `none` where there is no line. -/
def Screen.wideAt (s : Screen) (p : Option ℕ) : Option Bool := (p.bind s.lines).map fun line => line.text.doubleWidth

/-- A character that shows. -/
def Screen.visible (s : Screen) (ch : UInt32) : Prop := ch ≠ 0x07 ∧ (ch = 0 → s.displayNull = true)

/-- The line is wrapped before the next character is printed: it waits in the right margin. -/
def Screen.waits (s : Screen) : Prop :=
  s.lineWrap = true ∧ (s.emulation.wrapsLate = true → s.vt100WrapLineFlag = true) ∧
    ∃ wide, s.wideAt s.current = some wide ∧ s.cursorX = halved s.printMargin wide

theorem ends_lineAt :
    Ends (lineAt p) (fun _ => True) (fun line t => t = s ∧ ∃ a, p = some a ∧ s.lines a = some line) s := by
  cases p with
  | none => trivial
  | some a =>
    rw [lineAt, ends_bind, ends_get]
    dsimp only
    cases hline : s.lines a with
    | none => trivial
    | some line => exact ⟨rfl, a, rfl, hline⟩

theorem ends_textAt_width :
    Ends (textAt p) (fun _ => True) (fun text t => t = s ∧ s.wideAt p = some text.doubleWidth) s := by
  apply ends_lineAt.bind
  rintro line t ⟨rfl, a, rfl, hline⟩
  rw [ends_pure]
  refine ⟨rfl, ?_⟩
  simp [wideAt, hline]

/-- What is written into a line does not change its width. -/
theorem ends_onText_width {f : Text → Except Fault Text}
    (hf : ∀ t t', f t = .ok t' → t'.doubleWidth = t.doubleWidth) :
    Ends (onText p f) (fun _ => True) (fun _ t => t = { s with lines := t.lines } ∧ t.wideAt = s.wideAt) s := by
  rw [onText, textAt, bind_assoc]
  apply ends_lineAt.bind
  rintro line t ⟨rfl, a, rfl, hline⟩
  rw [pure_bind]
  cases htext : f line.text with
  | error fault => trivial
  | ok text =>
    apply ends_lineAt.bind
    rintro line' u ⟨rfl, a', ha', hline'⟩
    obtain rfl : a = a' := Option.some.inj ha'
    obtain rfl : line = line' := Option.some.inj (hline.symm.trans hline')
    rw [ends_modify]
    refine ⟨rfl, ?_⟩
    funext q
    cases q with
    | none => rfl
    | some b =>
      by_cases hb : b = a
      · subst b
        simp [wideAt, setLine, hline, hf _ _ htext]
      · simp [wideAt, setLine, hb]

theorem doubleWidth_pad {start : ℤ} {color : Attr} (t t' : Text) (h : t.pad start color = .ok t') :
    t'.doubleWidth = t.doubleWidth := by
  revert h
  simp only [Text.pad, Text.write, Text.update, Text.checkColumns]
  split
  · split
    · rintro ⟨⟩
      rfl
    · rintro ⟨⟩
  · rintro ⟨⟩
    rfl

theorem ends_wrapCurrentLine :
    Ends wrapCurrentLine (fun _ => True) (fun _ t => t.band = s.band.wrap) s := by
  rw [wrapCurrentLine, ends_bind, ends_get]
  apply ((keeps_stepDown : Keeps band _) s).bind
  intro next t ht
  rw [ends_modify]
  simp only [band, Band.wrap, Band.mk.injEq] at ht ⊢
  grind

/-- What is wrapped now, and what is to be wrapped behind the character. -/
theorem ends_checkMargin {rightMargin : ℤ} :
    Ends (checkMargin rightMargin) (fun _ => True)
      (fun wrapTheLine t =>
        (t.band = s.band ∧
          (wrapTheLine = true → s.cursorX = rightMargin ∧ s.emulation.wrapsLate = false ∧ s.lineWrap = true)) ∨
        (wrapTheLine = false ∧ t.band = s.band.wrap ∧
          s.cursorX = rightMargin ∧ s.emulation.wrapsLate = true ∧ s.lineWrap = true ∧
            s.vt100WrapLineFlag = true)) s := by
  rw [checkMargin, ends_bind, ends_get]
  by_cases hx : s.cursorX = rightMargin
  · rw [if_pos hx]
    cases hlate : s.emulation.wrapsLate with
    | false => simp [hx]
    | true =>
      cases hwrap : s.lineWrap with
      | false => simp [ends_pure]
      | true =>
        cases hflag : s.vt100WrapLineFlag with
        | false =>
          simp only [if_true, if_false, Bool.false_eq_true, ends_bind, ends_set, ends_pure]
          exact Or.inl ⟨rfl, fun h => by cases h⟩
        | true =>
          simp only [if_true, Bool.not_true]
          rw [ends_bind, ends_set]
          apply ends_wrapCurrentLine.bind
          intro _ t ht
          exact Or.inr ⟨rfl, ht, hx, trivial, trivial, trivial⟩
  · rw [if_neg hx]
    dsimp only
    rw [ends_ite]
    exact ⟨fun _ => Or.inl ⟨rfl, fun h => by cases h⟩, fun _ => Or.inl ⟨rfl, fun h => by cases h⟩⟩

theorem band_advance {rightMargin : ℤ} : (s.advance rightMargin).band = s.band := by
  unfold Screen.advance
  split <;> rfl

theorem ends_printVisible {ch : UInt32} :
    Ends (printVisible ch) (fun _ => True)
      (fun _ t => t.band = s.band ∨ s.waits ∧ t.band = s.band.wrap) s := by
  rw [printVisible, ends_bind, ends_get]
  apply ends_textAt_width.bind
  rintro text t ⟨rfl, hwide⟩
  apply ends_checkMargin.bind
  intro wrapTheLine u hu
  rw [ends_bind, ends_get]
  apply ((keeps_onText : Keeps band _) u).bind
  intro _ v hv
  rw [ends_bind, ends_modify, ends_ite]
  refine ⟨fun hwrap => ?_, fun hwrap => ?_⟩
  · rcases hu with ⟨hband, hmargin⟩ | ⟨hno, _⟩
    · obtain ⟨hx, hlate, hline⟩ := hmargin hwrap
      refine ends_wrapCurrentLine.post fun _ w hw => Or.inr ⟨⟨hline, by simp [hlate], _, hwide, hx⟩, ?_⟩
      rw [hw, band_advance, hv, hband]
    · simp [hno] at hwrap
  · rw [ends_pure, band_advance, hv]
    rcases hu with ⟨hband, _⟩ | ⟨_, hband, hx, _, hline, hflag⟩
    · exact Or.inl hband
    · exact Or.inr ⟨⟨hline, fun _ => hflag, _, hwide, hx⟩, hband⟩

theorem ends_printCharacter {ch : UInt32} :
    Ends (printCharacter ch) (fun _ => True)
      (fun _ t => t.band = s.band ∨ s.visible ch ∧ s.waits ∧ t.band = s.band.wrap) s := by
  rw [printCharacter, ends_bind, ends_get]
  apply (ends_onText_width doubleWidth_pad).bind
  rintro _ t ⟨hlines, hwide⟩
  have hband : t.band = s.band := by rw [hlines]; rfl
  have hwaits : t.waits ↔ s.waits := by
    unfold Screen.waits
    rw [hwide, hlines]
    rfl
  rw [ends_ite]
  refine ⟨fun _ => Or.inl hband, fun hshows => ?_⟩
  refine ends_printVisible.post fun _ u hu => ?_
  rw [hband, hwaits] at hu
  refine hu.imp_right fun hu => ⟨⟨fun hbel => hshows (Or.inl hbel), fun hnull => ?_⟩, hu⟩
  by_contra hdisplay
  exact hshows (Or.inr ⟨hnull, hdisplay⟩)

end CProgram.Terminal
