import CProgram.Terminal.Region

/-! The moves of the cursor that address one coordinate only, and what becomes of the other one. -/
namespace CProgram.Terminal
open CProgram.Programs

namespace Screen

/-- All but the rows of the cursor, the list of lines and the flag of the margin. -/
def besideRows (s : Screen) : Screen := { s with
  lines := fun _ => none
  fresh := 0
  buffer := none
  last := none
  current := none
  position := none
  scrollbackLines := 0
  cursorY := 0
  vt100WrapLineFlag := false }

instance : Unlisted besideRows := ⟨fun _ _ _ _ _ _ _ _ => rfl⟩

/-- A column that `cursor_position` takes as it is. -/
def Reaches (col : ℤ) (s : Screen) : Prop :=
  col ≤ s.width - 1 ∧ (0 < s.emulationRightMargin → col ≤ s.emulationRightMargin)

instance {col : ℤ} {s : Screen} : Decidable (s.Reaches col) := inferInstanceAs (Decidable (_ ∧ _))

end Screen
open Screen

variable {s t : Screen} {row col count : ℤ} {honorScrollRegion doubleWidth : Bool}

/-! ### The columns of the cursor -/

theorem cursorX_of_besideRows (h : s.besideRows = t.besideRows) : s.cursorX = t.cursorX :=
  show s.besideRows.cursorX = t.besideRows.cursorX by rw [h]

theorem keeps_downOne : Keeps besideRows (downOne honorScrollRegion) := by
  intro s
  rw [downOne, ends_bind, ends_get, ends_ite]
  refine ⟨fun _ => rfl, fun _ => ends_ite.mpr ⟨fun _ => ?_, fun _ => rfl⟩⟩
  rw [ends_bind, ends_set]
  refine (Keeps.bind keeps_nextOf fun next => Keeps.bind keeps_stepDown fun below => ?_) _
  refine Keeps.modifyThen (fun _ => rfl) ?_
  exact Keeps.ite keeps_padAppended Keeps.pure

theorem keeps_upOne : Keeps besideRows (upOne honorScrollRegion) := by
  intro s
  rw [upOne, ends_bind, ends_get, ends_ite]
  refine ⟨fun _ => rfl, fun _ => ends_ite.mpr ⟨fun _ => ?_, fun _ => rfl⟩⟩
  apply ((keeps_prevOf : Keeps besideRows _) s).bind
  exact fun prev t _ => rfl

theorem keeps_cursorDown : Keeps besideRows (cursorDown count honorScrollRegion) :=
  Keeps.modifyThen (fun _ => rfl) (Keeps.repeatFrom fun _ => keeps_downOne)

theorem keeps_cursorUp : Keeps besideRows (cursorUp count honorScrollRegion) :=
  Keeps.modifyThen (fun _ => rfl) (Keeps.repeatFrom fun _ => keeps_upOne)

theorem ends_column : Ends (cursorPosition row col) (fun _ => True)
    (fun _ t => ∃ doubleWidth, t.besideRows = (s.toColumn col doubleWidth).besideRows) s := by
  rw [cursorPosition, ends_ite]
  refine ⟨fun _ => trivial, fun _ => ?_⟩
  rw [ends_bind, ends_get]
  apply ((keeps_textAt : Keeps besideRows _) s).bind
  intro text u hu
  rw [ends_bind, ends_modify]
  have hstart : (u.toColumn col text.doubleWidth).besideRows = (s.toColumn col text.doubleWidth).besideRows :=
    congrArg (toColumn col text.doubleWidth) hu
  refine Ends.post (Q := fun _ t => t.besideRows = (u.toColumn col text.doubleWidth).besideRows) ?_
    fun _ t ht => ⟨text.doubleWidth, ht.trans hstart⟩
  have hstay : Keeps besideRows (modify fun t => { t with vt100WrapLineFlag := false } : ScreenM Unit) :=
    Keeps.modify fun _ => rfl
  dsimp only
  refine Keeps.ite ?_ (Keeps.ite ?_ hstay) _
  · exact Keeps.bind keeps_cursorDown fun _ => hstay
  · exact Keeps.bind keeps_cursorUp fun _ => hstay

/-- What `cursor_position` leaves, in rows and columns. -/
theorem ends_position (hs : s.band.Bounded) : Ends (cursorPosition row col) (fun _ => True)
    (fun _ t => t.band = s.band.position row ∧ 0 ≤ row ∧
      ∃ doubleWidth, t.besideRows = (s.toColumn col doubleWidth).besideRows) s :=
  ((ends_cursorPosition hs).and ends_column).post fun _ _ ht => ⟨ht.1.1, ht.1.2, ht.2⟩

theorem halved_le {margin : ℤ} (h : 0 < margin) : halved margin doubleWidth ≤ margin := by
  unfold halved
  split <;> omega

/-- A column is kept if and only if it is inside the screen and the margin. -/
theorem toColumn_eq_iff : (s.toColumn col doubleWidth).cursorX = col ↔ s.Reaches col := by
  unfold toColumn Reaches
  dsimp only
  generalize hx : (if s.width - 1 < col then s.width - 1 else col) = x
  have hle : x ≤ col := by subst hx; split <;> omega
  split_ifs with hbeyond
  · have hmargin : s.cursorMargin = s.emulationRightMargin := if_pos hbeyond.1
    have hhalf := @halved_le doubleWidth _ hbeyond.1
    rw [hmargin]
    constructor
    · intro h
      omega
    · intro h
      have := h.2 hbeyond.1
      omega
  · subst hx
    split_ifs at * <;> omega

/-! ### The rows of the cursor -/

namespace Band
variable {b : Band}

/-- A row that `cursor_position` takes as it is: in origin mode it is not counted from another one. -/
def Stands (row : ℤ) (b : Band) : Prop := row ≤ b.rows - 1 ∧ (b.originMode = true → b.top = 0 ∨ row = b.rows - 1)

instance {row : ℤ} : Decidable (b.Stands row) := inferInstanceAs (Decidable (_ ∧ _))

theorem landing_eq_iff (htop : 0 ≤ b.top) {row : ℤ} : b.landing row = row ↔ b.Stands row := by
  unfold landing Stands
  cases b.originMode
  · simp
  · simp
    omega

/-- In origin mode the cursor is under the row `y`, and goes further down. -/
structure Drifted (y : ℤ) (b : Band) : Prop where
  bounded : b.Bounded
  origin : b.originMode = true
  below : y < b.cursorY

theorem Drifted.position {y : ℤ} (h : b.Drifted y) : (b.position b.cursorY).Drifted y := by
  have hrow := h.bounded.row
  have htop := h.bounded.top
  have hbelow := h.below
  refine ⟨bounded_position h.bounded h.bounded.cursor, h.origin, ?_⟩
  simp only [Band.position, landing, h.origin, if_true]
  omega

end Band

/-! ### The sequences -/

/-- The moves that address a column, or a row; DECALN goes back to where it was. -/
inductive Move where
  | cha | cbt | ht | vpa | decaln
deriving DecidableEq, Repr

namespace Move

def handler : Move → Handler
  | .cha => .cha
  | .cbt => .cbt
  | .ht => .handleControlChar 0x09
  | .vpa => .vpa
  | .decaln => .decaln

/-- The coordinate that is not addressed is the same after as before. -/
def Kept (move : Move) (t u : Vt) : Prop :=
  match move with
  | .cha | .cbt | .ht => u.cursorY = t.cursorY
  | .vpa => u.cursorX = t.cursorX
  | .decaln => u.cursorY = t.cursorY ∧ u.cursorX = t.cursorX

instance {move : Move} {t u : Vt} : Decidable (move.Kept t u) :=
  match move with
  | .cha | .cbt | .ht => inferInstanceAs (Decidable (u.cursorY = t.cursorY))
  | .vpa => inferInstanceAs (Decidable (u.cursorX = t.cursorX))
  | .decaln => inferInstanceAs (Decidable (u.cursorY = t.cursorY ∧ u.cursorX = t.cursorX))

/-- CHA and CBT need a row that is not counted from another one, VPA a column inside the margin, and DECALN both. -/
def Fine (move : Move) (a : Args) (t : Vt) : Prop :=
  match move with
  | .cha | .cbt => a.decPrivateModeFlag = false → t.band.Stands t.cursorY
  | .ht => True
  | .vpa => a.decPrivateModeFlag = false → t.Reaches t.cursorX
  | .decaln => t.band.Stands t.cursorY ∧ t.Reaches t.cursorX

end Move

variable {u : Vt} {a : Args} {looks : Looks} {e : Emulation}

end CProgram.Terminal
