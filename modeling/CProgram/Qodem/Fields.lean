import Mathlib.Data.List.Basic
import Mathlib.Tactic

/-! The text fields of the forms: the keys of `field.c` on the active field of a fieldset, beside a line of text with
a cursor. The positions stay far below the range of an `int`; a comparison of a difference of two of them with the
width is written as a sum. -/
namespace CProgram.Qodem.Fields

/-- `Q_FIELD_SIZE`. -/
def fieldSize : ℕ := 256

structure Field where
  data : List ℤ
  dataN : ℕ
  width : ℕ
  fixed : Bool
  insertMode : Bool
  position : ℕ
  windowStart : ℕ
  invisible : Bool
  deriving DecidableEq

/-- The key codes that come from curses. -/
structure Curses where
  keyMin : ℤ
  keyMax : ℤ
  keyEnter : ℤ

/-- `q_key_code_yes`, with `Q_KEY_ESCAPE`, `Q_KEY_TAB` and the number pad. -/
def qKeyCodeYes (curses : Curses) (keystroke : ℤ) : Bool :=
  keystroke = curses.keyEnter ∨ keystroke = 0x00E5CA9E ∨ keystroke = 0x007AB000 ∨
    (0x1DEAD000 ≤ keystroke ∧ keystroke ≤ 0x1DEAD015) ∨ (curses.keyMin ≤ keystroke ∧ keystroke ≤ curses.keyMax)

/-- Enter and the two ends of a bracketed paste. -/
def disregarded (curses : Curses) (keystroke : ℤ) : Bool :=
  keystroke = curses.keyEnter ∨ keystroke = 0x00B4ACE1 ∨ keystroke = 0x00B4ACE0

/-! Reading and writing of `data`: nothing beyond its end. -/

def store (data : List ℤ) (place : ℕ) (value : ℤ) : Option (List ℤ) :=
  if place < data.length then some (data.set place value) else none

def memmove (data : List ℤ) (dest src n : ℕ) : Option (List ℤ) :=
  if dest + n ≤ data.length ∧ src + n ≤ data.length then
    some (data.take dest ++ (data.drop src).take n ++ data.drop (dest + n))
  else none

/-- `cp437_chars[HATCH]`. -/
def hatch : ℤ := 0x2591

/-- `field_render`: what stands in the columns of the field. -/
def fieldRender (field : Field) : Option (List ℤ) :=
  (List.range field.width).mapM fun i =>
    if field.invisible then some 32
    else if field.windowStart + i < field.dataN then field.data[field.windowStart + i]?
    else some hatch

/-- The column of the cursor, from the first one of the field. -/
def cursor (field : Field) : ℤ :=
  if field.width < field.position ∧ field.fixed then field.width
  else if field.position = field.windowStart + field.width ∧ field.fixed = false then field.width - 1
  else field.position - field.windowStart

/-- A field that has been drawn. -/
def fieldsetRender (field : Field) : Option Field := (fieldRender field).map fun _ => field

def appendChar (field : Field) (keystroke : ℤ) : Option Field := do
  let data ← store field.data field.dataN keystroke
  let field := { field with data := data, dataN := field.dataN + 1, position := field.position + 1 }
  if field.fixed then
    if field.position = field.width then some { field with position := field.position - 1 } else some field
  else if field.position = field.windowStart + field.width then
    some { field with windowStart := field.windowStart + 1 }
  else some field

def insertChar (field : Field) (keystroke : ℤ) : Option Field := do
  let data ← memmove field.data (field.position + 1) field.position (field.dataN - field.position)
  let data ← store data field.position keystroke
  let field := { field with data := data, dataN := field.dataN + 1, position := field.position + 1 }
  if field.position = field.windowStart + field.width then
    if field.fixed then none else some { field with windowStart := field.windowStart + 1 }
  else some field

/-- The four cases of `fieldset_keystroke`. -/
def keystrokeCases (field : Field) (keystroke : ℤ) : Option Field :=
  if field.position = field.dataN ∧ field.dataN < field.width then appendChar field keystroke
  else if field.position < field.dataN ∧ field.dataN < field.width then
    if field.insertMode = false then
      (store field.data field.position keystroke).map fun data =>
        { field with data := data, position := field.position + 1 }
    else insertChar field keystroke
  else if field.position < field.dataN ∧ field.width ≤ field.dataN then
    if field.fixed ∧ field.insertMode then some field
    else if field.fixed ∧ field.insertMode = false then
      (store field.data field.position keystroke).map fun data =>
        { field with
          data := data
          position := if field.position + 1 < field.width then field.position + 1 else field.position }
    else if field.fixed = false ∧ field.insertMode = false then
      (store field.data field.position keystroke).map fun data =>
        { field with data := data, position := field.position + 1 }
    else if field.position = field.dataN then appendChar field keystroke
    else insertChar field keystroke
  else if field.fixed then none
  else appendChar field keystroke

def fieldsetKeystroke (curses : Curses) (field : Field) (keystroke : ℤ) : Option Field :=
  if qKeyCodeYes curses keystroke ∨ keystroke = -1 then none
  else if disregarded curses keystroke then some field
  else (keystrokeCases field keystroke).bind fieldsetRender

def fieldsetHomeChar (field : Field) : Option Field :=
  fieldsetRender { field with position := 0, windowStart := 0 }

def fieldsetEndChar (field : Field) : Option Field :=
  fieldsetRender <|
    if field.fixed then
      { field with position := if field.width ≤ field.dataN then field.dataN - 1 else field.dataN }
    else { field with position := field.dataN, windowStart := field.dataN + 1 - field.width }

/-- The window of a scrolling field follows a cursor that has come to its left edge. -/
def scrollLeft (field : Field) : Field :=
  if field.fixed = false ∧ field.position = field.windowStart ∧ 0 < field.windowStart then
    { field with windowStart := field.windowStart - 1 }
  else field

def fieldsetLeft (field : Field) : Option Field :=
  fieldsetRender (scrollLeft { field with position := field.position - 1 })

def fieldsetRight (field : Field) : Option Field :=
  fieldsetRender <|
    if field.position < field.dataN then
      let field := { field with position := field.position + 1 }
      if field.fixed then
        if field.position = field.width then { field with position := field.position - 1 } else field
      else if field.position = field.windowStart + field.width then
        { field with windowStart := field.windowStart + 1 }
      else field
    else field

def fieldsetBackspace (field : Field) : Option Field := do
  let field ←
    if 0 < field.position then
      let position := field.position - 1
      (memmove field.data position (position + 1) (field.dataN - position)).map fun data =>
        { field with data := data, position := position, dataN := field.dataN - 1 }
    else some field
  fieldsetRender (scrollLeft field)

def fieldsetInsertChar (field : Field) : Option Field := some { field with insertMode := !field.insertMode }

def fieldsetDeleteChar (field : Field) : Option Field := do
  let field ←
    if 0 < field.dataN ∧ field.position < field.dataN then
      (memmove field.data field.position (field.position + 1) (field.dataN - field.position)).map fun data =>
        { field with data := data, dataN := field.dataN - 1 }
    else some field
  fieldsetRender field

def fieldMalloc (width : ℕ) (fixed : Bool) : Field :=
  ⟨List.replicate fieldSize 0, 0, width, fixed, true, 0, 0, false⟩

def fieldSetValue (field : Field) (value : List ℤ) : Option Field :=
  if fieldSize < value.length then none
  else
    let data := value ++ field.data.drop value.length
    if field.fixed then
      if field.width < value.length then none
      else some { field with
        data := data
        dataN := value.length
        position := if field.width ≤ value.length then value.length - 1 else value.length
        windowStart := 0 }
    else some { field with
      data := data
      dataN := value.length
      position := value.length
      windowStart := value.length + 1 - field.width }

/-- The keys of a field. -/
inductive Key
  | keystroke (k : ℤ)
  | insert
  | backspace
  | delete
  | left
  | right
  | home
  | stop
  deriving DecidableEq

def step (curses : Curses) (field : Field) : Key → Option Field
  | .keystroke k => fieldsetKeystroke curses field k
  | .insert => fieldsetInsertChar field
  | .backspace => fieldsetBackspace field
  | .delete => fieldsetDeleteChar field
  | .left => fieldsetLeft field
  | .right => fieldsetRight field
  | .home => fieldsetHomeChar field
  | .stop => fieldsetEndChar field

def run (curses : Curses) (field : Field) : List Key → Option Field
  | [] => some field
  | key :: keys => (step curses field key).bind fun field => run curses field keys

/-! ### A line of text with a cursor -/

structure Line where
  text : List ℤ
  cursor : ℕ
  insert : Bool
  deriving DecidableEq

namespace Line

/-- The cursor stays on the last column of a line whose length is limited. -/
def clamp (room : Option ℕ) (cursor : ℕ) : ℕ := room.elim cursor fun width => min cursor (width - 1)

def full (room : Option ℕ) (text : List ℤ) : Bool := room.elim false fun width => decide (width ≤ text.length)

def type (room : Option ℕ) (line : Line) (k : ℤ) : Line :=
  if line.cursor < line.text.length ∧ line.insert = false then
    { line with text := line.text.set line.cursor k, cursor := clamp room (line.cursor + 1) }
  else if full room line.text then line
  else { line with
    text := line.text.take line.cursor ++ k :: line.text.drop line.cursor
    cursor := clamp room (line.cursor + 1) }

def press (curses : Curses) (room : Option ℕ) (line : Line) : Key → Line
  | .keystroke k => if disregarded curses k then line else line.type room k
  | .insert => { line with insert := !line.insert }
  | .backspace =>
    if 0 < line.cursor then
      { line with text := line.text.eraseIdx (line.cursor - 1), cursor := line.cursor - 1 }
    else line
  | .delete => { line with text := line.text.eraseIdx line.cursor }
  | .left => { line with cursor := line.cursor - 1 }
  | .right => if line.cursor < line.text.length then { line with cursor := clamp room (line.cursor + 1) } else line
  | .home => { line with cursor := 0 }
  | .stop => { line with cursor := clamp room line.text.length }

end Line

/-- The text of a field and its cursor. -/
def view (field : Field) : Line := ⟨field.data.take field.dataN, field.position, field.insertMode⟩

def room (field : Field) : Option ℕ := if field.fixed then some field.width else none

/-- What holds of a field between the keys. -/
structure Bounded (field : Field) : Prop where
  window : field.windowStart ≤ field.position
  position : field.position ≤ field.dataN
  size : field.dataN ≤ fieldSize
  fixed : field.fixed → field.dataN ≤ field.width
  left : 0 ≤ cursor field
  right : cursor field < field.width

/-- What the keys keep: a cursor at most one column past the window. -/
structure Sound (field : Field) : Prop where
  data : field.data.length = fieldSize
  wide : 1 ≤ field.width ∧ field.width ≤ fieldSize
  window : field.windowStart ≤ field.position
  position : field.position ≤ field.dataN
  size : field.dataN ≤ fieldSize
  fixed : field.fixed → field.dataN ≤ field.width ∧ field.windowStart = 0 ∧ field.position < field.width
  scrolling : field.fixed = false → field.position ≤ field.windowStart + field.width
  inside : 1 < field.width → 0 < field.windowStart → field.windowStart < field.position

theorem Sound.bounded {field : Field} (h : Sound field) : Bounded field := by
  obtain ⟨-, hwide, hwindow, hposition, hsize, hfixed, hscrolling, -⟩ := h
  have hcursor : 0 ≤ cursor field ∧ cursor field < field.width := by
    rw [cursor]
    cases hf : field.fixed with
    | true =>
      obtain ⟨-, hzero, hlt⟩ := hfixed hf
      simp only [and_true, Bool.true_eq_false, and_false, if_false, hzero]
      split <;> omega
    | false =>
      have hle := hscrolling hf
      simp only [Bool.false_eq_true, and_false, if_false, and_true]
      split <;> omega
  exact ⟨hwindow, hposition, hsize, fun hf => (hfixed hf).1, hcursor.1, hcursor.2⟩

/-- A sound field can be drawn. -/
theorem Sound.fieldsetRender_eq {field : Field} (h : Sound field) : fieldsetRender field = some field := by
  have hcell (i : ℕ) : ∃ ch, (if field.invisible then some 32
      else if field.windowStart + i < field.dataN then field.data[field.windowStart + i]?
      else some hatch) = some ch := by
    split
    · exact ⟨_, rfl⟩
    · split
      case isTrue hlt =>
        have hdata := h.data
        have hsize := h.size
        exact ⟨_, List.getElem?_eq_getElem (by omega)⟩
      case isFalse => exact ⟨_, rfl⟩
  choose row hrow using hcell
  have hmap (cells : List ℕ) : cells.mapM (fun i => if field.invisible then some 32
      else if field.windowStart + i < field.dataN then field.data[field.windowStart + i]?
      else some hatch) = some (cells.map row) := by
    induction cells with
    | nil => rfl
    | cons i cells ih => rw [List.mapM_cons, hrow, ih]; rfl
  rw [fieldsetRender, fieldRender, hmap, Option.map_some]

/-! What the moves in `data` do to the text. -/

theorem memmove_eq (data : List ℤ) (dest src n : ℕ) (hdest : dest + n ≤ data.length) (hsrc : src + n ≤ data.length) :
    memmove data dest src n = some (data.take dest ++ (data.drop src).take n ++ data.drop (dest + n)) ∧
      (data.take dest ++ (data.drop src).take n ++ data.drop (dest + n)).length = data.length := by
  refine ⟨if_pos ⟨hdest, hsrc⟩, ?_⟩
  simp only [List.length_append, List.length_take, List.length_drop]
  omega

theorem insert_text {data : List ℤ} {p n : ℕ} (k : ℤ) (hp : p ≤ n) (hn : n < data.length) :
    ((data.take (p + 1) ++ (data.drop p).take (n - p) ++ data.drop (p + 1 + (n - p))).set p k).take (n + 1) =
      (data.take n).take p ++ k :: (data.take n).drop p := by
  have hfront : data.take (p + 1) = data.take p ++ [data[p]] := by simp
  have hlen : (data.take p).length = p := by simp; omega
  have hmid : ((data.drop p).take (n - p)).length = n - p := by simp; omega
  rw [hfront, List.append_assoc, List.append_assoc, List.set_append_right _ _ (by omega), hlen, Nat.sub_self,
    List.singleton_append, List.set_cons_zero, List.take_append, List.take_of_length_le (by omega), hlen,
    show n + 1 - p = (n - p) + 1 by omega, List.take_succ_cons, List.take_left' hmid, List.take_take,
    Nat.min_eq_left hp, List.drop_take]

theorem delete_text {data : List ℤ} {p n : ℕ} (hp : p < n) (hn : n < data.length) :
    (data.take p ++ (data.drop (p + 1)).take (n - p) ++ data.drop (p + (n - p))).take (n - 1) =
      (data.take n).eraseIdx p := by
  have hlen : (data.take p).length = p := by simp; omega
  have hmid : ((data.drop (p + 1)).take (n - p)).length = n - p := by simp; omega
  rw [List.append_assoc, List.take_append, List.take_of_length_le (by omega), hlen,
    List.take_append_of_le_length (by omega),
    List.take_take, List.eraseIdx_eq_take_drop_succ, List.take_take, Nat.min_eq_left hp.le, List.drop_take,
    Nat.min_eq_left (by omega), Nat.sub_sub, Nat.add_comm 1 p]

theorem append_text {data : List ℤ} {n : ℕ} (k : ℤ) (hn : n < data.length) :
    (data.set n k).take (n + 1) = data.take n ++ [k] := by
  rw [List.take_succ_eq_append_getElem (by simpa using hn), List.getElem_set_self, List.take_set_of_le le_rfl]

/-! ### The keys -/

/-- A key that may be handed to a field. -/
def Key.Typed (curses : Curses) : Key → Prop
  | .keystroke k => qKeyCodeYes curses k = false ∧ k ≠ -1
  | _ => True

/-- Where a key keeps to the bounds: there is room for a character in `data` and in the window, none is taken out of a
full `data`, and the window of one column is not left behind. -/
def Fine (curses : Curses) (field : Field) : Key → Prop
  | .keystroke k => disregarded curses k ∨ field.fixed ∨ (field.position < field.windowStart + field.width ∧
      (field.dataN < fieldSize ∨ field.position < field.dataN ∧ field.insertMode = false))
  | .backspace => field.position = 0 ∨ (field.dataN < fieldSize ∧
      (field.fixed ∨ field.width ≠ 1 ∨ field.position ≠ field.windowStart))
  | .delete => field.position = field.dataN ∨ field.dataN < fieldSize
  | .left => field.fixed ∨ field.width ≠ 1 ∨ field.position ≠ field.windowStart ∨ field.position = 0
  | .right => field.fixed ∨ field.position = field.dataN ∨ field.position < field.windowStart + field.width
  | .insert | .home | .stop => True

/-- A key that does to a field what it does to a line of text. -/
def Does (curses : Curses) (field : Field) (key : Key) : Prop :=
  ∃ field', step curses field key = some field' ∧ Bounded field' ∧ room field' = room field ∧
    view field' = (view field).press curses (room field) key

/-- The same, with what the next key needs. -/
def Goes (curses : Curses) (field : Field) (key : Key) : Prop :=
  ∃ field', step curses field key = some field' ∧ Sound field' ∧ room field' = room field ∧
    view field' = (view field).press curses (room field) key

theorem Goes.does {curses : Curses} {field : Field} {key : Key} (h : Goes curses field key) :
    Does curses field key := by
  obtain ⟨field', hstep, hsound, hrest⟩ := h
  exact ⟨field', hstep, hsound.bounded, hrest⟩

section Keys
variable {curses : Curses} {field : Field}

theorem Sound.text_length (h : Sound field) : (view field).text.length = field.dataN := by
  have hdata := h.data
  have hsize := h.size
  simp only [view, List.length_take]
  omega

theorem goes_insert (h : Sound field) : Goes curses field .insert :=
  ⟨_, rfl, ⟨h.data, h.wide, h.window, h.position, h.size, h.fixed, h.scrolling, h.inside⟩, rfl, rfl⟩

theorem goes_home (h : Sound field) : Goes curses field .home := by
  have hsound : Sound { field with position := 0, windowStart := 0 } :=
    { data := h.data, wide := h.wide, window := le_rfl, position := Nat.zero_le _, size := h.size
      fixed := fun hf => ⟨(h.fixed hf).1, rfl, h.wide.1⟩
      scrolling := fun _ => Nat.zero_le _
      inside := fun _ hlt => absurd hlt (lt_irrefl 0) }
  exact ⟨_, hsound.fieldsetRender_eq, hsound, rfl, rfl⟩

theorem goes_stop (h : Sound field) : Goes curses field .stop := by
  have hlength := h.text_length
  have hwide := h.wide
  obtain ⟨data, n, width, fixed, mode, position, start, invisible⟩ := field
  cases fixed with
  | true =>
    obtain ⟨hle, hzero, hlt⟩ := h.fixed rfl
    dsimp only at hle hzero hlt hwide
    have hsound : Sound ⟨data, n, width, true, mode, if width ≤ n then n - 1 else n, start, invisible⟩ :=
      { data := h.data, wide := hwide, window := by simp [hzero], size := h.size
        position := by dsimp only; split <;> omega
        fixed := fun _ => ⟨hle, hzero, by dsimp only; split <;> omega⟩
        scrolling := nofun
        inside := by simp [hzero] }
    refine ⟨_, hsound.fieldsetRender_eq, hsound, rfl, ?_⟩
    simp only [view, Line.press, room, Line.clamp, if_true, Option.elim_some] at hlength ⊢
    rw [hlength]
    congr 1
    split <;> omega
  | false =>
    dsimp only at hwide
    have hsound : Sound ⟨data, n, width, false, mode, n, n + 1 - width, invisible⟩ :=
      { data := h.data, wide := hwide, size := h.size, position := le_rfl
        window := by dsimp only; omega
        fixed := nofun
        scrolling := fun _ => by dsimp only; omega
        inside := fun hlt hpos => by dsimp only at hlt hpos ⊢; omega }
    refine ⟨_, hsound.fieldsetRender_eq, hsound, rfl, ?_⟩
    simp only [view, Line.press, room, Line.clamp, Bool.false_eq_true, if_false, Option.elim_none] at hlength ⊢
    rw [hlength]

/-- A cursor that has gone one column back, with the window behind it. -/
theorem scrollLeft_sound {data : List ℤ} {n width position start : ℕ} {fixed : Bool} (mode invisible : Bool)
    (hdata : data.length = fieldSize) (hwide : 1 ≤ width ∧ width ≤ fieldSize) (hsize : n ≤ fieldSize)
    (hposition : position ≤ n) (hwindow : start ≤ position) (hfixed : fixed → n ≤ width ∧ start = 0 ∧ position < width)
    (hscrolling : fixed = false → position ≤ start + width)
    (hinside : 1 < width → 0 < start → start ≤ position) :
    Sound (scrollLeft ⟨data, n, width, fixed, mode, position, start, invisible⟩) := by
  rw [scrollLeft]
  split
  case isTrue hedge =>
    obtain ⟨hf, heq, hpos⟩ := hedge
    dsimp only at hf heq hpos
    subst hf
    exact ⟨hdata, hwide, by dsimp only; omega, hposition, hsize, nofun, fun _ => by dsimp only; omega,
      fun _ _ => by dsimp only; omega⟩
  case isFalse hedge =>
    dsimp only at hedge
    refine ⟨hdata, hwide, hwindow, hposition, hsize, hfixed, hscrolling, fun hone hpos => ?_⟩
    dsimp only at hone hpos ⊢
    have hle := hinside hone hpos
    cases fixed with
    | true => exact absurd (hfixed rfl).2.1 (by omega)
    | false =>
      simp only [true_and] at hedge
      omega

theorem scrollLeft_view (field : Field) :
    room (scrollLeft field) = room field ∧ view (scrollLeft field) = view field := by
  rw [scrollLeft]
  split <;> exact ⟨rfl, rfl⟩

theorem goes_left (h : Sound field) (hfine : Fine curses field .left) : Goes curses field .left := by
  obtain ⟨data, n, width, fixed, mode, position, start, invisible⟩ := field
  obtain ⟨hdata, hwide, hwindow, hposition, hsize, hfixed, hscrolling, hinside⟩ := h
  dsimp only [Fine] at *
  have hback : start ≤ position - 1 := by
    rcases Nat.eq_zero_or_pos start with hzero | hpos
    · omega
    · cases fixed with
      | true => exact absurd (hfixed rfl).2.1 (by omega)
      | false =>
        by_cases hone : width = 1
        · simp only [hone, Bool.false_eq_true, ne_eq, not_true_eq_false, false_or] at hfine
          omega
        · have hlt := hinside (by omega) hpos
          omega
  have hsound : Sound (scrollLeft ⟨data, n, width, fixed, mode, position - 1, start, invisible⟩) :=
    scrollLeft_sound mode invisible hdata hwide hsize (by omega) hback
      (fun hf => ⟨(hfixed hf).1, (hfixed hf).2.1, by have := (hfixed hf).2.2; omega⟩)
      (fun hf => by have := hscrolling hf; omega) (fun _ _ => hback)
  obtain ⟨hroom, hview⟩ := scrollLeft_view ⟨data, n, width, fixed, mode, position - 1, start, invisible⟩
  exact ⟨_, hsound.fieldsetRender_eq, hsound, hroom, hview⟩

theorem goes_backspace (h : Sound field) (hfine : Fine curses field .backspace) : Goes curses field .backspace := by
  obtain ⟨data, n, width, fixed, mode, position, start, invisible⟩ := field
  obtain ⟨hdata, hwide, hwindow, hposition, hsize, hfixed, hscrolling, hinside⟩ := h
  dsimp only [Fine] at *
  rw [Goes, step, fieldsetBackspace]
  by_cases hpos : 0 < position
  · obtain ⟨hfull, hcolumn⟩ := hfine.resolve_left hpos.ne'
    have hback : start ≤ position - 1 := by
      rcases Nat.eq_zero_or_pos start with hzero | hstart
      · omega
      · cases fixed with
        | true => exact absurd (hfixed rfl).2.1 (by omega)
        | false =>
          by_cases hone : width = 1
          · simp only [hone, Bool.false_eq_true, ne_eq, not_true_eq_false, false_or] at hcolumn
            omega
          · have hlt := hinside (by omega) hstart
            omega
    obtain ⟨hmove, hmoved⟩ := memmove_eq data (position - 1) (position - 1 + 1) (n - (position - 1))
      (by omega) (by omega)
    dsimp only
    rw [if_pos hpos, hmove, Option.map_some, Option.bind_eq_bind, Option.bind_some]
    have hsound := scrollLeft_sound mode invisible (hmoved.trans hdata) hwide
      (show n - 1 ≤ fieldSize by omega) (by omega) hback
      (fun hf => by have := hfixed hf; omega) (fun hf => by have := hscrolling hf; omega) (fun _ _ => hback)
    refine ⟨_, hsound.fieldsetRender_eq, hsound, (scrollLeft_view _).1, ?_⟩
    rw [(scrollLeft_view _).2, view, view, Line.press, if_pos hpos]
    dsimp only
    rw [delete_text (by omega) (by omega)]
  · have hzero : position = 0 := by omega
    subst hzero
    rw [if_neg (by simp), Option.bind_eq_bind, Option.bind_some]
    have hsound := scrollLeft_sound mode invisible hdata hwide hsize hposition hwindow hfixed
      hscrolling (fun _ _ => hwindow)
    refine ⟨_, hsound.fieldsetRender_eq, hsound, (scrollLeft_view _).1, ?_⟩
    rw [(scrollLeft_view _).2, view, Line.press, if_neg (by simp)]

theorem goes_right (h : Sound field) (hfine : Fine curses field .right) : Goes curses field .right := by
  have hlength := h.text_length
  obtain ⟨data, n, width, fixed, mode, position, start, invisible⟩ := field
  obtain ⟨hdata, hwide, hwindow, hposition, hsize, hfixed, hscrolling, hinside⟩ := h
  dsimp only [Fine, view] at *
  rw [Goes, step, fieldsetRight]
  dsimp only [view, Line.press]
  rw [hlength]
  by_cases hend : position < n
  · rw [if_pos hend, if_pos hend]
    cases fixed with
    | true =>
      obtain ⟨hle, hzero, hlt⟩ := hfixed rfl
      rw [if_pos rfl]
      have hsound : Sound (if position + 1 = width then
          ⟨data, n, width, true, mode, position + 1 - 1, start, invisible⟩
          else ⟨data, n, width, true, mode, position + 1, start, invisible⟩) := by
        split
        · exact ⟨hdata, hwide, by simp [hzero], hposition, hsize, fun _ => ⟨hle, hzero, hlt⟩, nofun, by simp [hzero]⟩
        · exact ⟨hdata, hwide, by simp [hzero], hend, hsize, fun _ => ⟨hle, hzero, by dsimp only; omega⟩, nofun,
            by simp [hzero]⟩
      refine ⟨_, hsound.fieldsetRender_eq, hsound, by split <;> rfl, ?_⟩
      simp only [room, Line.clamp, if_true, Option.elim_some]
      split <;> congr 1 <;> dsimp only <;> omega
    | false =>
      rw [if_neg (by simp)]
      have hroom : position < start + width := by simpa [hend.ne] using hfine
      have hsound : Sound (if position + 1 = start + width then
          ⟨data, n, width, false, mode, position + 1, start + 1, invisible⟩
          else ⟨data, n, width, false, mode, position + 1, start, invisible⟩) := by
        split
        · exact ⟨hdata, hwide, by dsimp only; omega, hend, hsize, nofun, fun _ => by dsimp only; omega,
            fun hone _ => by dsimp only at hone ⊢; omega⟩
        · exact ⟨hdata, hwide, by dsimp only; omega, hend, hsize, nofun, fun _ => by dsimp only; omega,
            fun hone hpos => by dsimp only; omega⟩
      refine ⟨_, hsound.fieldsetRender_eq, hsound, by split <;> rfl, ?_⟩
      split <;> rfl
  · rw [if_neg hend, if_neg hend]
    have hsound : Sound ⟨data, n, width, fixed, mode, position, start, invisible⟩ :=
      ⟨hdata, hwide, hwindow, hposition, hsize, hfixed, hscrolling, hinside⟩
    exact ⟨_, hsound.fieldsetRender_eq, hsound, rfl, rfl⟩

theorem goes_delete (h : Sound field) (hfine : Fine curses field .delete) : Goes curses field .delete := by
  have hlength := h.text_length
  obtain ⟨data, n, width, fixed, mode, position, start, invisible⟩ := field
  obtain ⟨hdata, hwide, hwindow, hposition, hsize, hfixed, hscrolling, hinside⟩ := h
  dsimp only [Fine, view] at *
  rw [Goes, step, fieldsetDeleteChar]
  dsimp only [view, Line.press]
  by_cases hend : position < n
  · have hlt : n < data.length := by omega
    obtain ⟨hmove, hmoved⟩ := memmove_eq data position (position + 1) (n - position)
      (by omega) (by omega)
    rw [if_pos ⟨by omega, hend⟩, hmove, Option.map_some, Option.bind_eq_bind, Option.bind_some]
    have hsound : Sound ⟨data.take position ++ (data.drop (position + 1)).take (n - position) ++
        data.drop (position + (n - position)), n - 1, width, fixed, mode, position, start, invisible⟩ :=
      ⟨hmoved.trans hdata, hwide, hwindow, by dsimp only; omega, by dsimp only; omega,
        fun hf => ⟨by have := (hfixed hf).1; dsimp only; omega, (hfixed hf).2⟩, hscrolling, hinside⟩
    refine ⟨_, hsound.fieldsetRender_eq, hsound, rfl, ?_⟩
    dsimp only
    rw [delete_text hend hlt]
  · rw [if_neg fun hand => hend hand.2, Option.bind_eq_bind, Option.bind_some]
    have hsound : Sound ⟨data, n, width, fixed, mode, position, start, invisible⟩ :=
      ⟨hdata, hwide, hwindow, hposition, hsize, hfixed, hscrolling, hinside⟩
    refine ⟨_, hsound.fieldsetRender_eq, hsound, rfl, ?_⟩
    dsimp only
    rw [List.eraseIdx_of_length_le (by omega)]

/-- A character put into a line that is not full. -/
theorem type_insert (h : Sound field) (hfixed : field.fixed → field.dataN < field.width)
    (hmode : field.position = field.dataN ∨ field.insertMode) (k : ℤ) :
    (view field).type (room field) k = ⟨(field.data.take field.dataN).take field.position ++
      k :: (field.data.take field.dataN).drop field.position, Line.clamp (room field) (field.position + 1),
        field.insertMode⟩ := by
  have hlength : (field.data.take field.dataN).length = field.dataN := h.text_length
  have hfull : Line.full (room field) (field.data.take field.dataN) = false := by
    rw [Line.full, room, hlength]
    split
    case isTrue hf => simpa using hfixed hf
    case isFalse => rfl
  have hover : ¬ (field.position < (field.data.take field.dataN).length ∧ field.insertMode = false) := by
    rw [hlength]
    rintro ⟨hlt, hoff⟩
    rcases hmode with hend | hon
    · omega
    · simp [hon] at hoff
  dsimp only [view, Line.type]
  rw [if_neg hover, hfull, if_neg (by simp)]

/-- A character put at the end of a field with room for it in `data`. -/
theorem appendChar_goes (h : Sound field) (hend : field.position = field.dataN) (hsize : field.dataN < fieldSize)
    (hwindow : field.fixed = false → field.position < field.windowStart + field.width)
    (hfixed : field.fixed → field.dataN < field.width) (k : ℤ) :
    ∃ field', appendChar field k = some field' ∧ Sound field' ∧ room field' = room field ∧
      view field' = (view field).type (room field) k := by
  rw [type_insert h hfixed (.inl hend)]
  obtain ⟨data, n, width, fixed, mode, position, start, invisible⟩ := field
  obtain ⟨hdata, hwide, hbehind, -, -, hbounds, hscrolling, hinside⟩ := h
  dsimp only at *
  subst hend
  have htext : (data.take position).take position ++ k :: (data.take position).drop position =
      (data.set position k).take (position + 1) := by
    rw [append_text k (by omega), List.drop_eq_nil_of_le (by simp), List.take_take, Nat.min_self]
  have hset : (data.set position k).length = fieldSize := by rw [List.length_set, hdata]
  rw [htext, appendChar, store]
  dsimp only
  rw [if_pos (by omega), Option.bind_eq_bind, Option.bind_some]
  dsimp only [view]
  cases fixed with
  | true =>
    obtain ⟨-, hzero, -⟩ := hbounds rfl
    have hlt := hfixed rfl
    rw [if_pos rfl]
    simp only [room, if_true, Line.clamp, Option.elim_some]
    split
    case isTrue hlast =>
      refine ⟨_, rfl, ⟨hset, hwide, by simp [hzero], by simp, hsize, fun _ => ⟨hlt, hzero, hlt⟩, nofun,
        by simp [hzero]⟩, rfl, ?_⟩
      congr 1
      dsimp only
      omega
    case isFalse hmore =>
      refine ⟨_, rfl, ⟨hset, hwide, by simp [hzero], le_rfl, hsize, fun _ => ⟨hlt, hzero, by dsimp only; omega⟩, nofun,
        by simp [hzero]⟩, rfl, ?_⟩
      congr 1
      dsimp only
      omega
  | false =>
    have hlt := hwindow rfl
    rw [if_neg (by simp)]
    simp only [room, Bool.false_eq_true, if_false, Option.elim_none, Line.clamp]
    split
    case isTrue hlast =>
      exact ⟨_, rfl, ⟨hset, hwide, by dsimp only; omega, le_rfl, hsize, nofun,
        fun _ => by dsimp only; omega, fun hone _ => by dsimp only at hone ⊢; omega⟩, rfl, rfl⟩
    case isFalse hmore =>
      exact ⟨_, rfl, ⟨hset, hwide, by dsimp only; omega, le_rfl, hsize, nofun,
        fun _ => by dsimp only; omega, fun hone hpos => by dsimp only at hone hpos ⊢; omega⟩, rfl, rfl⟩

/-- A character put into the middle of a field with room for it in `data`. -/
theorem insertChar_goes (h : Sound field) (hmiddle : field.position < field.dataN) (hsize : field.dataN < fieldSize)
    (hmode : field.insertMode) (hwindow : field.fixed = false → field.position < field.windowStart + field.width)
    (hfixed : field.fixed → field.dataN < field.width) (k : ℤ) :
    ∃ field', insertChar field k = some field' ∧ Sound field' ∧ room field' = room field ∧
      view field' = (view field).type (room field) k := by
  rw [type_insert h hfixed (.inr hmode)]
  obtain ⟨data, n, width, fixed, mode, position, start, invisible⟩ := field
  obtain ⟨hdata, hwide, hbehind, -, -, hbounds, hscrolling, hinside⟩ := h
  dsimp only at *
  obtain ⟨hmove, hmoved⟩ := memmove_eq data (position + 1) position (n - position)
    (by omega) (by omega)
  have htext := insert_text k hmiddle.le (by omega : n < data.length)
  rw [insertChar]
  dsimp only
  rw [hmove, Option.bind_eq_bind, Option.bind_some, store]
  generalize data.take (position + 1) ++ (data.drop position).take (n - position) ++
    data.drop (position + 1 + (n - position)) = moved at hmoved htext ⊢
  have hset : (moved.set position k).length = fieldSize := by rw [List.length_set, hmoved, hdata]
  rw [if_pos (by omega), Option.bind_some, ← htext]
  dsimp only [view]
  cases fixed with
  | true =>
    obtain ⟨-, hzero, -⟩ := hbounds rfl
    have hlt := hfixed rfl
    rw [if_neg (by omega)]
    refine ⟨_, rfl, ⟨hset, hwide, by simp [hzero], by dsimp only; omega, hsize,
      fun _ => ⟨hlt, hzero, by dsimp only; omega⟩, nofun, by simp [hzero]⟩, rfl, ?_⟩
    simp only [room, if_true, Line.clamp, Option.elim_some]
    congr 1
    omega
  | false =>
    have hlt := hwindow rfl
    simp only [room, Bool.false_eq_true, if_false, Option.elim_none, Line.clamp]
    split
    case isTrue hlast =>
      exact ⟨_, rfl, ⟨hset, hwide, by dsimp only; omega, by dsimp only; omega, hsize, nofun,
        fun _ => by dsimp only; omega, fun hone _ => by dsimp only at hone ⊢; omega⟩, rfl, rfl⟩
    case isFalse hmore =>
      exact ⟨_, rfl, ⟨hset, hwide, by dsimp only; omega, by dsimp only; omega, hsize, nofun,
        fun _ => by dsimp only; omega, fun hone hpos => by
          dsimp only at hone hpos ⊢
          have hle := hinside hone hpos
          omega⟩, rfl, rfl⟩

/-- A character that takes the place of another one. -/
theorem overwrite_goes (h : Sound field) (hmiddle : field.position < field.dataN) (hmode : field.insertMode = false)
    {place : ℕ} (hplace : place = Line.clamp (room field) (field.position + 1))
    (hwindow : field.fixed = false → field.position < field.windowStart + field.width) (k : ℤ) :
    Sound { field with data := field.data.set field.position k, position := place } ∧
      view { field with data := field.data.set field.position k, position := place } =
        (view field).type (room field) k := by
  have hlength : (field.data.take field.dataN).length = field.dataN := h.text_length
  have hclamp : field.fixed → place = min (field.position + 1) (field.width - 1) := fun hf => by
    rw [hplace, room, if_pos hf, Line.clamp, Option.elim_some]
  have hfree : field.fixed = false → place = field.position + 1 := fun hf => by
    rw [hplace, room, if_neg (by simp [hf]), Line.clamp, Option.elim_none]
  have htype : (view field).type (room field) k =
      ⟨(field.data.take field.dataN).set field.position k, place, field.insertMode⟩ := by
    rw [hplace]
    exact if_pos ⟨by rw [← hlength] at hmiddle; exact hmiddle, hmode⟩
  rw [htype]
  obtain ⟨data, n, width, fixed, mode, position, start, invisible⟩ := field
  obtain ⟨hdata, hwide, hbehind, -, hsize, hbounds, hscrolling, hinside⟩ := h
  dsimp only at *
  refine ⟨?_, by rw [view, List.take_set]⟩
  have hset : (data.set position k).length = fieldSize := by rw [List.length_set, hdata]
  cases fixed with
  | true =>
    obtain ⟨hle, hzero, hlt⟩ := hbounds rfl
    have hnow := hclamp rfl
    exact ⟨hset, hwide, by simp [hzero], by dsimp only; omega, hsize,
      fun _ => ⟨hle, hzero, by dsimp only; omega⟩, nofun, by simp [hzero]⟩
  | false =>
    have hlt := hwindow rfl
    have hnow := hfree rfl
    exact ⟨hset, hwide, by dsimp only; omega, by dsimp only; omega, hsize, nofun, fun _ => by dsimp only; omega,
      fun hone hpos => by
        dsimp only at hone hpos ⊢
        have hle := hinside hone hpos
        omega⟩

theorem keystrokeCases_goes (h : Sound field) (k : ℤ) (hfine : field.fixed ∨
    (field.position < field.windowStart + field.width ∧
      (field.dataN < fieldSize ∨ field.position < field.dataN ∧ field.insertMode = false))) :
    ∃ field', keystrokeCases field k = some field' ∧ Sound field' ∧ room field' = room field ∧
      view field' = (view field).type (room field) k := by
  have hwide := h.wide
  have hposition := h.position
  have hbehind := h.window
  have hdata := h.data
  have hsize := h.size
  have hlength : (field.data.take field.dataN).length = field.dataN := h.text_length
  have hstored : field.position < field.dataN → store field.data field.position k =
      some (field.data.set field.position k) := fun hlt => if_pos (by omega)
  have hscrolls : field.fixed = false → field.position < field.windowStart + field.width ∧
      (field.dataN < fieldSize ∨ field.position < field.dataN ∧ field.insertMode = false) := fun hf =>
    hfine.resolve_left (by simp [hf])
  rw [keystrokeCases]
  split
  case isTrue hend => exact appendChar_goes h hend.1 (by omega) (fun _ => by omega) (fun _ => hend.2) k
  case isFalse hend =>
    split
    case isTrue hmiddle =>
      split
      case isTrue hmode =>
        rw [hstored hmiddle.1, Option.map_some]
        have hplace : field.position + 1 = Line.clamp (room field) (field.position + 1) := by
          rw [Line.clamp, room]
          split
          · rw [Option.elim_some]
            omega
          · rfl
        obtain ⟨hsound, hview⟩ := overwrite_goes h hmiddle.1 hmode hplace (fun _ => by omega) k
        exact ⟨_, rfl, hsound, rfl, hview⟩
      case isFalse hmode =>
        exact insertChar_goes h hmiddle.1 (by omega) (by simpa using hmode) (fun _ => by omega) (fun _ => hmiddle.2) k
    case isFalse hmiddle =>
      split
      case isTrue hlong =>
        rcases Bool.eq_false_or_eq_true field.fixed with hf | hf
        · obtain ⟨hle, hzero, hlt⟩ := h.fixed hf
          rcases Bool.eq_false_or_eq_true field.insertMode with hmode | hmode
          · rw [if_pos ⟨hf, hmode⟩]
            refine ⟨field, rfl, h, rfl, ?_⟩
            have hfull : Line.full (room field) (field.data.take field.dataN) = true := by
              rw [Line.full, room, if_pos hf, hlength, Option.elim_some]
              exact decide_eq_true hlong.2
            dsimp only [view, Line.type]
            rw [if_neg (by simp [hmode]), hfull, if_pos rfl]
          · rw [if_neg (by simp [hmode]), if_pos ⟨hf, hmode⟩, hstored hlong.1, Option.map_some]
            have hplace : (if field.position + 1 < field.width then field.position + 1 else field.position) =
                Line.clamp (room field) (field.position + 1) := by
              rw [Line.clamp, room, if_pos hf, Option.elim_some]
              split <;> omega
            obtain ⟨hsound, hview⟩ := overwrite_goes h hlong.1 hmode hplace (fun hoff => by simp [hf] at hoff) k
            exact ⟨_, rfl, hsound, rfl, hview⟩
        · obtain ⟨hinside, hroom⟩ := hscrolls hf
          rw [if_neg (by simp [hf]), if_neg (by simp [hf])]
          rcases Bool.eq_false_or_eq_true field.insertMode with hmode | hmode
          · rw [if_neg (by simp [hmode]), if_neg hlong.1.ne]
            exact insertChar_goes h hlong.1 (by simpa [hmode] using hroom) hmode (fun _ => hinside)
              (fun hon => by simp [hf] at hon) k
          · rw [if_pos ⟨hf, hmode⟩, hstored hlong.1, Option.map_some]
            have hplace : field.position + 1 = Line.clamp (room field) (field.position + 1) := by
              rw [Line.clamp, room, if_neg (by simp [hf])]
              rfl
            obtain ⟨hsound, hview⟩ := overwrite_goes h hlong.1 hmode hplace (fun _ => hinside) k
            exact ⟨_, rfl, hsound, rfl, hview⟩
      case isFalse hlong =>
        have hlast : field.position = field.dataN ∧ field.width ≤ field.dataN := by omega
        rcases Bool.eq_false_or_eq_true field.fixed with hf | hf
        · exact absurd (h.fixed hf).2.2 (by omega)
        · obtain ⟨hinside, hroom⟩ := hscrolls hf
          rw [if_neg (by simp [hf])]
          exact appendChar_goes h hlast.1 (by omega) (fun _ => hinside) (fun hon => by simp [hf] at hon) k

theorem goes_keystroke (h : Sound field) {k : ℤ} (htyped : Key.Typed curses (.keystroke k))
    (hfine : Fine curses field (.keystroke k)) : Goes curses field (.keystroke k) := by
  have hpress : (view field).press curses (room field) (.keystroke k) =
    if disregarded curses k then view field else (view field).type (room field) k := rfl
  rw [Goes, hpress, step, fieldsetKeystroke, if_neg (by simp [htyped.1, htyped.2])]
  by_cases hoff : disregarded curses k
  · rw [if_pos hoff, if_pos hoff]
    exact ⟨field, rfl, h, rfl, rfl⟩
  · rw [if_neg hoff, if_neg hoff]
    obtain ⟨field', hcases, hsound, hroom, hview⟩ := keystrokeCases_goes h k (hfine.resolve_left hoff)
    exact ⟨field', by rw [hcases, Option.bind_some, hsound.fieldsetRender_eq], hsound, hroom, hview⟩

/-- A key within its bounds keeps a field sound and does what it does to a line of text. -/
theorem goes_of_fine (h : Sound field) {key : Key} (htyped : key.Typed curses) (hfine : Fine curses field key) :
    Goes curses field key := by
  cases key with
  | keystroke k => exact goes_keystroke h htyped hfine
  | insert => exact goes_insert h
  | backspace => exact goes_backspace h hfine
  | delete => exact goes_delete h hfine
  | left => exact goes_left h hfine
  | right => exact goes_right h hfine
  | home => exact goes_home h
  | stop => exact goes_stop h

/-! Beyond the bounds. -/

/-- The cursor two columns past the window is not shown. -/
theorem not_bounded_past (field : Field) (hf : field.fixed = false)
    (hpast : field.windowStart + field.width < field.position) : ¬ Bounded field := by
  intro h
  have hright := h.right
  rw [cursor, if_neg (by simp [hf]), if_neg (by omega)] at hright
  omega

theorem fieldsetRender_some {field field' : Field} (h : fieldsetRender field = some field') : field' = field := by
  obtain ⟨-, -, heq⟩ := Option.map_eq_some_iff.1 h
  exact heq.symm

theorem keystrokeCases_past (h : Sound field) (hf : field.fixed = false)
    (hpast : field.position = field.windowStart + field.width) (k : ℤ) {field' : Field}
    (hcases : keystrokeCases field k = some field') : ¬ Bounded field' := by
  have hposition := h.position
  have hwide := h.wide
  have hlong : ¬ field.dataN < field.width := by omega
  have hnext : field.position + 1 ≠ field.windowStart + field.width := by omega
  rw [keystrokeCases, if_neg fun hand => hlong hand.2, if_neg fun hand => hlong hand.2] at hcases
  have happend : appendChar field k = some field' → ¬ Bounded field' := by
    intro happend
    rw [appendChar, Option.bind_eq_bind] at happend
    obtain ⟨data, -, heq⟩ := Option.bind_eq_some_iff.1 happend
    dsimp only at heq
    rw [if_neg (by simp [hf]), if_neg hnext] at heq
    obtain rfl := Option.some.inj heq
    exact not_bounded_past _ hf (by dsimp only; omega)
  split at hcases
  case isTrue hmiddle =>
    rw [if_neg (by simp [hf]), if_neg (by simp [hf])] at hcases
    split at hcases
    case isTrue hmode =>
      obtain ⟨data, -, rfl⟩ := Option.map_eq_some_iff.1 hcases
      exact not_bounded_past _ hf (by dsimp only; omega)
    case isFalse hmode =>
      rw [if_neg hmiddle.1.ne, insertChar, Option.bind_eq_bind] at hcases
      obtain ⟨moved, -, hcases⟩ := Option.bind_eq_some_iff.1 hcases
      obtain ⟨data, -, heq⟩ := Option.bind_eq_some_iff.1 hcases
      dsimp only at heq
      rw [if_neg hnext] at heq
      obtain rfl := Option.some.inj heq
      exact not_bounded_past _ hf (by dsimp only; omega)
  case isFalse hmiddle =>
    rw [if_neg (by simp [hf])] at hcases
    exact happend hcases

/-- A full `data` takes no further character. -/
theorem keystrokeCases_full (h : Sound field) (hf : field.fixed = false) (hfull : field.dataN = fieldSize)
    (hadd : field.position = field.dataN ∨ field.insertMode) (k : ℤ) : keystrokeCases field k = none := by
  have hposition := h.position
  have hwide := h.wide
  have hdata := h.data
  have hlong : ¬ field.dataN < field.width := by omega
  rw [keystrokeCases, if_neg fun hand => hlong hand.2, if_neg fun hand => hlong hand.2]
  split
  case isTrue hmiddle =>
    have hmode : field.insertMode = true := hadd.resolve_left hmiddle.1.ne
    rw [if_neg (by simp [hf]), if_neg (by simp [hf]), if_neg (by simp [hmode]), if_neg hmiddle.1.ne, insertChar,
      memmove, if_neg (by omega)]
    rfl
  case isFalse hmiddle =>
    rw [if_neg (by simp [hf]), appendChar, store, if_neg (by omega)]
    rfl

theorem Fine.of_does (h : Sound field) {key : Key} (htyped : key.Typed curses) (hdoes : Does curses field key) :
    Fine curses field key := by
  have hposition := h.position
  have hbehind := h.window
  have hwide := h.wide
  have hdata := h.data
  have hsize := h.size
  obtain ⟨field', hstep, hbounded, -⟩ := hdoes
  by_contra hfine
  cases key with
  | insert | home | stop => exact hfine trivial
  | keystroke k =>
    simp only [Fine, not_or, not_and_or, not_lt, Bool.not_eq_true] at hfine
    obtain ⟨hoff, hf, hrest⟩ := hfine
    rw [step, fieldsetKeystroke, if_neg (by simp [htyped.1, htyped.2]), if_neg (by simp [hoff])] at hstep
    have hle := h.scrolling hf
    rcases hrest with hpast | ⟨hfull, hadd⟩
    · obtain ⟨drawn, hcases, hrender⟩ := Option.bind_eq_some_iff.1 hstep
      rw [fieldsetRender_some hrender] at hbounded
      exact keystrokeCases_past h hf (by omega) k hcases hbounded
    · have hfull' : field.position = field.dataN ∨ field.insertMode :=
        hadd.imp (fun hge => by omega) fun hmode => by simpa using hmode
      rw [keystrokeCases_full h hf (by omega) hfull'] at hstep
      cases hstep
  | delete =>
    simp only [Fine, not_or, not_lt] at hfine
    rw [step, fieldsetDeleteChar, if_pos ⟨by omega, by omega⟩, memmove, if_neg (by omega)] at hstep
    cases hstep
  | left =>
    simp only [Fine, not_or, not_not, Bool.not_eq_true, ne_eq] at hfine
    obtain ⟨hf, hone, hcolumn, hpos⟩ := hfine
    have heq := fieldsetRender_some hstep
    rw [scrollLeft, if_neg (by dsimp only; omega)] at heq
    subst heq
    have hwindow := hbounded.window
    dsimp only at hwindow
    omega
  | right =>
    simp only [Fine, not_or, not_lt, Bool.not_eq_true] at hfine
    obtain ⟨hf, hend, hpast⟩ := hfine
    have heq := fieldsetRender_some hstep
    rw [if_pos (by omega)] at heq
    dsimp only at heq
    rw [if_neg (by simp [hf]), if_neg (by omega)] at heq
    subst heq
    exact not_bounded_past { field with position := field.position + 1 } hf (by dsimp only; omega) hbounded
  | backspace =>
    simp only [Fine, not_or, not_and_or, not_lt, not_not, Bool.not_eq_true, ne_eq] at hfine
    obtain ⟨hpos, hrest⟩ := hfine
    rw [step, fieldsetBackspace, if_pos (by omega), Option.bind_eq_bind] at hstep
    obtain ⟨moved, hmoved, hrender⟩ := Option.bind_eq_some_iff.1 hstep
    obtain ⟨data, hmove, rfl⟩ := Option.map_eq_some_iff.1 hmoved
    rcases hrest with hfull | ⟨hf, hone, hcolumn⟩
    · rw [memmove, if_neg (by omega)] at hmove
      cases hmove
    · have heq := fieldsetRender_some hrender
      rw [scrollLeft, if_neg (by dsimp only; omega)] at heq
      subst heq
      have hwindow := hbounded.window
      dsimp only at hwindow
      omega

end Keys

/-! ### From a value, key after key -/

theorem fieldSetValue_sound {width : ℕ} {fixed : Bool} {value : List ℤ} (hone : 1 ≤ width) (hwidth : width ≤ fieldSize)
    (hvalue : value.length ≤ if fixed then width else fieldSize) :
    ∃ field, fieldSetValue (fieldMalloc width fixed) value = some field ∧ Sound field ∧
      room field = (if fixed then some width else none) ∧
        view field = ⟨value, Line.clamp (if fixed then some width else none) value.length, true⟩ := by
  have hsize : value.length ≤ fieldSize := by
    cases fixed with
    | true => exact hvalue.trans hwidth
    | false => exact hvalue
  have hdata : (value ++ (List.replicate fieldSize (0 : ℤ)).drop value.length).length = fieldSize := by
    rw [List.length_append, List.length_drop, List.length_replicate]
    omega
  cases fixed with
  | true =>
    have hle : value.length ≤ width := hvalue
    have hset : fieldSetValue (fieldMalloc width true) value =
        some ⟨value ++ (List.replicate fieldSize (0 : ℤ)).drop value.length, value.length, width, true, true,
          if width ≤ value.length then value.length - 1 else value.length, 0, false⟩ := by
      rw [fieldSetValue, if_neg (by omega)]
      exact if_neg (not_lt.2 hle)
    refine ⟨_, hset, ⟨hdata, ⟨hone, hwidth⟩, Nat.zero_le _, by dsimp only; split <;> omega, hsize,
      fun _ => ⟨hle, rfl, by dsimp only; split <;> omega⟩, nofun, nofun⟩, rfl, ?_⟩
    simp only [view, List.take_left, if_true, Line.clamp, Option.elim_some]
    congr 1
    split <;> omega
  | false =>
    have hset : fieldSetValue (fieldMalloc width false) value =
        some ⟨value ++ (List.replicate fieldSize (0 : ℤ)).drop value.length, value.length, width, false, true,
          value.length, value.length + 1 - width, false⟩ := by
      rw [fieldSetValue, if_neg (by omega)]
      rfl
    refine ⟨_, hset, ⟨hdata, ⟨hone, hwidth⟩, by dsimp only; omega, le_rfl, hsize, nofun, fun _ => by dsimp only; omega,
      fun hlt hpos => by dsimp only at hlt hpos ⊢; omega⟩, rfl, ?_⟩
    simp [view, Line.clamp]

/-- Keys that are within their bounds where they come. -/
def FineRun (curses : Curses) (field : Field) : List Key → Prop
  | [] => True
  | key :: keys => Fine curses field key ∧ ∀ field', step curses field key = some field' → FineRun curses field' keys

theorem run_line {curses : Curses} {field : Field} (h : Sound field) {keys : List Key}
    (htyped : ∀ key ∈ keys, key.Typed curses) (hfine : FineRun curses field keys) :
    ∃ reached, run curses field keys = some reached ∧ Sound reached ∧ room reached = room field ∧
      view reached = keys.foldl (Line.press curses (room field)) (view field) := by
  induction keys generalizing field with
  | nil => exact ⟨field, rfl, h, rfl, rfl⟩
  | cons key keys ih =>
    obtain ⟨field', hstep, hsound, hroom, hview⟩ := goes_of_fine h (htyped key List.mem_cons_self) hfine.1
    obtain ⟨reached, hrun, hreached, hsame, hline⟩ :=
      ih hsound (fun x hx => htyped x (List.mem_cons_of_mem _ hx)) (hfine.2 field' hstep)
    refine ⟨reached, by rw [run, hstep, Option.bind_some, hrun], hreached, hsame.trans hroom, ?_⟩
    rw [hline, hroom, hview, List.foldl_cons]

/-- A field is a line of text with a cursor, over any keys that are within their bounds; and the next key keeps to the
line exactly where it is within them. -/
theorem field_line (curses : Curses) {width : ℕ} {fixed : Bool} {value : List ℤ} (hone : 1 ≤ width)
    (hwidth : width ≤ fieldSize) (hvalue : value.length ≤ if fixed then width else fieldSize) :
    ∃ field, fieldSetValue (fieldMalloc width fixed) value = some field ∧ Bounded field ∧
      view field = ⟨value, Line.clamp (if fixed then some width else none) value.length, true⟩ ∧
      ∀ keys : List Key, (∀ key ∈ keys, key.Typed curses) → FineRun curses field keys →
        ∃ reached, run curses field keys = some reached ∧ Bounded reached ∧
          view reached = keys.foldl (Line.press curses (if fixed then some width else none)) (view field) ∧
          ∀ key : Key, key.Typed curses → (Does curses reached key ↔ Fine curses reached key) := by
  obtain ⟨field, hset, hsound, hroom, hview⟩ := fieldSetValue_sound hone hwidth hvalue
  refine ⟨field, hset, hsound.bounded, hview, fun keys htyped hfine => ?_⟩
  obtain ⟨reached, hrun, hreached, -, hline⟩ := run_line hsound htyped hfine
  exact ⟨reached, hrun, hreached.bounded, by rw [hline, hroom], fun key hkey =>
    ⟨fun hdoes => Fine.of_does hreached hkey hdoes, fun hnext => (goes_of_fine hreached hkey hnext).does⟩⟩

/-- Four columns with `ab`. -/
theorem field_line_four :
    ∃ field, fieldSetValue (fieldMalloc 4 true) [97, 98] = some field ∧ Bounded field ∧
      view field = ⟨[97, 98], Line.clamp (if true then some 4 else none) [97, 98].length, true⟩ ∧
      ∀ keys : List Key, (∀ key ∈ keys, key.Typed ⟨257, 511, 343⟩) → FineRun ⟨257, 511, 343⟩ field keys →
        ∃ reached, run ⟨257, 511, 343⟩ field keys = some reached ∧ Bounded reached ∧
          view reached = keys.foldl (Line.press ⟨257, 511, 343⟩ (if true then some 4 else none)) (view field) ∧
          ∀ key : Key, key.Typed ⟨257, 511, 343⟩ →
            (Does ⟨257, 511, 343⟩ reached key ↔ Fine ⟨257, 511, 343⟩ reached key) :=
  field_line ⟨257, 511, 343⟩ (by decide) (by decide) (by decide)

/-- A scrolling field filled with 256 letters takes one more, past the end of `data`; and three letters written over
`abc` in a window of two columns leave the cursor in a fourth one. -/
theorem not_field_line :
    (fieldSetValue (fieldMalloc 10 false) (List.replicate 256 97)).isSome ∧
      Key.Typed ⟨257, 511, 343⟩ (.keystroke 98) ∧
      ((fieldSetValue (fieldMalloc 10 false) (List.replicate 256 97)).bind fun field =>
        step ⟨257, 511, 343⟩ field (.keystroke 98)) = none ∧
      ((fieldSetValue (fieldMalloc 2 false) [97, 98, 99]).bind fun field =>
        (run ⟨257, 511, 343⟩ field [.home, .insert, .keystroke 120, .keystroke 121, .keystroke 122]).map fun reached =>
          (reached.width, cursor reached)) = some (2, 3) := by
  refine ⟨by decide +kernel, ⟨by decide, by decide⟩, by decide +kernel, by decide +kernel⟩

end CProgram.Qodem.Fields
