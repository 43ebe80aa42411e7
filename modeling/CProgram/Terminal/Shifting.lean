import CProgram.Terminal.Cells
import CProgram.Terminal.Region

/-! Characters that move in a line: `insert_blanks` and `delete_character` against each other. -/
namespace CProgram.Terminal
open CProgram.Programs

section columns
variable {β : Type} {f : ℤ → β} {x : ℤ} {n : ℕ} {blank : β}

/-- The columns from `x` on are moved by `n`, and blanks come in. -/
def opening (x : ℤ) (n : ℕ) (blank : β) (f : ℤ → β) : ℤ → β := fun i =>
  if x ≤ i ∧ i < x + n then blank else if x + n ≤ i ∧ i < maxLineLength then f (i - n) else f i

/-- The columns behind `x + n` are moved to `x`; the last one stays. -/
def closing (x : ℤ) (n : ℕ) (f : ℤ → β) : ℤ → β := fun i =>
  if x ≤ i ∧ i < maxLineLength then f (min (i + n) (maxLineLength - 1)) else f i

theorem opening_zero : opening x 0 blank f = f := by
  funext i
  simp only [opening, Nat.cast_zero, Int.sub_zero, ite_self]
  exact if_neg (by omega)

theorem opening_opening (hfits : x + n + 1 ≤ maxLineLength) :
    opening x n blank (opening x 1 blank f) = opening x (n + 1) blank f := by
  funext i
  simp only [opening, Nat.cast_add, Nat.cast_one]
  split_ifs <;> first | rfl | omega | exact congrArg f (by omega)

theorem closing_zero : closing x 0 f = f := by
  funext i
  simp only [closing]
  split_ifs
  · exact congrArg f (by omega)
  · rfl

theorem closing_closing (hx : x < maxLineLength) : closing x n (closing x 1 f) = closing x (n + 1) f := by
  funext i
  simp only [closing, Nat.cast_add, Nat.cast_one]
  split_ifs <;> first | rfl | omega | exact congrArg f (by omega)

theorem closing_opening {i : ℤ} (hi : i < maxLineLength - n) : closing x n (opening x n blank f) i = f i := by
  simp only [closing, opening]
  split_ifs <;> first | rfl | omega | exact congrArg f (by omega)

/-- One blank, once the columns behind it have been moved. -/
theorem opening_one : (fun i => if x ≤ i ∧ i < x + 1 then blank
    else if x + 1 ≤ i ∧ i < x + 1 + (maxLineLength - x - 1) then f (i - (x + 1) + x) else f i) = opening x 1 blank f := by
  funext i
  simp only [opening, Nat.cast_one]
  split_ifs <;> first | rfl | omega | exact congrArg f (by omega)

theorem closing_one : (fun i => if x ≤ i ∧ i < x + (maxLineLength - x - 1) then f (i - x + (x + 1)) else f i) =
    closing x 1 f := by
  funext i
  simp only [closing, Nat.cast_one]
  split_ifs <;> first | rfl | omega | exact congrArg f (by omega)

end columns

namespace Text
variable {t : Text} {x : ℤ} {color : Attr} {n : ℕ}

/-- The length after so many columns came in. -/
def grown (n : ℕ) (length : ℤ) : ℤ := if length < maxLineLength then min maxLineLength (length + n) else length

/-- The length after so many columns went out behind the cursor. -/
def shrunk (x : ℤ) (n : ℕ) (length : ℤ) : ℤ := if x < length then max x (length - n) else length

/-- What the blanks of `insert_blanks` leave. -/
def blanked (x : ℤ) (color : Attr) (n : ℕ) (t : Text) : Text :=
  { (if 0 < n then t.written x (x + 1) 0x20 color else t) with length := grown n t.length }

def opened (x : ℤ) (color : Attr) (n : ℕ) (t : Text) : Text := { t with
  chars := opening x n 0x20 t.chars
  colors := opening x n color t.colors
  length := grown n t.length }

def deleted (x : ℤ) (n : ℕ) (t : Text) : Text := { t with
  chars := closing x n t.chars
  colors := closing x n t.colors
  length := shrunk x n t.length }

theorem grown_zero (length : ℤ) : grown 0 length = length := by
  simp only [grown]
  split_ifs <;> omega

theorem shrunk_zero (length : ℤ) : shrunk x 0 length = length := by
  simp only [shrunk]
  split_ifs <;> omega

theorem shrunk_one (length : ℤ) : shrunk x 1 length = if x < length then length - 1 else length := by
  simp only [shrunk]
  split_ifs <;> omega

theorem grown_one (length : ℤ) : grown 1 length = if length < maxLineLength then length + 1 else length := by
  unfold grown
  split <;> omega

theorem grown_grown (length : ℤ) : grown n (grown 1 length) = grown (n + 1) length := by
  simp only [grown]
  push_cast
  split_ifs <;> omega

theorem shrunk_shrunk (length : ℤ) : shrunk x n (shrunk x 1 length) = shrunk x (n + 1) length := by
  simp only [shrunk]
  push_cast
  split_ifs <;> omega

theorem lengthen_eq : t.lengthen = { t with length := grown 1 t.length } := by
  rw [grown_one, lengthen]
  split <;> rfl

theorem blanks_ok (hx : 0 ≤ x) (hx' : x < maxLineLength) : t.blanks x color n = .ok (t.blanked x color n) := by
  induction n generalizing t with
  | zero =>
    simp [blanks, blanked, grown_zero, pure, Except.pure]
  | succ n ih =>
    rw [blanks, write_eq (checkColumns_ok hx (by omega))]
    show (t.written x (x + 1) 0x20 color).lengthen.blanks x color n = _
    rw [ih, lengthen_eq]
    congr 1
    cases n with
    | zero => ext i <;> simp [blanked, written, grown_grown]
    | succ n =>
      ext i <;> simp only [blanked, written, Nat.succ_pos, if_true, grown_grown] <;> split_ifs <;> rfl

theorem insertBlanks_ok {count : ℤ} (hx : 0 ≤ x) (hx' : x < maxLineLength) (hcount : 0 ≤ count)
    (hfits : x + count ≤ maxLineLength) : t.insertBlanks x count color =
      .ok ((t.moved (x + count) x (maxLineLength - x - count)).blanked x color count.toNat) := by
  rw [insertBlanks, memmove_ok (by omega) (by omega) (by omega) hx (by omega)]
  exact blanks_ok hx hx'

theorem opened_zero : t.opened x color 0 = t := by
  simp only [opened, opening_zero, grown_zero]

theorem opened_opened (hfits : x + n + 1 ≤ maxLineLength) :
    (t.opened x color 1).opened x color n = t.opened x color (n + 1) := by
  simp only [opened, opening_opening hfits, grown_grown]

theorem deleted_zero : t.deleted x 0 = t := by
  simp only [deleted, closing_zero, shrunk_zero]

theorem deleted_deleted (hx' : x < maxLineLength) : (t.deleted x 1).deleted x n = t.deleted x (n + 1) := by
  simp only [deleted, closing_closing hx', shrunk_shrunk]

/-- Where one blank comes in, all of them do. -/
theorem insertBlanks_one (hx : 0 ≤ x) (hx' : x < maxLineLength) : t.insertBlanks x 1 color = .ok (t.opened x color 1) := by
  rw [insertBlanks_ok hx hx' (by omega) (by omega)]
  simp only [blanked, moved, written, opened, Int.toNat_one, zero_lt_one, if_true, opening_one]

theorem delete_ok (hx : 0 ≤ x) (hx' : x < maxLineLength) : t.delete x = .ok (t.deleted x 1) := by
  rw [delete, memmove_ok (by omega) hx (by omega) (by omega) (by omega)]
  show Except.ok (if x < t.length then _ else _) = _
  simp only [deleted, shrunk_one, moved, closing_one]
  split_ifs <;> rfl

/-- What `insert_blanks` leaves: the blanks behind the first are the columns that were there. -/
def inserted (x : ℤ) (color : Attr) (n : ℕ) (t : Text) : Text :=
  (t.moved (x + n) x (maxLineLength - x - n)).blanked x color n

theorem cell_inserted {i : ℤ} (hi : x < i ∧ i < x + n) : (t.inserted x color n).cell i = t.cell i := by
  have hpos : 0 < n := by omega
  have hfirst : ¬ (x ≤ i ∧ i < x + 1) := by omega
  have hmoved : ¬ (x + n ≤ i ∧ i < x + n + (maxLineLength - x - n)) := by omega
  simp only [cell, inserted, blanked, moved, written, hpos, if_true, if_neg hfirst, if_neg hmoved]

/-- Blanks that were there already take the place of those that are not written. -/
theorem inserted_eq_opened (hblank : ∀ i, x < i → i < x + n → t.cell i = (0x20, color)) :
    t.inserted x color n = t.opened x color n := by
  have hcolumns {β : Type} {f : ℤ → β} {blank : β} (hf : ∀ i, x < i → i < x + n → f i = blank) :
      (fun i => if 0 < n ∧ x ≤ i ∧ i < x + 1 then blank
        else if x + n ≤ i ∧ i < x + n + (maxLineLength - x - n) then f (i - (x + n) + x) else f i) =
        opening x n blank f := by
    funext i
    simp only [opening]
    split_ifs <;> first | rfl | omega | exact congrArg f (by omega) | exact hf i (by omega) (by omega)
  have hchars := hcolumns (f := t.chars) fun i hlo hhi => congrArg Prod.fst (hblank i hlo hhi)
  have hcolors := hcolumns (f := t.colors) fun i hlo hhi => congrArg Prod.snd (hblank i hlo hhi)
  rw [opened, ← hchars, ← hcolors]
  simp only [inserted, blanked, moved, written]
  cases n <;> simp

end Text
open Text Screen

variable {s : Screen} {a : ℕ} {line : Line} {text : Text} {n : ℕ}

theorem insertBlanks_eq {count : ℤ} (ha : s.current = some a) (hline : s.lines a = some line)
    (htext : line.text.insertBlanks s.cursorX count s.currentColor = .ok text) :
    insertBlanks count s = .ok ((), s.withText a line text) := by
  show onText s.current _ s = _
  rw [ha]
  exact onText_eq hline htext

/-- So many calls of `insert_blanks(1)`. -/
theorem repeat_insertBlanks (text : Text) (ha : s.current = some a) (hx : 0 ≤ s.cursorX) (hx' : s.cursorX < maxLineLength)
    (hfits : s.cursorX + n ≤ maxLineLength) :
    repeatFrom (fun _ => insertBlanks 1) n () (s.withText a line text) =
      .ok ((), s.withText a line (text.opened s.cursorX s.currentColor n)) := by
  induction n generalizing text with
  | zero =>
    rw [opened_zero]
    rfl
  | succ n ih =>
    have hone : insertBlanks 1 (s.withText a line text) =
        .ok ((), s.withText a line (text.opened s.cursorX s.currentColor 1)) := by
      rw [insertBlanks_eq (s := s.withText a line text) ha lines_withText (insertBlanks_one hx hx'), withText_withText]
      rfl
    show (insertBlanks 1 (s.withText a line text) >>= fun p => repeatFrom (fun _ => insertBlanks 1) n p.1 p.2) = _
    push_cast at hfits
    have hrest := ih (text.opened s.cursorX s.currentColor 1) (by omega)
    rw [opened_opened (by omega)] at hrest
    rw [hone]
    exact hrest

theorem repeat_delete (text : Text) (hx : 0 ≤ s.cursorX) (hx' : s.cursorX < maxLineLength) :
    repeatFrom (fun _ => onText (some a) (Text.delete s.cursorX)) n () (s.withText a line text) =
      .ok ((), s.withText a line (text.deleted s.cursorX n)) := by
  induction n generalizing text with
  | zero =>
    rw [deleted_zero]
    rfl
  | succ n ih =>
    have hone : onText (some a) (Text.delete s.cursorX) (s.withText a line text) =
        .ok ((), s.withText a line (text.deleted s.cursorX 1)) := by
      rw [onText_eq lines_withText (delete_ok hx hx'), withText_withText]
    show (onText (some a) (Text.delete s.cursorX) (s.withText a line text) >>= fun p =>
      repeatFrom (fun _ => onText (some a) (Text.delete s.cursorX)) n p.1 p.2) = _
    have hrest := ih (text.deleted s.cursorX 1)
    rw [deleted_deleted hx'] at hrest
    rw [hone]
    exact hrest

theorem deleteCharacter_eq {count : ℤ} (ha : s.current = some a) (hx : 0 ≤ s.cursorX)
    (hx' : s.cursorX < maxLineLength) : deleteCharacter count (s.withText a line text) =
      .ok ((), s.withText a line (text.deleted s.cursorX count.toNat)) := by
  have hcurrent : (s.withText a line text).current = some a := ha
  show (textAt (s.withText a line text).current (s.withText a line text) >>= fun p =>
    repeatFrom (fun _ => onText (s.withText a line text).current (Text.delete s.cursorX)) count.toNat () p.2) = _
  rw [hcurrent, textAt_eq lines_withText]
  exact repeat_delete text hx hx'

/-- `insert_blanks(count)` opens the line at the cursor as `count` calls of it do, and `delete_character(count)` closes
it again. -/
def OpensLine (count : ℤ) (s : Screen) : Prop :=
  ∃ t old new, insertBlanks count s = .ok ((), t) ∧ s.currentText = some old ∧ t.currentText = some new ∧
    (∀ i, i < s.cursorX → new.cell i = old.cell i) ∧
    (∀ i, s.cursorX ≤ i → i < s.cursorX + count → new.cell i = (0x20, s.currentColor)) ∧
    (∀ j, s.cursorX ≤ j → j + count < maxLineLength → new.cell (j + count) = old.cell j) ∧
    repeatFrom (fun _ => insertBlanks 1) count.toNat () s = .ok ((), t) ∧
    ∃ u back, deleteCharacter count t = .ok ((), u) ∧ u.currentText = some back ∧
      ∀ i, 0 ≤ i → i < maxLineLength - count → back.cell i = old.cell i

theorem insertBlanks_inserted {count : ℤ} (ha : s.current = some a) (hline : s.lines a = some line)
    (hx : 0 ≤ s.cursorX) (hx' : s.cursorX < maxLineLength) (hcount : 0 ≤ count)
    (hfits : s.cursorX + count ≤ maxLineLength) :
    insertBlanks count s = .ok ((), s.withText a line (line.text.inserted s.cursorX s.currentColor count.toNat)) := by
  obtain ⟨n, rfl⟩ := Int.eq_ofNat_of_zero_le hcount
  exact insertBlanks_eq ha hline (insertBlanks_ok hx hx' hcount hfits)

theorem OpensLine.blank {count : ℤ} (h : OpensLine count s) (htext : s.currentText = some text) (hx : 0 ≤ s.cursorX)
    (hx' : s.cursorX < maxLineLength) (hcount : 0 ≤ count) (hfits : s.cursorX + count ≤ maxLineLength) {i : ℤ}
    (hlo : s.cursorX < i) (hhi : i < s.cursorX + count) : text.cell i = (0x20, s.currentColor) := by
  obtain ⟨a, line, ha, hline, rfl⟩ := exists_current htext
  obtain ⟨t, old, new, ht, -, hnew, -, hblank, -⟩ := h
  rw [insertBlanks_inserted ha hline hx hx' hcount hfits] at ht
  simp only [Except.ok.injEq, Prod.mk.injEq, true_and] at ht
  rw [← ht, currentText_withText ha, Option.some.injEq] at hnew
  have hkept : (line.text.inserted s.cursorX s.currentColor count.toNat).cell i = line.text.cell i :=
    cell_inserted ⟨hlo, by omega⟩
  rw [← hkept, hnew]
  exact hblank i hlo.le hhi

theorem opensLine_of_blank {count : ℤ} (htext : s.currentText = some text) (hx : 0 ≤ s.cursorX)
    (hx' : s.cursorX < maxLineLength) (hcount : 0 ≤ count) (hfits : s.cursorX + count ≤ maxLineLength)
    (hblank : ∀ i, s.cursorX < i → i < s.cursorX + count → text.cell i = (0x20, s.currentColor)) :
    OpensLine count s := by
  obtain ⟨a, line, ha, hline, rfl⟩ := exists_current htext
  have hinsert := insertBlanks_inserted ha hline hx hx' hcount hfits
  obtain ⟨n, rfl⟩ := Int.eq_ofNat_of_zero_le hcount
  have hrepeat : repeatFrom (fun _ => insertBlanks 1) n () (s.withText a line line.text) = _ :=
    repeat_insertBlanks line.text ha hx hx' hfits
  rw [Int.toNat_natCast, inserted_eq_opened hblank] at hinsert
  rw [withText_self hline] at hrepeat
  refine ⟨_, _, _, hinsert, htext, currentText_withText ha, ?_, ?_, ?_, hrepeat, _, _,
    deleteCharacter_eq ha hx hx', currentText_withText ha, ?_⟩
  · intro i hi
    simp only [cell, opened, opening]
    rw [if_neg (by omega), if_neg (by omega), if_neg (by omega), if_neg (by omega)]
  · intro i hlo hhi
    simp only [cell, opened, opening]
    rw [if_pos ⟨hlo, hhi⟩, if_pos ⟨hlo, hhi⟩]
  · intro j hlo hhi
    simp only [cell, opened, opening]
    rw [if_neg (by omega), if_pos (by omega), if_neg (by omega), if_pos (by omega), Int.add_sub_cancel]
  · intro i _ hi
    simp only [cell, deleted, opened, Int.toNat_natCast, closing_opening hi]

/-- The blanks come in as they should when those behind the first were blanks of the current color before. -/
theorem opensLine_iff {count : ℤ} (htext : s.currentText = some text) (hx : 0 ≤ s.cursorX)
    (hx' : s.cursorX < maxLineLength) (hcount : 0 ≤ count) (hfits : s.cursorX + count ≤ maxLineLength) :
    OpensLine count s ↔
      ∀ i, s.cursorX < i → i < s.cursorX + count → text.cell i = (0x20, s.currentColor) := by
  constructor
  · intro h i hlo hhi
    exact h.blank htext hx hx' hcount hfits hlo hhi
  · exact opensLine_of_blank htext hx hx' hcount hfits

theorem opensLine_blank : OpensLine 2 (Screen.blank .vt100) :=
  (opensLine_iff rfl (by decide) (by decide) (by decide) (by decide)).mpr fun _ _ _ => rfl

/-- A line full of the letter A. -/
def lettered : Text := ⟨fun _ => 0x41, fun _ => {}, 80, false, 0, false⟩

/-- Two blanks before the letters of a line: the second stays a letter. -/
theorem not_opensLine : ¬ ∀ (s : Screen) (text : Text) (count : ℤ), s.currentText = some text → 0 ≤ s.cursorX →
    s.cursorX < maxLineLength → 0 ≤ count → s.cursorX + count ≤ maxLineLength → OpensLine count s := by
  intro hall
  have hopens := hall ((Screen.blank .vt100).withText 0 ⟨⟨none, none⟩, lettered⟩ lettered) lettered 2 rfl (by decide)
    (by decide) (by decide) (by decide)
  have hcell := hopens.blank (i := 1) rfl (by decide) (by decide) (by decide) (by decide) (by decide) (by decide)
  exact absurd (congrArg Prod.fst hcell) (by decide)

end CProgram.Terminal
