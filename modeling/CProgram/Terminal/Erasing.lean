import CProgram.Terminal.Pages
import CProgram.Terminal.Region

/-! What erasing leaves in a line, and on the screen. -/
namespace CProgram.Terminal
open CProgram.Programs Screen

namespace Text
variable {t : Text} {width start stop : ℤ} {ch : UInt32} {honorProtected : Bool} {consoleText eraseColor : Attr}

/-- Whether a column is left alone. -/
abbrev Spared (honorProtected : Bool) (t : Text) (i : ℤ) : Prop := honorProtected = true ∧ (t.colors i).protect = true

/-- What `pad` leaves. -/
def padded (start : ℤ) (color : Attr) (t : Text) : Text :=
  if t.length < start then { t.written t.length start 0x20 color with length := start } else t

theorem pad_ok {color : Attr} (hlength : 0 ≤ t.length) (hstart : start ≤ maxLineLength) :
    t.pad start color = .ok (t.padded start color) := by
  unfold pad padded
  split
  · rw [write_eq (checkColumns_ok hlength hstart)]
    rfl
  · rfl

/-- What `fill_line_with_character` leaves. -/
def filled (start stop : ℤ) (ch : UInt32) (honorProtected : Bool) (consoleText eraseColor : Attr) (t : Text) : Text :=
  { t with
    chars := fun i =>
      if start ≤ i ∧ i < stop + 1 then
        if honorProtected ∧ (t.colors i).protect then t.chars i else ch
      else if t.length ≤ i ∧ i < start then 0x20 else t.chars i
    colors := fun i =>
      if start ≤ i ∧ i < stop + 1 then
        if honorProtected ∧ (t.colors i).protect then t.colors i else eraseColor
      else if t.length ≤ i ∧ i < start then consoleText else t.colors i
    length := if max t.length start < stop then stop + 1 else max t.length start }

theorem fill_ok (hstart : 0 ≤ start) (hstop : start ≤ stop) (hwidth : stop < width) (hmax : stop < maxLineLength)
    (hlength : 0 ≤ t.length) (hshort : t.length ≤ width) :
    t.fill width start stop ch honorProtected consoleText eraseColor =
      .ok (t.filled start stop ch honorProtected consoleText eraseColor) := by
  rw [fill, if_neg (by omega), pad_ok hlength (by omega)]
  show (update start (stop + 1) _ (t.padded start consoleText) >>= _) = _
  rw [update, checkColumns_ok hstart (by omega)]
  have hpadded : (t.padded start consoleText).length = max t.length start := by
    unfold padded
    split
    · dsimp only
      omega
    · omega
  -- the columns from `start` on are as they were, and those before it are spaces from the old end on
  have hchars (i : ℤ) : (t.padded start consoleText).chars i =
      if t.length ≤ i ∧ i < start then 0x20 else t.chars i := by
    unfold padded
    split
    · rfl
    · exact (if_neg (by omega)).symm
  have hcolors (i : ℤ) : (t.padded start consoleText).colors i =
      if t.length ≤ i ∧ i < start then consoleText else t.colors i := by
    unfold padded
    split
    · rfl
    · exact (if_neg (by omega)).symm
  have hrest : (t.padded start consoleText).doubleWidth = t.doubleWidth ∧
      (t.padded start consoleText).doubleHeight = t.doubleHeight ∧
      (t.padded start consoleText).reverseColor = t.reverseColor := by
    unfold padded
    split <;> exact ⟨rfl, rfl, rfl⟩
  generalize t.padded start consoleText = p at *
  simp only [bind, Except.bind, pure, Except.pure, hpadded]
  congr 1
  have hfit : ¬ width < if max t.length start < stop then stop + 1 else max t.length start := by
    split <;> omega
  have hwritten : (fun i => if start ≤ i ∧ i < stop + 1 then
        (if honorProtected = true ∧ (p.colors i).protect = true then (p.chars i, p.colors i) else (ch, eraseColor)).1
      else p.chars i) = (t.filled start stop ch honorProtected consoleText eraseColor).chars := by
    funext i
    simp only [filled, hchars, hcolors]
    split_ifs <;> first | rfl | omega | simp_all
  have hcolored : (fun i => if start ≤ i ∧ i < stop + 1 then
        (if honorProtected = true ∧ (p.colors i).protect = true then (p.chars i, p.colors i) else (ch, eraseColor)).2
      else p.colors i) = (t.filled start stop ch honorProtected consoleText eraseColor).colors := by
    funext i
    simp only [filled, hchars, hcolors]
    split_ifs <;> first | rfl | omega | simp_all
  rw [hwritten, hcolored, if_neg (by rw [apply_ite Text.length]; exact hfit), hrest.1, hrest.2.1, hrest.2.2]
  simp only [filled]
  split <;> rfl

/-- In a line too long for the buffer nothing is filled. -/
theorem fill_fault (hstart : 0 ≤ start) (hstop : start ≤ stop) (hmax : maxLineLength ≤ stop) :
    ∀ new, t.fill width start stop ch honorProtected consoleText eraseColor ≠ .ok new := by
  intro new hnew
  rw [fill, if_neg (by omega)] at hnew
  cases hpad : t.pad start consoleText with
  | error fault =>
    rw [hpad] at hnew
    cases hnew
  | ok t' =>
    have hcheck : checkColumns start (stop + 1) = .error .column := if_neg (by omega)
    rw [hpad] at hnew
    simp only [update, hcheck] at hnew
    cases hnew

/-- `fill_line_with_character` fills the columns from `start` to `stop` that are not spared, and no others. -/
def FillsExactly (width start stop : ℤ) (ch : UInt32) (honorProtected : Bool) (consoleText eraseColor : Attr)
    (t : Text) : Prop :=
  ∃ new, t.fill width start stop ch honorProtected consoleText eraseColor = .ok new ∧
    (∀ i, start ≤ i → i ≤ stop → ¬ Spared honorProtected t i → i < new.length ∧ new.chars i = ch) ∧
    (∀ i, i < t.length → ¬ (start ≤ i ∧ i ≤ stop ∧ ¬ Spared honorProtected t i) → new.cell i = t.cell i) ∧
    (∀ i, t.length ≤ i → i < start → new.chars i = 0x20) ∧
    new.length = max t.length (stop + 1)

/-- The lines that are filled as they should be: all but those that end, once padded, just where the fill does. -/
theorem fillsExactly_iff (hstart : 0 ≤ start) (hstop : start ≤ stop) (hwidth : stop < width) (hlength : 0 ≤ t.length)
    (hshort : t.length ≤ width) :
    t.FillsExactly width start stop ch honorProtected consoleText eraseColor ↔
      stop < maxLineLength ∧ max t.length start ≠ stop := by
  by_cases hmax : stop < maxLineLength
  · rw [FillsExactly, fill_ok hstart hstop hwidth hmax hlength hshort, and_iff_right hmax]
    constructor
    · rintro ⟨new, hnew, -, -, -, hgrown⟩ heq
      simp only [Except.ok.injEq] at hnew
      rw [← hnew] at hgrown
      simp only [filled, heq, lt_irrefl, if_false] at hgrown
      omega
    · intro hne
      have hgrown : (t.filled start stop ch honorProtected consoleText eraseColor).length = max t.length (stop + 1) := by
        simp only [filled]
        split <;> omega
      refine ⟨_, rfl, ?_, ?_, ?_, hgrown⟩
      · intro i hlo hhi hspared
        refine ⟨by rw [hgrown]; omega, ?_⟩
        simp only [filled]
        rw [if_pos (by omega), if_neg hspared]
      · intro i hi hout
        simp only [cell, filled]
        by_cases hin : start ≤ i ∧ i < stop + 1
        · have hspared : Spared honorProtected t i := by
            by_contra hspared
            exact hout ⟨hin.1, by omega, hspared⟩
          rw [if_pos hin, if_pos hin, if_pos hspared, if_pos hspared]
        · rw [if_neg hin, if_neg hin, if_neg (by omega), if_neg (by omega)]
      · intro i hlo hhi
        simp only [filled]
        rw [if_neg (by omega), if_pos ⟨hlo, hhi⟩]
  · constructor
    · rintro ⟨new, hnew, -⟩
      exact absurd hnew (fill_fault hstart hstop (by omega) new)
    · exact fun h => absurd h.1 hmax

/-- What a column shows: behind the end of the line there are blanks. -/
def shown (consoleText : Attr) (t : Text) (i : ℤ) : UInt32 × Attr := if i < t.length then t.cell i else (0x20, consoleText)

theorem shown_filled_inside {i : ℤ} (hlo : start ≤ i) (hhi : i ≤ stop) (hspared : ¬ Spared honorProtected t i) :
    ((t.filled start stop 0x20 honorProtected consoleText eraseColor).shown consoleText i).1 = 0x20 := by
  have hin : (t.filled start stop 0x20 honorProtected consoleText eraseColor).chars i = 0x20 := by
    simp only [filled]
    rw [if_pos (by omega), if_neg hspared]
  rw [shown]
  split
  · exact hin
  · rfl

theorem shown_filled_outside {i : ℤ} (hout : ¬ (start ≤ i ∧ i ≤ stop)) (hstop : start ≤ stop) :
    (t.filled start stop ch honorProtected consoleText eraseColor).shown consoleText i = t.shown consoleText i := by
  have hcell : (t.filled start stop ch honorProtected consoleText eraseColor).cell i =
      if t.length ≤ i ∧ i < start then (0x20, consoleText) else t.cell i := by
    simp only [cell, filled, if_neg (show ¬ (start ≤ i ∧ i < stop + 1) by omega)]
    split <;> rfl
  simp only [shown, hcell]
  simp only [filled]
  split_ifs <;> first | rfl | omega

end Text
open Text

/-! ### The screen -/

/-- The current line is another one. -/
def Screen.at (s : Screen) (p : Option ℕ) : Screen := { s with current := p }

variable {s u v : Screen} {ids ids' : List ℕ} {text new : ℕ → Text} {i n : ℕ} {E : Fault → Prop} {p : Option ℕ}
  {startRow startCol endRow endCol : ℤ} {honorProtected : Bool}

theorem Screen.Page.at (h : s.Page ids text) : (s.at p).Page ids text :=
  ⟨⟨h.chain.linked, h.chain.nonempty, h.chain.buffer, h.chain.last, h.chain.position, h.chain.fresh⟩, h.text_eq, h.beyond,
    h.rows, h.count, h.room⟩

/-- The texts of some places are others. -/
def changed (i n : ℕ) (new text : ℕ → Text) : ℕ → Text := fun k => if i ≤ k ∧ k < i + n then new k else text k

theorem Screen.SameButList.at (h : SameButList s u) : SameButList (s.at p) (u.at p) := by
  obtain ⟨h⟩ := h
  constructor
  rw [h]
  rfl

/-- The rows that `erase_screen` goes through. -/
theorem Screen.Page.ends_eraseRows (h : s.Page ids text) (hi : i < ids.length)
    (hroom : i + n ≤ max ids.length s.rows.toNat)
    (hfill : ∀ k, i ≤ k → k < i + n → (text k).fill s.width startCol endCol 0x20 honorProtected s.consoleText
      s.eraseColor = .ok (new k)) :
    Ends (eraseRows startCol endCol honorProtected n ids[i]?) E
      (fun _ u => ∃ ids', u.Page ids' (changed i n new text) ∧ Grows (i + n) (s.at u.current) ids u ids') s := by
  induction n generalizing s ids i text with
  | zero =>
    have hsame : changed i 0 new text = text := by
      funext k
      exact if_neg (by omega)
    rw [hsame]
    exact ⟨ids, h, List.prefix_rfl, by omega, ⟨by cases s; rfl⟩⟩
  | succ n ih =>
    obtain ⟨a, ha⟩ := exists_at ids i hi
    rw [ha, eraseRows, ends_bind, ends_modify, ends_bind, eraseLine, fillLineWithCharacter, ends_bind, ends_get]
    have hat : (s.at (some a)).Page ids text := h.at
    refine (hat.ends_onText ha (hfill i le_rfl (by omega))).post fun _ u hu => ?_
    obtain ⟨hpage, hsame⟩ := hu
    have hcurrent : u.current = some a := by
      rw [hsame.eq]
      rfl
    have hlist : SameButList (s.at u.current) u := hcurrent ▸ hsame.sameButList
    by_cases hn : n = 0
    · have hone : changed i (n + 1) new text = Function.update text i (new i) := by
        funext k
        by_cases hk : k = i
        · rw [hk, Function.update_self]
          exact if_pos (by omega)
        · rw [Function.update_of_ne hk]
          exact if_neg (by omega)
      rw [if_pos hn, ends_pure, hone]
      exact ⟨ids, hpage, List.prefix_rfl, by omega, hlist⟩
    · have hrows : u.rows = s.rows := by
        rw [hlist.eq]
        rfl
      rw [if_neg hn, ends_bind]
      refine (hpage.ends_stepDown ha (by rw [hrows]; omega)).post fun r v hv => ?_
      obtain ⟨ids', hpage', hgrows, rfl⟩ := hv
      have hlength := hgrows.length
      have hv : SameButList (s.at u.current) v := hlist.trans hgrows.same
      have hrows' : v.rows = s.rows := by
        rw [hv.eq]
        rfl
      have hfill' : ∀ k, i + 1 ≤ k → k < i + 1 + n → (Function.update text i (new i) k).fill v.width startCol endCol 0x20
          honorProtected v.consoleText v.eraseColor = .ok (new k) := by
        intro k hlo hhi
        rw [Function.update_of_ne (by omega), hv.eq]
        exact hfill k (by omega) (by omega)
      refine (ih hpage' (by omega) (by rw [hrows']; omega) hfill').post fun _ w hw => ?_
      obtain ⟨ids'', hpage'', hgrows'⟩ := hw
      have hlength' := hgrows'.length
      have hboth : changed (i + 1) n new (Function.update text i (new i)) = changed i (n + 1) new text := by
        funext k
        simp only [changed]
        by_cases hk : k = i
        · rw [hk, Function.update_self, if_neg (by omega), if_pos (by omega)]
        · rw [Function.update_of_ne hk]
          split_ifs <;> first | rfl | omega
      rw [hboth] at hpage''
      exact ⟨ids'', hpage'', hgrows.start.trans hgrows'.start, by omega, hv.at.trans hgrows'.same⟩

/-- What `erase_screen` does to the rows of a rectangle. -/
theorem Screen.Page.ends_eraseScreen (h : s.Page ids text) (hrow : 0 ≤ startRow) (hrows : startRow ≤ endRow)
    (hend : endRow < s.rows) (hcol : 0 ≤ startCol) (hcols : startCol ≤ endCol)
    (hfill : ∀ k, s.base ids + startRow.toNat ≤ k → k < s.base ids + endRow.toNat + 1 →
      (text k).fill s.width startCol endCol 0x20 honorProtected s.consoleText s.eraseColor = .ok (new k)) :
    Ends (eraseScreen startRow startCol endRow endCol honorProtected) E
      (fun _ u => ∃ ids', u.Page ids'
          (changed (s.base ids + startRow.toNat) (endRow - startRow + 1).toNat new text) ∧
        Grows (s.base ids + endRow.toNat + 1) s ids u ids') s := by
  have hbase := h.base_lt
  have hplaces : s.base ids + startRow.toNat + (endRow - startRow + 1).toNat = s.base ids + endRow.toNat + 1 := by omega
  rw [eraseScreen, if_neg (by omega), ends_bind, ends_get, ends_bind]
  have hwalk : Ends (findTop >>= repeatFrom stepDown startRow.toNat) E _ s := h.ends_row (by omega)
  rw [ends_bind] at hwalk
  refine hwalk.post fun top u hu => ?_
  rw [ends_bind]
  refine hu.post fun r v hv => ?_
  obtain ⟨ids', hpage, hgrows, rfl⟩ := hv
  have hlength := hgrows.length
  have hsame := hgrows.same
  rw [ends_bind]
  have hfill' : ∀ k, s.base ids + startRow.toNat ≤ k → k < s.base ids + startRow.toNat + (endRow - startRow + 1).toNat →
      (text k).fill v.width startCol endCol 0x20 honorProtected v.consoleText v.eraseColor = .ok (new k) := by
    intro k hlo hhi
    rw [hsame.eq]
    exact hfill k hlo (by omega)
  refine (hpage.ends_eraseRows (by omega) (by rw [hsame.rows]; simp only [Screen.base] at *; omega) hfill').post
    fun _ w hw => ?_
  obtain ⟨ids'', hpage', hgrows'⟩ := hw
  have hlength' := hgrows'.length
  have hback : SameButList s (w.at s.current) := by
    have hv : SameButList (s.at w.current) w := hsame.at.trans hgrows'.same
    obtain ⟨hv⟩ := hv
    constructor
    rw [hv]
    rfl
  rw [ends_modify]
  exact ⟨ids'', hpage'.at, hgrows.start.trans hgrows'.start, by omega, hback⟩

/-- The lines on the screen are no longer than it is wide. -/
def Screen.Narrow (s : Screen) (ids : List ℕ) (text : ℕ → Text) : Prop :=
  ∀ r : ℕ, (r : ℤ) < s.rows → 0 ≤ (text (s.base ids + r)).length ∧ (text (s.base ids + r)).length ≤ s.width

/-- `erase_screen` leaves blanks in the rectangle, where nothing is spared, and everything else on the screen as it was. -/
def Screen.Erases (s : Screen) (ids : List ℕ) (text : ℕ → Text) (startRow startCol endRow endCol : ℤ)
    (honorProtected : Bool) : Prop :=
  Ends (eraseScreen startRow startCol endRow endCol honorProtected) (fun _ => False)
    (fun _ u => ∃ ids' text', u.Page ids' text' ∧ u.base ids' = s.base ids ∧ ∀ (r : ℕ) (c : ℤ), (r : ℤ) < s.rows →
      ((startRow ≤ r ∧ r ≤ endRow ∧ startCol ≤ c ∧ c ≤ endCol) → ¬ Spared honorProtected (text (s.base ids + r)) c →
        ((text' (s.base ids + r)).shown s.consoleText c).1 = 0x20) ∧
      (¬ (startRow ≤ r ∧ r ≤ endRow ∧ startCol ≤ c ∧ c ≤ endCol) →
        (text' (s.base ids + r)).shown s.consoleText c = (text (s.base ids + r)).shown s.consoleText c)) s

theorem Screen.Page.erases (h : s.Page ids text) (hnarrow : s.Narrow ids text) (hrow : 0 ≤ startRow)
    (hrows : startRow ≤ endRow) (hend : endRow < s.rows) (hcol : 0 ≤ startCol) (hcols : startCol ≤ endCol)
    (hwidth : endCol < s.width) (hmax : endCol < maxLineLength) :
    s.Erases ids text startRow startCol endRow endCol honorProtected := by
  have hfill : ∀ k, s.base ids + startRow.toNat ≤ k → k < s.base ids + endRow.toNat + 1 →
      (text k).fill s.width startCol endCol 0x20 honorProtected s.consoleText s.eraseColor =
        .ok ((text k).filled startCol endCol 0x20 honorProtected s.consoleText s.eraseColor) := by
    intro k hlo hhi
    obtain ⟨r, rfl⟩ := Nat.exists_eq_add_of_le (Nat.le_trans (Nat.le_add_right _ _) hlo)
    have hline := hnarrow r (by omega)
    exact fill_ok hcol hcols hwidth hmax hline.1 hline.2
  refine (h.ends_eraseScreen hrow hrows hend hcol hcols hfill).post fun _ u hu => ?_
  obtain ⟨ids', hpage, hgrows⟩ := hu
  refine ⟨ids', _, hpage, hgrows.base_eq (by simp only [Screen.base]; omega), fun r c hr => ⟨fun hin hspared => ?_, fun hout => ?_⟩⟩
  · rw [changed, if_pos (by omega)]
    exact shown_filled_inside hin.2.2.1 hin.2.2.2 hspared
  · by_cases hplace : s.base ids + startRow.toNat ≤ s.base ids + r ∧
        s.base ids + r < s.base ids + startRow.toNat + (endRow - startRow + 1).toNat
    · rw [changed, if_pos hplace]
      exact shown_filled_outside (by omega) hcols
    · rw [changed, if_neg hplace]

theorem ends_onText_fault {f : Text → Except Fault Text} {a : ℕ} {line : Line} (hline : s.lines a = some line)
    (hf : ∀ text, f line.text ≠ .ok text) : Ends (onText (some a) f) (fun _ => True) (fun _ _ => False) s := by
  rw [onText, ends_bind, ends_of_ok (textAt_eq hline)]
  cases h : f line.text with
  | ok text => exact absurd h (hf text)
  | error fault => trivial

/-- A rectangle that is wider than the lines' buffers runs out of them. -/
theorem Screen.Page.faults_eraseScreen (h : s.Page ids text) (hrow : 0 ≤ startRow) (hrows : startRow ≤ endRow)
    (hend : endRow < s.rows) (hcol : 0 ≤ startCol) (hcols : startCol ≤ endCol) (hmax : maxLineLength ≤ endCol) :
    Ends (eraseScreen startRow startCol endRow endCol honorProtected) (fun _ => True) (fun _ _ => False) s := by
  rw [eraseScreen, if_neg (by omega), ends_bind, ends_get, ends_bind]
  have hwalk : Ends (findTop >>= repeatFrom stepDown startRow.toNat) (fun _ => True) _ s := h.ends_row (by omega)
  rw [ends_bind] at hwalk
  refine hwalk.post fun top u hu => ?_
  rw [ends_bind]
  refine hu.post fun r v hv => ?_
  obtain ⟨ids', hpage, hgrows, rfl⟩ := hv
  have hlength := hgrows.length
  obtain ⟨a, ha⟩ := exists_at ids' (s.base ids + startRow.toNat) (by omega)
  obtain ⟨line, hline, -⟩ := Option.map_eq_some_iff.mp (hpage.text_eq _ a ha)
  obtain ⟨n, hn⟩ : ∃ n, (endRow - startRow + 1).toNat = n + 1 := ⟨(endRow - startRow).toNat, by omega⟩
  rw [ha, hn, eraseRows, ends_bind, ends_bind, ends_modify, ends_bind, eraseLine, fillLineWithCharacter, ends_bind,
    ends_get]
  have hfault : Ends (onText (some a) (Text.fill v.width startCol endCol 0x20 honorProtected v.consoleText v.eraseColor))
      (fun _ => True) (fun _ _ => False) (v.at (some a)) := ends_onText_fault hline (fill_fault hcol hcols hmax)
  exact hfault.post fun _ _ hfalse => hfalse.elim

theorem Screen.Page.not_erases (h : s.Page ids text) (hrow : 0 ≤ startRow) (hrows : startRow ≤ endRow)
    (hend : endRow < s.rows) (hcol : 0 ≤ startCol) (hcols : startCol ≤ endCol) (hmax : maxLineLength ≤ endCol) :
    ¬ s.Erases ids text startRow startCol endRow endCol honorProtected := by
  have hfaults : Ends (eraseScreen startRow startCol endRow endCol honorProtected) (fun _ => True) (fun _ _ => False) s :=
    h.faults_eraseScreen hrow hrows hend hcol hcols hmax
  intro herases
  unfold Screen.Erases Ends at *
  cases hm : eraseScreen startRow startCol endRow endCol honorProtected s with
  | ok end_ => simp only [hm] at hfaults
  | error fault => simp only [hm] at herases

/-- A line is filled as it should be unless it ends, once padded, just where the fill does; so is a rectangle, as it
shows. Neither may be wider than the buffers. -/
theorem erasing_iff (t : Text) (width start stop : ℤ) (ch : UInt32) (consoleText eraseColor : Attr) (s : Screen)
    (ids : List ℕ) (text : ℕ → Text) (startRow startCol endRow endCol : ℤ) (honorProtected : Bool) :
    (0 ≤ start → start ≤ stop → stop < width → 0 ≤ t.length → t.length ≤ width →
      (t.FillsExactly width start stop ch honorProtected consoleText eraseColor ↔
        stop < maxLineLength ∧ max t.length start ≠ stop)) ∧
    (s.Page ids text → s.Narrow ids text → 0 ≤ startRow → startRow ≤ endRow → endRow < s.rows → 0 ≤ startCol →
      startCol ≤ endCol → endCol < s.width →
        (s.Erases ids text startRow startCol endRow endCol honorProtected ↔ endCol < maxLineLength)) := by
  constructor
  · intro hstart hstop hwidth hlength hshort
    exact fillsExactly_iff hstart hstop hwidth hlength hshort
  · intro h hnarrow hrow hrows hend hcol hcols hwidth
    constructor
    · intro herases
      by_contra hmax
      exact h.not_erases hrow hrows hend hcol hcols (by omega) herases
    · exact h.erases hnarrow hrow hrows hend hcol hcols hwidth

/-- A line of five columns, filled up to its sixth. -/
theorem not_fillsExactly : ¬ ∀ (t : Text) (width start stop : ℤ) (ch : UInt32) (honorProtected : Bool)
    (consoleText eraseColor : Attr), 0 ≤ start → start ≤ stop → stop < width → 0 ≤ t.length → t.length ≤ width →
      t.FillsExactly width start stop ch honorProtected consoleText eraseColor := by
  intro hall
  have hfills := hall ⟨fun _ => 0x41, fun _ => {}, 5, false, 0, false⟩ 80 0 5 0x20 false {} {} (by decide) (by decide)
    (by decide) (by decide) (by decide)
  exact ((fillsExactly_iff (by decide) (by decide) (by decide) (by decide) (by decide)).mp hfills).2 (by decide)

end CProgram.Terminal
