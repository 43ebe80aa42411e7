import CProgram.Terminal.Erasing

/-! What scrolling a rectangle leaves on the screen. -/
namespace CProgram.Terminal
open CProgram.Programs Screen

namespace Text
variable {t source : Text} {left right width i : ℤ} {color : Attr} {pads : Prop} [Decidable pads]

/-- A row that is padded first, if it is too short. -/
def ready (pads : Prop) [Decidable pads] (right : ℤ) (color : Attr) (t : Text) : Text :=
  if pads then t.padded right color else t

/-- A row that takes over the columns of another, and its length. -/
def copied (left right : ℤ) (source t : Text) : Text := { source with
  chars := fun i => if left ≤ i ∧ i < right then source.chars i else t.chars i
  colors := fun i => if left ≤ i ∧ i < right then source.colors i else t.colors i }

theorem ready_ok (hlength : 0 ≤ t.length) (hright : right ≤ maxLineLength) :
    (if pads then t.pad right color else pure t) = .ok (t.ready pads right color) := by
  unfold ready
  split
  · exact pad_ok hlength hright
  · rfl

theorem copyFrom_ok (hleft : 0 ≤ left) (hright : right ≤ maxLineLength) :
    copyFrom source left right t = .ok (copied left right source t) := by
  rw [copyFrom, checkColumns_ok hleft hright]
  rfl

theorem ready_copyFrom_ok (hlength : 0 ≤ t.length) (hleft : 0 ≤ left) (hright : right ≤ maxLineLength) :
    (do let t ← if pads then t.pad right color else pure t
        copyFrom source left right t) = .ok (copied left right source (t.ready pads right color)) := by
  by_cases hpads : pads
  · rw [if_pos hpads, pad_ok hlength hright, ready, if_pos hpads]
    exact copyFrom_ok hleft hright
  · rw [if_neg hpads, ready, if_neg hpads]
    exact copyFrom_ok hleft hright

/-- The columns of a buffer end somewhere. -/
theorem copyFrom_fault (hcolumns : left < right) (hmax : maxLineLength < right) :
    ∀ new, copyFrom source left right t ≠ .ok new := by
  intro new hnew
  have hcheck : checkColumns left right = .error .column := if_neg (by omega)
  rw [copyFrom, hcheck] at hnew
  cases hnew

theorem ready_cell (i : ℤ) :
    (t.ready pads right color).cell i = if pads ∧ t.length ≤ i ∧ i < right then (0x20, color) else t.cell i := by
  have hpadded : (t.padded right color).cell i = if t.length ≤ i ∧ i < right then (0x20, color) else t.cell i := by
    unfold padded
    by_cases hshort : t.length < right
    · rw [if_pos hshort]
      simp only [cell, written]
      split <;> rfl
    · rw [if_neg hshort, if_neg (by omega)]
  unfold ready
  by_cases hpads : pads
  · rw [if_pos hpads, hpadded]
    simp only [hpads, true_and]
  · rw [if_neg hpads, if_neg (fun h => hpads h.1)]

theorem copied_cell (i : ℤ) : (copied left right source t).cell i = if left ≤ i ∧ i < right then source.cell i else t.cell i := by
  simp only [cell, copied]
  split <;> rfl

theorem shown_copied_inside (h : left ≤ i ∧ i < right) : (copied left right source t).shown color i = source.shown color i := by
  have hlength : (copied left right source t).length = source.length := rfl
  simp only [shown, hlength, copied_cell, if_pos h]

/-- Outside the rectangle nothing is lost with the row's own length, and nothing comes up with the other's. -/
def Preserved (left right width : ℤ) (color : Attr) (source t : Text) : Prop :=
  ∀ c, 0 ≤ c → c < width → ¬ (left ≤ c ∧ c < right) →
    (source.length ≤ c → c < t.length → t.cell c = (0x20, color)) ∧
      (t.length ≤ c → c < source.length → right ≤ c → t.cell c = (0x20, color))

theorem preserved_self : Preserved left right width color t t := by
  intro c hlo hhi hout
  constructor <;> omega

theorem shown_copied_outside (h : ¬ (left ≤ i ∧ i < right))
    (hpads : t.length ≤ i → i < source.length → i < right → pads) :
    (copied left right source (t.ready pads right color)).shown color i = t.shown color i ↔
      (source.length ≤ i → i < t.length → t.cell i = (0x20, color)) ∧
        (t.length ≤ i → i < source.length → right ≤ i → t.cell i = (0x20, color)) := by
  have hlength : (copied left right source (t.ready pads right color)).length = source.length := rfl
  simp only [shown, hlength, copied_cell, if_neg h, ready_cell]
  by_cases hsource : i < source.length
  · rw [if_pos hsource]
    by_cases hlong : i < t.length
    · rw [if_pos hlong, if_neg (by omega)]
      exact iff_of_true rfl ⟨by omega, by omega⟩
    · rw [if_neg hlong]
      by_cases hright : i < right
      · rw [if_pos ⟨hpads (by omega) hsource hright, by omega, hright⟩]
        exact iff_of_true rfl ⟨by omega, by omega⟩
      · rw [if_neg (by omega)]
        exact ⟨fun heq => ⟨by omega, fun _ _ _ => heq⟩, fun hall => hall.2 (by omega) hsource (by omega)⟩
  · rw [if_neg hsource]
    by_cases hlong : i < t.length
    · rw [if_pos hlong]
      exact ⟨fun heq => ⟨fun _ _ => heq.symm, by omega⟩, fun hall => (hall.1 (by omega) hlong).symm⟩
    · rw [if_neg hlong]
      exact iff_of_true rfl ⟨by omega, by omega⟩

/-- A row that is only made ready shows what it did. -/
theorem shown_ready (i : ℤ) : (t.ready pads right color).shown color i = t.shown color i := by
  by_cases hpads : pads ∧ t.length < right
  · have hlength : (t.ready pads right color).length = right := by
      unfold ready padded
      rw [if_pos hpads.1, if_pos hpads.2]
    simp only [shown, hlength, ready_cell, and_iff_right hpads.1]
    split_ifs <;> first | rfl | omega
  · have hsame : t.ready pads right color = t := by
      unfold ready padded
      split
      · exact if_neg fun hshort => hpads ⟨‹pads›, hshort⟩
      · rfl
    rw [hsame]

end Text
open Text

variable {s u v : Screen} {ids ids' : List ℕ} {text text' : ℕ → Text} {i n d e gap : ℕ} {E : Fault → Prop}
  {left right top bottom count shift : ℤ} {color : Attr}

/-! ### What a screen determines -/

/-- A screen has one list of lines only. -/
theorem Screen.Chain.unique (h : s.Chain ids) (h' : s.Chain ids') : ids = ids' := by
  have hplaces : ∀ i : ℕ, ids[i]? = ids'[i]? := by
    intro i
    induction i with
    | zero => rw [← h.buffer, h'.buffer]
    | succ i ih =>
      cases ha : ids[i]? with
      | some a =>
        have hlinks := h.links_eq ha
        rw [h'.links_eq (ih ▸ ha), Option.some.injEq, Links.mk.injEq] at hlinks
        exact hlinks.2.symm
      | none =>
        have hend := List.getElem?_eq_none_iff.mp ha
        have hend' := List.getElem?_eq_none_iff.mp (ih ▸ ha)
        rw [List.getElem?_eq_none_iff.mpr (by omega), List.getElem?_eq_none_iff.mpr (by omega)]
  exact List.ext_getElem? hplaces

theorem Screen.Page.unique (h : s.Page ids text) (h' : s.Page ids' text') : ids = ids' ∧ text = text' := by
  have hids := h.chain.unique h'.chain
  subst hids
  refine ⟨rfl, funext fun i => ?_⟩
  by_cases hi : i < ids.length
  · obtain ⟨a, ha⟩ := exists_at ids i hi
    have htext := h.text_eq i a ha
    rw [h'.text_eq i a ha, Option.some.injEq] at htext
    exact htext.symm
  · rw [h.beyond i (by omega), h'.beyond i (by omega)]

/-! ### The loops -/

/-- What `copyUp` leaves: it takes rows from `gap` places below, as far as there are any. -/
def copiedUp (left right : ℤ) (color : Attr) (d n gap there : ℕ) (text : ℕ → Text) : ℕ → Text := fun k =>
  if d ≤ k ∧ k < d + n ∧ k + gap < there then
    copied left right (text (k + gap)) ((text k).ready ((text k).length < (text (k + gap)).length) right color)
  else text k

/-- What `copyDown` leaves: it takes rows from `gap` places above. -/
def copiedDown (left right : ℤ) (color : Attr) (e n gap : ℕ) (text : ℕ → Text) : ℕ → Text := fun k =>
  if e + gap ≤ k + n ∧ k < e + gap then
    copied left right
      (if gap = 0 then (text k).ready ((text k).length < left) right color else text (k - gap))
      ((text k).ready ((text k).length < left) right color)
  else text k

theorem Screen.Page.ends_copyUp (h : s.Page ids text) (hleft : 0 ≤ left) (hright : right ≤ maxLineLength)
    (hd : d + gap < ids.length) (hlength : ∀ k, d ≤ k → k < d + n → 0 ≤ (text k).length) :
    Ends (copyUp left right color n ids[d]? ids[d + gap]?) E
      (fun _ u => u.Page ids (copiedUp left right color d n gap ids.length text) ∧ SameButLines s u) s := by
  induction n generalizing s d text with
  | zero =>
    have hsame : copiedUp left right color d 0 gap ids.length text = text := by
      funext k
      exact if_neg (by omega)
    rw [hsame]
    exact ⟨h, by cases s; exact ⟨rfl⟩⟩
  | succ n ih =>
    obtain ⟨a, ha⟩ := exists_at ids d (by omega)
    obtain ⟨b, hb⟩ := exists_at ids (d + gap) hd
    rw [ha, hb, copyUp, ends_bind, h.ends_textAt hb, ends_bind]
    refine (h.ends_onText ha (ready_copyFrom_ok (hlength d le_rfl (by omega)) hleft hright)).post fun _ u hu => ?_
    obtain ⟨hpage, hsame⟩ := hu
    rw [ends_bind, ends_nextOf (hpage.chain.links_eq ha), ends_bind, ends_nextOf (hpage.chain.links_eq hb)]
    cases hnext : ids[d + gap + 1]? with
    | none =>
      have hend := List.getElem?_eq_none_iff.mp hnext
      have hone : copiedUp left right color d (n + 1) gap ids.length text = Function.update text d (copied left right
          (text (d + gap)) ((text d).ready ((text d).length < (text (d + gap)).length) right color)) := by
        funext k
        by_cases hk : k = d
        · rw [hk, Function.update_self]
          exact if_pos (by omega)
        · rw [Function.update_of_ne hk]
          exact if_neg (by omega)
      simp only [if_true, ends_pure, hone]
      exact ⟨hpage, hsame⟩
    | some c =>
      have hthere := (List.getElem?_eq_some_iff.mp hnext).1
      have hplace : d + gap + 1 = d + 1 + gap := by omega
      simp only [reduceCtorEq, if_false]
      rw [← hnext, hplace]
      refine (ih hpage (by omega) fun k hlo hhi => ?_).post fun _ v hv => ?_
      · rw [Function.update_of_ne (by omega)]
        exact hlength k (by omega) (by omega)
      · have hboth : copiedUp left right color (d + 1) n gap ids.length (Function.update text d (copied left right
            (text (d + gap)) ((text d).ready ((text d).length < (text (d + gap)).length) right color))) =
            copiedUp left right color d (n + 1) gap ids.length text := by
          funext k
          simp only [copiedUp]
          by_cases hk : k = d
          · rw [hk, Function.update_self, if_neg (by omega), if_pos (by omega)]
          · by_cases hin : d + 1 ≤ k ∧ k < d + 1 + n ∧ k + gap < ids.length
            · rw [if_pos hin, if_pos (by omega), Function.update_of_ne hk, Function.update_of_ne (by omega)]
            · rw [if_neg hin, if_neg (by omega), Function.update_of_ne hk]
        rw [hboth] at hv
        exact ⟨hv.1, hsame.trans hv.2⟩

theorem Screen.Page.ends_copyDown (h : s.Page ids text) (hleft : 0 ≤ left) (hright : right ≤ maxLineLength) (hn : n ≤ e)
    (he : e + gap ≤ ids.length) (hlength : ∀ k, e + gap ≤ k + n → k < e + gap → 0 ≤ (text k).length) :
    Ends (copyDown left right color n (before ids (e + gap)) (before ids e)) E
      (fun _ u => u.Page ids (copiedDown left right color e n gap text) ∧ SameButLines s u) s := by
  induction n generalizing s e text with
  | zero =>
    have hsame : copiedDown left right color e 0 gap text = text := by
      funext k
      exact if_neg (by omega)
    rw [hsame]
    exact ⟨h, by cases s; exact ⟨rfl⟩⟩
  | succ n ih =>
    obtain ⟨e, rfl⟩ : ∃ e', e = e' + 1 := ⟨e - 1, by omega⟩
    have hplace : e + 1 + gap = e + gap + 1 := by omega
    obtain ⟨a, ha⟩ := exists_at ids (e + gap) (by omega)
    obtain ⟨b, hb⟩ := exists_at ids e (by omega)
    rw [hplace, before, before, ha, hb, copyDown, ends_bind]
    refine (h.ends_onText ha (ready_ok (hlength (e + gap) (by omega) (by omega)) hright)).post fun _ u hu => ?_
    obtain ⟨hpage, hsame⟩ := hu
    rw [ends_bind, hpage.ends_textAt hb, ends_bind]
    refine (hpage.ends_onText ha (copyFrom_ok hleft hright)).post fun _ v hv => ?_
    obtain ⟨hpage', hsame'⟩ := hv
    rw [ends_bind, ends_prevOf (hpage'.chain.links_eq ha), ends_bind, ends_prevOf (hpage'.chain.links_eq hb)]
    rw [Function.update_idem, Function.update_self] at hpage'
    have hlater : ∀ k, e + gap ≤ k + n → k < e + gap → 0 ≤ (Function.update text (e + gap) (copied left right
        (Function.update text (e + gap) ((text (e + gap)).ready ((text (e + gap)).length < left) right color) e)
        ((text (e + gap)).ready ((text (e + gap)).length < left) right color)) k).length := by
      intro k hlo hhi
      rw [Function.update_of_ne (by omega)]
      exact hlength k (by omega) (by omega)
    refine (ih hpage' (by omega) (by omega) hlater).post fun _ w hw => ?_
    have hboth : copiedDown left right color e n gap (Function.update text (e + gap) (copied left right
        (Function.update text (e + gap) ((text (e + gap)).ready ((text (e + gap)).length < left) right color) e)
        ((text (e + gap)).ready ((text (e + gap)).length < left) right color))) =
        copiedDown left right color (e + 1) (n + 1) gap text := by
      funext k
      simp only [copiedDown]
      by_cases hk : k = e + gap
      · rw [hk, Function.update_self, if_neg (by omega), if_pos (by omega)]
        by_cases hgap : gap = 0
        · subst hgap
          rw [if_pos rfl, Nat.add_zero, Function.update_self]
        · rw [if_neg hgap, Function.update_of_ne (by omega), Nat.add_sub_cancel]
      · by_cases hin : e + gap ≤ k + n ∧ k < e + gap
        · have hin' : e + 1 + gap ≤ k + (n + 1) ∧ k < e + 1 + gap := by omega
          have hsource : k - gap ≠ e + gap := by omega
          rw [if_pos hin, if_pos hin', Function.update_of_ne hk, Function.update_of_ne hsource]
        · rw [if_neg hin, if_neg (by omega), Function.update_of_ne hk]
    rw [hboth] at hw
    exact ⟨hw.1, (hsame.trans hsame').trans hw.2⟩

/-! ### The rectangle -/

/-- The cell is in the rectangle, whose last column is before `right`. -/
abbrev Within (top left bottom right r c : ℤ) : Prop := top ≤ r ∧ r ≤ bottom ∧ left ≤ c ∧ c < right

/-- The rectangle has moved up by so many rows, or down if it is negative, and nothing else on the screen. -/
def Screen.Scrolls (m : ScreenM Unit) (s : Screen) (ids : List ℕ) (text : ℕ → Text)
    (top left bottom right shift : ℤ) : Prop :=
  Ends m (fun _ => False) (fun _ u => ∃ ids' text', u.Page ids' text' ∧ u.base ids' = s.base ids ∧
    ∀ (r : ℕ) (c : ℤ), (r : ℤ) < s.rows → 0 ≤ c → c < s.width →
      (¬ Within top left bottom right r c →
        (text' (s.base ids + r)).shown s.consoleText c = (text (s.base ids + r)).shown s.consoleText c) ∧
      (Within top left bottom right r c → top ≤ r + shift → r + shift ≤ bottom →
        (text' (s.base ids + r)).shown s.consoleText c =
          (text (s.base ids + (r + shift).toNat)).shown s.consoleText c) ∧
      (Within top left bottom right r c → ¬ (top ≤ r + shift ∧ r + shift ≤ bottom) →
        ((text' (s.base ids + r)).shown s.consoleText c).1 = 0x20)) s

/-- The rectangle's rows are erased where no row has come to, and the other cells show what is known. -/
def Screen.Leaves (m : ScreenM Unit) (s : Screen) (ids : List ℕ) (new : ℕ → Text)
    (top left bottom right shift : ℤ) : Prop :=
  Ends m (fun _ => False) (fun _ u => ∃ ids' text', u.Page ids' text' ∧ u.base ids' = s.base ids ∧
    ∀ (r : ℕ) (c : ℤ), (r : ℤ) < s.rows →
      (Within top left bottom right r c → ¬ (top ≤ r + shift ∧ r + shift ≤ bottom) →
        ((text' (s.base ids + r)).shown s.consoleText c).1 = 0x20) ∧
      (¬ (Within top left bottom right r c ∧ ¬ (top ≤ r + shift ∧ r + shift ≤ bottom)) →
        (text' (s.base ids + r)).shown s.consoleText c = (new (s.base ids + r)).shown s.consoleText c)) s

/-- It depends on the rows that have been copied, and on what they were. -/
theorem Screen.Leaves.scrolls_iff_copied {m : ScreenM Unit} {new : ℕ → Text}
    (h : s.Leaves m ids new top left bottom right shift) :
    s.Scrolls m ids text top left bottom right shift ↔
      ∀ (r : ℕ) (c : ℤ), (r : ℤ) < s.rows → 0 ≤ c → c < s.width →
        (¬ Within top left bottom right r c →
          (new (s.base ids + r)).shown s.consoleText c = (text (s.base ids + r)).shown s.consoleText c) ∧
        (Within top left bottom right r c → top ≤ r + shift → r + shift ≤ bottom →
          (new (s.base ids + r)).shown s.consoleText c =
            (text (s.base ids + (r + shift).toNat)).shown s.consoleText c) := by
  constructor
  · intro hscrolls r c hr hlo hhi
    have hboth := h.and hscrolls
    obtain ⟨fault, hm⟩ | ⟨r', u, hm⟩ : (∃ fault, m s = .error fault) ∨ ∃ r u, m s = .ok (r, u) := by
      cases hm : m s with
      | error fault => exact Or.inl ⟨fault, rfl⟩
      | ok end_ => exact Or.inr ⟨end_.1, end_.2, rfl⟩
    · rw [Screen.Leaves, Ends, hm] at h
      exact h.elim
    · rw [ends_of_ok hm] at hboth
      obtain ⟨⟨ids', text', hpage, -, hleaves⟩, ids'', text'', hpage', -, hshown⟩ := hboth
      obtain ⟨rfl, rfl⟩ := hpage.unique hpage'
      obtain ⟨hblank, hnew⟩ := hleaves r c hr
      obtain ⟨hout, hin, -⟩ := hshown r c hr hlo hhi
      exact ⟨fun h => by rw [← hnew fun h' => h h'.1, hout h],
        fun h hlo hhi => by rw [← hnew fun h' => h'.2 ⟨hlo, hhi⟩, hin h hlo hhi]⟩
  · intro hall
    refine Ends.post h fun _ u hu => ?_
    obtain ⟨ids', text', hpage, hbase, hleaves⟩ := hu
    refine ⟨ids', text', hpage, hbase, fun r c hr hlo hhi => ?_⟩
    obtain ⟨hblank, hnew⟩ := hleaves r c hr
    obtain ⟨hout, hin⟩ := hall r c hr hlo hhi
    exact ⟨fun h => by rw [hnew fun h' => h h'.1, hout h],
      fun h hlo hhi => by rw [hnew fun h' => h'.2 ⟨hlo, hhi⟩, hin h hlo hhi], hblank⟩

/-- What is erased last, once the rows have been copied. -/
theorem Screen.Page.leaves_eraseScreen {new : ℕ → Text} {startRow endRow : ℤ} (h : u.Page ids new) (hsame : SameButList s u)
    (hbase : u.base ids = s.base ids') (hnarrow : u.Narrow ids new) (hmax : right ≤ maxLineLength) (hrow : 0 ≤ startRow)
    (hend : endRow < s.rows) (hleft : 0 ≤ left) (hcolumns : left < right) (hwidth : right ≤ s.width)
    (hrows : ∀ r : ℤ, top ≤ r → r ≤ bottom → (¬ (top ≤ r + shift ∧ r + shift ≤ bottom) ↔ startRow ≤ r ∧ r ≤ endRow))
    (hinside : startRow ≤ endRow → top ≤ startRow ∧ endRow ≤ bottom) :
    Ends (eraseScreen startRow left endRow (right - 1) false) (fun _ => False)
      (fun _ v => ∃ ids'' text', v.Page ids'' text' ∧ v.base ids'' = s.base ids' ∧
        ∀ (r : ℕ) (c : ℤ), (r : ℤ) < s.rows →
          (Within top left bottom right r c → ¬ (top ≤ r + shift ∧ r + shift ≤ bottom) →
            ((text' (s.base ids' + r)).shown s.consoleText c).1 = 0x20) ∧
          (¬ (Within top left bottom right r c ∧ ¬ (top ≤ r + shift ∧ r + shift ≤ bottom)) →
            (text' (s.base ids' + r)).shown s.consoleText c = (new (s.base ids' + r)).shown s.consoleText c)) u := by
  have hcolor : u.consoleText = s.consoleText := by
    rw [hsame.eq]
  have hwide : u.width = s.width := by
    rw [hsame.eq]
  by_cases hany : startRow ≤ endRow
  · have herases : u.Erases ids new startRow left endRow (right - 1) false :=
      h.erases hnarrow hrow hany (by rw [hsame.rows]; exact hend) hleft (by omega) (by omega) (by omega)
    refine Ends.post herases fun _ v hv => ?_
    obtain ⟨ids'', text', hpage, hbase', hshown⟩ := hv
    obtain ⟨htop, hbottom⟩ := hinside hany
    rw [hbase] at hbase' hshown
    refine ⟨ids'', text', hpage, hbase', fun r c hr => ?_⟩
    have hrc := hshown r c (by rw [hsame.rows]; exact hr)
    rw [hcolor] at hrc
    refine ⟨fun hin hgone => ?_, fun hout => hrc.2 fun hin => hout ⟨by omega, (hrows r (by omega) (by omega)).mpr ⟨hin.1, hin.2.1⟩⟩⟩
    have herased := (hrows r hin.1 hin.2.1).mp hgone
    exact hrc.1 (by omega) fun hspared => absurd hspared.1 Bool.false_ne_true
  · rw [eraseScreen, if_pos (by omega), ends_pure]
    refine ⟨ids, new, h, hbase, fun r c hr => ⟨fun hin hgone => ?_, fun _ => rfl⟩⟩
    have herased := (hrows r hin.1 hin.2.1).mp hgone
    omega

/-- The lines that are needed are made before any row is copied. -/
theorem Screen.Page.ends_rectangleScrollUp {Q : Unit → Screen → Prop} (h : s.Page ids text) (htop : 0 ≤ top)
    (hrows : top < bottom) (hbottom : bottom < s.rows) (hcolumns : left < right) (hcount : 0 ≤ count)
    (hsome : count < bottom + 1 - top)
    (hrest : ∀ ids' u, u.Page ids' text → s.Grows (s.base ids + top.toNat + count.toNat + 1) ids u ids' →
      Ends (copyUp left right s.consoleText (bottom + 1 - top - count).toNat ids'[s.base ids + top.toNat]?
        ids'[s.base ids + top.toNat + count.toNat]?) E
        (fun _ => Ends (eraseScreen (top + (bottom + 1 - top - count)) left bottom (right - 1) false) E Q) u) :
    Ends (rectangleScrollUp top left bottom right count) E Q s := by
  have hbase := h.base_lt
  rw [rectangleScrollUp, if_neg (by omega), if_neg (by omega), if_neg (by omega), ends_bind, ends_get, ends_bind]
  have hwalk : Ends (findTop >>= repeatFrom stepDown top.toNat) E _ s := h.ends_row (by omega)
  rw [ends_bind] at hwalk
  refine hwalk.post fun screenTop u hu => ?_
  rw [ends_bind]
  refine hu.post fun r u hu => ?_
  obtain ⟨ids', hpage, hgrows, rfl⟩ := hu
  have hlength := hgrows.length
  have hroom : s.base ids + top.toNat + count.toNat < max ids'.length u.rows.toNat := by
    rw [hgrows.same.rows, Screen.base]
    omega
  rw [ends_bind]
  refine (hpage.ends_walk (by omega) hroom).post fun r v hv => ?_
  obtain ⟨ids'', hpage', hgrows', rfl⟩ := hv
  have hlength' := hgrows'.length
  obtain ⟨a, ha⟩ := exists_at ids' (s.base ids + top.toNat) (by omega)
  have hkept : ids'[s.base ids + top.toNat]? = ids''[s.base ids + top.toNat]? := by rw [ha, hgrows'.get ha]
  rw [hkept, ends_bind]
  exact hrest ids'' v hpage' ⟨hgrows.start.trans hgrows'.start, by omega, hgrows.same.trans hgrows'.same⟩

/-- Each row takes over the one so many rows below, as far as there are lines. -/
theorem Screen.Page.leaves_rectangleScrollUp (h : s.Page ids text) (hnarrow : s.Narrow ids text) (htop : 0 ≤ top)
    (hrows : top < bottom) (hbottom : bottom < s.rows) (hleft : 0 ≤ left) (hcolumns : left < right)
    (hwidth : right ≤ s.width) (hmax : right ≤ maxLineLength) (hcount : 0 ≤ count) (hsome : count < bottom + 1 - top) :
    s.Leaves (rectangleScrollUp top left bottom right count) ids
      (copiedUp left right s.consoleText (s.base ids + top.toNat) (bottom + 1 - top - count).toNat count.toNat
        (max ids.length (s.base ids + top.toNat + count.toNat + 1)) text) top left bottom right count := by
  have hbase := h.base_lt
  refine h.ends_rectangleScrollUp htop hrows hbottom hcolumns hcount hsome fun ids' u hpage hgrows => ?_
  have hthere := hgrows.length
  have hline (k : ℕ) (hlo : s.base ids ≤ k) (hhi : (k : ℤ) < s.base ids + s.rows) :
      0 ≤ (text k).length ∧ (text k).length ≤ s.width := by
    obtain ⟨r, rfl⟩ := Nat.exists_eq_add_of_le hlo
    exact hnarrow r (by omega)
  have hlengths : ∀ k, s.base ids + top.toNat ≤ k → k < s.base ids + top.toNat + (bottom + 1 - top - count).toNat →
      0 ≤ (text k).length := by
    intro k hlo hhi
    exact (hline k (by omega) (by omega)).1
  refine (hpage.ends_copyUp hleft hmax (by omega) hlengths).post fun _ w hw => ?_
  obtain ⟨hpage', hsame⟩ := hw
  have hlist : SameButList s w := hgrows.same.trans hsame.sameButList
  have hbase' : w.base ids' = s.base ids := by
    simp only [Screen.base, hlist.rows] at *
    omega
  rw [hthere] at hpage'
  refine hpage'.leaves_eraseScreen hlist hbase' ?_ hmax (by omega) hbottom hleft hcolumns hwidth ?_ ?_
  · intro r hr
    rw [hlist.rows] at hr
    have hwide : w.width = s.width := by
      rw [hlist.eq]
    rw [hbase', hwide, copiedUp]
    split
    · exact hline _ (by omega) (by omega)
    · exact hline _ (by omega) (by omega)
  · intro r hlo hhi
    omega
  · intro hany
    omega

/-- So many lines up, which are all there. -/
theorem Screen.Page.ends_climbs (h : s.Page ids text) (hi : i < ids.length) (hn : n ≤ i) :
    Ends (repeatFrom stepUp n ids[i]?) E (fun r u => u = s ∧ r = ids[i - n]?) s := by
  induction n generalizing i with
  | zero => exact ⟨rfl, rfl⟩
  | succ n ih =>
    obtain ⟨i, rfl⟩ : ∃ i', i = i' + 1 := ⟨i - 1, by omega⟩
    obtain ⟨a, ha⟩ := exists_at ids (i + 1) hi
    obtain ⟨b, hb⟩ := exists_at ids i (by omega)
    rw [ha, repeatFrom, ends_bind, stepUp, ends_bind, ends_prevOf (h.chain.links_eq ha), before, hb]
    simp only [reduceCtorEq, if_false]
    rw [ends_prevOf (h.chain.links_eq ha), before]
    refine (ih (by omega) (by omega)).post fun r u hu => ?_
    rw [Nat.add_sub_add_right]
    exact hu

/-- From the bottom row the lines above are all there. -/
theorem Screen.Page.ends_rectangleScrollDown {Q : Unit → Screen → Prop} (h : s.Page ids text) (htop : 0 ≤ top)
    (hrows : top < bottom) (hbottom : bottom < s.rows) (hcolumns : left < right)
    (hsome : count < bottom + 1 - top)
    (hrest : ∀ ids' u, u.Page ids' text → s.Grows (s.base ids + bottom.toNat + 1) ids u ids' →
      Ends (copyDown left right s.consoleText (bottom + 1 - top - count).toNat ids'[s.base ids + bottom.toNat]?
        ids'[s.base ids + bottom.toNat - count.toNat]?) E
        (fun _ => Ends (eraseScreen top left (top + count - 1) (right - 1) false) E Q) u) :
    Ends (rectangleScrollDown top left bottom right count) E Q s := by
  have hbase := h.base_lt
  rw [rectangleScrollDown, if_neg (by omega), if_neg (by omega), if_neg (by omega), ends_bind, ends_get, ends_bind]
  have hwalk : Ends (findTop >>= repeatFrom stepDown bottom.toNat) E _ s := h.ends_row (by omega)
  rw [ends_bind] at hwalk
  refine hwalk.post fun screenTop u hu => ?_
  rw [ends_bind]
  refine hu.post fun r u hu => ?_
  obtain ⟨ids', hpage, hgrows, rfl⟩ := hu
  have hlength := hgrows.length
  rw [ends_bind]
  refine (hpage.ends_climbs (by omega) (by omega)).post fun r v hv => ?_
  obtain ⟨rfl, rfl⟩ := hv
  rw [ends_bind]
  exact hrest ids' v hpage hgrows

/-- Each row takes over the one so many rows above. -/
theorem Screen.Page.leaves_rectangleScrollDown (h : s.Page ids text) (hnarrow : s.Narrow ids text) (htop : 0 ≤ top)
    (hrows : top < bottom) (hbottom : bottom < s.rows) (hleft : 0 ≤ left) (hcolumns : left < right)
    (hwidth : right ≤ s.width) (hmax : right ≤ maxLineLength) (hcount : 0 ≤ count) (hsome : count < bottom + 1 - top) :
    s.Leaves (rectangleScrollDown top left bottom right count) ids
      (copiedDown left right s.consoleText (s.base ids + bottom.toNat - count.toNat + 1)
        (bottom + 1 - top - count).toNat count.toNat text) top left bottom right (-count) := by
  have hbase := h.base_lt
  refine h.ends_rectangleScrollDown htop hrows hbottom hcolumns hsome fun ids' u hpage hgrows => ?_
  have hlength := hgrows.length
  have hline (k : ℕ) (hlo : s.base ids ≤ k) (hhi : (k : ℤ) < s.base ids + s.rows) :
      0 ≤ (text k).length ∧ (text k).length ≤ s.width := by
    obtain ⟨r, rfl⟩ := Nat.exists_eq_add_of_le hlo
    exact hnarrow r (by omega)
  have hlengths : ∀ k, s.base ids + bottom.toNat - count.toNat + 1 + count.toNat ≤
      k + (bottom + 1 - top - count).toNat → k < s.base ids + bottom.toNat - count.toNat + 1 + count.toNat →
      0 ≤ (text k).length := by
    intro k hlo hhi
    exact (hline k (by omega) (by omega)).1
  have hplace : ids'[s.base ids + bottom.toNat]? =
      before ids' (s.base ids + bottom.toNat - count.toNat + 1 + count.toNat) := by
    rw [show s.base ids + bottom.toNat - count.toNat + 1 + count.toNat = s.base ids + bottom.toNat + 1 by omega, before]
  have hplace' : ids'[s.base ids + bottom.toNat - count.toNat]? =
      before ids' (s.base ids + bottom.toNat - count.toNat + 1) := rfl
  rw [hplace, hplace']
  refine (hpage.ends_copyDown hleft hmax (by omega) (by omega) hlengths).post fun _ w hw => ?_
  obtain ⟨hpage', hsame⟩ := hw
  have hlist : SameButList s w := hgrows.same.trans hsame.sameButList
  have hbase' : w.base ids' = s.base ids := by
    simp only [Screen.base, hlist.rows] at *
    omega
  refine hpage'.leaves_eraseScreen hlist hbase' ?_ hmax htop (by omega) hleft hcolumns hwidth ?_ ?_
  · intro r hr
    rw [hlist.rows] at hr
    have hwide : w.width = s.width := by
      rw [hlist.eq]
    have hready (k : ℕ) (hlo : s.base ids ≤ k) (hhi : (k : ℤ) < s.base ids + s.rows) :
        0 ≤ ((text k).ready ((text k).length < left) right s.consoleText).length ∧
          ((text k).ready ((text k).length < left) right s.consoleText).length ≤ s.width := by
      have hk := hline k hlo hhi
      unfold ready padded
      split_ifs
      · exact ⟨(hleft.trans_lt hcolumns).le, hwidth⟩
      · exact hk
      · exact hk
    rw [hbase', hwide, copiedDown]
    by_cases hin : s.base ids + bottom.toNat - count.toNat + 1 + count.toNat ≤
        s.base ids + r + (bottom + 1 - top - count).toNat ∧
        s.base ids + r < s.base ids + bottom.toNat - count.toNat + 1 + count.toNat
    · rw [if_pos hin]
      dsimp only [copied]
      by_cases hgap : count.toNat = 0
      · rw [if_pos hgap]
        exact hready _ (by omega) (by omega)
      · rw [if_neg hgap]
        exact hline _ (by omega) (by omega)
    · rw [if_neg hin]
      exact hline _ (by omega) (by omega)
  · intro r hlo hhi
    omega
  · intro hany
    omega

/-- A rectangle that is wider than the lines' buffers runs out of them. -/
theorem not_scrolls {m : ScreenM Unit} (h : Ends m (fun _ => True) (fun _ _ => False) s) :
    ¬ s.Scrolls m ids text top left bottom right shift := by
  intro hscrolls
  unfold Screen.Scrolls Ends at *
  cases hm : m s with
  | ok end_ => simp only [hm] at h
  | error fault => simp only [hm] at hscrolls

theorem Screen.Page.ends_onText_fault {f : Text → Except Fault Text} {a : ℕ} (h : s.Page ids text) (hi : ids[i]? = some a)
    (hf : ∀ new, f (text i) ≠ .ok new) : Ends (onText (some a) f) (fun _ => True) (fun _ _ => False) s := by
  obtain ⟨line, hline, htext⟩ := Option.map_eq_some_iff.mp (h.text_eq i a hi)
  exact CProgram.Terminal.ends_onText_fault hline (by rw [htext]; exact hf)

theorem Screen.Page.faults_rectangleScrollUp (h : s.Page ids text) (htop : 0 ≤ top) (hrows : top < bottom)
    (hbottom : bottom < s.rows) (hcolumns : left < right) (hmax : maxLineLength < right) (hcount : 0 ≤ count)
    (hsome : count < bottom + 1 - top) :
    Ends (rectangleScrollUp top left bottom right count) (fun _ => True) (fun _ _ => False) s := by
  have hbase := h.base_lt
  refine h.ends_rectangleScrollUp htop hrows hbottom hcolumns hcount hsome fun ids' u hpage hgrows => ?_
  have hlength := hgrows.length
  obtain ⟨a, ha⟩ := exists_at ids' (s.base ids + top.toNat) (by omega)
  obtain ⟨b, hb⟩ := exists_at ids' (s.base ids + top.toNat + count.toNat) (by omega)
  obtain ⟨n, hn⟩ : ∃ n, (bottom + 1 - top - count).toNat = n + 1 := ⟨(bottom - top - count).toNat, by omega⟩
  rw [ha, hb, hn, copyUp, ends_bind, hpage.ends_textAt hb, ends_bind]
  refine (hpage.ends_onText_fault ha fun new hnew => ?_).post fun _ _ hfalse => hfalse.elim
  by_cases hpads : (text (s.base ids + top.toNat)).length < (text (s.base ids + top.toNat + count.toNat)).length
  · rw [if_pos hpads] at hnew
    cases hpad : (text (s.base ids + top.toNat)).pad right s.consoleText with
    | error fault =>
      rw [hpad] at hnew
      cases hnew
    | ok padded =>
      rw [hpad] at hnew
      exact copyFrom_fault hcolumns hmax new hnew
  · rw [if_neg hpads] at hnew
    exact copyFrom_fault hcolumns hmax new hnew

theorem Screen.Page.faults_rectangleScrollDown (h : s.Page ids text) (htop : 0 ≤ top) (hrows : top < bottom)
    (hbottom : bottom < s.rows) (hcolumns : left < right) (hmax : maxLineLength < right)
    (hsome : count < bottom + 1 - top) :
    Ends (rectangleScrollDown top left bottom right count) (fun _ => True) (fun _ _ => False) s := by
  have hbase := h.base_lt
  refine h.ends_rectangleScrollDown htop hrows hbottom hcolumns hsome fun ids' u hpage hgrows => ?_
  have hlength := hgrows.length
  obtain ⟨a, ha⟩ := exists_at ids' (s.base ids + bottom.toNat) (by omega)
  obtain ⟨b, hb⟩ := exists_at ids' (s.base ids + bottom.toNat - count.toNat) (by omega)
  obtain ⟨n, hn⟩ : ∃ n, (bottom + 1 - top - count).toNat = n + 1 := ⟨(bottom - top - count).toNat, by omega⟩
  rw [ha, hb, hn, copyDown, ends_bind]
  by_cases hpads : (text (s.base ids + bottom.toNat)).length < left
  · refine (hpage.ends_onText_fault ha fun new hnew => ?_).post fun _ _ hfalse => hfalse.elim
    have hcheck : checkColumns (text (s.base ids + bottom.toNat)).length right = .error .column := if_neg (by omega)
    rw [if_pos hpads, pad, if_pos (by omega), write, update, hcheck] at hnew
    cases hnew
  · refine (hpage.ends_onText ha (if_neg hpads)).post fun _ w hw => ?_
    obtain ⟨hpage', hsame⟩ := hw
    rw [ends_bind, hpage'.ends_textAt hb, ends_bind]
    exact (hpage'.ends_onText_fault ha fun new => copyFrom_fault hcolumns hmax new).post fun _ _ hfalse => hfalse.elim

/-! ### What the rows lose -/

/-- For each row that takes over another: what it loses outside the rectangle with the length that it gets is blank, and
so is what comes up there. Where there is no line to take over yet, the row shows already what that line would. -/
def Screen.KeepsUp (s : Screen) (ids : List ℕ) (text : ℕ → Text) (top left bottom right count : ℤ) : Prop :=
  ∀ r : ℕ, top ≤ r → r + count ≤ bottom →
    if s.base ids + r + count.toNat < max ids.length (s.base ids + top.toNat + count.toNat + 1) then
      Preserved left right s.width s.consoleText (text (s.base ids + r + count.toNat)) (text (s.base ids + r))
    else ∀ c, left ≤ c → c < right → (text (s.base ids + r)).shown s.consoleText c =
      (text (s.base ids + r + count.toNat)).shown s.consoleText c

def Screen.KeepsDown (s : Screen) (ids : List ℕ) (text : ℕ → Text) (top left bottom right count : ℤ) : Prop :=
  ∀ r : ℕ, top ≤ r - count → r ≤ bottom →
    Preserved left right s.width s.consoleText (text (s.base ids + (r - count).toNat)) (text (s.base ids + r))

theorem Screen.Page.scrolls_up_iff (h : s.Page ids text) (hnarrow : s.Narrow ids text) (htop : 0 ≤ top)
    (hrows : top < bottom) (hbottom : bottom < s.rows) (hleft : 0 ≤ left) (hcolumns : left < right)
    (hwidth : right ≤ s.width) (hcount : 0 ≤ count) (hmax : right ≤ maxLineLength) (hsome : count < bottom + 1 - top) :
    s.Scrolls (rectangleScrollUp top left bottom right count) ids text top left bottom right count ↔
      s.KeepsUp ids text top left bottom right count := by
  rw [(h.leaves_rectangleScrollUp hnarrow htop hrows hbottom hleft hcolumns hwidth hmax hcount hsome).scrolls_iff_copied]
  -- what stands in a row of the rectangle once the rows have been copied
  have hcopied (r : ℕ) (hlo : top ≤ r) (hhi : r + count ≤ bottom)
      (hthere : s.base ids + r + count.toNat < max ids.length (s.base ids + top.toNat + count.toNat + 1)) :
      copiedUp left right s.consoleText (s.base ids + top.toNat) (bottom + 1 - top - count).toNat count.toNat
          (max ids.length (s.base ids + top.toNat + count.toNat + 1)) text (s.base ids + r) =
        copied left right (text (s.base ids + r + count.toNat)) ((text (s.base ids + r)).ready
          ((text (s.base ids + r)).length < (text (s.base ids + r + count.toNat)).length) right s.consoleText) :=
    if_pos (by omega)
  have hkept (r : ℕ) (hout : ¬ (top ≤ r ∧ r + count ≤ bottom ∧
      s.base ids + r + count.toNat < max ids.length (s.base ids + top.toNat + count.toNat + 1))) :
      copiedUp left right s.consoleText (s.base ids + top.toNat) (bottom + 1 - top - count).toNat count.toNat
          (max ids.length (s.base ids + top.toNat + count.toNat + 1)) text (s.base ids + r) = text (s.base ids + r) :=
    if_neg (by omega)
  have hplace (r : ℕ) : s.base ids + (r + count).toNat = s.base ids + r + count.toNat := by omega
  constructor
  · intro hall r hlo hhi
    split
    · rename_i hthere
      intro c hc hc' hout
      have hshown := (hall r c (by omega) hc hc').1 fun hin => hout hin.2.2
      rw [hcopied r hlo hhi hthere] at hshown
      exact (shown_copied_outside hout fun hlow hlow' _ => by omega).mp hshown
    · rename_i hthere
      intro c hc hc'
      have hshown := (hall r c (by omega) (by omega) (by omega)).2 ⟨hlo, by omega, hc, hc'⟩ (by omega) hhi
      rw [hkept r fun hin => hthere hin.2.2, hplace] at hshown
      exact hshown
  · intro hkeeps r c hr hc hc'
    by_cases hin : top ≤ r ∧ r + count ≤ bottom
    · have hrow := hkeeps r hin.1 hin.2
      by_cases hthere : s.base ids + r + count.toNat < max ids.length (s.base ids + top.toNat + count.toNat + 1)
      · rw [if_pos hthere] at hrow
        rw [hcopied r hin.1 hin.2 hthere, hplace]
        refine ⟨fun hout => ?_, fun hwithin _ _ => shown_copied_inside hwithin.2.2⟩
        have hout' : ¬ (left ≤ c ∧ c < right) := fun hcolumn => hout ⟨hin.1, by omega, hcolumn⟩
        exact (shown_copied_outside hout' fun hlow hlow' _ => by omega).mpr (hrow c hc hc' hout')
      · rw [if_neg hthere] at hrow
        rw [hkept r fun hall => hthere hall.2.2, hplace]
        exact ⟨fun _ => rfl, fun hwithin _ _ => hrow c hwithin.2.2.1 hwithin.2.2.2⟩
    · rw [hkept r fun hall => hin ⟨hall.1, hall.2.1⟩]
      exact ⟨fun _ => rfl, fun hwithin _ hlow => absurd ⟨hwithin.1, hlow⟩ hin⟩

theorem Screen.Page.scrolls_down_iff (h : s.Page ids text) (hnarrow : s.Narrow ids text) (htop : 0 ≤ top)
    (hrows : top < bottom) (hbottom : bottom < s.rows) (hleft : 0 ≤ left) (hcolumns : left < right)
    (hwidth : right ≤ s.width) (hcount : 0 ≤ count) (hmax : right ≤ maxLineLength) (hsome : count < bottom + 1 - top) :
    s.Scrolls (rectangleScrollDown top left bottom right count) ids text top left bottom right (-count) ↔
      s.KeepsDown ids text top left bottom right count := by
  rw [(h.leaves_rectangleScrollDown hnarrow htop hrows hbottom hleft hcolumns hwidth hmax hcount hsome).scrolls_iff_copied]
  have hkept (r : ℕ) (hout : ¬ (top ≤ r - count ∧ r ≤ bottom)) :
      copiedDown left right s.consoleText (s.base ids + bottom.toNat - count.toNat + 1)
        (bottom + 1 - top - count).toNat count.toNat text (s.base ids + r) = text (s.base ids + r) :=
    if_neg (by omega)
  have hcopied (r : ℕ) (hlo : top ≤ r - count) (hhi : r ≤ bottom) :
      copiedDown left right s.consoleText (s.base ids + bottom.toNat - count.toNat + 1)
          (bottom + 1 - top - count).toNat count.toNat text (s.base ids + r) =
        copied left right (if count.toNat = 0 then (text (s.base ids + r)).ready
            ((text (s.base ids + r)).length < left) right s.consoleText else text (s.base ids + r - count.toNat))
          ((text (s.base ids + r)).ready ((text (s.base ids + r)).length < left) right s.consoleText) :=
    if_pos (by omega)
  have hplace (r : ℕ) (hlo : top ≤ r - count) : s.base ids + r - count.toNat = s.base ids + (r - count).toNat := by omega
  -- with no rows to scroll by, a row is copied onto itself
  have hself (t : Text) : copied left right (t.ready (t.length < left) right s.consoleText)
      (t.ready (t.length < left) right s.consoleText) = t.ready (t.length < left) right s.consoleText := by
    simp only [copied, ite_self]
  constructor
  · intro hall r hlo hhi c hc hc' hout
    have hshown := (hall r c (by omega) hc hc').1 fun hin => hout hin.2.2
    by_cases hzero : count.toNat = 0
    · have hnone : (r - count).toNat = r := by omega
      rw [hnone]
      exact preserved_self c hc hc' hout
    · rw [hcopied r hlo hhi, if_neg hzero, hplace r hlo] at hshown
      exact (shown_copied_outside hout fun hlow hlow' _ => by omega).mp hshown
  · intro hkeeps r c hr hc hc'
    by_cases hin : top ≤ r - count ∧ r ≤ bottom
    · have hrow := hkeeps r hin.1 hin.2
      by_cases hzero : count.toNat = 0
      · have hnone : (r + -count).toNat = r := by omega
        rw [hcopied r hin.1 hin.2, if_pos hzero, hself, shown_ready, hnone]
        exact ⟨fun _ => rfl, fun _ _ _ => rfl⟩
      · rw [hcopied r hin.1 hin.2, if_neg hzero, hplace r hin.1]
        refine ⟨fun hout => ?_, fun hwithin _ _ => shown_copied_inside hwithin.2.2⟩
        have hout' : ¬ (left ≤ c ∧ c < right) := fun hcolumn => hout ⟨by omega, hin.2, hcolumn⟩
        exact (shown_copied_outside hout' fun hlow hlow' _ => by omega).mpr (hrow c hc hc' hout')
    · rw [hkept r hin]
      exact ⟨fun _ => rfl, fun hwithin hlow _ => absurd ⟨hlow, hwithin.2.1⟩ hin⟩

/-- Where no row of the rectangle stays in it, it is only erased. -/
theorem Screen.Page.scrolls_eraseScreen (h : s.Page ids text) (hnarrow : s.Narrow ids text) (htop : 0 ≤ top)
    (hbottom : bottom < s.rows) (hleft : 0 ≤ left) (hcolumns : left < right)
    (hwidth : right ≤ s.width) (hmax : right ≤ maxLineLength)
    (hall : ∀ r : ℤ, top ≤ r → r ≤ bottom → ¬ (top ≤ r + shift ∧ r + shift ≤ bottom)) :
    s.Scrolls (eraseScreen top left bottom (right - 1) false) ids text top left bottom right shift := by
  have hleaves : s.Leaves (eraseScreen top left bottom (right - 1) false) ids text top left bottom right shift :=
    h.leaves_eraseScreen .refl rfl hnarrow hmax htop hbottom hleft hcolumns hwidth
      (fun r hlo hhi => iff_of_true (hall r hlo hhi) ⟨hlo, hhi⟩) fun _ => ⟨le_rfl, le_rfl⟩
  refine hleaves.scrolls_iff_copied.mpr fun r c _ _ _ => ⟨fun _ => rfl, fun hin hlo hhi => ?_⟩
  exact absurd ⟨hlo, hhi⟩ (hall r hin.1 hin.2.1)

/-- A rectangle no wider than the lines' buffers scrolls as it should just when no row in it loses anything outside it,
nothing comes up there, and no row is left behind for want of lines below. -/
theorem scrolls_iff (s : Screen) (ids : List ℕ) (text : ℕ → Text) (top left bottom right count : ℤ) :
    (s.Page ids text → s.Narrow ids text → 0 ≤ top → top < bottom → bottom < s.rows → 0 ≤ left → left < right →
      right ≤ s.width → 0 ≤ count →
        (s.Scrolls (rectangleScrollUp top left bottom right count) ids text top left bottom right count ↔
          right ≤ maxLineLength ∧ s.KeepsUp ids text top left bottom right count)) ∧
    (s.Page ids text → s.Narrow ids text → 0 ≤ top → top < bottom → bottom < s.rows → 0 ≤ left → left < right →
      right ≤ s.width → 0 ≤ count →
        (s.Scrolls (rectangleScrollDown top left bottom right count) ids text top left bottom right (-count) ↔
          right ≤ maxLineLength ∧ s.KeepsDown ids text top left bottom right count)) := by
  constructor
  · intro h hnarrow htop hrows hbottom hleft hcolumns hwidth hcount
    by_cases hsome : count < bottom + 1 - top
    · by_cases hmax : right ≤ maxLineLength
      · rw [and_iff_right hmax]
        exact h.scrolls_up_iff hnarrow htop hrows hbottom hleft hcolumns hwidth hcount hmax hsome
      · refine iff_of_false (not_scrolls ?_) fun hboth => hmax hboth.1
        exact h.faults_rectangleScrollUp htop hrows hbottom hcolumns (by omega) hcount hsome
    · have heq : rectangleScrollUp top left bottom right count = eraseScreen top left bottom (right - 1) false := by
        rw [rectangleScrollUp, if_neg (by omega), if_neg (by omega), if_pos (by omega)]
      have hkeeps : s.KeepsUp ids text top left bottom right count := fun r hlo hhi => absurd hhi (by omega)
      rw [heq, and_iff_left hkeeps]
      by_cases hmax : right ≤ maxLineLength
      · refine iff_of_true ?_ hmax
        exact h.scrolls_eraseScreen hnarrow htop hbottom hleft hcolumns hwidth hmax fun r hlo hhi => by omega
      · refine iff_of_false (not_scrolls ?_) hmax
        exact h.faults_eraseScreen htop (by omega) hbottom hleft (by omega) (by omega)
  · intro h hnarrow htop hrows hbottom hleft hcolumns hwidth hcount
    by_cases hsome : count < bottom + 1 - top
    · by_cases hmax : right ≤ maxLineLength
      · rw [and_iff_right hmax]
        exact h.scrolls_down_iff hnarrow htop hrows hbottom hleft hcolumns hwidth hcount hmax hsome
      · refine iff_of_false (not_scrolls ?_) fun hboth => hmax hboth.1
        exact h.faults_rectangleScrollDown htop hrows hbottom hcolumns (by omega) hsome
    · have heq : rectangleScrollDown top left bottom right count = eraseScreen top left bottom (right - 1) false := by
        rw [rectangleScrollDown, if_neg (by omega), if_neg (by omega), if_pos (by omega)]
      have hkeeps : s.KeepsDown ids text top left bottom right count := fun r hlo hhi => absurd hhi (by omega)
      rw [heq, and_iff_left hkeeps]
      by_cases hmax : right ≤ maxLineLength
      · refine iff_of_true ?_ hmax
        exact h.scrolls_eraseScreen hnarrow htop hbottom hleft hcolumns hwidth hmax fun r hlo hhi => by omega
      · refine iff_of_false (not_scrolls ?_) hmax
        exact h.faults_eraseScreen htop (by omega) hbottom hleft (by omega) (by omega)

theorem Screen.page_blank : (Screen.blank .vt100).Page [0] fun _ => (Screen.blank .vt100).blankText true := by
  refine ⟨⟨⟨by decide, ?_⟩, by decide, rfl, rfl, rfl, by decide⟩, ?_, fun _ _ => rfl, by decide, rfl, Or.inr (by decide)⟩
  · intro i a hi
    cases i with
    | zero => cases hi; rfl
    | succ i => cases hi
  · intro i a hi
    cases i with
    | zero => cases hi; rfl
    | succ i => cases hi

/-- Two rows, the first with a letter in its second column: with the first column alone, it takes over the second row's
length, which is none. -/
theorem not_scrolls_up : ¬ ∀ (s : Screen) (ids : List ℕ) (text : ℕ → Text) (top left bottom right count : ℤ),
    s.Page ids text → s.Narrow ids text → 0 ≤ top → top < bottom → bottom < s.rows → 0 ≤ left → left < right →
      right ≤ s.width → 0 ≤ count →
        s.Scrolls (rectangleScrollUp top left bottom right count) ids text top left bottom right count := by
  intro hall
  let write : Text → Except Fault Text := fun _ => .ok ⟨fun _ => 0x41, fun _ => {}, 2, false, 0, false⟩
  have hwrite : write ((Screen.blank .vt100).blankText true) = .ok ⟨fun _ => 0x41, fun _ => {}, 2, false, 0, false⟩ := rfl
  obtain ⟨u, -, hpage, hsame⟩ := Screen.page_blank.onText_eq (show [0][0]? = some 0 from rfl) hwrite
  have hrows : u.rows = 24 := by rw [hsame.eq]; rfl
  have hwidth : u.width = 80 := by rw [hsame.eq]; rfl
  have hcolor : u.consoleText = {} := by rw [hsame.eq]; rfl
  have hbase : u.base [0] = 0 := by rw [Screen.base, hrows]; rfl
  have hnarrow : u.Narrow [0] (Function.update (fun _ => (Screen.blank .vt100).blankText true) 0
      ⟨fun _ => 0x41, fun _ => {}, 2, false, 0, false⟩) := by
    intro r hr
    rw [hbase, hwidth, Nat.zero_add]
    by_cases hr : r = 0
    · rw [hr, Function.update_self]
      decide
    · rw [Function.update_of_ne hr]
      decide
  have hscrolls := hall u [0] _ 0 0 1 1 1 hpage hnarrow (by decide) (by decide) (by omega) (by decide) (by decide)
    (by omega) (by decide)
  have hkeeps := (hpage.scrolls_up_iff hnarrow (by decide) (by decide) (by omega) (by decide) (by decide) (by omega)
    (by decide) (by decide) (by decide)).mp hscrolls
  have hrow := hkeeps 0 (by decide) (by decide)
  rw [hbase, if_pos (by decide)] at hrow
  have hlost := (hrow 1 (by decide) (by omega) (by decide)).1 (by decide) (by decide)
  rw [hcolor] at hlost
  exact absurd hlost (by decide)

end CProgram.Terminal
