import CProgram.Terminal.Cells

/-! The lines of the scrollback by their places in the list, with the lines that are not there yet: walking down
and writing into lines. -/
namespace CProgram.Terminal
open CProgram.Programs Screen

/-- The text of the line at an address. -/
def Screen.textOf (s : Screen) (a : ℕ) : Option Text := (s.lines a).map Line.text

/-- The list of the lines, and what stands in each place; behind the last one stand the lines that would be appended.
A whole screen may be kept. -/
structure Screen.Page (s : Screen) (ids : List ℕ) (text : ℕ → Text) : Prop where
  chain : s.Chain ids
  text_eq : ∀ i a, ids[i]? = some a → s.textOf a = some (text i)
  beyond : ∀ i, ids.length ≤ i → text i = s.blankText true
  rows : 2 ≤ s.rows
  count : s.scrollbackLines = ids.length
  room : s.scrollbackMax ≤ 0 ∨ s.rows ≤ s.scrollbackMax

/-- The place of the first row of the screen. -/
def Screen.base (s : Screen) (ids : List ℕ) : ℕ := ids.length - s.rows.toNat

variable {s t u : Screen} {ids : List ℕ} {text : ℕ → Text} {i a b : ℕ} {E : Fault → Prop} {p q : Option ℕ}

/-- What else is known of the end, whatever the failures. -/
theorem ends_and_also {α : Type} {m : ScreenM α} {Q Q' : α → Screen → Prop} (h : Ends m E Q s)
    (h' : Ends m (fun _ => True) Q' s) : Ends m E (fun r t => Q r t ∧ Q' r t) s := by
  unfold Ends at *
  cases hm : m s with
  | ok end_ => simp only [hm] at h h'; exact ⟨h, h'⟩
  | error fault => simpa only [hm] using h

/-! ### What keeps the texts -/

theorem keeps_text_alter {f : Line → Line} (hf : ∀ line, (f line).text = line.text) : Keeps textOf (alter p f) := by
  intro s
  cases p with
  | none => trivial
  | some a =>
    cases hline : s.lines a with
    | none =>
      rw [alter, lineAt, ends_bind, ends_bind, ends_get]
      simp only [hline, ends_throw]
    | some line =>
      rw [alter, ends_bind, ends_of_ok (lineAt_of hline), ends_modify]
      funext b
      by_cases hb : b = a
      · simp [textOf, setLine, hb, hline, hf]
      · simp [textOf, setLine, hb]

theorem keeps_text_setPrev : Keeps textOf (setPrev p q) := keeps_text_alter fun _ => rfl

theorem keeps_text_setNext : Keeps textOf (setNext p q) := keeps_text_alter fun _ => rfl

theorem keeps_text_lineAt : Keeps textOf (lineAt p) := by
  refine Keeps.get.bind fun s => ?_
  cases p with
  | none => exact Keeps.throw
  | some a =>
    dsimp only
    split
    · exact Keeps.throw
    · exact Keeps.pure

theorem keeps_text_climb {n : ℕ} : Keeps textOf (climb n p) := by
  induction n generalizing p with
  | zero => exact Keeps.pure
  | succ n ih =>
    refine Keeps.bind (Keeps.bind keeps_text_lineAt fun _ => Keeps.pure) fun up => ?_
    cases up with
    | none => exact Keeps.pure
    | some a => exact ih

theorem keeps_text_findTop : Keeps textOf findTop := by
  refine Keeps.get.bind fun s => ?_
  split
  · exact Keeps.throw
  · refine Keeps.bind keeps_text_climb fun line => ?_
    exact Keeps.bind (Keeps.bind keeps_text_lineAt fun _ => Keeps.pure) fun _ => Keeps.pure

theorem ends_text_attach (hbuffer : s.buffer ≠ none) :
    Ends (attach a) (fun _ => True) (fun _ t => t.textOf = s.textOf) s := by
  rw [attach, ends_bind, ends_get, if_neg hbuffer]
  refine (Keeps.bind keeps_text_findTop fun top => ?_) s
  refine Keeps.bind keeps_text_setPrev fun _ => Keeps.bind keeps_text_setNext fun _ => ?_
  exact Keeps.modifyThen (fun _ => rfl) Keeps.pure

/-! ### A line is appended -/

/-- The screen once a new line has its memory. -/
def Screen.allocated (s : Screen) : Screen :=
  { s.setLine s.fresh (some ⟨⟨none, none⟩, s.blankText true⟩) with fresh := s.fresh + 1 }

theorem textOf_allocated : s.allocated.textOf b = if b = s.fresh then some (s.blankText true) else s.textOf b := by
  by_cases hb : b = s.fresh <;> simp [allocated, textOf, setLine, hb]

theorem textOf_setLine {line : Line} : (s.setLine a (some line)).textOf b = if b = a then some line.text else s.textOf b := by
  by_cases hb : b = a <;> simp [textOf, setLine, hb]

theorem links_allocated : s.allocated.links = Function.update s.links s.fresh (some ⟨none, none⟩) := links_setLine

theorem Screen.Chain.allocated (h : s.Chain ids) : s.allocated.Chain ids := by
  refine ⟨h.linked.frame fun a ha => ?_, h.nonempty, h.buffer, h.last, h.position, fun a ha => ?_⟩
  · rw [links_allocated, Function.update_of_ne (h.fresh a ha).ne]
  · exact (h.fresh a ha).trans (Nat.lt_succ_self _)

/-- A new line that replaces none: it is attached, and counted. -/
theorem ends_newScrollbackLine_iff {Q : PUnit → Screen → Prop} (hfull : s.isFull = false) :
    Ends newScrollbackLine E Q s ↔ Ends (attach s.fresh) E
      (fun _ u => Q ⟨⟩ { u with scrollbackLines := u.scrollbackLines + 1 }) s.allocated := by
  rw [newScrollbackLine, ends_bind, ends_get, ends_bind, xmalloc, ends_bind, ends_get, ends_bind, ends_set, ends_pure,
    ends_bind]
  simp only [hfull, Bool.false_eq_true, if_false, ends_modify]
  rfl

namespace Screen.Page
variable (h : s.Page ids text)
include h

/-- Until the first screen is full, nothing rolls off. -/
theorem not_isFull (hfirst : ids.length < s.rows.toNat) : s.isFull = false := by
  have hcount := h.count
  have hroom := h.room
  have hrows := h.rows
  simp only [isFull, Bool.or_eq_false_iff, Bool.and_eq_false_iff, decide_eq_false_iff_not, Bool.not_eq_false']
  constructor
  · by_cases hmax : 0 < s.scrollbackMax
    · exact Or.inr (by omega)
    · exact Or.inl hmax
  · exact Or.inr (by omega)

theorem buffer_ne : s.buffer ≠ none := by
  obtain ⟨head, hhead⟩ := exists_at ids 0 h.chain.nonempty
  rw [h.chain.buffer, hhead]
  simp

/-- On the first screen a new line comes behind the last one. -/
theorem ends_newScrollbackLine (hfirst : ids.length < s.rows.toNat) :
    Ends newScrollbackLine E (fun _ u => ∃ b, u.Page (ids ++ [b]) text ∧ SameButList s u) s := by
  have hout : s.fresh ∉ ids := fun hmem => absurd (h.chain.fresh _ hmem) (lt_irrefl _)
  have hnew : s.allocated.links s.fresh = some ⟨none, none⟩ := by rw [links_allocated, Function.update_self]
  have hattach : Ends (attach s.fresh) E _ s.allocated :=
    ends_attach h.chain.allocated h.rows hnew hout (Nat.lt_succ_self _)
  have htexts : Ends (attach s.fresh) (fun _ => True) (fun _ u => u.textOf = s.allocated.textOf) s.allocated :=
    ends_text_attach h.buffer_ne
  rw [ends_newScrollbackLine_iff (h.not_isFull hfirst)]
  refine (ends_and_also hattach htexts).post fun top u hu => ?_
  obtain ⟨⟨-, hchain, hsame, hlines⟩, htext⟩ := hu
  have hbut : SameButList s { u with scrollbackLines := u.scrollbackLines + 1 } := by
    obtain ⟨heq⟩ := hsame
    constructor
    rw [heq]
    rfl
  have hblank : ({ u with scrollbackLines := u.scrollbackLines + 1 } : Screen).blankText true = s.blankText true := by
    rw [hbut.eq]
    rfl
  refine ⟨s.fresh, ⟨⟨hchain.linked, hchain.nonempty, hchain.buffer, hchain.last, hchain.position, hchain.fresh⟩, ?_, ?_,
    ?_, ?_, ?_⟩, hbut⟩
  · intro i a hi
    show u.textOf a = _
    rw [htext, textOf_allocated]
    by_cases hlt : i < ids.length
    · rw [List.getElem?_append_left hlt] at hi
      have hne : a ≠ s.fresh := by
        rintro rfl
        exact hout (List.mem_of_getElem? hi)
      rw [if_neg hne, h.text_eq i a hi]
    · have hend : i = ids.length := by
        have hlength := (List.getElem?_eq_some_iff.mp hi).1
        rw [List.length_append, List.length_singleton] at hlength
        omega
      rw [hend, List.getElem?_append_right le_rfl, Nat.sub_self] at hi
      rw [if_pos (by simpa using hi.symm), hend, h.beyond _ le_rfl]
  · intro i hi
    rw [List.length_append, List.length_singleton] at hi
    rw [hblank]
    exact h.beyond i (by omega)
  · rw [hbut.rows]
    exact h.rows
  · show u.scrollbackLines + 1 = _
    rw [hlines, List.length_append, List.length_singleton]
    show s.scrollbackLines + 1 = _
    rw [h.count]
    rfl
  · rw [hbut.rows, hbut.scrollbackMax]
    exact h.room

end Screen.Page

/-! ### Walking down -/

theorem Screen.SameButList.refl : SameButList s s := ⟨by cases s; rfl⟩

/-- The list has grown to `n` lines, if it had less. -/
structure Screen.Grows (n : ℕ) (s : Screen) (ids : List ℕ) (u : Screen) (ids' : List ℕ) : Prop where
  start : ids <+: ids'
  length : ids'.length = max ids.length n
  same : SameButList s u

variable {ids' ids'' : List ℕ} {m n : ℕ}

theorem Screen.Grows.get (h : Grows n s ids u ids') (hi : ids[i]? = some a) : ids'[i]? = some a := by
  obtain ⟨rest, rfl⟩ := h.start
  rw [List.getElem?_append_left (List.getElem?_eq_some_iff.mp hi).1, hi]

theorem Screen.Grows.trans (h : Grows m s ids u ids') (h' : Grows n u ids' t ids'') : Grows (max m n) s ids t ids'' := by
  have hlength := h.length
  have hlength' := h'.length
  exact ⟨h.start.trans h'.start, by omega, h.same.trans h'.same⟩

theorem Screen.Grows.base_eq (h : Grows n s ids u ids') (hn : n ≤ max ids.length s.rows.toNat) : u.base ids' = s.base ids := by
  have hlength := h.length
  rw [Screen.base, Screen.base, h.same.rows]
  omega

namespace Screen.Page
variable (h : s.Page ids text)
include h

theorem ends_stepDown (hi : ids[i]? = some a) (hroom : i + 1 < max ids.length s.rows.toNat) :
    Ends (stepDown (some a)) E
      (fun r u => ∃ ids', u.Page ids' text ∧ Grows (i + 2) s ids u ids' ∧ r = ids'[i + 1]?) s := by
  have hlt := (List.getElem?_eq_some_iff.mp hi).1
  rw [stepDown, ends_bind, ends_nextOf (h.chain.links_eq hi)]
  cases hnext : ids[i + 1]? with
  | some b =>
    have hlt' := (List.getElem?_eq_some_iff.mp hnext).1
    simp only [reduceCtorEq, if_false]
    rw [ends_nextOf (h.chain.links_eq hi)]
    exact ⟨ids, h, ⟨List.prefix_rfl, by omega, .refl⟩, rfl⟩
  | none =>
    have hend := List.getElem?_eq_none_iff.mp hnext
    simp only [if_true]
    rw [ends_bind]
    refine (h.ends_newScrollbackLine (by omega)).post fun _ u hu => ?_
    obtain ⟨b, hpage, hsame⟩ := hu
    have hi' : (ids ++ [b])[i]? = some a := by rw [List.getElem?_append_left hlt, hi]
    rw [ends_nextOf (hpage.chain.links_eq hi')]
    exact ⟨ids ++ [b], hpage, ⟨List.prefix_append _ _, by simp; omega, hsame⟩, rfl⟩

/-- So many lines down. -/
theorem ends_walk (hi : i < ids.length) (hroom : i + n < max ids.length s.rows.toNat) :
    Ends (repeatFrom stepDown n ids[i]?) E
      (fun r u => ∃ ids', u.Page ids' text ∧ Grows (i + n + 1) s ids u ids' ∧ r = ids'[i + n]?) s := by
  induction n generalizing s ids i with
  | zero => exact ⟨ids, h, ⟨List.prefix_rfl, by omega, .refl⟩, rfl⟩
  | succ n ih =>
    obtain ⟨a, ha⟩ := exists_at ids i hi
    rw [ha, repeatFrom, ends_bind]
    refine (h.ends_stepDown ha (by omega)).post fun r u hu => ?_
    obtain ⟨ids', hpage, hgrows, rfl⟩ := hu
    have hlength := hgrows.length
    have hrows := hgrows.same.rows
    refine (ih hpage (by omega) (by rw [hrows]; omega)).post fun r v hv => ?_
    obtain ⟨ids'', hpage', hgrows', rfl⟩ := hv
    have hcount : max (i + 2) (i + 1 + n + 1) = i + (n + 1) + 1 := by omega
    have hplace : i + 1 + n = i + (n + 1) := by omega
    refine ⟨ids'', hpage', hcount ▸ hgrows.trans hgrows', ?_⟩
    rw [hplace]

theorem base_lt : s.base ids < ids.length := by
  have hpos := h.chain.nonempty
  have hrows := h.rows
  rw [Screen.base]
  omega

/-- Down to a row of the screen. -/
theorem ends_row (hn : (n : ℤ) < s.rows) : Ends (findTop >>= repeatFrom stepDown n) E
    (fun r u => ∃ ids', u.Page ids' text ∧ Grows (s.base ids + n + 1) s ids u ids' ∧ r = ids'[s.base ids + n]?) s := by
  rw [ends_bind]
  refine (ends_findTop h.chain h.rows).post fun r u hu => ?_
  obtain ⟨rfl, rfl⟩ := hu
  have hbase := h.base_lt
  refine h.ends_walk hbase ?_
  rw [Screen.base] at hbase
  omega

/-! ### Writing -/

/-- What is done to the text in one place. -/
theorem onText_eq {f : Text → Except Fault Text} {new : Text} (hi : ids[i]? = some a) (hf : f (text i) = .ok new) :
    ∃ u, onText (some a) f s = .ok ((), u) ∧ u.Page ids (Function.update text i new) ∧ SameButLines s u := by
  obtain ⟨line, hline, htext⟩ := Option.map_eq_some_iff.mp (h.text_eq i a hi)
  refine ⟨s.withText a line new, CProgram.Terminal.onText_eq hline (by rw [htext, hf]), ?_, ⟨rfl⟩⟩
  have hlinks : (s.withText a line new).links = s.links := by
    rw [withText, links_setLine]
    refine Function.update_eq_self_iff.mpr ?_
    simp [links, hline]
  refine ⟨⟨h.chain.linked.frame fun b _ => by rw [hlinks], h.chain.nonempty, h.chain.buffer, h.chain.last,
    h.chain.position, h.chain.fresh⟩, ?_, ?_, h.rows, h.count, h.room⟩
  · intro k b hk
    rw [withText, textOf_setLine]
    by_cases hb : b = a
    · have hki : k = i := h.chain.linked.unique (hb ▸ hk) hi
      rw [if_pos hb, hki, Function.update_self]
    · have hki : k ≠ i := by
        rintro rfl
        exact hb (Option.some.inj (hk.symm.trans hi))
      rw [if_neg hb, Function.update_of_ne hki, h.text_eq k b hk]
  · intro k hk
    have hki : k ≠ i := by
      have hlt := (List.getElem?_eq_some_iff.mp hi).1
      omega
    rw [Function.update_of_ne hki]
    exact h.beyond k hk

theorem ends_onText {f : Text → Except Fault Text} {new : Text} (hi : ids[i]? = some a) (hf : f (text i) = .ok new) :
    Ends (onText (some a) f) E (fun _ u => u.Page ids (Function.update text i new) ∧ SameButLines s u) s := by
  obtain ⟨u, hu, hpage, hsame⟩ := h.onText_eq hi hf
  rw [ends_of_ok hu]
  exact ⟨hpage, hsame⟩

theorem ends_textAt {Q : Text → Screen → Prop} (hi : ids[i]? = some a) :
    Ends (textAt (some a)) E Q s ↔ Q (text i) s := by
  obtain ⟨line, hline, htext⟩ := Option.map_eq_some_iff.mp (h.text_eq i a hi)
  rw [ends_of_ok (textAt_eq hline), htext]

end Screen.Page

end CProgram.Terminal
