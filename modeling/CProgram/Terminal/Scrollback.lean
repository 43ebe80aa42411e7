import CProgram.Terminal.Output

/-! The list of lines stays a list, under everything that the terminal does to it. -/
namespace CProgram.Terminal
open CProgram.Programs

namespace Screen

/-- The list pointers of the lines that are there. -/
def links (s : Screen) (a : ℕ) : Option (Links ℕ) := (s.lines a).map Line.toLinks

/-- Only the lines may differ. -/
structure SameButLines (s t : Screen) : Prop where
  eq : t = { s with lines := t.lines }

/-- Only the list may differ. -/
structure SameButList (s t : Screen) : Prop where
  eq : t = { s with
    lines := t.lines
    fresh := t.fresh
    buffer := t.buffer
    last := t.last
    position := t.position
    scrollbackLines := t.scrollbackLines }

theorem SameButLines.trans {s t u : Screen} (h : SameButLines s t) (h' : SameButLines t u) :
    SameButLines s u := by
  obtain ⟨h⟩ := h
  obtain ⟨h'⟩ := h'
  constructor
  rw [h'] at *
  rw [h]

theorem SameButLines.sameButList {s t : Screen} (h : SameButLines s t) : SameButList s t := by
  obtain ⟨h⟩ := h
  constructor
  rw [h]

theorem SameButList.trans {s t u : Screen} (h : SameButList s t) (h' : SameButList t u) :
    SameButList s u := by
  obtain ⟨h⟩ := h
  obtain ⟨h'⟩ := h'
  constructor
  rw [h'] at *
  rw [h]

namespace SameButLines
variable {s t : Screen} (h : SameButLines s t)
include h

theorem fresh : t.fresh = s.fresh := by rw [h.eq]

theorem buffer : t.buffer = s.buffer := by rw [h.eq]

theorem last : t.last = s.last := by rw [h.eq]

theorem position : t.position = s.position := by rw [h.eq]

theorem scrollbackLines : t.scrollbackLines = s.scrollbackLines := by rw [h.eq]

end SameButLines

namespace SameButList
variable {s t : Screen} (h : SameButList s t)
include h

theorem rows : t.rows = s.rows := by rw [h.eq]

theorem scrollbackMax : t.scrollbackMax = s.scrollbackMax := by rw [h.eq]

theorem scrollbackEnabled : t.scrollbackEnabled = s.scrollbackEnabled := by rw [h.eq]

theorem current : t.current = s.current := by rw [h.eq]

theorem cursorY : t.cursorY = s.cursorY := by rw [h.eq]

theorem scrollRegionTop : t.scrollRegionTop = s.scrollRegionTop := by rw [h.eq]

theorem scrollRegionBottom : t.scrollRegionBottom = s.scrollRegionBottom := by rw [h.eq]

end SameButList

/-- The list of the lines from `q_scrollback_buffer` to `q_scrollback_last`. -/
structure Chain (s : Screen) (ids : List ℕ) : Prop where
  linked : Linked s.links ids
  nonempty : 0 < ids.length
  buffer : s.buffer = ids[0]?
  last : s.last = ids[ids.length - 1]?
  position : s.position = s.last
  fresh : ∀ a ∈ ids, a < s.fresh

end Screen
open Screen

variable {s t : Screen} {E : Fault → Prop} {a b : ℕ} {ℓ : Links ℕ} {p : Option ℕ}

theorem links_setLine {line : Option Line} :
    (s.setLine a line).links = Function.update s.links a (line.map Line.toLinks) := by
  funext b
  rcases eq_or_ne b a with rfl | hne
  · simp [links, setLine]
  · simp [links, setLine, hne]

theorem exists_line (h : s.links a = some ℓ) : ∃ text, s.lines a = some ⟨ℓ, text⟩ := by
  obtain ⟨line, hline, rfl⟩ := Option.map_eq_some_iff.mp h
  exact ⟨line.text, hline⟩

theorem lineAt_eq (h : s.links a = some ℓ) :
    ∃ text, s.lines a = some ⟨ℓ, text⟩ ∧ lineAt (some a) s = .ok (⟨ℓ, text⟩, s) := by
  obtain ⟨text, htext⟩ := exists_line h
  refine ⟨text, htext, ?_⟩
  unfold lineAt
  dsimp only [bind, StateT.bind, get, getThe, MonadStateOf.get, StateT.get, pure, Except.pure, Except.bind]
  rw [htext]
  rfl

theorem ends_nextOf {Q : Option ℕ → Screen → Prop} (h : s.links a = some ℓ) :
    Ends (nextOf (some a)) E Q s ↔ Q ℓ.next s := by
  obtain ⟨text, -, hline⟩ := lineAt_eq h
  rw [nextOf, ends_bind, ends_of_ok hline, ends_pure]

theorem ends_prevOf {Q : Option ℕ → Screen → Prop} (h : s.links a = some ℓ) :
    Ends (prevOf (some a)) E Q s ↔ Q ℓ.prev s := by
  obtain ⟨text, -, hline⟩ := lineAt_eq h
  rw [prevOf, ends_bind, ends_of_ok hline, ends_pure]

theorem ends_textAt (h : s.links a = some ℓ) : Ends (textAt (some a)) E (fun _ t => t = s) s := by
  obtain ⟨text, -, hline⟩ := lineAt_eq h
  rw [textAt, ends_bind, ends_of_ok hline, ends_pure]

theorem ends_alter {f : Line → Line} (h : s.links a = some ℓ) : Ends (alter (some a) f) E
    (fun _ t => SameButLines s t ∧ ∃ text, t.links = Function.update s.links a (some (f ⟨ℓ, text⟩).toLinks)) s := by
  obtain ⟨text, -, hline⟩ := lineAt_eq h
  rw [alter, ends_bind, ends_of_ok hline, ends_modify]
  exact ⟨⟨rfl⟩, text, links_setLine⟩

theorem ends_setPrev {prev : Option ℕ} (h : s.links a = some ℓ) : Ends (setPrev (some a) prev) E
    (fun _ t => SameButLines s t ∧ t.links = Function.update s.links a (some ⟨prev, ℓ.next⟩)) s := by
  refine (ends_alter h).post fun _ t ht => ?_
  obtain ⟨hsame, text, hlinks⟩ := ht
  exact ⟨hsame, hlinks⟩

theorem ends_setNext {next : Option ℕ} (h : s.links a = some ℓ) : Ends (setNext (some a) next) E
    (fun _ t => SameButLines s t ∧ t.links = Function.update s.links a (some ⟨ℓ.prev, next⟩)) s := by
  refine (ends_alter h).post fun _ t ht => ?_
  obtain ⟨hsame, text, hlinks⟩ := ht
  exact ⟨hsame, hlinks⟩

/-- Whatever is written into a line, the list is the same. -/
theorem ends_onText {f : Text → Except Fault Text} (h : s.links a = some ℓ)
    (hE : ∀ text e, f text = .error e → E e) :
    Ends (onText (some a) f) E (fun _ t => SameButLines s t ∧ t.links = s.links) s := by
  rw [onText, ends_bind]
  refine (ends_textAt h).post fun text t ht => ?_
  obtain rfl := ht
  cases hf : f text with
  | error e => exact hE text e hf
  | ok text' =>
    refine (ends_alter h).post fun _ u hu => ⟨hu.1, ?_⟩
    obtain ⟨-, old, hlinks⟩ := hu
    rw [hlinks]
    exact Function.update_eq_self_iff.mpr h.symm


/-! ### Moving along the list -/

variable {ids : List ℕ} {i k : ℕ}

theorem Screen.Chain.links_eq (h : s.Chain ids) (hi : ids[i]? = some a) :
    s.links a = some ⟨before ids i, ids[i + 1]?⟩ := h.linked.node_eq i a hi

theorem exists_at (ids : List ℕ) (i : ℕ) (hi : i < ids.length) : ∃ a, ids[i]? = some a :=
  ⟨ids[i], by simp [hi]⟩

theorem ends_climb (h : s.Chain ids) (hi : ids[i]? = some a) : Ends (climb k (some a)) E
    (fun r t => t = s ∧ r = if k ≤ i then (ids[i - k]?, true) else (ids[0]?, false)) s := by
  induction k generalizing i a with
  | zero => simp [climb, hi]
  | succ k ih =>
    rw [climb, ends_bind, ends_prevOf (h.links_eq hi)]
    cases i with
    | zero => simp [before, hi]
    | succ i =>
      obtain ⟨up, hup⟩ := exists_at ids i
        (by have := (List.getElem?_eq_some_iff.mp hi).1; omega)
      rw [before, hup]
      refine (ih hup).post fun r t hr => ?_
      simpa using hr

/-- The line at the top of the screen is the one that is a screen away from the end, or the first. -/
theorem ends_findTop (h : s.Chain ids) (hrows : 2 ≤ s.rows) :
    Ends findTop E (fun r t => t = s ∧ r = ids[ids.length - s.rows.toNat]?) s := by
  have hpos := h.nonempty
  obtain ⟨a, ha⟩ := exists_at ids (ids.length - 1) (by omega)
  rw [findTop, ends_bind, ends_get, if_neg (by omega), h.position, h.last, ha, ends_bind]
  refine (ends_climb h ha).post fun r t hr => ?_
  obtain ⟨rfl, rfl⟩ := hr
  by_cases hle : t.rows.toNat ≤ ids.length - 1
  · obtain ⟨b, hb⟩ := exists_at ids (ids.length - 1 - t.rows.toNat) (by omega)
    obtain ⟨c, hc⟩ := exists_at ids (ids.length - 1 - t.rows.toNat + 1) (by omega)
    have hplace : ids.length - t.rows.toNat = ids.length - 1 - t.rows.toNat + 1 := by omega
    simp only [if_pos hle, hb]
    rw [ends_bind, ends_nextOf (h.links_eq hb), ends_pure, hplace, hc]
    exact ⟨rfl, rfl⟩
  · obtain ⟨b, hb⟩ := exists_at ids 0 hpos
    have hplace : ids.length - t.rows.toNat = 0 := by omega
    simp only [if_neg hle, hb]
    rw [ends_bind, ends_nextOf (h.links_eq hb), ends_pure, hplace, hb]
    exact ⟨rfl, by simp⟩

/-! ### A new line -/

/-- Behind the last line comes one that is in no list yet. -/
theorem ends_attach (h : s.Chain ids) (hrows : 2 ≤ s.rows) (ha : s.links a = some ⟨none, none⟩)
    (hfresh : a ∉ ids) (hlt : a < s.fresh) : Ends (attach a) E (fun top t =>
      top = ids[ids.length - s.rows.toNat]? ∧ t.Chain (ids ++ [a]) ∧ SameButList s t ∧
        t.scrollbackLines = s.scrollbackLines) s := by
  obtain ⟨head, hhead⟩ := exists_at ids 0 h.nonempty
  obtain ⟨last, hlast⟩ := exists_at ids (ids.length - 1) (by have := h.nonempty; omega)
  have hne : last ≠ a := by
    rintro rfl
    exact hfresh (List.mem_of_getElem? hlast)
  rw [attach, ends_bind, ends_get, if_neg (by rw [h.buffer, hhead]; simp), ends_bind]
  refine (ends_findTop h hrows).post fun top t ht => ?_
  obtain ⟨rfl, htop⟩ := ht
  rw [h.last, hlast, ends_bind]
  refine (ends_setPrev ha).post fun _ u hu => ?_
  obtain ⟨hsame, hlinks⟩ := hu
  have hlinksLast : u.links last = some ⟨before ids (ids.length - 1), none⟩ := by
    rw [hlinks, Function.update_of_ne hne, h.links_eq hlast]
    simp [show ids.length - 1 + 1 = ids.length by have := h.nonempty; omega]
  rw [ends_bind]
  refine (ends_setNext hlinksLast).post fun _ v hv => ?_
  obtain ⟨hsame', hlinks'⟩ := hv
  rw [ends_bind, ends_modify, ends_pure]
  have hlines := hsame.trans hsame'
  refine ⟨htop, ⟨?_, ?_, ?_, ?_, rfl, ?_⟩, ⟨?_⟩, hlines.scrollbackLines⟩
  · refine h.linked.append (List.ne_nil_of_length_pos h.nonempty) hfresh ?_ ?_
    · show v.links a = _
      rw [hlinks', hlinks, Function.update_of_ne hne.symm, Function.update_self, List.getLast?_eq_getElem?,
        hlast]
    · intro i b hi
      show v.links b = _
      rw [hlinks', hlinks]
      have hlt' := (List.getElem?_eq_some_iff.mp hi).1
      rcases eq_or_ne b last with rfl | hb
      · obtain rfl := h.linked.unique hi hlast
        rw [Function.update_self, show ids.length - 1 + 1 = ids.length by omega]
        simp
      · have hnext : i + 1 < ids.length := by
          by_contra hge
          obtain rfl : i = ids.length - 1 := by omega
          exact hb (Option.some.inj (hi.symm.trans hlast))
        have hba : b ≠ a := by
          rintro rfl
          exact hfresh (List.mem_of_getElem? hi)
        rw [Function.update_of_ne hb, Function.update_of_ne hba, h.links_eq hi,
          List.getElem?_append_left hnext]
  · simp
  · show v.buffer = _
    rw [hlines.buffer, h.buffer, List.getElem?_append_left h.nonempty]
  · simp
  · intro b hb
    show b < v.fresh
    rw [hlines.fresh]
    rcases List.mem_append.mp hb with hmem | hmem
    · exact h.fresh b hmem
    · rw [List.mem_singleton] at hmem
      exact hmem ▸ hlt
  · rw [hlines.eq]

end CProgram.Terminal
