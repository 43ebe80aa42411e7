import CProgram.Terminal.Scrolling

/-! The automatic wrap, and a carriage return with a linefeed in its place. -/
namespace CProgram.Terminal
open CProgram.Programs Screen

/-! ### Programs that do not see a part of the state -/

variable {σ ε α β : Type}

/-- The program runs on the changed state as it does on the other one, and the change stays. -/
def Blind (f : σ → σ) (m : Program σ ε α) : Prop := ∀ s, m (f s) = (m s).map fun end_ => (end_.1, f end_.2)

namespace Blind
variable {f : σ → σ} {m m' : Program σ ε α} {p : Prop} [Decidable p]

theorem pure {a : α} : Blind f (pure a : Program σ ε α) := fun _ => rfl

theorem throw {e : ε} : Blind f (throw e : Program σ ε α) := fun _ => rfl

theorem bind {k : α → Program σ ε β} (hm : Blind f m) (hk : ∀ a, Blind f (k a)) : Blind f (m >>= k) := by
  intro s
  show (m (f s) >>= fun end_ => k end_.1 end_.2) = Except.map _ (m s >>= fun end_ => k end_.1 end_.2)
  rw [hm s]
  cases m s with
  | error e => rfl
  | ok end_ => exact hk end_.1 end_.2

/-- What is read is not changed. -/
theorem getThen {k : σ → Program σ ε α} (hread : ∀ s, k (f s) = k s) (hk : ∀ s, Blind f (k s)) : Blind f (get >>= k) := by
  intro s
  show k (f s) (f s) = Except.map _ (k s s)
  rw [hread]
  exact hk s s

theorem update {g : σ → σ} (h : ∀ s, g (f s) = f (g s)) : Blind f (modify g : Program σ ε PUnit) := by
  intro s
  show Except.ok (PUnit.unit, g (f s)) = Except.ok (PUnit.unit, f (g s))
  rw [h]

theorem modifyThen {g : σ → σ} {k : PUnit → Program σ ε α} (h : ∀ s, g (f s) = f (g s)) (hk : ∀ a, Blind f (k a)) :
    Blind f (modify g >>= k) := (update h).bind hk

/-- A branch on what is not changed, of which one takes the state as it is. -/
theorem getIte {k k' : σ → Program σ ε α} {c : σ → Prop} [DecidablePred c] (hc : ∀ s, c (f s) ↔ c s)
    (hk : ∀ s, k (f s) (f s) = (k s s).map fun end_ => (end_.1, f end_.2)) (hread : ∀ s, k' (f s) = k' s)
    (hk' : ∀ s, Blind f (k' s)) : Blind f (get >>= fun s => if c s then k s else k' s) := by
  intro s
  show (if c (f s) then k (f s) else k' (f s)) (f s) = Except.map _ ((if c s then k s else k' s) s)
  by_cases h : c s
  · rw [if_pos ((hc s).mpr h), if_pos h]
    exact hk s
  · rw [if_neg (mt (hc s).mp h), if_neg h, hread]
    exact hk' s s

theorem ite (hm : Blind f m) (hm' : Blind f m') : Blind f (if p then m else m') := by
  split
  · exact hm
  · exact hm'

end Blind

/-- The cursor is elsewhere, and waits in the margin or not. -/
def Screen.moved (x y : ℤ) (waits : Bool) (s : Screen) : Screen :=
  { s with cursorX := x, cursorY := y, vt100WrapLineFlag := waits }

variable {x y : ℤ} {waits : Bool} {p : Option ℕ}

theorem blind_lineAt : Blind (moved x y waits) (lineAt p) := by
  refine Blind.getThen (fun _ => rfl) fun s => ?_
  cases p with
  | none => exact Blind.throw
  | some a =>
    dsimp only
    split
    · exact Blind.throw
    · exact Blind.pure

theorem blind_alter {f : Line → Line} : Blind (moved x y waits) (alter p f) := by
  refine Blind.bind blind_lineAt fun line => ?_
  cases p with
  | none => exact Blind.throw
  | some a => exact Blind.update fun _ => rfl

theorem blind_nextOf : Blind (moved x y waits) (nextOf p) := Blind.bind blind_lineAt fun _ => Blind.pure

theorem blind_prevOf : Blind (moved x y waits) (prevOf p) := Blind.bind blind_lineAt fun _ => Blind.pure

theorem blind_xfree : Blind (moved x y waits) (xfree p) := by
  refine Blind.bind blind_lineAt fun line => ?_
  cases p with
  | none => exact Blind.throw
  | some a => exact Blind.update fun _ => rfl

theorem blind_climb {n : ℕ} : Blind (moved x y waits) (climb n p) := by
  induction n generalizing p with
  | zero => exact Blind.pure
  | succ n ih =>
    refine Blind.bind blind_prevOf fun up => ?_
    cases up with
    | none => exact Blind.pure
    | some a => exact ih

theorem blind_findTop : Blind (moved x y waits) findTop := by
  refine Blind.getThen (fun _ => rfl) fun s => Blind.ite Blind.throw ?_
  refine Blind.bind blind_climb fun line => ?_
  exact Blind.bind blind_nextOf fun _ => Blind.pure

theorem blind_attach {a : ℕ} : Blind (moved x y waits) (attach a) := by
  refine Blind.getIte (fun _ => Iff.rfl) (fun _ => rfl) (fun _ => rfl) fun s => ?_
  refine Blind.bind blind_findTop fun top => Blind.bind blind_alter fun _ => Blind.bind blind_alter fun _ => ?_
  exact Blind.modifyThen (fun _ => rfl) fun _ => Blind.pure

theorem blind_rollHead : Blind (moved x y waits) rollHead := by
  refine Blind.getThen (fun _ => rfl) fun s => Blind.bind blind_nextOf fun next => ?_
  exact Blind.modifyThen (fun _ => rfl) fun _ => Blind.bind blind_alter fun _ => blind_xfree

theorem blind_rollTop : Blind (moved x y waits) (rollTop p) := by
  refine Blind.bind blind_lineAt fun line => Blind.bind blind_alter fun _ => ?_
  exact Blind.ite (Blind.bind blind_alter fun _ => blind_xfree) blind_xfree

theorem blind_newScrollbackLine : Blind (moved x y waits) newScrollbackLine := by
  refine Blind.getThen (fun _ => rfl) fun s => Blind.bind (fun _ => rfl) fun line => Blind.bind blind_attach fun top => ?_
  exact Blind.ite (Blind.ite blind_rollHead blind_rollTop) (Blind.update fun _ => rfl)

theorem blind_stepDown : Blind (moved x y waits) (stepDown p) := by
  refine Blind.bind blind_nextOf fun next => ?_
  exact Blind.ite (Blind.bind blind_newScrollbackLine fun _ => blind_nextOf) blind_nextOf

theorem Blind.ends {f : σ → σ} {m : Program σ ε α} {E : ε → Prop} {Q : α → σ → Prop} {s : σ} (h : Blind f m) :
    Ends m E Q (f s) ↔ Ends m E (fun a t => Q a (f t)) s := by
  unfold Ends
  rw [h s]
  cases m s <;> rfl

/-- Where a program ends in `P` if at all, two ends that are the same there are the same. -/
theorem ends_congr {m : Program σ ε α} {E : ε → Prop} {P Q Q' : α → σ → Prop} {s : σ} (h : Ends m (fun _ => True) P s)
    (hQ : ∀ a t, P a t → (Q a t ↔ Q' a t)) : Ends m E Q s ↔ Ends m E Q' s := by
  unfold Ends at *
  cases hm : m s with
  | error e => exact Iff.rfl
  | ok end_ =>
    rw [hm] at h
    exact hQ end_.1 end_.2 h

/-! ### Wrapping with something else -/

/-- `checkMargin`, with what is done for a wrap. -/
def checkMarginWith (wrap : ScreenM Unit) (rightMargin : ℤ) : ScreenM Bool := do
  let s ← get
  if s.cursorX = rightMargin then
    if s.emulation.wrapsLate then
      if s.lineWrap then
        set { s with vt100WrapLineFlag := !s.vt100WrapLineFlag }
        if s.vt100WrapLineFlag then wrap
      pure false
    else pure s.lineWrap
  else
    if s.cursorX < rightMargin then set { s with vt100WrapLineFlag := false }
    pure false

def printVisibleWith (wrap : ScreenM Unit) (character : UInt32) : ScreenM Unit := do
  let s ← get
  let text ← textAt s.current
  let rightMargin := Screen.halved s.printMargin text.doubleWidth
  let wrapTheLine ← checkMarginWith wrap rightMargin
  let s ← get
  onText s.current (Text.put s.cursorX s.insertMode s.currentColor character)
  modify (Screen.advance rightMargin)
  if wrapTheLine then wrap

/-- `printCharacter`, with what is done for a wrap. -/
def printCharacterWith (wrap : ScreenM Unit) (character : UInt32) : ScreenM Unit := do
  let s ← get
  onText s.current (Text.pad s.cursorX s.consoleText)
  if character = 0x07 ∨ character = 0 ∧ ¬ s.displayNull then pure ()
  else printVisibleWith wrap (if character = 0 then 0x20 else character)

theorem printCharacterWith_wrapCurrentLine : printCharacterWith wrapCurrentLine = printCharacter := rfl

/-- A carriage return and a linefeed. -/
def crLf : ScreenM Unit := do
  cursorCarriageReturn
  cursorLinefeed false

variable {s t u v : Screen} {ids : List ℕ} {text : ℕ → Text} {a : ℕ} {line : Line} {new : Text} {E : Fault → Prop}
  {Q : PUnit → Screen → Prop} {wrap : ScreenM Unit} {ch : UInt32} {m : ℤ}

/-- The cursor does not wait in the margin. -/
def Screen.settled (s : Screen) : Screen := { s with vt100WrapLineFlag := false }

theorem ends_wrapCurrentLine_iff : Ends wrapCurrentLine E Q s ↔ Ends (stepDown s.current) E (fun next t =>
    Q ⟨⟩ { t with
      current := next
      cursorY := if s.cursorY < s.rows - 1 then s.cursorY + 1 else s.cursorY
      cursorX := 0 }) s := by
  rw [wrapCurrentLine, ends_bind, ends_get, ends_bind]
  refine ends_congr ((keeps_stepDown : Keeps Screen.band _) s) fun next t ht => ?_
  have hrow : t.cursorY = s.cursorY := congrArg Band.cursorY ht
  have hrows : t.rows = s.rows := congrArg Band.rows ht
  rw [ends_modify, hrow, hrows]

theorem ends_crLf_iff (hplain : s.lineFeedOnCr = false) :
    Ends crLf E Q s ↔ Ends (cursorLinefeed false) E Q (s.moved 0 s.cursorY false) := by
  have hno : ¬ ({ s with cursorX := 0 } : Screen).lineFeedOnCr = true := by
    show ¬ s.lineFeedOnCr = true
    rw [hplain]
    exact Bool.false_ne_true
  rw [crLf, ends_bind, cursorCarriageReturn, ends_bind, ends_modify, ends_bind, ends_get]
  dsimp only
  rw [if_neg hno]
  exact Iff.rfl

/-- Above the bottom of the region, the linefeed goes down. -/
theorem ends_crLf_above (hplain : s.lineFeedOnCr = false) (habove : s.cursorY < s.scrollRegionBottom) :
    Ends crLf E Q s ↔ Ends (stepDown s.current) E (fun next t =>
      Q ⟨⟩ { t with current := next, cursorY := s.cursorY + 1, cursorX := 0, vt100WrapLineFlag := false }) s := by
  have habove' : (s.moved 0 s.cursorY false).cursorY < (s.moved 0 s.cursorY false).scrollRegionBottom := habove
  rw [ends_crLf_iff hplain, cursorLinefeed, ends_bind, ends_get, if_pos habove', ends_bind, ends_set, ends_bind]
  show Ends (stepDown s.current) E _ (s.moved 0 (s.cursorY + 1) false) ↔ _
  rw [blind_stepDown.ends]
  exact Iff.rfl

/-- At the bottom of a region that is the whole screen, a line is pushed. -/
theorem ends_crLf_push (hplain : s.lineFeedOnCr = false) (hbelow : ¬ s.cursorY < s.scrollRegionBottom)
    (hbottom : s.scrollRegionBottom = s.rows - 1) (htop : s.scrollRegionTop = 0) :
    Ends crLf E Q s ↔ Ends (stepDown s.current) E (fun next t =>
      Ends (onText next fun text => pure { text with length := if s.reverseVideo then s.width else 0 }) E
        (fun _ u => Q ⟨⟩ u.settled) { t.moved 0 s.cursorY false with current := next }) s := by
  have hbelow' : ¬ (s.moved 0 s.cursorY false).cursorY < (s.moved 0 s.cursorY false).scrollRegionBottom := hbelow
  have hwhole : (s.moved 0 s.cursorY false).scrollRegionBottom = (s.moved 0 s.cursorY false).rows - 1 ∧
      (s.moved 0 s.cursorY false).scrollRegionTop = 0 := ⟨hbottom, htop⟩
  rw [ends_crLf_iff hplain, cursorLinefeed, ends_bind, ends_get, if_neg hbelow', if_pos hwhole, ends_bind, pushLine,
    ends_bind, ends_get, ends_bind]
  show Ends (stepDown s.current) E _ (s.moved 0 s.cursorY false) ↔ _
  rw [blind_stepDown.ends]
  exact Iff.rfl

/-- Elsewhere the region is scrolled. -/
theorem ends_crLf_scroll (hplain : s.lineFeedOnCr = false) (hbelow : ¬ s.cursorY < s.scrollRegionBottom)
    (hpart : ¬ (s.scrollRegionBottom = s.rows - 1 ∧ s.scrollRegionTop = 0)) :
    Ends crLf E Q s ↔ Ends (scrollingRegionScrollUp s.scrollRegionTop s.scrollRegionBottom 1) E
      (fun _ u => Q ⟨⟩ u.settled) (s.moved 0 s.cursorY false) := by
  have hbelow' : ¬ (s.moved 0 s.cursorY false).cursorY < (s.moved 0 s.cursorY false).scrollRegionBottom := hbelow
  have hpart' : ¬ ((s.moved 0 s.cursorY false).scrollRegionBottom = (s.moved 0 s.cursorY false).rows - 1 ∧
      (s.moved 0 s.cursorY false).scrollRegionTop = 0) := hpart
  rw [ends_crLf_iff hplain, cursorLinefeed, ends_bind, ends_get, if_neg hbelow', if_neg hpart', ends_bind]
  exact Iff.rfl

/-! ### The line behind the last one -/

/-- The next line and the text, of each line. -/
def Screen.fronts (s : Screen) (a : ℕ) : Option (Option ℕ × Text) := (s.lines a).map fun line => (line.next, line.text)

theorem fronts_setLine {line : Option Line} {b : ℕ} :
    (s.setLine a line).fronts b = if b = a then line.map fun line => (line.next, line.text) else s.fronts b := by
  by_cases hb : b = a <;> simp [fronts, setLine, hb]

theorem fronts_eq {ℓ : Links ℕ} (hlinks : s.links a = some ℓ) (htext : s.textOf a = some new) :
    s.fronts a = some (ℓ.next, new) := by
  obtain ⟨line, hline, rfl⟩ := Option.map_eq_some_iff.mp hlinks
  obtain ⟨line', hline', rfl⟩ := Option.map_eq_some_iff.mp htext
  rw [hline, Option.some.injEq] at hline'
  rw [fronts, hline, hline']
  rfl

/-- What changes in a line is to be seen there only. -/
theorem ends_alter_fronts {f : Line → Line} : Ends (alter p f) (fun _ => True)
    (fun _ t => ∀ b, p ≠ some b → t.fronts b = s.fronts b) s := by
  cases p with
  | none => trivial
  | some a =>
    cases hline : s.lines a with
    | none =>
      rw [alter, lineAt, ends_bind, ends_bind, ends_get]
      simp only [hline, ends_throw]
    | some line =>
      rw [alter, ends_bind, ends_of_ok (lineAt_of hline), ends_modify]
      intro b hb
      rw [fronts_setLine, if_neg]
      rintro rfl
      exact hb rfl

theorem keeps_fronts_setPrev {q : Option ℕ} : Keeps fronts (setPrev p q) := by
  intro s
  cases p with
  | none => trivial
  | some a =>
    cases hline : s.lines a with
    | none =>
      rw [setPrev, alter, lineAt, ends_bind, ends_bind, ends_get]
      simp only [hline, ends_throw]
    | some line =>
      rw [setPrev, alter, ends_bind, ends_of_ok (lineAt_of hline), ends_modify]
      funext b
      rw [fronts_setLine]
      split
      · rename_i hb
        rw [hb, fronts, hline]
        rfl
      · rfl

theorem ends_xfree_fronts : Ends (xfree p) (fun _ => True) (fun _ t => ∀ b, p ≠ some b → t.fronts b = s.fronts b) s := by
  cases p with
  | none => trivial
  | some a =>
    cases hline : s.lines a with
    | none =>
      rw [xfree, lineAt, ends_bind, ends_bind, ends_get]
      simp only [hline, ends_throw]
    | some line =>
      rw [xfree, ends_bind, ends_of_ok (lineAt_of hline), ends_modify]
      intro b hb
      rw [fronts_setLine, if_neg]
      rintro rfl
      exact hb rfl

theorem keeps_fronts_nextOf : Keeps fronts (nextOf p) := by
  refine Keeps.bind ?_ fun _ => Keeps.pure
  refine Keeps.get.bind fun s => ?_
  cases p with
  | none => exact Keeps.throw
  | some a =>
    dsimp only
    split
    · exact Keeps.throw
    · exact Keeps.pure

theorem ends_rollHead_fronts : Ends rollHead (fun _ => True)
    (fun _ t => ∀ b, s.buffer ≠ some b → t.fronts b = s.fronts b) s := by
  rw [rollHead, ends_bind, ends_get, ends_bind]
  refine (keeps_fronts_nextOf s).post fun next t ht => ?_
  rw [ends_bind, ends_modify, ends_bind]
  refine (keeps_fronts_setPrev _).post fun _ u hu => ?_
  refine ends_xfree_fronts.post fun _ v hv => ?_
  intro b hb
  rw [hv b hb, hu]
  exact congrFun ht b

theorem ends_rollTop_fronts {ℓ : Links ℕ} (hlinks : s.links a = some ℓ) : Ends (rollTop (some a)) (fun _ => True)
    (fun _ t => ∀ b, b ≠ a → ℓ.prev ≠ some b → t.fronts b = s.fronts b) s := by
  obtain ⟨text, hline, hat⟩ := lineAt_eq hlinks
  rw [rollTop, ends_bind, ends_of_ok hat, ends_bind]
  refine (keeps_fronts_setPrev s).post fun _ t ht => ?_
  have hfree (u : Screen) (hu : ∀ b, b ≠ a → ℓ.prev ≠ some b → u.fronts b = s.fronts b) :
      Ends (xfree (some a)) (fun _ => True) (fun _ v => ∀ b, b ≠ a → ℓ.prev ≠ some b → v.fronts b = s.fronts b) u :=
    ends_xfree_fronts.post fun _ v hv b hb hprev => by rw [hv b fun h => hb (Option.some.inj h).symm, hu b hb hprev]
  dsimp only
  rw [ends_ite]
  constructor
  · intro _
    rw [ends_bind]
    exact ends_alter_fronts.post fun _ u hu => hfree u fun b _ hprev => by rw [hu b hprev, ht]
  · exact fun _ => hfree t fun b _ _ => by rw [ht]

/-- Behind the last line of a whole screen comes a new one. -/
theorem Screen.Page.ends_stepDown_last (h : s.Page ids text) (hwhole : s.rows ≤ ids.length)
    (ha : ids[ids.length - 1]? = some a) : Ends (stepDown (some a)) (fun _ => True)
      (fun next t => next = some s.fresh ∧ t.textOf s.fresh = some (s.blankText true)) s := by
  have hrows := h.rows
  have hnone : ids[ids.length - 1 + 1]? = none := List.getElem?_eq_none_iff.mpr (by omega)
  have hout : s.fresh ∉ ids := fun hmem => absurd (h.chain.fresh _ hmem) (lt_irrefl _)
  have hnew : s.allocated.links s.fresh = some ⟨none, none⟩ := by rw [links_allocated, Function.update_self]
  have hattach : Ends (attach s.fresh) (fun _ => True) _ s.allocated :=
    ends_attach h.chain.allocated h.rows hnew hout (Nat.lt_succ_self _)
  have htexts : Ends (attach s.fresh) (fun _ => True) (fun _ u => u.textOf = s.allocated.textOf) s.allocated :=
    ends_text_attach h.buffer_ne
  -- what the loops see of the two lines at the end
  have hends : Ends newScrollbackLine (fun _ => True) (fun _ u => (∃ old, u.fronts a = some (some s.fresh, old)) ∧
      u.fronts s.fresh = some (none, s.blankText true)) s := by
    rw [newScrollbackLine, ends_bind, ends_get, ends_bind, xmalloc, ends_bind, ends_get, ends_bind, ends_set, ends_pure,
      ends_bind]
    refine (ends_and_also hattach htexts).post fun top u hu => ?_
    obtain ⟨⟨htop, hchain, -, -⟩, htext⟩ := hu
    have hlast : (ids ++ [s.fresh])[ids.length - 1]? = some a := by
      rw [List.getElem?_append_left (by omega), ha]
    have hfresh : (ids ++ [s.fresh])[ids.length]? = some s.fresh := by simp
    have hplace : ids.length - 1 + 1 = ids.length := by omega
    have hne : a ≠ s.fresh := fun heq => hout (heq ▸ List.mem_of_getElem? ha)
    have hold : ∃ old, u.fronts a = some (some s.fresh, old) := by
      have hlinks := hchain.links_eq hlast
      rw [hplace, hfresh] at hlinks
      refine ⟨text (ids.length - 1), fronts_eq hlinks ?_⟩
      rw [htext, textOf_allocated, if_neg hne, h.text_eq _ a ha]
    have hblank : u.fronts s.fresh = some (none, s.blankText true) := by
      have hlinks := hchain.links_eq hfresh
      rw [List.getElem?_eq_none_iff.mpr (by simp)] at hlinks
      exact fronts_eq hlinks (by rw [htext, textOf_allocated, if_pos rfl])
    rw [ends_ite]
    refine ⟨fun _ => ?_, fun _ => ⟨hold, hblank⟩⟩
    rw [ends_ite]
    constructor
    · -- the head that rolls off is neither of the two
      intro _
      obtain ⟨head, hhead⟩ := exists_at ids 0 h.chain.nonempty
      have hbuffer : u.buffer = some head := by
        rw [hchain.buffer, List.getElem?_append_left h.chain.nonempty, hhead]
      have hheadLast : head ≠ a := by
        rintro rfl
        have hzero := h.chain.linked.unique hhead ha
        omega
      have hheadFresh : head ≠ s.fresh := fun heq => hout (heq ▸ List.mem_of_getElem? hhead)
      refine ends_rollHead_fronts.post fun _ v hv => ?_
      rw [hbuffer] at hv
      rw [hv a fun heq => hheadLast (Option.some.inj heq), hv s.fresh fun heq => hheadFresh (Option.some.inj heq)]
      exact ⟨hold, hblank⟩
    · -- and neither is the line at the top of the screen, or the one before it
      intro _
      obtain ⟨c, hc⟩ := exists_at ids (ids.length - s.rows.toNat) (by omega)
      have hctop : top = some c := by
        rw [htop]
        exact hc
      have hc' : (ids ++ [s.fresh])[ids.length - s.rows.toNat]? = some c := by
        rw [List.getElem?_append_left (by omega), hc]
      have hcLast : a ≠ c := by
        rintro rfl
        have hplaces := h.chain.linked.unique hc ha
        omega
      have hcFresh : s.fresh ≠ c := fun heq => hout (heq ▸ List.mem_of_getElem? hc)
      have hbefore (b : ℕ) (hb : before (ids ++ [s.fresh]) (ids.length - s.rows.toNat) = some b) :
          b ≠ a ∧ b ≠ s.fresh := by
        cases hn : ids.length - s.rows.toNat with
        | zero =>
          rw [hn] at hb
          cases hb
        | succ n =>
          rw [hn, before, List.getElem?_append_left (by omega)] at hb
          refine ⟨?_, fun heq => hout (heq ▸ List.mem_of_getElem? hb)⟩
          rintro rfl
          have hplaces := h.chain.linked.unique hb ha
          omega
      rw [hctop]
      refine (ends_rollTop_fronts (hchain.links_eq hc')).post fun _ v hv => ?_
      rw [hv a hcLast fun hb => (hbefore a hb).1 rfl, hv s.fresh hcFresh fun hb => (hbefore _ hb).2 rfl]
      exact ⟨hold, hblank⟩
  rw [stepDown, ends_bind, ends_nextOf (h.chain.links_eq ha)]
  simp only [hnone, if_true]
  rw [ends_bind]
  refine hends.post fun _ u hu => ?_
  obtain ⟨⟨old, hold⟩, hblank⟩ := hu
  obtain ⟨line, hline, hfront⟩ := Option.map_eq_some_iff.mp hold
  rw [nextOf, ends_bind, ends_of_ok (lineAt_of hline), ends_pure]
  refine ⟨congrArg Prod.fst hfront, ?_⟩
  obtain ⟨line', hline', hfront'⟩ := Option.map_eq_some_iff.mp hblank
  rw [textOf, hline']
  exact congrArg (fun front => some front.2) hfront'

/-! ### The wrap itself -/

/-- The cursor is in the line of its row, and the region on the screen; a carriage return goes to no other line. -/
structure Screen.Placed (s : Screen) (ids : List ℕ) (text : ℕ → Text) : Prop where
  page : s.Page ids text
  bounded : s.band.Bounded
  current : ∃ a, s.current = some a ∧ ids[s.base ids + s.cursorY.toNat]? = some a
  plain : s.lineFeedOnCr = false

/-- The row of the cursor, and its line. -/
def Screen.spot (s : Screen) : ℤ × Option ℕ := (s.cursorY, s.current)

/-- The cursor is above the bottom of the region, or the region is the whole screen. -/
def Screen.HasRoom (s : Screen) : Prop :=
  s.cursorY < s.scrollRegionBottom ∨ s.scrollRegionTop = 0 ∧ s.scrollRegionBottom = s.rows - 1

instance : Decidable s.HasRoom := inferInstanceAs (Decidable (_ ∨ _))

theorem setLine_self (hline : s.lines a = some line) : s.setLine a (some line) = s := by
  have hlines : (fun b => if b = a then some line else s.lines b) = s.lines := by
    funext b
    split
    · rename_i hb
      rw [hb, hline]
    · rfl
  rw [setLine, hlines]

namespace Screen.Placed
variable (h : s.Placed ids text)
include h

/-- In the last row the cursor's line is the last one, of a whole screen. -/
theorem last (hrow : s.cursorY = s.rows - 1) (ha : s.current = some a) :
    s.rows ≤ ids.length ∧ ids[ids.length - 1]? = some a := by
  obtain ⟨b, hb, hi⟩ := h.current
  have hrows := h.page.rows
  have hlt := (List.getElem?_eq_some_iff.mp hi).1
  rw [Screen.base] at hi hlt
  have hplace : ids.length - s.rows.toNat + s.cursorY.toNat = ids.length - 1 := by omega
  rw [hplace, ← hb, ha] at hi
  exact ⟨by omega, hi⟩

theorem ends_crLf (hroom : s.HasRoom) :
    Ends crLf E Q s ↔ Ends wrapCurrentLine E (fun r u => Q r u.settled) s := by
  have hlast := h.bounded.row
  have hregion := h.bounded.bottom
  simp only [band] at hlast hregion
  rw [ends_wrapCurrentLine_iff]
  by_cases habove : s.cursorY < s.scrollRegionBottom
  · have hup : s.cursorY < s.rows - 1 := by omega
    rw [ends_crLf_above h.plain habove]
    simp only [if_pos hup]
    exact Iff.rfl
  · obtain ⟨htop, hbottom⟩ := hroom.resolve_left habove
    have hrow : s.cursorY = s.rows - 1 := by omega
    obtain ⟨a, ha, -⟩ := h.current
    obtain ⟨hwhole, hplace⟩ := h.last hrow ha
    rw [ends_crLf_push h.plain habove hbottom htop, ha]
    simp only [if_neg (show ¬ s.cursorY < s.rows - 1 by omega)]
    -- the new line is as long already as the linefeed makes it
    refine ends_congr (h.page.ends_stepDown_last hwhole hplace) fun next t ht => ?_
    obtain ⟨rfl, htext⟩ := ht
    obtain ⟨line, hline, hblank⟩ := Option.map_eq_some_iff.mp htext
    have hlength : (pure { line.text with length := if s.reverseVideo then s.width else 0 } : Except Fault Text) =
        .ok line.text := by
      rw [hblank]
      rfl
    have hline' : ({ t.moved 0 s.cursorY false with current := some s.fresh } : Screen).lines s.fresh = some line := hline
    rw [ends_of_ok (onText_eq hline' hlength)]
    show Q ⟨⟩ (({ t.moved 0 s.cursorY false with current := some s.fresh } : Screen).setLine s.fresh (some line)).settled ↔ _
    rw [setLine_self hline']
    exact Iff.rfl

/-- A wrap leaves the row, or the line. -/
theorem ends_wrapCurrentLine_spot : Ends wrapCurrentLine (fun _ => True) (fun _ u => u.spot ≠ s.spot) s := by
  have hlast := h.bounded.row
  simp only [band] at hlast
  rw [ends_wrapCurrentLine_iff]
  by_cases hup : s.cursorY < s.rows - 1
  · simp only [if_pos hup]
    refine ends_forget.post fun next t _ heq => ?_
    have hrow : s.cursorY + 1 = s.cursorY := congrArg Prod.fst heq
    omega
  · obtain ⟨a, ha, hi⟩ := h.current
    obtain ⟨hwhole, hplace⟩ := h.last (by omega) ha
    rw [ha]
    refine (h.page.ends_stepDown_last hwhole hplace).post fun next t ht heq => ?_
    have hcurrent : next = s.current := congrArg Prod.snd heq
    rw [ht.1, ha, Option.some.injEq] at hcurrent
    have hold := h.page.chain.fresh a (List.mem_of_getElem? hi)
    omega

end Screen.Placed

/-! ### What keeps the current line -/

/-- What no writing into a line touches. -/
theorem keeps_onText_of {γ : Type} {view : Screen → γ} {f : Text → Except Fault Text}
    (hview : ∀ s a line, view (Screen.setLine s a line) = view s) : Keeps view (onText p f) := by
  intro s
  cases p with
  | none => trivial
  | some a =>
    cases hline : s.lines a with
    | none =>
      rw [onText, textAt, lineAt, ends_bind, ends_bind, ends_bind, ends_get]
      simp only [hline, ends_throw]
    | some line =>
      rw [onText, ends_bind, ends_of_ok (textAt_eq hline)]
      cases f line.text with
      | error fault => trivial
      | ok new =>
        dsimp only
        rw [alter, ends_bind, ends_of_ok (lineAt_of hline), ends_modify]
        exact hview s a _

theorem keeps_current_lineAt : Keeps Screen.current (lineAt p) := by
  refine Keeps.get.bind fun s => ?_
  cases p with
  | none => exact Keeps.throw
  | some a =>
    dsimp only
    split
    · exact Keeps.throw
    · exact Keeps.pure

theorem keeps_current_copyUp {left right : ℤ} {color : Attr} {n : ℕ} {q : Option ℕ} :
    Keeps Screen.current (copyUp left right color n p q) := by
  induction n generalizing p q with
  | zero => exact Keeps.pure
  | succ n ih =>
    refine Keeps.bind (Keeps.bind keeps_current_lineAt fun _ => Keeps.pure) fun source => (keeps_onText_of fun _ _ _ => rfl).bind fun _ => ?_
    refine Keeps.bind (Keeps.bind keeps_current_lineAt fun _ => Keeps.pure) fun newNext => ?_
    refine Keeps.bind (Keeps.bind keeps_current_lineAt fun _ => Keeps.pure) fun next => ?_
    exact Keeps.ite Keeps.pure ih

theorem keeps_current_eraseScreen {startRow startCol endRow endCol : ℤ} {honorProtected : Bool} :
    Keeps Screen.current (eraseScreen startRow startCol endRow endCol honorProtected) := by
  refine Keeps.ite Keeps.pure fun s => ?_
  rw [ends_bind, ends_get, ends_bind]
  refine ends_forget.post fun top t _ => ?_
  rw [ends_bind]
  refine ends_forget.post fun startLine u _ => ?_
  rw [ends_bind]
  exact ends_forget.post fun _ v _ => rfl

/-- A region is scrolled without leaving the line. -/
theorem Screen.Page.ends_scroll_current {top bottom : ℤ} (h : s.Page ids text) (htop : 0 ≤ top)
    (hbottom : bottom ≤ s.rows - 1) :
    Ends (scrollingRegionScrollUp top bottom 1) (fun _ => True) (fun _ u => u.current = s.current) s := by
  rw [scrollingRegionScrollUp]
  by_cases hnone : bottom ≤ top
  · rw [rectangleScrollUp, if_pos hnone, ends_pure]
  · refine h.ends_rectangleScrollUp htop (by omega) (by omega) (by decide) (by decide) (by omega) fun ids' u _ hgrows => ?_
    refine (keeps_current_copyUp u).post fun _ v hv => ?_
    refine (keeps_current_eraseScreen v).post fun _ w hw => ?_
    rw [hw, hv, hgrows.same.current]

/-- Where there is no room, the linefeed stays in the row, and in the line. -/
theorem Screen.Placed.ends_crLf_spot (h : s.Placed ids text) (hroom : ¬ s.HasRoom) :
    Ends CProgram.Terminal.crLf (fun _ => True) (fun _ u => u.spot = s.spot) s := by
  have hlow := h.bounded.top
  have hhigh := h.bounded.bottom
  simp only [band] at hlow hhigh
  have hbelow : ¬ s.cursorY < s.scrollRegionBottom := fun habove => hroom (Or.inl habove)
  have hpart : ¬ (s.scrollRegionBottom = s.rows - 1 ∧ s.scrollRegionTop = 0) :=
    fun hwhole => hroom (Or.inr ⟨hwhole.2, hwhole.1⟩)
  have hmoved : (s.moved 0 s.cursorY false).Page ids text :=
    ⟨⟨h.page.chain.linked, h.page.chain.nonempty, h.page.chain.buffer, h.page.chain.last, h.page.chain.position,
      h.page.chain.fresh⟩, h.page.text_eq, h.page.beyond, h.page.rows, h.page.count, h.page.room⟩
  rw [ends_crLf_scroll h.plain hbelow hpart]
  have hline := hmoved.ends_scroll_current hlow hhigh
  refine (((keeps_scrollingRegionScrollUp : Keeps Screen.band _) _).and hline).post fun _ u hu => ?_
  have hrow : u.cursorY = s.cursorY := congrArg Band.cursorY hu.1
  show (u.cursorY, u.current) = (s.cursorY, s.current)
  rw [hrow, hu.2]
  rfl

/-! ### The character -/

namespace Screen.Placed

/-- What has written into lines has not moved the cursor. -/
theorem of_same {text' : ℕ → Text} (h : s.Placed ids text) (hpage : u.Page ids text') (hsame : SameButLines s u) :
    u.Placed ids text' := by
  obtain ⟨hsame⟩ := hsame
  have hband : u.band = s.band := by
    rw [hsame]
    rfl
  have hbase : u.base ids = s.base ids := by
    rw [hsame]
    rfl
  obtain ⟨a, ha, hi⟩ := h.current
  refine ⟨hpage, hband ▸ h.bounded, ⟨a, ?_, ?_⟩, ?_⟩
  · rw [hsame]
    exact ha
  · have hrow : u.cursorY = s.cursorY := congrArg Band.cursorY hband
    rw [hbase, hrow]
    exact hi
  · rw [hsame]
    exact h.plain

/-- The column and the wrap flag do not matter. -/
theorem moved (h : s.Placed ids text) {x : ℤ} {waits : Bool} : (s.moved x s.cursorY waits).Placed ids text :=
  ⟨⟨⟨h.page.chain.linked, h.page.chain.nonempty, h.page.chain.buffer, h.page.chain.last, h.page.chain.position,
    h.page.chain.fresh⟩, h.page.text_eq, h.page.beyond, h.page.rows, h.page.count, h.page.room⟩, h.bounded, h.current,
    h.plain⟩

theorem advance (h : s.Placed ids text) : (s.advance m).Placed ids text := by
  have hmoved : ∃ x, s.advance m = s.moved x s.cursorY s.vt100WrapLineFlag := by
    unfold Screen.advance
    split
    · exact ⟨s.cursorX, rfl⟩
    · exact ⟨_, rfl⟩
  obtain ⟨x, hx⟩ := hmoved
  rw [hx]
  exact h.moved

/-- What is written into the current line, if it can be. -/
theorem ends_onText {f : Text → Except Fault Text} (h : s.Placed ids text) (ha : s.current = some a) :
    Ends (onText (some a) f) (fun _ => True) (fun _ u => ∃ text' new, f (text (s.base ids + s.cursorY.toNat)) = .ok new ∧
      text' (s.base ids + s.cursorY.toNat) = new ∧ u.Placed ids text' ∧ SameButLines s u) s := by
  obtain ⟨b, hb, hi⟩ := h.current
  rw [ha, Option.some.injEq] at hb
  rw [← hb] at hi
  cases hf : f (text (s.base ids + s.cursorY.toNat)) with
  | ok new =>
    obtain ⟨u, hu, hpage, hsame⟩ := h.page.onText_eq hi hf
    rw [ends_of_ok hu]
    exact ⟨_, new, rfl, Function.update_self _ _ _, h.of_same hpage hsame, hsame⟩
  | error fault =>
    refine (h.page.ends_onText_fault hi fun new hnew => ?_).post fun _ _ hfalse => hfalse.elim
    rw [hf] at hnew
    cases hnew

end Screen.Placed

theorem pad_doubleWidth {t : Text} {x : ℤ} {color : Attr} (h : t.pad x color = .ok new) : new.doubleWidth = t.doubleWidth := by
  unfold Text.pad at h
  split at h
  · unfold Text.write Text.update at h
    cases hcheck : Text.checkColumns t.length x with
    | error fault =>
      rw [hcheck] at h
      cases h
    | ok _ =>
      rw [hcheck] at h
      cases h
      rfl
  · cases h
    rfl

/-- The character shows. -/
def Screen.Shows (s : Screen) (ch : UInt32) : Prop := ¬ (ch = 0x07 ∨ ch = 0 ∧ ¬ s.displayNull)

instance : Decidable (s.Shows ch) := inferInstanceAs (Decidable (¬ _))

/-- `print_character` wraps: the cursor is in the right margin of the line, and has been there for a character where the
wrap comes late. -/
structure Screen.Wraps (s : Screen) (doubleWidth : Bool) : Prop where
  margin : s.cursorX = Screen.halved s.printMargin doubleWidth
  lineWrap : s.lineWrap = true
  late : s.emulation.wrapsLate = true → s.vt100WrapLineFlag = true

theorem Screen.Wraps.of_same {doubleWidth : Bool} (h : s.Wraps doubleWidth) (hsame : SameButLines s u) :
    u.Wraps doubleWidth := by
  obtain ⟨hsame⟩ := hsame
  constructor <;> rw [hsame]
  · exact h.margin
  · exact h.lineWrap
  · exact h.late

variable {text' : Text}

/-- In the VT100 family the wrap comes before the character. -/
theorem ends_printVisibleWith_late (htext : textAt s.current s = .ok (text', s)) (h : s.Wraps text'.doubleWidth)
    (hlate : s.emulation.wrapsLate = true) :
    Ends (printVisibleWith wrap ch) E Q s ↔ Ends wrap E (fun _ t =>
      Ends (onText t.current (Text.put t.cursorX t.insertMode t.currentColor ch)) E
        (fun _ u => Q ⟨⟩ (u.advance (Screen.halved s.printMargin text'.doubleWidth))) t) s.settled := by
  have hflag : (!s.vt100WrapLineFlag) = false := by rw [h.late hlate]; rfl
  rw [printVisibleWith, ends_bind, ends_get, ends_bind, ends_of_ok htext, ends_bind, checkMarginWith, ends_bind, ends_get,
    if_pos h.margin, if_pos hlate, if_pos h.lineWrap, ends_bind, ends_set, hflag, if_pos (h.late hlate), ends_bind]
  simp only [ends_pure, ends_bind, ends_get, Bool.false_eq_true, if_false, ends_modify]
  exact Iff.rfl

/-- In the others it comes behind. -/
theorem ends_printVisibleWith_early (htext : textAt s.current s = .ok (text', s)) (h : s.Wraps text'.doubleWidth)
    (hlate : s.emulation.wrapsLate = false) :
    Ends (printVisibleWith wrap ch) E Q s ↔
      Ends (onText s.current (Text.put s.cursorX s.insertMode s.currentColor ch)) E
        (fun _ u => Ends wrap E Q (u.advance (Screen.halved s.printMargin text'.doubleWidth))) s := by
  rw [printVisibleWith, ends_bind, ends_get, ends_bind, ends_of_ok htext, ends_bind, checkMarginWith, ends_bind, ends_get,
    if_pos h.margin, if_neg (by rw [hlate]; exact Bool.false_ne_true), ends_pure, ends_bind, ends_get, ends_bind]
  simp only [h.lineWrap, if_true, ends_bind, ends_modify]

theorem ends_wrapCurrentLine_waits : Ends wrapCurrentLine (fun _ => True)
    (fun _ t => t.vt100WrapLineFlag = s.vt100WrapLineFlag) s := by
  rw [ends_wrapCurrentLine_iff]
  show Ends (stepDown s.current) _ _ (s.moved s.cursorX s.cursorY s.vt100WrapLineFlag)
  rw [blind_stepDown.ends]
  exact ends_forget.post fun _ _ _ => rfl

theorem spot_advance : (s.advance m).spot = s.spot := by
  unfold Screen.advance
  split <;> rfl

theorem band_settled_of_same (hsame : SameButLines s u) : u.band = s.band ∧ u.current = s.current := by
  obtain ⟨hsame⟩ := hsame
  rw [hsame]
  exact ⟨rfl, rfl⟩

namespace Screen.Placed

theorem textAt_eq (h : s.Placed ids text) : textAt s.current s = .ok (text (s.base ids + s.cursorY.toNat), s) := by
  obtain ⟨a, ha, hi⟩ := h.current
  obtain ⟨line, hline, htext⟩ := Option.map_eq_some_iff.mp (h.page.text_eq _ a hi)
  rw [ha, CProgram.Terminal.textAt_eq hline, htext]

/-- The line is padded up to the cursor, and is as wide as it was. -/
theorem ends_pad (h : s.Placed ids text) (ha : s.current = some a)
    (hwraps : s.Wraps (text (s.base ids + s.cursorY.toNat)).doubleWidth) :
    Ends (onText (some a) (Text.pad s.cursorX s.consoleText)) (fun _ => True) (fun _ u => ∃ text', u.Placed ids text' ∧
      SameButLines s u ∧ u.Wraps (text' (u.base ids + u.cursorY.toNat)).doubleWidth) s := by
  refine (h.ends_onText ha).post fun _ u hu => ?_
  obtain ⟨text', new, hpad, hnew, hplaced, hsame⟩ := hu
  have hplace : u.base ids + u.cursorY.toNat = s.base ids + s.cursorY.toNat := by
    rw [hsame.eq]
    rfl
  refine ⟨text', hplaced, hsame, ?_⟩
  rw [hplace, hnew, pad_doubleWidth hpad]
  exact hwraps.of_same hsame

/-- With room, the character is printed as it would be behind a carriage return and a linefeed. -/
theorem ends_printCharacterWith_crLf (h : s.Placed ids text)
    (hwraps : s.Wraps (text (s.base ids + s.cursorY.toNat)).doubleWidth) (hshows : s.Shows ch) (hroom : s.HasRoom) :
    Ends (printCharacterWith CProgram.Terminal.crLf ch) E Q s ↔
      Ends (printCharacterWith wrapCurrentLine ch) E (fun r u => Q r u.settled) s := by
  obtain ⟨a, ha, -⟩ := h.current
  rw [printCharacterWith, ends_bind, ends_get, ends_bind, printCharacterWith, ends_bind, ends_get, ends_bind, ha]
  refine ends_congr (h.ends_pad ha hwraps) fun _ t ht => ?_
  obtain ⟨text', hplaced, hsame, hwraps'⟩ := ht
  have hroom' : t.HasRoom := by
    rw [HasRoom, hsame.eq]
    exact hroom
  rw [if_neg hshows, if_neg hshows]
  cases hlate : t.emulation.wrapsLate with
  | true =>
    rw [ends_printVisibleWith_late hplaced.textAt_eq hwraps' hlate, ends_printVisibleWith_late hplaced.textAt_eq hwraps' hlate]
    have hsettled : t.settled.Placed ids text' := hplaced.moved
    rw [hsettled.ends_crLf hroom']
    refine ends_congr ends_wrapCurrentLine_waits fun _ u hu => ?_
    have hu' : u.settled = u := by
      cases u
      cases hu
      rfl
    rw [hu']
    refine ends_congr (keeps_onText_of (fun _ _ _ => rfl) u) fun _ v (hv : v.vt100WrapLineFlag = u.vt100WrapLineFlag) => ?_
    have hv' : (v.advance (Screen.halved t.printMargin (text' (t.base ids + t.cursorY.toNat)).doubleWidth)).settled =
        v.advance (Screen.halved t.printMargin (text' (t.base ids + t.cursorY.toNat)).doubleWidth) := by
      have hfalse : v.vt100WrapLineFlag = false := hv.trans hu
      unfold Screen.advance
      rw [hfalse, if_neg Bool.false_ne_true]
      cases v
      cases hfalse
      rfl
    rw [hv']
  | false =>
    rw [ends_printVisibleWith_early hplaced.textAt_eq hwraps' hlate,
      ends_printVisibleWith_early hplaced.textAt_eq hwraps' hlate]
    obtain ⟨b, hb, -⟩ := hplaced.current
    rw [hb]
    refine ends_congr (hplaced.ends_onText hb) fun _ u hu => ?_
    obtain ⟨text'', -, -, -, hplaced', hsame'⟩ := hu
    have hroom'' : (u.advance (Screen.halved t.printMargin (text' (t.base ids + t.cursorY.toNat)).doubleWidth)).HasRoom := by
      have hband : (u.advance (Screen.halved t.printMargin (text' (t.base ids + t.cursorY.toNat)).doubleWidth)).band =
          t.band := by
        rw [band_advance, (band_settled_of_same hsame').1]
      have hrow := congrArg Band.cursorY hband
      have htop := congrArg Band.top hband
      have hbottom := congrArg Band.bottom hband
      have hrows := congrArg Band.rows hband
      simp only [band] at hrow htop hbottom hrows
      rw [HasRoom, hrow, htop, hbottom, hrows]
      exact hroom'
    exact hplaced'.advance.ends_crLf hroom''

/-- What is done for the wrap decides where the cursor is. -/
theorem ends_print_spot {R : ℤ × Option ℕ → Prop} (h : s.Placed ids text)
    (hwraps : s.Wraps (text (s.base ids + s.cursorY.toNat)).doubleWidth) (hshows : s.Shows ch)
    (hwrap : ∀ w text', w.Placed ids text' → w.band = s.band → w.current = s.current →
      Ends wrap (fun _ => True) (fun _ t => R t.spot) w) :
    Ends (printCharacterWith wrap ch) (fun _ => True) (fun _ u => R u.spot) s := by
  obtain ⟨a, ha, -⟩ := h.current
  rw [printCharacterWith, ends_bind, ends_get, ends_bind, ha]
  refine (h.ends_pad ha hwraps).post fun _ t ht => ?_
  obtain ⟨text', hplaced, hsame, hwraps'⟩ := ht
  obtain ⟨hband, hcurrent⟩ := band_settled_of_same hsame
  rw [if_neg hshows]
  cases hlate : t.emulation.wrapsLate with
  | true =>
    rw [ends_printVisibleWith_late hplaced.textAt_eq hwraps' hlate]
    refine (hwrap t.settled text' hplaced.moved hband hcurrent).post fun _ u hu => ?_
    refine (keeps_onText_of (fun _ _ _ => rfl) u).post fun _ v (hv : v.spot = u.spot) => ?_
    rw [spot_advance, hv]
    exact hu
  | false =>
    rw [ends_printVisibleWith_early hplaced.textAt_eq hwraps' hlate]
    obtain ⟨b, hb, -⟩ := hplaced.current
    rw [hb]
    refine (hplaced.ends_onText hb).post fun _ u hu => ?_
    obtain ⟨text'', -, -, -, hplaced', hsame'⟩ := hu
    obtain ⟨hband', hcurrent'⟩ := band_settled_of_same hsame'
    refine hwrap _ text'' hplaced'.advance (by rw [band_advance, hband', hband]) ?_
    rw [show (u.advance _).current = u.current from congrArg Prod.snd spot_advance, hcurrent', hcurrent]

end Screen.Placed

/-- Without room, the wrap leaves the row or the line, and the linefeed neither. -/
theorem Screen.Placed.not_alike (h : s.Placed ids text)
    (hwraps : s.Wraps (text (s.base ids + s.cursorY.toNat)).doubleWidth) (hshows : s.Shows ch) (hroom : ¬ s.HasRoom)
    (hprints : printCharacter ch s = .ok ((), u)) (hv : printCharacterWith CProgram.Terminal.crLf ch s = .ok ((), v)) :
    v.settled ≠ u.settled := by
  intro heq
  have hspot : v.settled.spot = u.settled.spot := by rw [heq]
  have hmoves : Ends (printCharacterWith wrapCurrentLine ch) (fun _ => True) (fun _ u => u.spot ≠ s.spot) s := by
    refine h.ends_print_spot (R := fun spot => spot ≠ s.spot) hwraps hshows fun w text' hw hband hcurrent => ?_
    have hsame : w.spot = s.spot := Prod.ext (congrArg Band.cursorY hband) hcurrent
    exact hsame ▸ hw.ends_wrapCurrentLine_spot
  have hstays : Ends (printCharacterWith CProgram.Terminal.crLf ch) (fun _ => True) (fun _ v => v.spot = s.spot) s := by
    refine h.ends_print_spot (R := fun spot => spot = s.spot) hwraps hshows fun w text' hw hband hcurrent => ?_
    have hsame : w.spot = s.spot := Prod.ext (congrArg Band.cursorY hband) hcurrent
    have hfull : ¬ w.HasRoom := by
      have hrow := congrArg Band.cursorY hband
      have htop := congrArg Band.top hband
      have hbottom := congrArg Band.bottom hband
      have hrows := congrArg Band.rows hband
      simp only [band] at hrow htop hbottom hrows
      rw [Screen.HasRoom, hrow, htop, hbottom, hrows]
      exact hroom
    exact hsame ▸ hw.ends_crLf_spot hfull
  rw [printCharacterWith_wrapCurrentLine, ends_of_ok hprints] at hmoves
  rw [ends_of_ok hv] at hstays
  exact hmoves (hspot.symm.trans hstays)

/-- A character that wraps leaves the cursor, its line and the screen as a carriage return and a linefeed would have just
when the cursor is above the bottom of the region, or the region is the whole screen. -/
theorem wraps_iff (s u : Screen) (ids : List ℕ) (text : ℕ → Text) (ch : UInt32) :
    printCharacterWith wrapCurrentLine = printCharacter ∧
      (s.Placed ids text → s.Wraps (text (s.base ids + s.cursorY.toNat)).doubleWidth → s.Shows ch →
        printCharacter ch s = .ok ((), u) →
          ((∃ v, printCharacterWith crLf ch s = .ok ((), v) ∧ v.settled = u.settled) ↔ s.HasRoom)) := by
  refine ⟨rfl, fun h hwraps hshows hprints => ⟨?_, fun hroom => ?_⟩⟩
  · rintro ⟨v, hv, heq⟩
    by_contra hroom
    exact h.not_alike hwraps hshows hroom hprints hv heq
  · have hends : Ends (printCharacterWith crLf ch) (fun _ => False) (fun _ v => v.settled = u.settled) s := by
      rw [h.ends_printCharacterWith_crLf hwraps hshows hroom, printCharacterWith_wrapCurrentLine, ends_of_ok hprints]
      rfl
    unfold Ends at hends
    cases hm : printCharacterWith crLf ch s with
    | error fault =>
      rw [hm] at hends
      exact hends.elim
    | ok end_ =>
      rw [hm] at hends
      exact ⟨end_.2, rfl, hends⟩

/-- Two lines, which are the region, and the cursor waits in the margin of the second. -/
def Screen.waiting : Screen := { Screen.blank .vt100 with
  lines := fun a =>
    if a = 0 then some ⟨⟨none, some 1⟩, (Screen.blank .vt100).blankText true⟩
    else if a = 1 then some ⟨⟨some 0, none⟩, (Screen.blank .vt100).blankText true⟩
    else none
  fresh := 2
  last := some 1
  position := some 1
  current := some 1
  scrollbackLines := 2
  cursorX := 79
  cursorY := 1
  scrollRegionBottom := 1
  vt100WrapLineFlag := true }

theorem Screen.placed_waiting : waiting.Placed [0, 1] fun _ => (Screen.blank .vt100).blankText true := by
  have hplaces (i a : ℕ) (hi : [0, 1][i]? = some a) : i = 0 ∧ a = 0 ∨ i = 1 ∧ a = 1 := by
    cases i with
    | zero => exact Or.inl ⟨rfl, (Option.some.inj hi).symm⟩
    | succ i =>
      cases i with
      | zero => exact Or.inr ⟨rfl, (Option.some.inj hi).symm⟩
      | succ i => cases hi
  refine ⟨⟨⟨⟨by decide, fun i a hi => ?_⟩, by decide, rfl, rfl, rfl, by decide⟩, fun i a hi => ?_, fun _ _ => rfl, by decide,
    rfl, Or.inr (by decide)⟩, ⟨by decide, by decide, by decide, by decide, by decide⟩, ⟨1, rfl, rfl⟩, rfl⟩
  · obtain ⟨rfl, rfl⟩ | ⟨rfl, rfl⟩ := hplaces i a hi <;> rfl
  · obtain ⟨rfl, rfl⟩ | ⟨rfl, rfl⟩ := hplaces i a hi <;> rfl

/-- A letter at the bottom of a region that is not the whole screen: the wrap goes on below it, and the linefeed scrolls. -/
theorem not_wraps : ¬ ∀ (s u : Screen) (ids : List ℕ) (text : ℕ → Text) (ch : UInt32), s.Placed ids text →
    s.Wraps (text (s.base ids + s.cursorY.toNat)).doubleWidth → s.Shows ch → printCharacter ch s = .ok ((), u) →
      ∃ v, printCharacterWith crLf ch s = .ok ((), v) ∧ v.settled = u.settled := by
  intro hall
  obtain ⟨u, hu⟩ : ∃ u, printCharacter 0x41 Screen.waiting = .ok ((), u) := ⟨_, rfl⟩
  have hwraps : Screen.waiting.Wraps ((Screen.blank .vt100).blankText true).doubleWidth := ⟨rfl, rfl, fun _ => rfl⟩
  have hshows : Screen.waiting.Shows 0x41 := by decide
  obtain ⟨v, hv, heq⟩ := hall _ u _ _ 0x41 Screen.placed_waiting hwraps hshows hu
  have hfull : ¬ Screen.waiting.HasRoom := by decide
  exact Screen.placed_waiting.not_alike hwraps hshows hfull hu hv heq

end CProgram.Terminal
