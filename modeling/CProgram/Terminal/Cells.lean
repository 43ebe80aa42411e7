import CProgram.Terminal.Scrollback

/-! What the loops and copies inside a line leave in its columns. -/
namespace CProgram.Terminal
open CProgram.Programs

attribute [ext] Text

namespace Text
variable {t : Text} {x lo hi : ℤ} {color : Attr} {ch : UInt32}

/-- A column: its character and its color. -/
def cell (t : Text) (i : ℤ) : UInt32 × Attr := (t.chars i, t.colors i)

theorem checkColumns_ok (hlo : 0 ≤ lo) (hhi : hi ≤ maxLineLength) : checkColumns lo hi = .ok () :=
  if_pos (Or.inr ⟨hlo, hhi⟩)

/-- What `memmove` of `n` columns leaves. -/
def moved (dst src n : ℤ) (t : Text) : Text := { t with
  chars := fun i => if dst ≤ i ∧ i < dst + n then t.chars (i - dst + src) else t.chars i
  colors := fun i => if dst ≤ i ∧ i < dst + n then t.colors (i - dst + src) else t.colors i }

theorem memmove_ok {dst src n : ℤ} (hn : 0 ≤ n) (hdst : 0 ≤ dst) (hdst' : dst + n ≤ maxLineLength)
    (hsrc : 0 ≤ src) (hsrc' : src + n ≤ maxLineLength) : t.memmove dst src n = .ok (t.moved dst src n) := by
  rw [memmove, if_neg (by omega), checkColumns_ok hdst hdst', checkColumns_ok hsrc hsrc']
  rfl

/-- What a loop that writes the same into its columns leaves. -/
def written (lo hi : ℤ) (ch : UInt32) (color : Attr) (t : Text) : Text := { t with
  chars := fun i => if lo ≤ i ∧ i < hi then ch else t.chars i
  colors := fun i => if lo ≤ i ∧ i < hi then color else t.colors i }

theorem write_eq (h : checkColumns lo hi = .ok ()) : t.write lo hi ch color = .ok (t.written lo hi ch color) := by
  rw [write, update, h]
  rfl

end Text

namespace Screen

/-- The text of the line that is written to. -/
def currentText (s : Screen) : Option Text := (s.current.bind s.lines).map Line.text

/-- Another text for a line that is there. -/
def withText (s : Screen) (a : ℕ) (line : Line) (text : Text) : Screen := s.setLine a (some { line with text := text })

variable {s : Screen} {a : ℕ} {line : Line} {text text' : Text}

@[simp] theorem withText_withText :
    (s.withText a line text).withText a { line with text := text } text' = s.withText a line text' := by
  simp only [withText, setLine]
  congr 1
  funext b
  split <;> rfl

theorem withText_self (h : s.lines a = some line) : s.withText a line line.text = s := by
  have hlines : (fun b => if b = a then some { line with text := line.text } else s.lines b) = s.lines := by
    funext b
    split
    · next hb => exact hb ▸ h.symm
    · rfl
  rw [withText, setLine, hlines]

@[simp] theorem lines_withText : (s.withText a line text).lines a = some { line with text := text } := if_pos rfl

theorem currentText_withText (ha : s.current = some a) : (s.withText a line text).currentText = some text := by
  have hcurrent : (s.withText a line text).current = some a := ha
  simp [currentText, hcurrent]

theorem exists_current (h : s.currentText = some text) :
    ∃ a line, s.current = some a ∧ s.lines a = some line ∧ line.text = text := by
  obtain ⟨line, hline, htext⟩ := Option.map_eq_some_iff.mp h
  obtain ⟨a, ha, hline⟩ := Option.bind_eq_some_iff.mp hline
  exact ⟨a, line, ha, hline, htext⟩

end Screen
open Screen

variable {s : Screen} {a : ℕ} {line : Line} {text : Text}

theorem lineAt_of (hline : s.lines a = some line) : lineAt (some a) s = .ok (line, s) := by
  unfold lineAt
  dsimp only [bind, StateT.bind, get, getThe, MonadStateOf.get, StateT.get, pure, Except.pure, Except.bind]
  rw [hline]
  rfl

theorem textAt_eq (hline : s.lines a = some line) : textAt (some a) s = .ok (line.text, s) := by
  show (lineAt (some a) s >>= fun p => (pure p.1.text : ScreenM Text) p.2) = _
  rw [lineAt_of hline]
  rfl

/-- What is done to the text of a line that is there. -/
theorem onText_eq {f : Text → Except Fault Text} (hline : s.lines a = some line) (hf : f line.text = .ok text) :
    onText (some a) f s = .ok ((), s.withText a line text) := by
  show (textAt (some a) s >>= fun p => _) = _
  rw [textAt_eq hline]
  dsimp only [bind, Except.bind]
  rw [hf]
  show (lineAt (some a) s >>= fun p => _) = _
  rw [lineAt_of hline]
  rfl

end CProgram.Terminal
