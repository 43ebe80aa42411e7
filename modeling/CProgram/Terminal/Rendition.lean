import CProgram.Terminal.Screen

/-! SGR: every parameter changes the current color, and the handler carries two flags from one to the next. -/
namespace CProgram.Terminal

/-- `q_text_colors[Q_COLOR_CONSOLE_TEXT]`. -/
structure ConsoleText where
  fg : Fin 8
  bg : Fin 8
  bold : Bool
deriving DecidableEq, Repr

/-- `Q_A_NORMAL | scrollback_full_attr(Q_COLOR_CONSOLE_TEXT)`. -/
def ConsoleText.fullAttr (c : ConsoleText) : Attr := { pair := (c.fg.val <<< 3) ||| c.bg.val, bold := c.bold }

/-- What SGR reads and leaves alone. -/
structure Setting where
  emulation : Emulation
  vt100Color : Bool
  consoleText : ConsoleText
deriving DecidableEq, Repr

/-- Color is supported. -/
def Setting.color (w : Setting) : Bool := w.vt100Color || w.emulation.console || w.emulation.anyXterm

/-- What SGR changes; `previous_aixterm_color` is a static of the handler. -/
structure Rendition where
  qCurrentColor : Attr
  isDefaultColor : Bool
  previousAixtermColor : ℤ
deriving DecidableEq, Repr

/-- The current color and the marker of the default color. -/
def Rendition.shown (r : Rendition) : Attr × Bool := (r.qCurrentColor, r.isDefaultColor)

/-- The bold flag, unless it is only that of the console text. -/
def Rendition.realBold (w : Setting) (r : Rendition) : Bool :=
  if r.isDefaultColor && r.qCurrentColor.bold && w.consoleText.bold then false else r.qCurrentColor.bold

/-- In the loop of `sgr`. -/
structure SgrState extends Rendition where
  realBold : Bool
deriving DecidableEq, Repr

namespace SgrState

/-- The bright colors of aixterm, and the way back from them. -/
def aixterm (w : Setting) (j : ℤ) (s : SgrState) : SgrState :=
  if w.emulation.anyXterm then
    if (90 ≤ j ∧ j ≤ 97) ∨ (100 ≤ j ∧ j ≤ 107) then
      { s with
        previousAixtermColor := j
        qCurrentColor := { s.qCurrentColor with bold := true }
        realBold := true
        isDefaultColor := false }
    else if (90 ≤ s.previousAixtermColor ∧ s.previousAixtermColor ≤ 97) ∧ 30 ≤ j ∧ j ≤ 37 then
      { s with
        qCurrentColor := { s.qCurrentColor with bold := false }
        realBold := false
        isDefaultColor := false
        previousAixtermColor := 0 }
    else s
  else s

/-- The first switch. -/
def attributes (w : Setting) (j : ℤ) (s : SgrState) : SgrState :=
  if j = 0 then { s with isDefaultColor := true, realBold := false, qCurrentColor := w.consoleText.fullAttr }
  else if j = 1 then
    { s with qCurrentColor := { s.qCurrentColor with bold := true }, isDefaultColor := false, realBold := true }
  else if j = 4 then { s with qCurrentColor := { s.qCurrentColor with underline := true } }
  else if j = 5 then { s with qCurrentColor := { s.qCurrentColor with blink := true } }
  else if j = 7 then { s with qCurrentColor := { s.qCurrentColor with reverse := true } }
  else if j = 8 ∧ w.emulation.anyXterm = true then { s with qCurrentColor := { s.qCurrentColor with invis := true } }
  else s

/-- The second switch. -/
def normal (w : Setting) (j : ℤ) (s : SgrState) : SgrState :=
  if w.emulation = .vt220 ∨ w.emulation.console = true ∨ w.emulation.anyXterm = true then
    if j = 21 ∨ j = 22 then { s with qCurrentColor := { s.qCurrentColor with bold := false }, realBold := false }
    else if j = 24 then { s with qCurrentColor := { s.qCurrentColor with underline := false } }
    else if j = 25 then { s with qCurrentColor := { s.qCurrentColor with blink := false } }
    else if j = 27 then { s with qCurrentColor := { s.qCurrentColor with reverse := false } }
    else s
  else s

/-- `foreground` after the third switch. -/
def foreground (w : Setting) (j : ℤ) (s : SgrState) : ℕ :=
  if 30 ≤ j ∧ j ≤ 37 then (j - 30).toNat
  else if j = 38 ∧ w.emulation.console = true then w.consoleText.fg
  else if j = 39 ∧ (w.emulation.console = true ∨ w.emulation.anyXterm = true) then w.consoleText.fg
  else if (90 ≤ j ∧ j ≤ 97) ∧ w.emulation.anyXterm = true then (j - 90).toNat
  else (s.qCurrentColor.pair &&& 0x38) >>> 3

/-- `background` after the third switch. -/
def background (w : Setting) (j : ℤ) (s : SgrState) : ℕ :=
  if 40 ≤ j ∧ j ≤ 47 then (j - 40).toNat
  else if j = 49 then w.consoleText.bg
  else s.qCurrentColor.pair &&& 0x07

/-- The default color is left, or comes back. -/
def default (w : Setting) (j : ℤ) (s : SgrState) : SgrState :=
  if (30 ≤ j ∧ j ≤ 37) ∨ (40 ≤ j ∧ j ≤ 47) then { s with isDefaultColor := false }
  else if j = 38 ∧ w.emulation.console = true then
    { s with
      qCurrentColor := { s.qCurrentColor with bold := s.qCurrentColor.bold || w.consoleText.bold, underline := true }
      isDefaultColor := true
      realBold := false }
  else if j = 39 ∧ (w.emulation.console = true ∨ w.emulation.anyXterm = true) then
    { s with
      qCurrentColor := { s.qCurrentColor with bold := s.qCurrentColor.bold || w.consoleText.bold, underline := false }
      isDefaultColor := true
      realBold := false }
  else if j = 49 then { s with isDefaultColor := true }
  else s

/-- The existing colors are wiped out and replaced. -/
def replace (foreground background : ℕ) (s : SgrState) : SgrState :=
  { s with qCurrentColor := { s.qCurrentColor with
    pair := (foreground <<< 3) ||| background
    bold := if s.realBold then true else if s.isDefaultColor then s.qCurrentColor.bold else false } }

/-- The optional color support. -/
def colors (w : Setting) (j : ℤ) (s : SgrState) : SgrState :=
  (s.default w j).replace (s.foreground w j) (s.background w j)

/-- The loop of `sgr`; the introducers of more colors end it. -/
def loop (w : Setting) : List ℤ → SgrState → SgrState
  | [], s => s
  | j :: js, s =>
    let s := ((s.aixterm w j).attributes w j).normal w j
    if w.color then
      if w.emulation.anyXterm = true ∧ (j = 38 ∨ j = 48) then s else loop w js (s.colors w j)
    else loop w js s

end SgrState

/-- `sgr`; no parameters at all are a reset. -/
def sgr (w : Setting) (decPrivateModeFlag : Bool) (params : List ℤ) (r : Rendition) : Rendition :=
  if decPrivateModeFlag then r
  else match params with
    | [] => { qCurrentColor := w.consoleText.fullAttr, isDefaultColor := true, previousAixtermColor := 0 }
    | params => (SgrState.loop w params { r with realBold := r.realBold w }).toRendition

/-- What has been collected when the final byte comes: `params_n` is still -1 if there is neither a digit nor a
semicolon, and a parameter without digits is 0 for `atoi`. -/
def collected : List (Option ℤ) → List ℤ
  | [none] => []
  | texts => texts.map fun text => text.getD 0

/-- `CSI p1;p2;...;pn m`. -/
def csiM (w : Setting) (texts : List (Option ℤ)) (r : Rendition) : Rendition := sgr w false (collected texts) r

/-- `CSI p1 m`, `CSI p2 m` and so on. -/
def csiMs (w : Setting) (texts : List (Option ℤ)) (r : Rendition) : Rendition :=
  texts.foldl (fun r text => csiM w [text] r) r

/-! ### What is carried from one parameter to the next -/

/-- The two flags of the handler that are not shown. -/
structure Carried where
  realBold : Bool
  previousAixtermColor : ℤ
deriving DecidableEq, Repr

/-- What a parameter makes of them. -/
def Carried.after (w : Setting) (j : ℤ) (c : Carried) : Carried where
  realBold :=
    if w.emulation.anyXterm = true ∧ ((90 ≤ j ∧ j ≤ 97) ∨ (100 ≤ j ∧ j ≤ 107)) ∨ j = 1 then true
    else if w.emulation.anyXterm = true ∧ (90 ≤ c.previousAixtermColor ∧ c.previousAixtermColor ≤ 97) ∧
        30 ≤ j ∧ j ≤ 37 then false
    else if j = 0 ∨ (w.emulation = .vt220 ∨ w.emulation.console = true ∨ w.emulation.anyXterm = true) ∧
        (j = 21 ∨ j = 22) ∨ w.emulation.console = true ∧ j = 38 ∨
        (w.emulation.console = true ∨ w.emulation.anyXterm = true) ∧ j = 39 then false
    else c.realBold
  previousAixtermColor :=
    if w.emulation.anyXterm = true ∧ ((90 ≤ j ∧ j ≤ 97) ∨ (100 ≤ j ∧ j ≤ 107)) then j
    else if w.emulation.anyXterm = true ∧ (90 ≤ c.previousAixtermColor ∧ c.previousAixtermColor ≤ 97) ∧
        30 ≤ j ∧ j ≤ 37 then 0
    else c.previousAixtermColor

/-- At the beginning of a sequence. -/
def Rendition.carried (w : Setting) (r : Rendition) : Carried := ⟨r.realBold w, r.previousAixtermColor⟩

def SgrState.carried (s : SgrState) : Carried := ⟨s.realBold, s.previousAixtermColor⟩

/-- A plain color, which ends the default color without saying anything about bold. -/
def PlainColor (w : Setting) (j : ℤ) : Prop := w.color = true ∧ ((30 ≤ j ∧ j ≤ 37) ∨ (40 ≤ j ∧ j ≤ 47))

instance (w : Setting) (j : ℤ) : Decidable (PlainColor w j) := inferInstanceAs (Decidable (_ ∧ _))

/-- Along the single sequences: wherever a plain color comes, what a list has carried so far makes it as bold as what
the color itself tells. -/
def Unbroken (w : Setting) : List (Option ℤ) → Carried → Rendition → Prop
  | [], _, _ => True
  | text :: texts, c, r =>
    (PlainColor w (text.getD 0) →
      (c.after w (text.getD 0)).realBold = ((r.carried w).after w (text.getD 0)).realBold) ∧
    Unbroken w texts (c.after w (text.getD 0)) (csiM w [text] r)

variable {w : Setting} {j : ℤ} {s t : SgrState} {r r' : Rendition} {text : Option ℤ} {texts : List (Option ℤ)}

namespace Rendition

theorem parts_of_shown (h : r.shown = r'.shown) :
    r.qCurrentColor = r'.qCurrentColor ∧ r.isDefaultColor = r'.isDefaultColor := Prod.ext_iff.mp h

theorem realBold_congr (h : r.shown = r'.shown) : r.realBold w = r'.realBold w := by
  obtain ⟨hcolor, hdefault⟩ := parts_of_shown h
  unfold realBold
  rw [hcolor, hdefault]

/-- The bold flag of a color that passes for the default one. -/
def BoldDefault (r : Rendition) : Prop := r.isDefaultColor = true ∧ r.qCurrentColor.bold = true

end Rendition

namespace SgrState

/-- What a parameter does that is no introducer. -/
def body (w : Setting) (j : ℤ) (s : SgrState) : SgrState :=
  let s := ((s.aixterm w j).attributes w j).normal w j
  if w.color then s.colors w j else s

theorem loop_cons {js : List ℤ} (h : ¬ (w.emulation.anyXterm = true ∧ (j = 38 ∨ j = 48))) :
    loop w (j :: js) s = loop w js (s.body w j) := by
  rw [loop, body]
  split_ifs <;> rfl

/-! What is shown depends on what has been shown, and on the two flags. -/

theorem attributes_shown (h : s.shown = t.shown) : (s.attributes w j).shown = (t.attributes w j).shown := by
  obtain ⟨hcolor, hdefault⟩ := Rendition.parts_of_shown h
  unfold attributes
  split_ifs <;> simp [Rendition.shown, hcolor, hdefault]

theorem normal_shown (h : s.shown = t.shown) : (s.normal w j).shown = (t.normal w j).shown := by
  obtain ⟨hcolor, hdefault⟩ := Rendition.parts_of_shown h
  unfold normal
  split_ifs <;> simp [Rendition.shown, hcolor, hdefault]

theorem default_shown (h : s.shown = t.shown) : (s.default w j).shown = (t.default w j).shown := by
  obtain ⟨hcolor, hdefault⟩ := Rendition.parts_of_shown h
  unfold default
  split_ifs <;> simp [Rendition.shown, hcolor, hdefault]

/-- The flag for the way back from a bright color only matters for a plain one. -/
theorem aixterm_shown (hplain : ¬ PlainColor w j) (h : s.shown = t.shown) :
    (s.aixterm w j).shown = (t.aixterm w j).shown := by
  obtain ⟨hcolor, hdefault⟩ := Rendition.parts_of_shown h
  have hback (hx : w.emulation.anyXterm = true) : ¬ (30 ≤ j ∧ j ≤ 37) :=
    fun hj => hplain ⟨by simp [Setting.color, hx], .inl hj⟩
  unfold aixterm
  split_ifs <;> simp_all [Rendition.shown]

theorem foreground_congr (h : s.qCurrentColor.pair = t.qCurrentColor.pair) :
    s.foreground w j = t.foreground w j := by
  unfold foreground
  rw [h]

theorem background_congr (h : s.qCurrentColor.pair = t.qCurrentColor.pair) :
    s.background w j = t.background w j := by
  unfold background
  rw [h]

theorem replace_shown {f b : ℕ} (h : s.shown = t.shown)
    (hbold : s.realBold = t.realBold ∨ s.BoldDefault) :
    (s.replace f b).shown = (t.replace f b).shown := by
  obtain ⟨hcolor, hdefault⟩ := Rendition.parts_of_shown h
  simp only [Rendition.shown, replace, ← hcolor, ← hdefault]
  rcases hbold with hsame | ⟨hd, hb⟩
  · rw [hsame]
  · simp [hd, hb]

/-! What is carried. -/

theorem body_previousAixtermColor :
    (s.body w j).previousAixtermColor = (s.carried.after w j).previousAixtermColor := by
  have hattributes (u : SgrState) : (u.attributes w j).previousAixtermColor = u.previousAixtermColor := by
    unfold attributes
    split_ifs <;> rfl
  have hnormal (u : SgrState) : (u.normal w j).previousAixtermColor = u.previousAixtermColor := by
    unfold normal
    split_ifs <;> rfl
  have hcolors (u : SgrState) : (u.colors w j).previousAixtermColor = u.previousAixtermColor := by
    unfold colors replace default
    split_ifs <;> rfl
  have hbody : (s.body w j).previousAixtermColor = (s.aixterm w j).previousAixtermColor := by
    unfold body
    dsimp only
    split_ifs
    · rw [hcolors, hnormal, hattributes]
    · rw [hnormal, hattributes]
  rw [hbody]
  unfold aixterm Carried.after carried
  split_ifs <;> simp_all

theorem body_realBold : (s.body w j).realBold = (s.carried.after w j).realBold := by
  have hattributes (u : SgrState) : (u.attributes w j).realBold =
      if j = 0 then false else if j = 1 then true else u.realBold := by
    unfold attributes
    split_ifs <;> rfl
  have hnormal (u : SgrState) : (u.normal w j).realBold =
      if (w.emulation = .vt220 ∨ w.emulation.console = true ∨ w.emulation.anyXterm = true) ∧ (j = 21 ∨ j = 22)
      then false else u.realBold := by
    unfold normal
    split_ifs <;> simp_all
  have hcolors (u : SgrState) : (u.colors w j).realBold =
      if w.emulation.console = true ∧ j = 38 ∨
        (w.emulation.console = true ∨ w.emulation.anyXterm = true) ∧ j = 39 then false else u.realBold := by
    unfold colors replace default
    split_ifs <;> first | rfl | grind
  have haixterm : (s.aixterm w j).realBold =
      if w.emulation.anyXterm = true ∧ ((90 ≤ j ∧ j ≤ 97) ∨ (100 ≤ j ∧ j ≤ 107)) then true
      else if w.emulation.anyXterm = true ∧ (90 ≤ s.previousAixtermColor ∧ s.previousAixtermColor ≤ 97) ∧
        30 ≤ j ∧ j ≤ 37 then false
      else s.realBold := by
    unfold aixterm
    split_ifs <;> first | rfl | grind
  have hbody : (s.body w j).realBold =
      if w.emulation.console = true ∧ j = 38 ∨
        (w.emulation.console = true ∨ w.emulation.anyXterm = true) ∧ j = 39 then false
      else (((s.aixterm w j).attributes w j).normal w j).realBold := by
    unfold body
    dsimp only
    by_cases hcolor : w.color = true
    · rw [if_pos hcolor, hcolors]
    · have hnone : w.emulation.console = false ∧ w.emulation.anyXterm = false := by
        simp only [Setting.color, Bool.or_eq_true, not_or, Bool.not_eq_true] at hcolor
        exact ⟨hcolor.1.2, hcolor.2⟩
      simp [hcolor, hnone.1, hnone.2]
  have hor (p q : Prop) [Decidable p] [Decidable q] (b : Bool) :
      (if q then false else if p then false else b) = if p ∨ q then false else b := by
    by_cases hq : q <;> by_cases hp : p <;> simp [hp, hq]
  rw [hbody, hnormal, hattributes, haixterm]
  simp only [Carried.after, carried]
  by_cases hone : j = 1
  · simp [hone]
  by_cases hbright : (90 ≤ j ∧ j ≤ 97) ∨ (100 ≤ j ∧ j ≤ 107)
  · have hzero : j ≠ 0 := by omega
    have hback : ¬ (30 ≤ j ∧ j ≤ 37) := by omega
    have hnone : j ≠ 21 ∧ j ≠ 22 ∧ j ≠ 38 ∧ j ≠ 39 := by omega
    simp [hone, hbright, hzero, hback, hnone.1, hnone.2.1, hnone.2.2.1, hnone.2.2.2]
  by_cases hback : 30 ≤ j ∧ j ≤ 37
  · have hzero : j ≠ 0 := by omega
    have hnone : j ≠ 21 ∧ j ≠ 22 ∧ j ≠ 38 ∧ j ≠ 39 := by omega
    simp only [hone, hbright, hback, hzero, hnone.1, hnone.2.1, hnone.2.2.1, hnone.2.2.2, and_false, or_false,
      if_false]
  · -- no color: what is left are the parameters that switch the flag off
    simp only [hone, hbright, hback, and_false, or_false, if_false]
    by_cases hzero : j = 0
    · simp [hzero]
    · simp only [hzero, if_false, false_or]
      exact hor _ _ _

/-! What is shown after a parameter. -/

/-- A plain color is as bold as the flag tells. -/
theorem body_plain (hplain : PlainColor w j) : (s.body w j).shown =
    ({ s.qCurrentColor with
      pair := (s.foreground w j <<< 3) ||| s.background w j
      bold := (s.carried.after w j).realBold }, false) := by
  obtain ⟨hcolor, hj⟩ := hplain
  have hattributes (u : SgrState) : u.attributes w j = u := by
    unfold attributes
    split_ifs <;> first | rfl | omega
  have hnormal (u : SgrState) : u.normal w j = u := by
    unfold normal
    split_ifs <;> first | rfl | omega
  have hbody : s.body w j = (s.aixterm w j).colors w j := by
    unfold body
    dsimp only
    rw [if_pos hcolor, hattributes, hnormal]
  have haixterm : ∃ b, (s.aixterm w j).qCurrentColor = { s.qCurrentColor with bold := b } := by
    unfold aixterm
    split_ifs <;> exact ⟨_, rfl⟩
  obtain ⟨b, hb⟩ := haixterm
  have hpair : (s.aixterm w j).qCurrentColor.pair = s.qCurrentColor.pair := by rw [hb]
  have hdefault (u : SgrState) : u.default w j = { u with isDefaultColor := false } := if_pos hj
  have hbold := body_realBold (s := s) (w := w) (j := j)
  rw [hbody] at hbold ⊢
  unfold colors at hbold ⊢
  rw [hdefault, foreground_congr hpair, background_congr hpair] at *
  simp only [replace] at hbold
  simp [Rendition.shown, replace, hb, hbold]

/-- A bold default color stays one where the flag is left alone. -/
theorem default_bold_kept (hplain : ¬ PlainColor w j) (hcolor : w.color = true)
    (hset : ¬ (w.emulation.anyXterm = true ∧ ((90 ≤ j ∧ j ≤ 97) ∨ (100 ≤ j ∧ j ≤ 107)) ∨ j = 1))
    (hreset : ¬ (j = 0 ∨ (w.emulation = .vt220 ∨ w.emulation.console = true ∨ w.emulation.anyXterm = true) ∧
      (j = 21 ∨ j = 22) ∨ w.emulation.console = true ∧ j = 38 ∨
      (w.emulation.console = true ∨ w.emulation.anyXterm = true) ∧ j = 39))
    (h : s.BoldDefault) : ((((s.aixterm w j).attributes w j).normal w j).default w j).BoldDefault := by
  push Not at hset hreset
  have hj : ¬ ((30 ≤ j ∧ j ≤ 37) ∨ (40 ≤ j ∧ j ≤ 47)) := fun hj => hplain ⟨hcolor, hj⟩
  have haixterm : s.aixterm w j = s := by
    unfold aixterm
    split_ifs <;> first | rfl | grind
  have hattributes (u : SgrState) (hu : u.BoldDefault) : (u.attributes w j).BoldDefault := by
    unfold attributes
    rw [if_neg hreset.1, if_neg hset.2]
    split_ifs <;> exact hu
  have hnormal (u : SgrState) (hu : u.BoldDefault) : (u.normal w j).BoldDefault := by
    unfold normal
    split_ifs <;> first | exact hu | grind
  have hdefault (u : SgrState) (hu : u.BoldDefault) : (u.default w j).BoldDefault := by
    unfold default
    split_ifs <;> first | exact hu | exact ⟨rfl, hu.2⟩ | grind
  rw [haixterm]
  exact hdefault _ (hnormal _ (hattributes _ h))

/-- Any other parameter shows the same, if a flag that is off is so for a bold default color only. -/
theorem body_shown_of_not_plain (hplain : ¬ PlainColor w j) (h : s.shown = t.shown)
    (hbold : w.color = true → s.realBold = t.realBold ∨ s.BoldDefault) :
    (s.body w j).shown = (t.body w j).shown := by
  have hnormal : (((s.aixterm w j).attributes w j).normal w j).shown =
      (((t.aixterm w j).attributes w j).normal w j).shown :=
    normal_shown (attributes_shown (aixterm_shown hplain h))
  unfold body
  dsimp only
  by_cases hcolor : w.color = true
  · rw [if_pos hcolor, if_pos hcolor]
    have hpair := congrArg (fun v : Attr × Bool => v.1.pair) hnormal
    unfold colors
    rw [foreground_congr hpair, background_congr hpair]
    refine replace_shown (default_shown hnormal) ?_
    have hflag (u : SgrState) : ((((u.aixterm w j).attributes w j).normal w j).default w j).realBold =
        (u.carried.after w j).realBold := by
      rw [← body_realBold, body, if_pos hcolor]
      rfl
    have hback : ∀ c : Carried, ¬ (w.emulation.anyXterm = true ∧
        (90 ≤ c.previousAixtermColor ∧ c.previousAixtermColor ≤ 97) ∧ 30 ≤ j ∧ j ≤ 37) :=
      fun _ hj => hplain ⟨hcolor, .inl hj.2.2⟩
    rw [hflag, hflag]
    simp only [Carried.after, if_neg (hback _)]
    split_ifs with hset hreset
    · exact .inl rfl
    · exact .inl rfl
    · exact (hbold hcolor).imp id (default_bold_kept hplain hcolor hset hreset)
  · rw [if_neg hcolor, if_neg hcolor]
    exact hnormal

/-- After a parameter, the flag differs from what the color tells only if that is a bold default color. -/
theorem body_realBold_or (hcolor : w.color = true) :
    (s.body w j).realBold = (s.body w j).toRendition.realBold w ∨ (s.body w j).BoldDefault := by
  unfold body
  dsimp only
  rw [if_pos hcolor]
  unfold colors
  generalize (((s.aixterm w j).attributes w j).normal w j).default w j = u
  unfold Rendition.realBold Rendition.BoldDefault replace
  cases u.realBold <;> cases u.isDefaultColor <;> cases u.qCurrentColor.bold <;> simp

end SgrState

/-- A list and a single sequence so far: they have shown the same. -/
structure Together (w : Setting) (s : SgrState) (r : Rendition) : Prop where
  shown : s.shown = r.shown
  bold : w.color = true → s.realBold = r.realBold w ∨ s.BoldDefault

theorem Together.start : Together w { r with realBold := r.realBold w } r := ⟨rfl, fun _ => .inl rfl⟩

/-- The colors of the console text are found in its pair. -/
theorem pair_fullAttr (c : ConsoleText) :
    (c.fullAttr.pair &&& 0x38) >>> 3 = c.fg ∧ c.fullAttr.pair &&& 0x07 = c.bg := by
  have hall : ∀ fg bg : Fin 8, (((fg.val <<< 3) ||| bg.val) &&& 0x38) >>> 3 = fg.val ∧
      ((fg.val <<< 3) ||| bg.val) &&& 0x07 = bg.val := by decide
  exact hall c.fg c.bg

/-- 0 is a reset. -/
theorem body_zero : (s.body w 0).shown = (w.consoleText.fullAttr, true) := by
  have haixterm : s.aixterm w 0 = s := by
    unfold SgrState.aixterm
    split_ifs <;> first | rfl | omega
  have hnormal (u : SgrState) : u.normal w 0 = u := by
    unfold SgrState.normal
    split_ifs <;> first | rfl | omega
  unfold SgrState.body
  rw [haixterm, hnormal]
  dsimp only
  split_ifs
  · obtain ⟨hfg, hbg⟩ := pair_fullAttr w.consoleText
    simp only [SgrState.colors, SgrState.attributes, SgrState.default, SgrState.foreground, SgrState.background]
    simp [SgrState.replace, Rendition.shown, hfg, hbg]
    rfl
  · rfl

/-- The parameter is no introducer of more colors. -/
def Short (w : Setting) (j : ℤ) : Prop := ¬ (w.emulation.anyXterm = true ∧ (j = 38 ∨ j = 48))

instance (w : Setting) (j : ℤ) : Decidable (Short w j) := inferInstanceAs (Decidable (¬ _))

theorem csiM_shown (htexts : texts ≠ []) (hshort : ∀ text ∈ texts, Short w (text.getD 0)) : (csiM w texts r).shown =
    (SgrState.loop w (texts.map fun text => text.getD 0) { r with realBold := r.realBold w }).shown := by
  unfold csiM collected
  split
  · rw [List.map_singleton, SgrState.loop_cons (hshort none List.mem_cons_self)]
    exact body_zero.symm
  · obtain ⟨text, rest, rfl⟩ := List.exists_cons_of_ne_nil htexts
    rfl

theorem csiM_single (hshort : Short w (text.getD 0)) : (csiM w [text] r).shown =
    (SgrState.body w (text.getD 0) { r with realBold := r.realBold w }).shown := by
  rw [csiM_shown (by simp) (by simpa using hshort), List.map_singleton, SgrState.loop_cons hshort]
  rfl

/-- What a parameter shows in the list is what it shows alone, unless it is a plain color and the flags differ. -/
theorem Together.step_iff (h : Together w s r) (hshort : Short w (text.getD 0)) :
    (s.body w (text.getD 0)).shown = (csiM w [text] r).shown ↔ (PlainColor w (text.getD 0) →
      (s.carried.after w (text.getD 0)).realBold = ((r.carried w).after w (text.getD 0)).realBold) := by
  rw [csiM_single hshort]
  by_cases hplain : PlainColor w (text.getD 0)
  · have hcolor : s.qCurrentColor = r.qCurrentColor := congrArg Prod.fst h.shown
    have hpair := congrArg Attr.pair hcolor
    rw [SgrState.body_plain hplain, SgrState.body_plain hplain,
      SgrState.foreground_congr (t := { r with realBold := r.realBold w }) hpair,
      SgrState.background_congr (t := { r with realBold := r.realBold w }) hpair]
    simp only [hcolor, hplain, true_imp_iff, Prod.mk.injEq, and_true, Attr.mk.injEq, true_and]
    exact Iff.rfl
  · exact iff_of_true (SgrState.body_shown_of_not_plain hplain h.shown h.bold) fun hp => absurd hp hplain

theorem Together.next (h : (s.body w (text.getD 0)).shown = (csiM w [text] r).shown) :
    Together w (s.body w (text.getD 0)) (csiM w [text] r) := by
  refine ⟨h, fun hcolor => ?_⟩
  rw [← Rendition.realBold_congr h]
  exact SgrState.body_realBold_or hcolor

theorem SgrState.carried_body : (s.body w j).carried = s.carried.after w j := by
  unfold carried
  rw [body_realBold, body_previousAixtermColor]
  rfl

/-- A list and the single sequences show the same after each parameter exactly where nothing is broken. -/
theorem Together.run (h : Together w s r) (hshort : ∀ text ∈ texts, Short w (text.getD 0)) :
    (∀ before, before <+: texts →
      (s.loop w (before.map fun text => text.getD 0)).shown = (csiMs w before r).shown) ↔
    Unbroken w texts s.carried r := by
  induction texts generalizing s r with
  | nil =>
    refine iff_of_true (fun before hbefore => ?_) trivial
    rw [List.prefix_nil.mp hbefore]
    exact h.shown
  | cons text texts ih =>
    have hfirst := hshort text List.mem_cons_self
    have hrest : ∀ text ∈ texts, Short w (text.getD 0) := fun text ht => hshort text (List.mem_cons_of_mem _ ht)
    have hcons (before : List (Option ℤ)) :
        SgrState.loop w ((text :: before).map fun text => text.getD 0) s =
          SgrState.loop w (before.map fun text => text.getD 0) (s.body w (text.getD 0)) :=
      SgrState.loop_cons hfirst
    rw [Unbroken, ← h.step_iff hfirst, ← SgrState.carried_body]
    constructor
    · intro hall
      have hstep : (s.body w (text.getD 0)).shown = (csiM w [text] r).shown := by
        have := hall [text] ⟨texts, rfl⟩
        rwa [hcons] at this
      refine ⟨hstep, (ih (Together.next hstep) hrest).mp fun before hbefore => ?_⟩
      have := hall (text :: before) (List.cons_prefix_cons.mpr ⟨rfl, hbefore⟩)
      rwa [hcons] at this
    · rintro ⟨hstep, hunbroken⟩ before hbefore
      cases before with
      | nil => exact h.shown
      | cons first before =>
        obtain ⟨rfl, htail⟩ := List.cons_prefix_cons.mp hbefore
        rw [hcons]
        exact (ih (Together.next hstep) hrest).mpr hunbroken before htail

/-- A list of parameters, and each list it begins with, is what its parameters are one by one, exactly if it is
unbroken. -/
theorem csiM_iff_unbroken (hshort : ∀ text ∈ texts, Short w (text.getD 0)) :
    (∀ before, before <+: texts → before ≠ [] → (csiM w before r).shown = (csiMs w before r).shown) ↔
    Unbroken w texts (r.carried w) r := by
  have hrun := (Together.start (w := w) (r := r)).run hshort
  refine Iff.trans (forall₂_congr fun before hbefore => ?_) hrun
  by_cases hnil : before = []
  · subst hnil
    simp [csiMs, SgrState.loop, Rendition.shown]
  · rw [csiM_shown hnil fun text ht => hshort text (hbefore.subset ht)]
    simp [hnil]

/-- Bold and red, after a reset. -/
theorem csiM_bold_red : (csiM ⟨.xterm, true, ⟨6, 0, true⟩⟩ [some 0, some 1, some 31] ⟨{}, false, 0⟩).shown =
    (csiMs ⟨.xterm, true, ⟨6, 0, true⟩⟩ [some 0, some 1, some 31] ⟨{}, false, 0⟩).shown :=
  (csiM_iff_unbroken (by decide)).mpr (by refine ⟨?_, ?_, ?_, trivial⟩ <;> decide) _ (List.prefix_refl _) (by simp)

/-- A bold color with the default background, and then a red one: the list is bold, and the last of the single
sequences takes the bold flag for that of the console text. -/
theorem csiM_breaks :
    (csiM ⟨.linux, true, ⟨6, 0, true⟩⟩ [some 49, some 31] ⟨{ pair := 56, bold := true }, false, 0⟩).shown ≠
      (csiMs ⟨.linux, true, ⟨6, 0, true⟩⟩ [some 49, some 31] ⟨{ pair := 56, bold := true }, false, 0⟩).shown := by
  decide

end CProgram.Terminal
