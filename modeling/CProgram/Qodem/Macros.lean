import CProgram.Lib.Replacing
import Mathlib.Data.List.Chain
import Mathlib.Tactic.IntervalCases

/-! A keyboard macro is expanded by replacing one pattern after the other in the whole string: the doubled hats by a
placeholder, the control characters one by one, the placeholder by a hat, the user name and the password. -/
namespace CProgram.Qodem.Macros
open Replacing

/-! ### `substitute_wcs` -/

/-- `wcsstr`: what is in front of the first occurrence, and what is behind it. -/
def wcsstr (pattern : List Char) : List Char → Option (List Char × List Char)
  | [] => none
  | c :: rest =>
    if pattern <+: c :: rest then some ([], (c :: rest).drop pattern.length)
    else (wcsstr pattern rest).map fun r => (c :: r.1, r.2)

/-- The first loop. -/
def countLoop (pattern : List Char) : ℕ → List Char → ℕ
  | 0, _ => 0
  | fuel + 1, s =>
    match wcsstr pattern s with
    | none => 0
    | some r => countLoop pattern fuel r.2 + 1

/-- The second loop, with the part that is left when it ends. -/
def copyLoop (pattern newString : List Char) : ℕ → List Char → List Char
  | 0, s => s
  | i + 1, s =>
    match wcsstr pattern s with
    | none => s
    | some r => r.1 ++ (newString ++ copyLoop pattern newString i r.2)

def substituteWcs (original pattern newString : List Char) : List Char :=
  copyLoop pattern newString (countLoop pattern original.length original) original

/-! ### `postprocess_keyboard_macro` -/

/-- `KEYBOARD_MACRO_SIZE`. -/
def keyboardMacroSize : ℕ := 128

/-- `macro_output_buffer`, if the string has its end in it. -/
def stored (s : List Char) : Option (List Char) := if s.length < keyboardMacroSize then some s else none

/-- `toupper(ch) - 0x40`. -/
def toCtrl (ch : Char) : Char := Char.ofNat (ch.toUpper.toNat - 0x40)

def substituteCtrlChar (buf : List Char) (ch : Char) : Option (List Char) :=
  stored (substituteWcs buf ['^', ch] [toCtrl ch])

/-- `'A'` to `'_'`, each letter in both cases. -/
def controlChars : List Char :=
  (List.range 31).flatMap fun i =>
    let ch := Char.ofNat ('A'.toNat + i)
    if i < 26 then [ch, ch.toLower] else [ch]

def placeholder : List Char := ['@', '|', '@', '#', '@', '|', '@']
def usernameMark : List Char := ['$', 'U', 'S', 'E', 'R', 'N', 'A', 'M', 'E']
def passwordMark : List Char := ['$', 'P', 'A', 'S', 'S', 'W', 'O', 'R', 'D']

/-- The hats. -/
def substituteHats (macroString : List Char) : Option (List Char) := do
  let buf ← stored macroString
  let buf ← stored (substituteWcs buf ['^', '^'] placeholder)
  let buf ← controlChars.foldlM substituteCtrlChar buf
  stored (substituteWcs buf placeholder ['^'])

/-- A name that may be `NULL`. -/
def substituteName (mark : List Char) (name : Option (List Char)) (buf : List Char) : Option (List Char) :=
  match name with
  | none => some buf
  | some name => stored (substituteWcs buf mark name)

/-- Up to the case flip for PETSCII, unless a string does not fit into the buffer. -/
def postprocessKeyboardMacro (username password : Option (List Char)) (macroString : List Char) :
    Option (List Char) := do
  let buf ← substituteHats macroString
  let buf ← substituteName usernameMark username buf
  substituteName passwordMark password buf

/-! ### One pass -/

/-- What a hat makes of the character behind it. -/
def hat (d : Char) : Option Char :=
  if d = '^' then some '^' else if d ∈ controlChars then some (toCtrl d) else none

/-- The macro read once, with so many characters passed over first. -/
def expand (username password : List Char) : ℕ → List Char → List Char
  | _, [] => []
  | k + 1, _ :: rest => expand username password k rest
  | 0, c :: rest =>
    match if c = '^' then rest.head?.bind hat else none with
    | some d => d :: expand username password 1 rest
    | none =>
      if usernameMark <+: c :: rest then username ++ expand username password 8 rest
      else if passwordMark <+: c :: rest then password ++ expand username password 8 rest
      else c :: expand username password 0 rest

/-- The hats read once, with a mark for each doubled one. -/
def hats : List Char → List (Option Char)
  | [] => []
  | [c] => [some c]
  | c :: d :: rest =>
    if c = '^' ∧ d = '^' then none :: hats rest
    else if c = '^' ∧ d ∈ controlChars then some (toCtrl d) :: hats rest
    else some c :: hats (d :: rest)

/-- The names read once: the user name is put in, and a mark for the password. -/
def names (username : List Char) : ℕ → List Char → List (Option Char)
  | _, [] => []
  | k + 1, _ :: rest => names username k rest
  | 0, c :: rest =>
    if usernameMark <+: c :: rest then username.map some ++ names username 8 rest
    else if passwordMark <+: c :: rest then none :: names username 8 rest
    else some c :: names username 0 rest

/-! ### Replacing is reading once -/

theorem wcsstr_facts {pattern : List Char} (hpattern : pattern ≠ []) (s : List Char) :
    (wcsstr pattern s = none → parse pattern 0 s = s.map some) ∧
      ∀ front back, wcsstr pattern s = some (front, back) →
        parse pattern 0 s = front.map some ++ none :: parse pattern 0 back ∧ back.length < s.length := by
  induction s with
  | nil => exact ⟨fun _ => rfl, fun _ _ h => nomatch h⟩
  | cons c s ih =>
    unfold wcsstr
    by_cases hc : pattern <+: c :: s
    · obtain ⟨rest, hrest⟩ := hc
      have hpos := List.length_pos_iff.mpr hpattern
      rw [if_pos ⟨rest, hrest⟩, ← hrest]
      refine ⟨(fun h => nomatch h), fun front back h => ?_⟩
      obtain ⟨rfl, rfl⟩ := Prod.mk.injEq .. ▸ Option.some.inj h
      rw [parse_pattern hpattern, List.drop_left, List.length_append]
      exact ⟨rfl, by omega⟩
    · rw [if_neg hc, parse_other hc]
      cases hfound : wcsstr pattern s with
      | none => exact ⟨fun _ => by rw [ih.1 hfound]; rfl, fun _ _ h => nomatch h⟩
      | some r =>
        refine ⟨(fun h => nomatch h), fun front back h => ?_⟩
        obtain ⟨hparse, hshort⟩ := ih.2 r.1 r.2 hfound
        obtain ⟨rfl, rfl⟩ := Prod.mk.injEq .. ▸ Option.some.inj h
        rw [hparse]
        exact ⟨rfl, Nat.lt_succ_of_lt hshort⟩

theorem substituteWcs_eq {pattern : List Char} (hpattern : pattern ≠ []) (s newString : List Char) :
    substituteWcs s pattern newString = replace pattern newString s := by
  suffices h : ∀ fuel s, s.length ≤ fuel →
      copyLoop pattern newString (countLoop pattern fuel s) s = replace pattern newString s from
    h s.length s (Nat.le_refl _)
  intro fuel
  induction fuel with
  | zero =>
    intro s hs
    rw [List.eq_nil_of_length_eq_zero (Nat.le_zero.mp hs)]
    rfl
  | succ fuel ih =>
    intro s hs
    obtain ⟨hnone, hsome⟩ := wcsstr_facts hpattern s
    unfold countLoop
    cases hfound : wcsstr pattern s with
    | none => rw [replace, hnone hfound, render_plain, copyLoop]
    | some r =>
      obtain ⟨hparse, hshort⟩ := hsome r.1 r.2 hfound
      simp only [copyLoop, hfound]
      rw [ih r.2 (by omega), replace, replace, hparse, render_append, render_plain, render_none]

/-! ### The control characters -/

/-- The hats in front of the characters of `done` read. -/
def scan (done : List Char) : List Char → List Char
  | [] => []
  | [c] => [c]
  | c :: d :: rest =>
    if c = '^' ∧ d ∈ done then toCtrl d :: scan done rest else c :: scan done (d :: rest)

/-- What is checked for the characters of a list one by one. -/
theorem forall_of_all {l : List Char} {p : Char → Prop} [DecidablePred p] (h : l.all (fun c => decide (p c)) = true) :
    ∀ c ∈ l, p c := fun c hc => of_decide_eq_true (List.all_eq_true.mp h c hc)

theorem control_facts : ∀ d ∈ controlChars, toCtrl d ≠ '^' ∧ toCtrl d ≠ '$' ∧ toCtrl d ∉ controlChars ∧
    toCtrl d ∉ usernameMark ∧ toCtrl d ∉ passwordMark := forall_of_all (by decide)

theorem scan_other (done : List Char) {c : Char} (hc : c ≠ '^') (s : List Char) : scan done (c :: s) = c :: scan done s := by
  cases s with
  | nil => rfl
  | cons d s => rw [scan, if_neg fun h => hc h.1]

/-- What the reading begins with is what the text begins with, or a control character. -/
theorem scan_head (done : List Char) (hdone : ∀ d ∈ done, d ∈ controlChars) (c : Char) (s : List Char) :
    ∃ x rest, scan done (c :: s) = x :: rest ∧ (x = c ∨ x ≠ '^' ∧ x ∉ controlChars) := by
  cases s with
  | nil => exact ⟨c, [], rfl, Or.inl rfl⟩
  | cons d s =>
    unfold scan
    split
    · next h =>
      have hctrl := control_facts d (hdone d h.2)
      exact ⟨_, _, rfl, Or.inr ⟨hctrl.1, hctrl.2.2.1⟩⟩
    · exact ⟨c, _, rfl, Or.inl rfl⟩

theorem length_scan (done s : List Char) : (scan done s).length ≤ s.length := by
  induction s using scan.induct done with
  | case1 => exact Nat.le_refl _
  | case2 c => exact Nat.le_refl _
  | case3 c d rest h ih =>
    rw [scan, if_pos h, List.length_cons, List.length_cons, List.length_cons]
    omega
  | case4 c d rest h ih =>
    rw [scan, if_neg h, List.length_cons, List.length_cons]
    omega

/-- No two hats in a row. -/
def Single (s : List Char) : Prop := s.IsChain fun c d => ¬ (c = '^' ∧ d = '^')

theorem replace_single {s R : List Char} (h : Single s) : replace ['^', '^'] R s = s := by
  have hparse : parse ['^', '^'] 0 s = s.map some := by
    induction s with
    | nil => rfl
    | cons c s ih =>
      have hc : ¬ ['^', '^'] <+: c :: s := fun ⟨rest, hrest⟩ => by
        rw [← hrest] at h
        exact (List.isChain_cons_cons.mp h).1 ⟨rfl, rfl⟩
      rw [parse_other hc, ih h.tail, List.map_cons]
  rw [replace, hparse, render_plain]

theorem single_scan {done s : List Char} (hdone : ∀ d ∈ done, d ∈ controlChars) (h : Single s) : Single (scan done s) := by
  induction s using scan.induct done with
  | case1 => exact List.isChain_nil
  | case2 c => exact List.isChain_singleton c
  | case3 c d rest hc ih =>
    rw [scan, if_pos hc]
    have hrest := ih h.tail.tail
    cases hscan : scan done rest with
    | nil => exact List.isChain_singleton _
    | cons x back =>
      rw [hscan] at hrest
      exact List.isChain_cons_cons.mpr ⟨fun hboth => (control_facts d (hdone d hc.2)).1 hboth.1, hrest⟩
  | case4 c d rest hc ih =>
    rw [scan, if_neg hc]
    have hrest := ih h.tail
    obtain ⟨x, back, hscan, hx⟩ := scan_head done hdone d rest
    rw [hscan] at hrest ⊢
    refine List.isChain_cons_cons.mpr ⟨fun hboth => ?_, hrest⟩
    rcases hx with rfl | hx
    · exact (List.isChain_cons_cons.mp h).1 hboth
    · exact hx.1 hboth.2

theorem replace_pair {a b : Char} (R s : List Char) : replace [a, b] R (a :: b :: s) = R ++ replace [a, b] R s := by
  have hparse := parse_pattern (List.cons_ne_nil a [b]) s
  rw [replace, show a :: b :: s = [a, b] ++ s from rfl, hparse, render_none, replace]

theorem replace_other {P R s : List Char} {c : Char} (h : ¬ P <+: c :: s) : replace P R (c :: s) = c :: replace P R s := by
  rw [replace, parse_other h, render_some, replace]

/-- One more control character. -/
theorem replace_scan {done s : List Char} {e : Char} (hdone : ∀ d ∈ done, d ∈ controlChars) (he : e ∈ controlChars)
    (hs : Single s) : replace ['^', e] [toCtrl e] (scan done s) = scan (e :: done) s := by
  by_cases hhat : e = '^'
  · subst hhat
    rw [replace_single (single_scan hdone hs)]
    induction s using scan.induct done with
    | case1 => rfl
    | case2 c => rfl
    | case3 c d rest hc ih =>
      rw [scan, if_pos hc, scan, if_pos ⟨hc.1, List.mem_cons_of_mem _ hc.2⟩, ih hs.tail.tail]
    | case4 c d rest hc ih =>
      have hmore : ¬ (c = '^' ∧ d ∈ '^' :: done) := fun h => by
        rcases List.mem_cons.mp h.2 with hd | hd
        · exact (List.isChain_cons_cons.mp hs).1 ⟨h.1, hd⟩
        · exact hc ⟨h.1, hd⟩
      rw [scan, if_neg hc, scan, if_neg hmore, ih hs.tail]
  · induction s using scan.induct done with
    | case1 => rfl
    | case2 c => exact replace_other fun h => by simpa using h.length_le
    | case3 c d rest hc ih =>
      have hctrl : ¬ ['^', e] <+: toCtrl d :: scan done rest := fun h =>
        (control_facts d (hdone d hc.2)).1 (List.cons_prefix_cons.mp h).1.symm
      rw [scan, if_pos hc, scan, if_pos ⟨hc.1, List.mem_cons_of_mem _ hc.2⟩, replace_other hctrl, ih hs.tail.tail]
    | case4 c d rest hc ih =>
      rw [scan, if_neg hc, scan]
      by_cases hthis : c = '^' ∧ d = e
      · obtain ⟨rfl, rfl⟩ := hthis
        have hrest := ih hs.tail
        rw [scan_other done hhat, scan_other (d :: done) hhat, replace_other fun h =>
          hhat (List.cons_prefix_cons.mp h).1.symm] at hrest
        rw [scan_other done hhat, replace_pair, if_pos ⟨rfl, List.mem_cons_self⟩, (List.cons.inj hrest).2]
        rfl
      · have hmore : ¬ (c = '^' ∧ d ∈ e :: done) := fun h => by
          rcases List.mem_cons.mp h.2 with hd | hd
          · exact hthis ⟨h.1, hd⟩
          · exact hc ⟨h.1, hd⟩
        obtain ⟨x, back, hscan, hx⟩ := scan_head done hdone d rest
        have hnot : ¬ ['^', e] <+: c :: scan done (d :: rest) := fun h => by
          rw [hscan] at h
          obtain ⟨hcaret, hnext⟩ := List.cons_prefix_cons.mp h
          have hex := (List.cons_prefix_cons.mp hnext).1
          rcases hx with rfl | hx
          · exact hthis ⟨hcaret.symm, hex.symm⟩
          · exact hx.2 (hex ▸ he)
        rw [if_neg hmore, replace_other hnot, ih hs.tail]

theorem foldlM_ctrl {s : List Char} (hs : Single s) (hfits : s.length < keyboardMacroSize) (chars done : List Char)
    (hchars : ∀ d ∈ chars, d ∈ controlChars) (hdone : ∀ d ∈ done, d ∈ controlChars) :
    chars.foldlM substituteCtrlChar (scan done s) = some (scan (chars.reverse ++ done) s) := by
  induction chars generalizing done with
  | nil => rfl
  | cons e chars ih =>
    have he := hchars e List.mem_cons_self
    have hstep : substituteCtrlChar (scan done s) e = some (scan (e :: done) s) := by
      rw [substituteCtrlChar, substituteWcs_eq (List.cons_ne_nil _ _), replace_scan hdone he hs, stored,
        if_pos ((length_scan _ s).trans_lt hfits)]
    have hrest := ih (e :: done) (fun d hd => hchars d (List.mem_cons_of_mem e hd)) fun d hd =>
      (List.mem_cons.mp hd).elim (fun h => h ▸ he) (hdone d)
    rw [List.foldlM_cons, hstep, List.reverse_cons, List.append_assoc]
    exact hrest

theorem single_append {s : List Char} (front : List Char) (hfront : ∀ c ∈ front, c ≠ '^') (hs : Single s) :
    Single (front ++ s) := by
  induction front with
  | nil => exact hs
  | cons c front ih =>
    have hrest := ih fun d hd => hfront d (List.mem_cons_of_mem c hd)
    refine List.isChain_cons.mpr ⟨fun d _ h => hfront c List.mem_cons_self h.1, hrest⟩

theorem placeholder_ne : ∀ c ∈ placeholder, c ≠ '^' := forall_of_all (by decide)

/-- With the placeholder in, no two hats are left in a row. -/
theorem single_render {ts : List (Option Char)} (h : Apart ['^', '^'] ts) : Single (render placeholder ts) := by
  induction ts with
  | nil => exact List.isChain_nil
  | cons t ts ih =>
    cases t with
    | none => exact single_append placeholder placeholder_ne (ih h)
    | some c =>
      rw [render_some]
      refine List.isChain_cons.mpr ⟨fun d hd hboth => ?_, ih h.2⟩
      cases ts with
      | nil => cases hd
      | cons t ts =>
        obtain ⟨rfl, rfl⟩ := hboth
        cases t with
        | none => exact absurd (Option.some.inj hd : '@' = '^') (by decide)
        | some e =>
          obtain rfl : e = '^' := Option.some.inj hd
          exact h.1 ⟨render ['^', '^'] ts, rfl⟩

theorem apart_parse {P : List Char} (hP : P ≠ []) (s : List Char) : Apart P (parse P 0 s) := by
  induction hn : s.length using Nat.strong_induction_on generalizing s with
  | _ n ih =>
    cases s with
    | nil => trivial
    | cons c s =>
      rw [List.length_cons] at hn
      by_cases hc : P <+: c :: s
      · obtain ⟨rest, hrest⟩ := hc
        have hpos := List.length_pos_iff.mpr hP
        have hlen := congrArg List.length hrest
        rw [List.length_append, List.length_cons] at hlen
        rw [← hrest, parse_pattern hP]
        exact ih rest.length (by omega) rest rfl
      · rw [parse_other hc]
        exact ⟨by rwa [render_parse hP], ih s.length (by omega) s rfl⟩

theorem scan_append (done : List Char) (front : List Char) (hfront : ∀ c ∈ front, c ≠ '^') (s : List Char) :
    scan done (front ++ s) = front ++ scan done s := by
  induction front with
  | nil => rfl
  | cons c front ih =>
    rw [List.cons_append, scan_other done (hfront c List.mem_cons_self),
      ih fun d hd => hfront d (List.mem_cons_of_mem c hd), List.cons_append]

theorem scan_render {done : List Char} (hdone : ∀ d, d ∈ done ↔ d ∈ controlChars) (s : List Char) :
    scan done (render placeholder (parse ['^', '^'] 0 s)) = render placeholder (hats s) := by
  induction s using hats.induct with
  | case1 => rfl
  | case2 c =>
    have hc : ¬ ['^', '^'] <+: [c] := fun h => by simpa using h.length_le
    rw [parse_other hc]
    rfl
  | case3 c d rest h ih =>
    obtain ⟨rfl, rfl⟩ := h
    have hparse := parse_pattern (List.cons_ne_nil '^' ['^']) rest
    rw [show '^' :: '^' :: rest = ['^', '^'] ++ rest from rfl, hparse, render_none,
      scan_append done placeholder placeholder_ne, ih, List.cons_append, List.cons_append, List.nil_append, hats,
      if_pos ⟨rfl, rfl⟩, render_none]
  | case4 c d rest hboth h ih =>
    obtain ⟨rfl, hd⟩ := h
    have hhat : d ≠ '^' := fun h => hboth ⟨rfl, h⟩
    have hfirst : ¬ ['^', '^'] <+: '^' :: d :: rest := fun h =>
      hhat (List.cons_prefix_cons.mp (List.cons_prefix_cons.mp h).2).1.symm
    have hsecond : ¬ ['^', '^'] <+: d :: rest := fun h => hhat (List.cons_prefix_cons.mp h).1.symm
    rw [parse_other hfirst, parse_other hsecond, render_some, render_some, scan, if_pos ⟨rfl, (hdone d).mpr hd⟩, ih,
      hats, if_neg hboth, if_pos ⟨rfl, hd⟩, render_some]
  | case5 c d rest hboth hd ih =>
    have hfirst : ¬ ['^', '^'] <+: c :: d :: rest := fun h => by
      obtain ⟨hc, hrest⟩ := List.cons_prefix_cons.mp h
      exact hboth ⟨hc.symm, (List.cons_prefix_cons.mp hrest).1.symm⟩
    rw [parse_other hfirst, render_some, hats, if_neg hboth, if_neg hd, render_some, ← ih]
    by_cases hc : c = '^'
    · have hhat : d ≠ '^' := fun h => hboth ⟨hc, h⟩
      have hsecond : ¬ ['^', '^'] <+: d :: rest := fun h => hhat (List.cons_prefix_cons.mp h).1.symm
      rw [parse_other hsecond, render_some, scan, if_neg fun h => hd ⟨h.1, (hdone d).mp h.2⟩]
    · exact scan_other done hc _

theorem length_replace_le {P R : List Char} (hP : P ≠ []) (hlen : P.length ≤ R.length) (s : List Char) :
    s.length ≤ (replace P R s).length := by
  have hlength := length_replace hP R s
  have hmul := Nat.mul_le_mul_left ((parse P 0 s).count none) hlen
  omega

/-- Up to the last replacement of the hats all goes well, if the placeholders fit. -/
theorem substituteHats_eq (s : List Char) : substituteHats s =
    if (replace ['^', '^'] placeholder s).length < keyboardMacroSize then
      stored (replace placeholder ['^'] (render placeholder (hats s))) else none := by
  have hpair : ['^', '^'] ≠ [] := List.cons_ne_nil _ _
  have hle := length_replace_le (R := placeholder) hpair (by decide) s
  unfold substituteHats
  by_cases hfits : (replace ['^', '^'] placeholder s).length < keyboardMacroSize
  · have hdone : ∀ d, d ∈ controlChars.reverse ++ [] ↔ d ∈ controlChars := fun d => by simp
    have hfold := foldlM_ctrl (single_render (apart_parse hpair s)) hfits controlChars [] (fun _ h => h)
      fun _ h => nomatch h
    have hscan : scan [] (replace ['^', '^'] placeholder s) = replace ['^', '^'] placeholder s := by
      generalize replace ['^', '^'] placeholder s = q
      induction q using scan.induct [] with
      | case1 => rfl
      | case2 c => rfl
      | case3 c d rest h ih => exact absurd h.2 (List.not_mem_nil)
      | case4 c d rest h ih => rw [scan, if_neg h, ih]
    rw [scan_render hdone, ← replace, hscan] at hfold
    rw [if_pos hfits, stored, if_pos (hle.trans_lt hfits), Option.bind_eq_bind, Option.bind_some,
      substituteWcs_eq hpair, stored, if_pos hfits, Option.bind_some, hfold, Option.bind_some,
      substituteWcs_eq (show placeholder ≠ [] by decide)]
  · rw [if_neg hfits]
    cases hstored : stored s with
    | none => rfl
    | some q =>
      have hq : q = s := by
        unfold stored at hstored
        split at hstored
        · exact (Option.some.inj hstored).symm
        · cases hstored
      rw [hq, Option.bind_eq_bind, Option.bind_some, substituteWcs_eq hpair, stored, if_neg hfits]
      rfl

/-! ### The names -/

section
variable (username password : List Char)

theorem names_skip (k : ℕ) (s : List Char) : names username k s = names username 0 (s.drop k) := by
  induction s generalizing k with
  | nil => cases k <;> rfl
  | cons c s ih =>
    cases k with
    | zero => rfl
    | succ k => exact ih k

theorem expand_skip (k : ℕ) (s : List Char) :
    expand username password k s = expand username password 0 (s.drop k) := by
  induction s generalizing k with
  | nil => cases k <;> rfl
  | cons c s ih =>
    cases k with
    | zero => rfl
    | succ k => exact ih k

theorem names_username (s : List Char) :
    names username 0 (usernameMark ++ s) = username.map some ++ names username 0 s := by
  show (if usernameMark <+: usernameMark ++ s then _ else _) = _
  rw [if_pos (List.prefix_append _ s), names_skip]
  rfl

theorem not_username (s : List Char) : ¬ usernameMark <+: passwordMark ++ s := fun h =>
  absurd (List.cons_prefix_cons.mp (List.cons_prefix_cons.mp h).2).1 (by decide)

theorem not_password (s : List Char) : ¬ passwordMark <+: usernameMark ++ s := fun h =>
  absurd (List.cons_prefix_cons.mp (List.cons_prefix_cons.mp h).2).1 (by decide)

theorem names_password (s : List Char) : names username 0 (passwordMark ++ s) = none :: names username 0 s := by
  show (if usernameMark <+: passwordMark ++ s then _ else if passwordMark <+: passwordMark ++ s then _ else _) = _
  rw [if_neg (not_username s), if_pos (List.prefix_append _ s), names_skip]
  rfl

theorem names_other {c : Char} {s : List Char} (huser : ¬ usernameMark <+: c :: s) (hpass : ¬ passwordMark <+: c :: s) :
    names username 0 (c :: s) = some c :: names username 0 s := by
  rw [names, if_neg huser, if_neg hpass]

/-- A text begins with one of the two marks, or with a character of its own. -/
theorem names_cases {motive : List Char → Prop} (nil : motive []) (user : ∀ s, motive s → motive (usernameMark ++ s))
    (pass : ∀ s, motive s → motive (passwordMark ++ s))
    (other : ∀ c s, ¬ usernameMark <+: c :: s → ¬ passwordMark <+: c :: s → motive s → motive (c :: s))
    (s : List Char) : motive s := by
  induction hn : s.length using Nat.strong_induction_on generalizing s with
  | _ n ih =>
    by_cases huser : usernameMark <+: s
    · obtain ⟨rest, rfl⟩ := huser
      rw [List.length_append] at hn
      exact user rest (ih rest.length (by simp [usernameMark] at hn; omega) rest rfl)
    · by_cases hpass : passwordMark <+: s
      · obtain ⟨rest, rfl⟩ := hpass
        rw [List.length_append] at hn
        exact pass rest (ih rest.length (by simp [passwordMark] at hn; omega) rest rfl)
      · cases s with
        | nil => exact nil
        | cons c s => exact other c s huser hpass (ih s.length (by simp at hn; omega) s rfl)

theorem parse_username (s : List Char) :
    parse usernameMark 0 (passwordMark ++ s) = passwordMark.map some ++ parse usernameMark 0 s := by
  have htail : ∀ c ∈ ['P', 'A', 'S', 'S', 'W', 'O', 'R', 'D'], c ≠ '$' := forall_of_all (by decide)
  have hrest : parse usernameMark 0 (['P', 'A', 'S', 'S', 'W', 'O', 'R', 'D'] ++ s) = _ := parse_append htail s
  have hfirst : parse usernameMark 0 (passwordMark ++ s) = _ := parse_other (not_username s)
  rw [hfirst]
  exact congrArg (some '$' :: ·) hrest

theorem parse_password (s : List Char) :
    parse passwordMark 0 (usernameMark ++ s) = usernameMark.map some ++ parse passwordMark 0 s := by
  have htail : ∀ c ∈ ['U', 'S', 'E', 'R', 'N', 'A', 'M', 'E'], c ≠ '$' := forall_of_all (by decide)
  have hrest : parse passwordMark 0 (['U', 'S', 'E', 'R', 'N', 'A', 'M', 'E'] ++ s) = _ := parse_append htail s
  have hfirst : parse passwordMark 0 (usernameMark ++ s) = _ := parse_other (not_password s)
  rw [hfirst]
  exact congrArg (some '$' :: ·) hrest

theorem username_ne_nil : usernameMark ≠ [] := List.cons_ne_nil _ _
theorem password_ne_nil : passwordMark ≠ [] := List.cons_ne_nil _ _

/-- The user name put in by itself leaves the marks of the password standing. -/
theorem replace_username (s : List Char) :
    replace usernameMark username s = render passwordMark (names username 0 s) := by
  induction s using names_cases with
  | nil => rfl
  | user s ih =>
    rw [names_username, render_append, render_plain, replace, parse_pattern username_ne_nil, render_none, ← ih, replace]
  | pass s ih =>
    rw [names_password, render_none, replace, parse_username, render_append, render_plain, ← ih, replace]
  | other c s huser hpass ih =>
    rw [names_other username huser hpass, render_some, replace_other huser, ih]

/-- The marks of the password are those that are found without the user name put in. -/
theorem count_names (s : List Char) : (names username 0 s).count none = (parse passwordMark 0 s).count none := by
  induction s using names_cases with
  | nil => rfl
  | user s ih => rw [names_username, List.count_append, count_plain, parse_password, List.count_append, count_plain, ih]
  | pass s ih => rw [names_password, List.count_cons_self, parse_pattern password_ne_nil, List.count_cons_self, ih]
  | other c s huser hpass ih =>
    rw [names_other username huser hpass, parse_other hpass, List.count_cons_of_ne (by simp),
      List.count_cons_of_ne (by simp), ih]

/-- A character that neither mark has parts the text. -/
theorem names_split {d : Char} (huser : d ∉ usernameMark) (hpass : d ∉ passwordMark) (s rest : List Char) :
    names username 0 (s ++ d :: rest) = names username 0 s ++ some d :: names username 0 rest := by
  induction s using names_cases with
  | nil =>
    exact names_other username (fun h => huser ((List.cons_prefix_cons.mp h).1 ▸ List.mem_cons_self)) fun h =>
      hpass ((List.cons_prefix_cons.mp h).1 ▸ List.mem_cons_self)
  | user s ih => rw [List.append_assoc, names_username, names_username, ih, List.append_assoc]
  | pass s ih => rw [List.append_assoc, names_password, names_password, ih, List.cons_append]
  | other c s hu hp ih =>
    have hu' : ¬ usernameMark <+: c :: (s ++ d :: rest) := mt (prefix_append_iff huser (c :: s) rest).mp hu
    have hp' : ¬ passwordMark <+: c :: (s ++ d :: rest) := mt (prefix_append_iff hpass (c :: s) rest).mp hp
    rw [List.cons_append, names_other username hu' hp', names_other username hu hp, ih, List.cons_append]

/-! ### The hats and then the names -/

theorem hats_other {c : Char} (hc : c ≠ '^') (s : List Char) : hats (c :: s) = some c :: hats s := by
  cases s with
  | nil => rfl
  | cons d s => rw [hats, if_neg fun h => hc h.1, if_neg fun h => hc h.1]

theorem hats_append (front : List Char) (hfront : ∀ c ∈ front, c ≠ '^') (s : List Char) :
    hats (front ++ s) = front.map some ++ hats s := by
  induction front with
  | nil => rfl
  | cons c front ih =>
    rw [List.cons_append, hats_other (hfront c List.mem_cons_self), ih fun d hd => hfront d (List.mem_cons_of_mem c hd)]
    rfl

/-- A string without hats and control characters is not made by reading hats. -/
theorem prefix_of_hats {Q : List Char} (hQ : ∀ q ∈ Q, q ≠ '^' ∧ ∀ d ∈ controlChars, toCtrl d ≠ q) (s : List Char)
    (h : Q <+: render ['^'] (hats s)) : Q <+: s := by
  induction s using hats.induct generalizing Q with
  | case1 => exact h
  | case2 c => exact h
  | case3 c d rest hboth ih =>
    cases Q with
    | nil => exact List.nil_prefix
    | cons q Q =>
      rw [hats, if_pos hboth, render_none] at h
      exact absurd (List.cons_prefix_cons.mp h).1 (hQ q List.mem_cons_self).1
  | case4 c d rest hboth hctrl ih =>
    cases Q with
    | nil => exact List.nil_prefix
    | cons q Q =>
      rw [hats, if_neg hboth, if_pos hctrl, render_some] at h
      exact absurd (List.cons_prefix_cons.mp h).1.symm ((hQ q List.mem_cons_self).2 d hctrl.2)
  | case5 c d rest hboth hctrl ih =>
    cases Q with
    | nil => exact List.nil_prefix
    | cons q Q =>
      rw [hats, if_neg hboth, if_neg hctrl, render_some] at h
      obtain ⟨hq, hrest⟩ := List.cons_prefix_cons.mp h
      exact List.cons_prefix_cons.mpr ⟨hq, ih (fun q hq => hQ q (List.mem_cons_of_mem _ hq)) hrest⟩

theorem marks_facts : (∀ q ∈ usernameMark, q ≠ '^' ∧ ∀ d ∈ controlChars, toCtrl d ≠ q) ∧
    ∀ q ∈ passwordMark, q ≠ '^' ∧ ∀ d ∈ controlChars, toCtrl d ≠ q :=
  have huser : ∀ q ∈ usernameMark, q ≠ '^' := forall_of_all (by decide)
  have hpass : ∀ q ∈ passwordMark, q ≠ '^' := forall_of_all (by decide)
  ⟨fun q hq => ⟨huser q hq, fun d hd h => (control_facts d hd).2.2.2.1 (h ▸ hq)⟩,
    fun q hq => ⟨hpass q hq, fun d hd h => (control_facts d hd).2.2.2.2 (h ▸ hq)⟩⟩

theorem names_begin {c : Char} (hc : c ≠ '$') (s : List Char) :
    names username 0 (c :: s) = some c :: names username 0 s :=
  names_other username (fun h => hc (List.cons_prefix_cons.mp h).1.symm) fun h =>
    hc (List.cons_prefix_cons.mp h).1.symm

/-- What is left behind a mark. -/
theorem behind_mark {Q rest s : List Char} {c : Char} (hQ : Q.length = 9) (h : Q ++ rest = c :: s) :
    s.drop 8 = rest ∧ rest.length < s.length + 1 := by
  have hdrop : (c :: s).drop 9 = rest := by rw [← h, List.drop_left' hQ]
  have hlen := congrArg List.length h
  rw [List.length_append, hQ, List.length_cons] at hlen
  exact ⟨hdrop, by omega⟩

/-- One pass is the hats read once and then the names read once. -/
theorem expand_eq (s : List Char) :
    expand username password 0 s = render password (names username 0 (render ['^'] (hats s))) := by
  induction hn : s.length using Nat.strong_induction_on generalizing s with
  | _ n ih =>
    cases s with
    | nil => rfl
    | cons c s =>
      rw [List.length_cons] at hn
      by_cases hc : c = '^'
      · subst hc
        cases s with
        | nil => rfl
        | cons d s =>
          rw [List.length_cons] at hn
          unfold expand
          rw [if_pos rfl, List.head?_cons, Option.bind_some]
          by_cases hd : d = '^'
          · rw [hat, if_pos hd]
            subst hd
            simp only [expand_skip username password 1, List.drop_succ_cons, List.drop_zero]
            rw [ih s.length (by omega) s rfl, hats, if_pos ⟨rfl, rfl⟩, render_none, List.cons_append, List.nil_append,
              names_begin username (by decide), render_some]
          · by_cases hctrl : d ∈ controlChars
            · rw [hat, if_neg hd, if_pos hctrl]
              simp only [expand_skip username password 1, List.drop_succ_cons, List.drop_zero]
              rw [ih s.length (by omega) s rfl, hats, if_neg fun h => hd h.2, if_pos ⟨rfl, hctrl⟩, render_some,
                names_begin username (control_facts d hctrl).2.1, render_some]
            · rw [hat, if_neg hd, if_neg hctrl]
              have hu : ¬ usernameMark <+: '^' :: d :: s := fun h =>
                absurd (List.cons_prefix_cons.mp h).1 (by decide)
              have hp : ¬ passwordMark <+: '^' :: d :: s := fun h =>
                absurd (List.cons_prefix_cons.mp h).1 (by decide)
              simp only [if_neg hu, if_neg hp]
              rw [ih (d :: s).length (by simp; omega) (d :: s) rfl, hats, if_neg fun h => hd h.2,
                if_neg fun h => hctrl h.2, render_some, names_begin username (by decide), render_some]
      · have hnone : (if c = '^' then s.head?.bind hat else none) = none := if_neg hc
        unfold expand
        simp only [hnone]
        by_cases hu : usernameMark <+: c :: s
        · obtain ⟨rest, hrest⟩ := hu
          obtain ⟨hdrop, hless⟩ := behind_mark rfl hrest
          rw [if_pos ⟨rest, hrest⟩, expand_skip, hdrop, ih rest.length (by omega) rest rfl, ← hrest,
            hats_append usernameMark (fun q hq => (marks_facts.1 q hq).1), render_append, render_plain, names_username,
            render_append, render_plain]
        · by_cases hp : passwordMark <+: c :: s
          · obtain ⟨rest, hrest⟩ := hp
            obtain ⟨hdrop, hless⟩ := behind_mark rfl hrest
            rw [if_neg hu, if_pos ⟨rest, hrest⟩, expand_skip, hdrop, ih rest.length (by omega) rest rfl, ← hrest,
              hats_append passwordMark (fun q hq => (marks_facts.2 q hq).1), render_append, render_plain, names_password,
              render_none]
          · have hu' := mt (prefix_of_hats marks_facts.1 (c :: s)) hu
            have hp' := mt (prefix_of_hats marks_facts.2 (c :: s)) hp
            rw [hats_other hc, render_some] at hu' hp'
            rw [if_neg hu, if_neg hp, ih s.length (by omega) s rfl, hats_other hc, render_some,
              names_other username hu' hp', render_some]

/-! ### When it is one pass -/

theorem count_marks {Q : List Char} (hQ : Q = usernameMark ∨ Q = passwordMark) (ts : List (Option Char)) :
    (parse Q 0 (render ['^'] ts)).count none = (parse Q 0 (render placeholder ts)).count none := by
  rcases hQ with rfl | rfl
  · exact (count_parse_render (forall_of_all (by decide)) ts).trans
      (count_parse_render (forall_of_all (by decide)) ts).symm
  · exact (count_parse_render (forall_of_all (by decide)) ts).trans
      (count_parse_render (forall_of_all (by decide)) ts).symm

theorem count_expanded {a : Char} (huser : a ∉ usernameMark) (hpass : a ∉ passwordMark) (s : List Char) :
    (render password (names username 0 s)).count a = s.count a + (parse usernameMark 0 s).count none * username.count a +
      (names username 0 s).count none * password.count a := by
  have hmarks := count_render a passwordMark (names username 0 s)
  rw [← replace_username, count_replace huser username_ne_nil, List.count_eq_zero_of_not_mem hpass, Nat.mul_zero,
    Nat.add_zero] at hmarks
  rw [count_render, ← hmarks]

theorem placeholder_ne_nil : placeholder ≠ [] := List.cons_ne_nil _ _

/-- Two readings of one text with placeholders. The names put in after the one give what the other gives. -/
structure Alike (ts ts' : List (Option Char)) : Prop where
  back : render placeholder ts' = render placeholder ts
  same : replace passwordMark password (replace usernameMark username (render ['^'] ts')) =
    render password (names username 0 (render ['^'] ts))

section
variable {username password} {ts ts' : List (Option Char)}

theorem Alike.count_mark (h : Alike username password ts ts') {Q : List Char} (hQ : Q = usernameMark ∨ Q = passwordMark) :
    (parse Q 0 (render ['^'] ts')).count none = (parse Q 0 (render ['^'] ts)).count none := by
  rw [count_marks hQ, count_marks hQ, h.back]

/-- The mark of the password is found where it was, and perhaps more often. -/
theorem Alike.more (h : Alike username password ts ts') :
    (names username 0 (render ['^'] ts)).count none ≤
        (parse passwordMark 0 (replace usernameMark username (render ['^'] ts'))).count none ∧
      ((parse passwordMark 0 (replace usernameMark username (render ['^'] ts'))).count none =
          (names username 0 (render ['^'] ts)).count none →
        Apart passwordMark (names username 0 (render ['^'] ts'))) := by
  have hpasses : (names username 0 (render ['^'] ts')).count none = (names username 0 (render ['^'] ts)).count none := by
    rw [count_names, count_names, h.count_mark (Or.inr rfl)]
  have hmore := count_parse (by decide : '$' ∉ ['P', 'A', 'S', 'S', 'W', 'O', 'R', 'D'])
    (names username 0 (render ['^'] ts'))
  change _ ≤ (parse passwordMark 0 (render passwordMark _)).count none ∧
    ((parse passwordMark 0 (render passwordMark _)).count none = _ → Apart passwordMark _) at hmore
  rw [← replace_username, hpasses] at hmore
  exact hmore

/-- How often a character is there that is in neither mark. -/
theorem Alike.count (h : Alike username password ts ts') {a : Char} (huser : a ∉ usernameMark) (hpass : a ∉ passwordMark) :
    (render ['^'] ts').count a + (parse passwordMark 0 (replace usernameMark username (render ['^'] ts'))).count none *
      password.count a = (render ['^'] ts).count a + (names username 0 (render ['^'] ts)).count none * password.count a := by
  have hcount := congrArg (List.count a) h.same
  rw [count_replace hpass password_ne_nil, count_replace huser username_ne_nil,
    count_expanded username password huser hpass, h.count_mark (Or.inl rfl)] at hcount
  omega

/-- No hat more and no sign less, so there are as many marks. -/
theorem Alike.count_none (h : Alike username password ts ts') : ts'.count none = ts.count none := by
  have hhat := h.count (a := '^') (by decide) (by decide)
  have hsign := h.count (a := '@') (by decide) (by decide)
  have hboth := congrArg (List.count '^') h.back
  have hboth' := congrArg (List.count '@') h.back
  rw [count_render, count_render] at hhat hsign hboth hboth'
  have hle := Nat.mul_le_mul_right (password.count '^') h.more.1
  have hle' := Nat.mul_le_mul_right (password.count '@') h.more.1
  have hfacts : placeholder.count '^' = 0 ∧ placeholder.count '@' = 4 ∧ ['^'].count '^' = 1 ∧ ['^'].count '@' = 0 := by
    decide
  rw [hfacts.1] at hboth
  rw [hfacts.2.1] at hboth'
  rw [hfacts.2.2.1] at hhat
  rw [hfacts.2.2.2] at hsign
  omega

theorem Alike.length (h : Alike username password ts ts') : (render ['^'] ts').length = (render ['^'] ts).length := by
  have hthis := length_render placeholder ts
  have hthat := length_render placeholder ts'
  have hone := length_render ['^'] ts
  have hone' := length_render ['^'] ts'
  rw [h.back] at hthat
  rw [h.count_none] at hthat hone'
  simp only [List.length_singleton] at hone hone'
  omega

/-- A mark more does not show in the length only where the password is as long as its mark. -/
theorem Alike.equal_or_long (h : Alike username password ts ts') :
    (parse passwordMark 0 (replace usernameMark username (render ['^'] ts'))).count none =
      (names username 0 (render ['^'] ts)).count none ∨ password.length = passwordMark.length := by
  have hlength := h.length
  have hthis := congrArg List.length h.same
  have huser := length_replace username_ne_nil username (render ['^'] ts')
  have huser' := length_replace username_ne_nil username (render ['^'] ts)
  have hpass := length_replace password_ne_nil password (replace usernameMark username (render ['^'] ts'))
  have hpass' := length_render password (names username 0 (render ['^'] ts))
  have hown := length_render passwordMark (names username 0 (render ['^'] ts))
  rw [← replace_username] at hown
  rw [h.count_mark (Or.inl rfl)] at huser
  obtain ⟨d, hd⟩ := Nat.exists_eq_add_of_le h.more.1
  rw [hd, Nat.add_mul, Nat.add_mul] at hpass
  have hmul : d * password.length = d * passwordMark.length := by omega
  rcases Nat.eq_zero_or_pos d with rfl | hpos
  · exact Or.inl hd
  · exact Or.inr (Nat.eq_of_mul_eq_mul_left hpos hmul)

/-- Putting the names in keeps the length of a text where the password is as long as its mark. -/
theorem length_replaced (hlong : password.length = passwordMark.length) (s : List Char) :
    (replace passwordMark password (replace usernameMark username s)).length =
      (render password (names username 0 s)).length := by
  have hpass := length_replace password_ne_nil password (replace usernameMark username s)
  have hpass' := length_render password (names username 0 s)
  have hown := length_render passwordMark (names username 0 s)
  rw [← replace_username] at hown
  rw [hlong] at hpass hpass'
  omega

/-- So the two readings do not part where the one has a mark and the other a sign. -/
theorem Alike.not_parted {front back rest : List (Option Char)} (h : Alike username password ts ts')
    (hts : ts = front ++ some '@' :: back) (hts' : ts' = front ++ none :: rest) : False := by
  have hone : render ['^'] ts' = render ['^'] front ++ '^' :: render ['^'] rest := by
    rw [hts', render_append, render_none]
    rfl
  have hother : render ['^'] ts = render ['^'] front ++ '@' :: render ['^'] back := by
    rw [hts, render_append, render_some]
  have hsingle : render password (names username 0 (render ['^'] ts)) =
      render password (names username 0 (render ['^'] front)) ++ '@' ::
        render password (names username 0 (render ['^'] back)) := by
    rw [hother, names_split username (by decide) (by decide), render_append, render_some]
  have hsame := h.same
  rcases h.equal_or_long with hequal | hlong
  · have hread := replace_render password_ne_nil password (h.more.2 hequal)
    rw [← replace_username, hsame, hsingle, hone, names_split username (by decide) (by decide), render_append,
      render_some, List.append_cancel_left_eq] at hread
    exact absurd (List.cons.inj hread).1 (by decide)
  · rw [hsingle, hone, replace_split (by decide) username_ne_nil, replace_split (by decide) password_ne_nil] at hsame
    exact absurd (List.cons.inj (List.append_inj_right hsame (length_replaced hlong _))).1 (by decide)

end

/-- If the placeholders are not the first to be replaced, no names make up for that: hats and signs are counted, and then
lengths. -/
theorem apart_of_expanded {ts : List (Option Char)}
    (h : replace passwordMark password (replace usernameMark username (replace placeholder ['^'] (render placeholder ts))) =
      render password (names username 0 (render ['^'] ts))) : Apart placeholder ts := by
  by_contra hapart
  obtain ⟨front, back, rest, hts, hread⟩ := parse_differs placeholder_ne_nil hapart
  have hback := render_parse placeholder_ne_nil (render placeholder ts)
  have halike : Alike username password ts (parse placeholder 0 (render placeholder ts)) := ⟨hback, h⟩
  exact halike.not_parted hts hread

end

theorem stored_some_iff {s r : List Char} : stored s = some r ↔ s.length < keyboardMacroSize ∧ s = r := by
  unfold stored
  split
  · next h => simp [h]
  · next h => simp [h]

/-- A name that is not there is as good as its mark. -/
theorem substituteName_some_iff {mark : List Char} (hmark : mark ≠ []) (name : Option (List Char)) {s r : List Char}
    (hs : s.length < keyboardMacroSize) : substituteName mark name s = some r ↔
      (replace mark (name.getD mark) s).length < keyboardMacroSize ∧ replace mark (name.getD mark) s = r := by
  cases name with
  | none =>
    have hself : replace mark mark s = s := render_parse hmark s
    simp [substituteName, hself, hs]
  | some name => rw [substituteName, substituteWcs_eq hmark, stored_some_iff, Option.getD_some]

section
variable (username password : Option (List Char)) (s : List Char)

theorem postprocess_some_iff {r : List Char} : postprocessKeyboardMacro username password s = some r ↔
    (replace ['^', '^'] placeholder s).length < keyboardMacroSize ∧
      (replace placeholder ['^'] (render placeholder (hats s))).length < keyboardMacroSize ∧
      (replace usernameMark (username.getD usernameMark) (replace placeholder ['^'] (render placeholder (hats s)))).length <
        keyboardMacroSize ∧ r.length < keyboardMacroSize ∧
      replace passwordMark (password.getD passwordMark) (replace usernameMark (username.getD usernameMark)
        (replace placeholder ['^'] (render placeholder (hats s)))) = r := by
  have hbind : postprocessKeyboardMacro username password s = ((substituteHats s).bind fun buf =>
      (substituteName usernameMark username buf).bind fun buf => substituteName passwordMark password buf) := rfl
  rw [hbind, Option.bind_eq_some_iff]
  constructor
  · rintro ⟨buf, hhats, hnames⟩
    obtain ⟨buf', huser, hpass⟩ := Option.bind_eq_some_iff.mp hnames
    rw [substituteHats_eq] at hhats
    split at hhats
    · next hfits =>
      obtain ⟨hstored, rfl⟩ := stored_some_iff.mp hhats
      obtain ⟨hstored', rfl⟩ := (substituteName_some_iff username_ne_nil username hstored).mp huser
      obtain ⟨hresult, rfl⟩ := (substituteName_some_iff password_ne_nil password hstored').mp hpass
      exact ⟨hfits, hstored, hstored', hresult, rfl⟩
    · cases hhats
  · rintro ⟨hfits, hstored, hstored', hresult, rfl⟩
    refine ⟨_, by rw [substituteHats_eq, if_pos hfits]; exact stored_some_iff.mpr ⟨hstored, rfl⟩, ?_⟩
    exact Option.bind_eq_some_iff.mpr ⟨_, (substituteName_some_iff username_ne_nil username hstored).mpr ⟨hstored', rfl⟩,
      (substituteName_some_iff password_ne_nil password hstored').mpr ⟨hresult, rfl⟩⟩

theorem length_hats_le : (render ['^'] (hats s)).length ≤ (replace ['^', '^'] placeholder s).length := by
  have hscan := length_scan controlChars (replace ['^', '^'] placeholder s)
  rw [replace, scan_render (fun _ => Iff.rfl), ← replace] at hscan
  have hthis := length_render placeholder (hats s)
  have hone := length_render ['^'] (hats s)
  have hmul : (hats s).count none * 1 ≤ (hats s).count none * placeholder.length :=
    Nat.mul_le_mul_left _ (by decide)
  simp only [List.length_singleton] at hone
  omega

/-- A macro is expanded in one pass just when the placeholders fit in, the placeholder does not begin at a character of
the macro, the user name fits in, and the password's mark does not come about with the user name. -/
theorem macro_expanded_iff
    (hresult : (expand (username.getD usernameMark) (password.getD passwordMark) 0 s).length < keyboardMacroSize) :
    postprocessKeyboardMacro username password s =
        some (expand (username.getD usernameMark) (password.getD passwordMark) 0 s) ↔
      (replace ['^', '^'] placeholder s).length < keyboardMacroSize ∧ Apart placeholder (hats s) ∧
        (replace usernameMark (username.getD usernameMark) (render ['^'] (hats s))).length < keyboardMacroSize ∧
          (Apart passwordMark (names (username.getD usernameMark) 0 (render ['^'] (hats s))) ∨
            password.getD passwordMark = passwordMark) := by
  have hlone := replace_render_iff (by decide : '$' ∉ ['P', 'A', 'S', 'S', 'W', 'O', 'R', 'D'])
    (password.getD passwordMark) (names (username.getD usernameMark) 0 (render ['^'] (hats s)))
  change replace passwordMark _ (render passwordMark _) = _ ↔ Apart passwordMark _ ∨ _ = passwordMark at hlone
  rw [postprocess_some_iff]
  constructor
  · rintro ⟨hfits, hstored, hstored', -, hequal⟩
    rw [expand_eq] at hequal
    have hapart := apart_of_expanded _ _ hequal
    rw [replace_render placeholder_ne_nil _ hapart] at hstored' hequal
    rw [replace_username] at hequal
    exact ⟨hfits, hapart, hstored', hlone.mp hequal⟩
  · rintro ⟨hfits, hapart, hstored', hmark⟩
    rw [replace_render placeholder_ne_nil _ hapart]
    refine ⟨hfits, (length_hats_le s).trans_lt hfits, hstored', hresult, ?_⟩
    rw [expand_eq, replace_username]
    exact hlone.mpr hmark

end

theorem macro_expanded_logon :
    postprocessKeyboardMacro (some ['j', 'o', 'e']) (some ['^', 'M']) (['^', '^', '^', 'a'] ++ usernameMark ++ passwordMark) =
      some (expand ['j', 'o', 'e'] ['^', 'M'] 0 (['^', '^', '^', 'a'] ++ usernameMark ++ passwordMark)) :=
  (macro_expanded_iff (some ['j', 'o', 'e']) (some ['^', 'M']) _ (by decide)).mpr
    ⟨by decide, by decide, by decide, Or.inl (by decide)⟩

/-- The user name has the password's mark in it. -/
theorem not_macro_expanded : ¬ ∀ (username password : Option (List Char)) (s : List Char),
    s.length < keyboardMacroSize →
    (expand (username.getD usernameMark) (password.getD passwordMark) 0 s).length < keyboardMacroSize →
      postprocessKeyboardMacro username password s =
        some (expand (username.getD usernameMark) (password.getD passwordMark) 0 s) := by
  intro h
  have hone := (postprocess_some_iff _ _ _).mp (h (some passwordMark) (some ['x']) usernameMark (by decide) (by decide))
  exact absurd hone.2.2.2.2 (by decide)

end CProgram.Qodem.Macros
