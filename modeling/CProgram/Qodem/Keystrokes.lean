import Mathlib.Data.List.TakeWhile
import Mathlib.Tactic.Ring

/-! `qodem_win_getch` on curses: what the terminal sends is read character by character, and a sequence that curses does
not know is matched against a table. A sequence that cannot be matched is drained key by key. The screensaver is off. -/
namespace CProgram.Qodem.Keystrokes

/-- What `wget_wch` can give. -/
inductive Result where
  | char (ch : ℕ) | key (k : ℕ) | nothing

def err : ℤ := -1
def cEsc : ℕ := 27
def qKeyEscape : ℤ := 0x00E5CA9E
def qKeyTab : ℤ := 0x007AB000
def qKeyBracketOn : ℤ := 0x00B4ACE1
def qKeyBracketOff : ℤ := 0x00B4ACE0
def keyFlagAlt : ℕ := 1
def keyFlagCtrl : ℕ := 2
def keyFlagShift : ℕ := 4
def keyFlagUnicode : ℕ := 8

-- The numbers that ncurses has for its keys.
def keyMin : ℕ := 257
def keyDown : ℕ := 258
def keyUp : ℕ := 259
def keyLeft : ℕ := 260
def keyRight : ℕ := 261
def keyHome : ℕ := 262
def keyBackspace : ℕ := 263
def keyDc : ℕ := 330
def keyIc : ℕ := 331
def keyNpage : ℕ := 338
def keyPpage : ℕ := 339
def keyEnter : ℕ := 343
def keyEnd : ℕ := 360
def keyFind : ℕ := 362
def keySelect : ℕ := 385
def keySend : ℕ := 386
def keySfind : ℕ := 389
def keyShome : ℕ := 391
def keySuspend : ℕ := 407
def keyMouse : ℕ := 409
def keyResize : ℕ := 410
def keyMax : ℕ := 511

/-- An entry of `terminfo_keystrings`, its modifiers in one. -/
structure Entry where
  name : List ℕ
  keystroke : ℤ
  flags : ℕ

/-- The entries of a key with modifiers. -/
def modified (code last : ℕ) (keystroke : ℤ) : List Entry :=
  [(50, keyFlagShift), (51, keyFlagAlt), (52, keyFlagShift ||| keyFlagAlt), (53, keyFlagCtrl),
    (54, keyFlagShift ||| keyFlagCtrl), (55, keyFlagCtrl ||| keyFlagAlt),
    (56, keyFlagShift ||| keyFlagCtrl ||| keyFlagAlt)].map fun m =>
      ⟨[cEsc, 91, code, 59, m.1, last], keystroke, m.2⟩

/-- The entry of a key without modifiers. -/
def plainly (last : ℕ) (keystroke : ℤ) : Entry := ⟨[cEsc, 91, last], keystroke, 0⟩

def terminfoKeystrings : List Entry :=
  modified 51 126 keyDc ++
  modified 49 66 keyDown ++
  [plainly 75 keyEnd, plainly 70 keyEnd] ++ modified 49 70 keyEnd ++
  [plainly 76 keyHome, plainly 72 keyHome] ++ modified 49 72 keyHome ++
  [plainly 64 keyIc] ++ modified 50 126 keyIc ++
  [plainly 68 keyLeft] ++ modified 49 68 keyLeft ++
  [plainly 85 keyNpage] ++ modified 54 126 keyNpage ++
  [plainly 77 keyPpage, plainly 86 keyPpage] ++ modified 53 126 keyPpage ++
  [plainly 67 keyRight] ++ modified 49 67 keyRight ++
  [plainly 65 keyUp] ++ modified 49 65 keyUp ++
  [⟨[cEsc, 91, 50, 48, 48, 126], qKeyBracketOn, 0⟩, ⟨[cEsc, 91, 50, 48, 49, 126], qKeyBracketOff, 0⟩]

/-! ### `curses_match_keystring` -/

/-- The match state, as many characters of the buffer as are in it, the place where draining is, and `keys_in_queue`.
Behind its characters the buffer is zero. -/
structure Recogniser where
  matchState : ℕ
  buffer : List ℤ
  i : ℕ
  keysInQueue : Bool

/-- `curses_match_reset`. -/
def reset : Recogniser := ⟨0, [], 0, false⟩

/-- The value of a `char` that is signed. -/
def toByte (ch : ℤ) : ℤ := if ch % 256 < 128 then ch % 256 else ch % 256 - 256

/-- A place in the sixteen bytes of the buffer. -/
def Recogniser.byteAt (r : Recogniser) (k : ℕ) : Option ℤ := if k < 16 then some (r.buffer.getD k 0) else none

/-- From `drain_queue` on, in the state that drains. -/
def drain (r : Recogniser) (ch : ℤ) (flags : ℕ) : Option (Recogniser × ℤ × ℕ) := do
  let r := if ch ≠ err ∧ r.buffer.length < 15 then { r with buffer := r.buffer ++ [toByte ch] } else r
  let first ← r.byteAt r.i
  if 2 ≤ r.buffer.length - r.i ∧ first = 27 then
    let key ← r.byteAt (r.i + 1)
    let r' := if r.i + 2 = r.buffer.length then reset else { r with i := r.i + 2 }
    return (r', key, flags ||| keyFlagAlt)
  else
    let flags := if 0xFF < ch then flags ||| keyFlagUnicode else flags
    let next ← r.byteAt (r.i + 1)
    let r' : Recogniser :=
      if r.i + 1 = r.buffer.length - 1 ∧ next = 27 then ⟨1, [27], 0, true⟩
      else if r.i + 1 = r.buffer.length then reset
      else { r with i := r.i + 1 }
    return (r', first, flags)

/-- The characters that complete a sequence, and those that go on with it. -/
def finals : List ℕ := [126, 65, 66, 67, 68, 70, 72, 75, 86, 85, 64]
def params : List ℕ := [48, 49, 50, 51, 52, 53, 54, 55, 56, 57, 59, 91]

/-- The search of the table for what is in the buffer. -/
def search (buffer : List ℤ) : ℤ × ℕ :=
  match terminfoKeystrings.find? fun e => e.name.map Int.ofNat = buffer.takeWhile (· ≠ 0) with
  | some e => (e.keystroke, e.flags)
  | none => (err, 0)

/-- Nothing where an assertion fails or the program aborts. -/
def keystring (r : Recogniser) (ch : ℤ) (flags : ℕ) : Option (Recogniser × ℤ × ℕ) :=
  if r.matchState = 2 then drain r ch flags
  else if ch = err ∨ r.keysInQueue = true ∨ r.i ≠ 0 then none
  else if ¬ r.buffer.length < 15 then drain { r with matchState := 2, keysInQueue := true } err flags
  else
    let r := { r with buffer := r.buffer ++ [toByte ch] }
    if r.matchState = 0 then
      if ch ≠ cEsc then
        if r.buffer.length = 1 then
          some ({ r with buffer := [] }, ch, if 0xFF < ch then flags ||| keyFlagUnicode else flags)
        else none
      else some ({ r with matchState := 1 }, err, 0)
    else if r.matchState = 1 then
      if r.buffer.length = 2 ∧ ch ≠ 91 then some (reset, ch, keyFlagAlt)
      else if ch.toNat ∈ finals then some (reset, search r.buffer)
      else if ch.toNat ∈ params then some (r, err, 0)
      else drain { r with matchState := 2, keysInQueue := true } err flags
    else none

/-! ### `qodem_win_getch` -/

def wgetWch : List Result → Result × List Result
  | [] => (.nothing, [])
  | res :: results => (res, results)

/-- The remapping at the end. `ok` is for a character. -/
def finish (key : ℤ) (flags : ℕ) (ok : Bool) : ℤ × ℕ :=
  let key := if key = 13 ∧ ok then (keyEnter : ℤ) else key
  let key := if key = 9 ∧ ok then qKeyTab else key
  let flags := if key < 0x20 ∧ ok then flags ||| keyFlagCtrl else flags
  let key := if key = keyFind then (keyHome : ℤ) else key
  let (key, flags) := if key = keySfind then ((keyHome : ℤ), keyFlagShift) else (key, flags)
  let key := if key = keySelect then (keyEnd : ℤ) else key
  let (key, flags) := if key = keyShome then ((keyHome : ℤ), keyFlagShift) else (key, flags)
  if key = keySend then ((keyEnd : ℤ), keyFlagShift) else (key, flags)

/-- A key that curses knows. `handle_resize` and `handle_mouse` leave no keystroke. -/
def functionKey (extended : ℕ → ℤ × ℕ) (k : ℕ) : ℤ × ℕ :=
  if k = keyResize ∨ k = keyMouse then finish err 0 false
  else if k = keySuspend then finish 0x1A 0 false
  else if k < keyMin ∨ keyMax < k then finish (extended k).1 (extended k).2 false
  else finish k 0 false

/-- The loop behind ESC, with whether the last result was a character. -/
def collect : Recogniser → ℤ → ℕ → List Result → Option (Recogniser × (ℤ × ℕ) × Bool × List Result)
  | r, key, flags, [] => some (r, (key, flags), decide (r.matchState ≠ 1), [])
  | r, key, flags, res :: results =>
    if r.matchState ≠ 1 then some (r, (key, flags), true, res :: results)
    else
      match res with
      | .nothing => some (r, (key, flags), false, results)
      | .key k => (keystring r k flags).map fun q => (q.1, q.2, false, results)
      | .char ch => (keystring r ch flags).bind fun q => collect q.1 q.2.1 q.2.2 results

/-- What is behind an ESC. -/
def escape (r : Recogniser) (results : List Result) :
    Option (Recogniser × (ℤ × ℕ) × List Result) :=
  match (wgetWch results).1 with
  | .nothing => some (r, finish qKeyEscape 0 false, (wgetWch results).2)
  | .key k => some (reset, finish k 0 false, (wgetWch results).2)
  | .char ch =>
    if r.keysInQueue then none
    else
      (keystring r cEsc 0).bind fun q =>
        (keystring q.1 ch q.2.2).bind fun q =>
          (collect q.1 q.2.1 q.2.2 (wgetWch results).2).map fun q =>
            (q.1, finish q.2.1.1 q.2.1.2 q.2.2.1, q.2.2.2)

/-- One call, with what the flags are when it is made. -/
def getch (extended : ℕ → ℤ × ℕ) (r : Recogniser) (results : List Result) (flags : ℕ) :
    Option (Recogniser × (ℤ × ℕ) × List Result) :=
  if r.keysInQueue then
    (keystring r err flags).bind fun q => if q.2.1 = err then none else some (q.1, q.2, results)
  else
    match (wgetWch results).1 with
    | .nothing => some (r, finish err 0 false, (wgetWch results).2)
    | .key k => some (r, functionKey extended k, (wgetWch results).2)
    | .char ch =>
      if ch = 0x7F ∨ ch = 8 then some (r, finish keyBackspace 0 true, (wgetWch results).2)
      else if ch = cEsc then escape r (wgetWch results).2
      else if r.matchState = 2 then none
      else if r.matchState ≠ 0 then
        (keystring r ch 0).map fun q => (q.1, finish q.2.1 q.2.2 true, (wgetWch results).2)
      else some (r, finish ch 0 true, (wgetWch results).2)

/-! ### Reading from left to right -/

/-- A keystroke, unless there is none. -/
def reported (q : ℤ × ℕ) : List (ℤ × ℕ) := if q.1 = err then [] else [q]

inductive Mode where
  | ground | esc | csi (text : List ℕ)

/-- A character for itself. Carriage return and tab have keys. -/
def typed (ch flags : ℕ) : ℤ × ℕ :=
  if ch = 13 then (keyEnter, flags)
  else if ch = 9 then (qKeyTab, flags)
  else (ch, if ch < 0x20 then flags ||| keyFlagCtrl else flags)

/-- A character outside of a sequence. Delete and `^H` are backspace. -/
def plain (ch : ℕ) : ℤ × ℕ := if ch = 0x7F ∨ ch = 8 then (keyBackspace, 0) else typed ch 0

/-- The entry for a sequence. -/
def lookup (text : List ℕ) : Option Entry := terminfoKeystrings.find? fun e => e.name = text

/-- A character of a sequence that cannot be matched. -/
def own (ch : ℕ) : ℤ × ℕ := (ch, 0)

def reading (extended : ℕ → ℤ × ℕ) : Mode → List Result → List (ℤ × ℕ)
  | .ground, [] => []
  | .ground, .nothing :: rest => reading extended .ground rest
  | .ground, .key k :: rest => reported (functionKey extended k) ++ reading extended .ground rest
  | .ground, .char ch :: rest =>
    if ch = cEsc then reading extended .esc rest else plain ch :: reading extended .ground rest
  | .esc, [] => [(qKeyEscape, 0)]
  | .esc, .nothing :: rest => (qKeyEscape, 0) :: reading extended .ground rest
  | .esc, .key k :: rest => reported (functionKey extended k) ++ reading extended .ground rest
  | .esc, .char ch :: rest =>
    if ch = 91 then reading extended (.csi [cEsc, 91]) rest
    else typed ch keyFlagAlt :: reading extended .ground rest
  | .csi _, [] => []
  | .csi text, .nothing :: rest => reading extended (.csi text) rest
  | .csi _, .key k :: rest => reported (functionKey extended k) ++ reading extended .ground rest
  | .csi text, .char ch :: rest =>
    match lookup (text ++ [ch]) with
    | some e => (e.keystroke, e.flags) :: reading extended .ground rest
    | none =>
      if ch ∈ finals then reading extended .ground rest
      else if ch ∈ params then reading extended (.csi (text ++ [ch])) rest
      else if ch = cEsc then typed 91 keyFlagAlt :: (text.drop 2).map own ++ reading extended .esc rest
      else typed 91 keyFlagAlt :: (text.drop 2 ++ [ch]).map own ++ reading extended .ground rest

/-- The characters that have the number of a key which is taken for another. -/
def remapped : List ℕ := [keyFind, keySfind, keySelect, keyShome, keySend]

/-- A key that is given with its number. -/
def Ordinary (k : ℕ) : Prop := k ∉ [keyResize, keyMouse, keySuspend] ∧ keyMin ≤ k ∧ k ≤ keyMax

/-- What the recogniser does not go wrong at. `waited` is for a sequence that a call has left unfinished: in it a call that
begins with a backspace would not look at the sequence. -/
def Fine : Mode → Bool → List Result → Prop
  | .ground, _, [] => True
  | .ground, _, .nothing :: rest => Fine .ground false rest
  | .ground, _, .key _ :: rest => Fine .ground false rest
  | .ground, _, .char ch :: rest =>
    if ch = cEsc then Fine .esc false rest else ch ∉ remapped ∧ Fine .ground false rest
  | .esc, _, [] => True
  | .esc, _, .nothing :: rest => Fine .ground false rest
  | .esc, _, .key k :: rest => Ordinary k ∧ Fine .ground false rest
  | .esc, _, .char ch :: rest =>
    if ch = 91 then Fine (.csi [cEsc, 91]) false rest else ch ∉ remapped ∧ Fine .ground false rest
  | .csi _, _, [] => True
  | .csi text, _, .nothing :: rest => Fine (.csi text) true rest
  | .csi _, _, .key _ :: _ => False
  | .csi text, waited, .char ch :: rest =>
    (text.length < 15 ∧ ch ≠ cEsc ∧ (waited = true → ch ≠ 0x7F ∧ ch ≠ 8) ∧
        (ch ∉ finals → lookup (text ++ [ch]) = none)) ∧
      if ch ∈ finals then Fine .ground false rest
      else if ch ∈ params then Fine (.csi (text ++ [ch])) waited rest
      else ch < 128 ∧ Fine .ground false rest

variable {extended : ℕ → ℤ × ℕ} {r : Recogniser} {rest : List Result}

/-- What has come in and not gone out: a sequence that is not complete, or keys that are in the queue. -/
def owed (extended : ℕ → ℤ × ℕ) (r : Recogniser) (rest : List Result) : List (ℤ × ℕ) :=
  if r.keysInQueue then ((r.buffer.drop r.i).map fun b => (b, 0)) ++ reading extended .ground rest
  else if r.matchState = 1 then reading extended (.csi (r.buffer.map Int.toNat)) rest
  else reading extended .ground rest

/-- A sequence so far, which has begun with ESC and a bracket. -/
structure Begun (text : List ℕ) : Prop where
  front : ∃ later, text = cEsc :: 91 :: later
  small : ∀ ch ∈ text, 0 < ch ∧ ch < 128
  later : ∀ ch ∈ text.drop 2, ch ≠ cEsc

/-- The recogniser between two calls, with what is still to come. -/
inductive Sound : Recogniser → List Result → Prop
  | ground {results : List Result} (hfine : Fine .ground false results) : Sound reset results
  | begun {text : List ℕ} {results : List Result} (h : Begun text) (hfine : Fine (.csi text) true results) :
      Sound ⟨1, text.map Int.ofNat, 0, false⟩ results
  | draining {text : List ℕ} {results : List Result} {i : ℕ} (hi : i < text.length) (hlong : text.length < 16)
      (hsmall : ∀ ch ∈ text.drop i, ch < 128 ∧ ch ≠ cEsc) (hfine : Fine .ground false results) :
      Sound ⟨2, text.map Int.ofNat, i, true⟩ results

theorem toByte_small {ch : ℕ} (h : ch < 128) : toByte ch = ch := by
  unfold toByte
  omega

theorem finals_facts : ∀ ch ∈ finals, 0 < ch ∧ ch < 128 := by decide
theorem params_facts : ∀ ch ∈ params, (0 < ch ∧ ch < 128) ∧ ch ≠ cEsc := by decide

theorem finish_err (flags : ℕ) (ok : Bool) : (finish err flags ok).1 = err := by
  cases ok <;> simp [finish, err, keyFind, keySfind, keySelect, keyShome, keySend]

theorem functionKey_ordinary {k : ℕ} (h : Ordinary k) : functionKey extended k = finish k 0 false := by
  obtain ⟨hother, hmin, hmax⟩ := h
  simp only [List.mem_cons, List.not_mem_nil, or_false, not_or] at hother
  unfold functionKey
  rw [if_neg (not_or.mpr ⟨hother.1, hother.2.1⟩), if_neg hother.2.2, if_neg (by omega)]

theorem reported_err {q : ℤ × ℕ} (h : q.1 = err) : reported q = [] := if_pos h

theorem reported_nat {q : ℤ × ℕ} (h : 0 ≤ q.1) : reported q = [q] := by
  refine if_neg ?_
  unfold err
  omega

theorem finish_typed {ch : ℕ} (h : ch ∉ remapped) (flags : ℕ) : finish ch flags true = typed ch flags := by
  simp only [remapped, List.mem_cons, List.not_mem_nil, or_false, not_or, keyFind, keySfind, keySelect, keyShome,
    keySend] at h
  obtain ⟨hfind, hsfind, hselect, hshome, hsend⟩ := h
  unfold finish typed
  by_cases hcr : ch = 13
  · subst hcr
    simp [keyEnter, keyFind, keySfind, keySelect, keyShome, keySend]
  · by_cases htab : ch = 9
    · subst htab
      simp [qKeyTab, keyFind, keySfind, keySelect, keyShome, keySend]
    · have hcast : (ch : ℤ) ≠ 13 ∧ (ch : ℤ) ≠ 9 ∧ (ch : ℤ) ≠ 362 ∧ (ch : ℤ) ≠ 389 ∧ (ch : ℤ) ≠ 385 ∧
          (ch : ℤ) ≠ 391 ∧ (ch : ℤ) ≠ 386 := by omega
      obtain ⟨h13, h9, h362, h389, h385, h391, h386⟩ := hcast
      have hctrl : (ch : ℤ) < 0x20 ↔ ch < 0x20 := by omega
      simp [hcr, htab, keyFind, keySfind, keySelect, keyShome, keySend, h13, h9, h362, h389, h385, h391, h386,
        hctrl]

theorem reported_typed (ch flags : ℕ) : reported (typed ch flags) = [typed ch flags] := by
  refine reported_nat ?_
  unfold typed qKeyTab
  split_ifs <;> simp

theorem reported_plain (ch : ℕ) : reported (plain ch) = [plain ch] := by
  by_cases h : ch = 0x7F ∨ ch = 8
  · rw [plain, if_pos h]
    exact reported_nat (Int.natCast_nonneg keyBackspace)
  · rw [plain, if_neg h, reported_typed]

/-- Every entry is given as it stands. -/
theorem finish_entry : ∀ e ∈ terminfoKeystrings,
    0 ≤ e.keystroke ∧ finish e.keystroke e.flags true = (e.keystroke, e.flags) := by
  decide

/-- What is found for a complete sequence. -/
theorem search_small {text : List ℕ} (h : ∀ ch ∈ text, 0 < ch ∧ ch < 128) :
    search (text.map Int.ofNat) =
      match lookup text with
      | some e => (e.keystroke, e.flags)
      | none => (err, 0) := by
  have hnul : (text.map Int.ofNat).takeWhile (· ≠ 0) = text.map Int.ofNat := by
    rw [List.takeWhile_eq_self_iff]
    intro b hb
    obtain ⟨ch, hch, rfl⟩ := List.mem_map.mp hb
    have hpos := (h ch hch).1
    simp
    omega
  have hname (e : Entry) : e.name.map Int.ofNat = text.map Int.ofNat ↔ e.name = text :=
    List.map_inj_right fun _ _ => Int.ofNat.inj
  unfold search lookup
  simp only [hnul, hname]

/-! ### One character of a sequence -/

theorem Begun.snoc {text : List ℕ} (h : Begun text) {ch : ℕ} (hpos : 0 < ch ∧ ch < 128) (hesc : ch ≠ cEsc) :
    Begun (text ++ [ch]) := by
  obtain ⟨later, rfl⟩ := h.front
  refine ⟨⟨later ++ [ch], rfl⟩, fun d hd => ?_, fun d hd => ?_⟩
  · exact (List.mem_append.mp hd).elim (h.small d) fun hlast => List.mem_singleton.mp hlast ▸ hpos
  · exact (List.mem_append.mp (show d ∈ later ++ [ch] from hd)).elim (h.later d) fun hlast =>
      List.mem_singleton.mp hlast ▸ hesc

/-- What a character does in a sequence. -/
theorem keystring_begun {text : List ℕ} (h : Begun text) (hroom : text.length < 15) (ch flags : ℕ) :
    keystring ⟨1, text.map Int.ofNat, 0, false⟩ ch flags =
      if ch ∈ finals then some (reset, search ((text ++ [ch]).map Int.ofNat))
      else if ch ∈ params then some (⟨1, (text ++ [ch]).map Int.ofNat, 0, false⟩, err, 0)
      else drain ⟨2, text.map Int.ofNat ++ [toByte ch], 0, true⟩ err flags := by
  obtain ⟨later, rfl⟩ := h.front
  have herr : (ch : ℤ) ≠ err := by
    unfold err
    omega
  have hbyte (hsmall : ch < 128) : ((cEsc :: 91 :: later).map Int.ofNat) ++ [toByte ch] =
      ((cEsc :: 91 :: later) ++ [ch]).map Int.ofNat := by
    rw [toByte_small hsmall, List.map_append]
    rfl
  have hlen : ((cEsc :: 91 :: later).map Int.ofNat).length < 15 := by simpa using hroom
  unfold keystring
  rw [if_neg (by simp), if_neg (by simp [herr]), if_neg (not_not.mpr hlen)]
  dsimp only
  rw [if_neg (by simp), if_pos rfl, if_neg (by simp), Int.toNat_natCast]
  by_cases hfinal : ch ∈ finals
  · rw [if_pos hfinal, if_pos hfinal, hbyte (finals_facts ch hfinal).2]
  · rw [if_neg hfinal, if_neg hfinal]
    by_cases hparam : ch ∈ params
    · rw [if_pos hparam, if_pos hparam, hbyte (params_facts ch hparam).1.2]
    · rw [if_neg hparam, if_neg hparam]

/-- The first key of a sequence that cannot be matched. -/
theorem drain_begun {text : List ℕ} (h : Begun text) {ch : ℕ} (hsmall : ch < 128) (flags : ℕ) :
    drain ⟨2, text.map Int.ofNat ++ [toByte ch], 0, true⟩ err flags =
      some (⟨2, (text ++ [ch]).map Int.ofNat, 2, true⟩, 91, flags ||| keyFlagAlt) := by
  obtain ⟨later, rfl⟩ := h.front
  rw [toByte_small hsmall]
  simp [drain, Recogniser.byteAt, cEsc]

/-! ### The loop behind ESC -/

theorem keystring_first (flags : ℕ) : keystring reset cEsc flags = some (⟨1, [27], 0, false⟩, err, 0) := by
  simp [keystring, reset, cEsc, err, toByte]

theorem keystring_second (ch flags : ℕ) :
    keystring ⟨1, [27], 0, false⟩ ch flags =
      if ch = 91 then some (⟨1, [cEsc, 91].map Int.ofNat, 0, false⟩, err, 0)
      else some (reset, (ch : ℤ), keyFlagAlt) := by
  have herr : (ch : ℤ) ≠ err := by
    unfold err
    omega
  by_cases h : ch = 91
  · subst h
    rw [if_pos rfl]
    simp [keystring, err, toByte, finals, params, cEsc]
  · have hcast : (ch : ℤ) ≠ 91 := by omega
    rw [if_neg h]
    simp [keystring, herr, hcast]

theorem begun_start : Begun [cEsc, 91] where
  front := ⟨[], rfl⟩
  small := by decide
  later := by decide

theorem owed_reset : owed extended reset rest = reading extended .ground rest := rfl

theorem owed_begun (text : List ℕ) :
    owed extended ⟨1, text.map Int.ofNat, 0, false⟩ rest = reading extended (.csi text) rest := by
  have hback : (text.map Int.ofNat).map Int.toNat = text := by
    rw [List.map_map]
    exact List.map_id text
  unfold owed
  rw [if_neg (by simp), if_pos rfl, hback]

theorem owed_draining (text : List ℕ) (i : ℕ) :
    owed extended ⟨2, text.map Int.ofNat, i, true⟩ rest = (text.drop i).map own ++ reading extended .ground rest := by
  unfold owed
  rw [if_pos rfl, ← List.map_drop, List.map_map]
  rfl

/-- A character in a sequence: the sequence goes on, or something is given. -/
theorem begun_step {text : List ℕ} {waited : Bool} {ch : ℕ} (h : Begun text)
    (hfine : Fine (.csi text) waited (.char ch :: rest)) :
    (∃ text', keystring ⟨1, text.map Int.ofNat, 0, false⟩ ch 0 =
          some (⟨1, text'.map Int.ofNat, 0, false⟩, err, 0) ∧
        Begun text' ∧ Fine (.csi text') waited rest ∧
        reading extended (.csi text) (.char ch :: rest) = reading extended (.csi text') rest) ∨
      ∃ r' key flags, keystring ⟨1, text.map Int.ofNat, 0, false⟩ ch 0 = some (r', key, flags) ∧
        r'.matchState ≠ 1 ∧ Sound r' rest ∧
        reading extended (.csi text) (.char ch :: rest) = reported (finish key flags true) ++ owed extended r' rest := by
  obtain ⟨⟨hroom, hesc, -, hlook⟩, hrest⟩ := hfine
  rw [keystring_begun h hroom]
  by_cases hfinal : ch ∈ finals
  · right
    rw [if_pos hfinal] at hrest
    refine ⟨reset, (search ((text ++ [ch]).map Int.ofNat)).1, (search ((text ++ [ch]).map Int.ofNat)).2,
      if_pos hfinal, by decide, .ground hrest, ?_⟩
    rw [search_small (h.snoc (finals_facts ch hfinal) hesc).small, owed_reset, reading]
    cases hlook : lookup (text ++ [ch]) with
    | none =>
      dsimp only
      rw [if_pos hfinal, reported_err (finish_err _ _)]
      rfl
    | some e =>
      have hentry := finish_entry e (List.mem_of_find?_eq_some hlook)
      dsimp only
      rw [hentry.2, reported_nat hentry.1]
      rfl
  · rw [if_neg hfinal] at hrest
    rw [if_neg hfinal, reading, hlook hfinal]
    dsimp only
    by_cases hparam : ch ∈ params
    · left
      rw [if_pos hparam] at hrest
      refine ⟨text ++ [ch], if_pos hparam, h.snoc (params_facts ch hparam).1 hesc, hrest, ?_⟩
      rw [if_neg hfinal, if_pos hparam]
    · right
      rw [if_neg hparam] at hrest
      have htwo : 2 ≤ text.length := by
        obtain ⟨later, rfl⟩ := h.front
        simp
      have hdrop : (text ++ [ch]).drop 2 = text.drop 2 ++ [ch] := List.drop_append_of_le_length htwo
      refine ⟨_, _, _, (if_neg hparam).trans (drain_begun h hrest.1 0), by simp, .draining ?_ ?_ ?_ hrest.2, ?_⟩
      · rw [List.length_append, List.length_singleton]
        omega
      · rw [List.length_append, List.length_singleton]
        omega
      · intro d hd
        rw [hdrop] at hd
        rcases List.mem_append.mp hd with hd | hd
        · exact ⟨(h.small d (List.mem_of_mem_drop hd)).2, h.later d hd⟩
        · exact List.mem_singleton.mp hd ▸ ⟨hrest.1, hesc⟩
      · rw [owed_draining, hdrop, if_neg hfinal, if_neg hparam, if_neg hesc]
        rfl

theorem collect_done {r : Recogniser} (h : r.matchState ≠ 1) (key : ℤ) (flags : ℕ) :
    ∀ results, collect r key flags results = some (r, (key, flags), true, results)
  | [] => by simp [collect, h]
  | res :: results => by simp [collect, h]

/-- What the loop gives for the part of a sequence that is read. -/
theorem collect_begun {results : List Result} : ∀ {text : List ℕ} {waited : Bool},
    Begun text → Fine (.csi text) waited results →
      ∃ r' q ok rest', collect ⟨1, text.map Int.ofNat, 0, false⟩ err 0 results = some (r', q, ok, rest') ∧
        Sound r' rest' ∧
        reading extended (.csi text) results = reported (finish q.1 q.2 ok) ++ owed extended r' rest' := by
  induction results with
  | nil =>
    intro text waited h hfine
    refine ⟨_, _, _, _, rfl, .begun h trivial, ?_⟩
    rw [reported_err (finish_err _ _), owed_begun]
    rfl
  | cons res results ih =>
    intro text waited h hfine
    cases res with
    | nothing =>
      refine ⟨_, _, _, _, rfl, .begun h hfine, ?_⟩
      rw [reported_err (finish_err _ _), owed_begun]
      rfl
    | key k => exact hfine.elim
    | char ch =>
      rw [collect, if_neg (by simp)]
      rcases begun_step h hfine with
        ⟨text', heq, h', hfine', hread⟩ | ⟨r', key, flags, heq, hstate, hsound, hread⟩
      · rw [heq, hread]
        exact ih h' hfine'
      · rw [heq, hread]
        exact ⟨r', (key, flags), true, results, collect_done hstate key flags results, hsound, rfl⟩

theorem escape_step {results : List Result} (hfine : Fine .esc false results) :
    ∃ r' q rest', escape reset results = some (r', q, rest') ∧ Sound r' rest' ∧
      reading extended .esc results = reported q ++ owed extended r' rest' := by
  rcases results with _ | ⟨res, results⟩
  · exact ⟨reset, _, [], rfl, .ground trivial, rfl⟩
  · cases res with
    | nothing => exact ⟨reset, _, results, rfl, .ground hfine, rfl⟩
    | key k =>
      refine ⟨reset, _, results, rfl, .ground hfine.2, ?_⟩
      rw [reading, functionKey_ordinary hfine.1, owed_reset]
    | char ch =>
      have hstart : escape reset (.char ch :: results) =
          (keystring ⟨1, [27], 0, false⟩ ch 0).bind fun q =>
            (collect q.1 q.2.1 q.2.2 results).map fun q =>
              (q.1, finish q.2.1.1 q.2.1.2 q.2.2.1, q.2.2.2) := by
        unfold escape wgetWch
        dsimp only
        rw [if_neg (by simp [reset]), keystring_first, Option.bind_some]
      rw [hstart, keystring_second]
      by_cases h : ch = 91
      · subst h
        obtain ⟨r', q, ok, rest', heq, hsound, hread⟩ := collect_begun begun_start hfine
        refine ⟨r', finish q.1 q.2 ok, rest', ?_, hsound, hread⟩
        rw [if_pos rfl, Option.bind_some, heq]
        rfl
      · have hrest : ch ∉ remapped ∧ Fine .ground false results := (if_neg h).mp hfine
        refine ⟨reset, finish ch keyFlagAlt true, results, ?_, .ground hrest.2, ?_⟩
        · rw [if_neg h, Option.bind_some, collect_done (show reset.matchState ≠ 1 by decide)]
          rfl
        · rw [reading, if_neg h, owed_reset, finish_typed hrest.1, reported_typed]
          rfl

/-! ### Draining -/

/-- A key from the queue. -/
theorem drain_step {text : List ℕ} {i : ℕ} (hi : i < text.length) (hlong : text.length < 16)
    (hsmall : ∀ ch ∈ text.drop i, ch < 128 ∧ ch ≠ cEsc) :
    drain ⟨2, text.map Int.ofNat, i, true⟩ err 0 =
      some (if i + 1 = text.length then reset else ⟨2, text.map Int.ofNat, i + 1, true⟩, own text[i]) := by
  have hbyte (k : ℕ) (hk : k < text.length) :
      (⟨2, text.map Int.ofNat, i, true⟩ : Recogniser).byteAt k = some (text[k] : ℤ) := by
    have h16 : k < 16 := by omega
    simp [Recogniser.byteAt, h16, hk]
  have hesc (k : ℕ) (hik : i ≤ k) (hk : k < text.length) : (text[k] : ℤ) ≠ 27 := by
    have hmem : text[k] ∈ text.drop i := List.mem_drop_iff_getElem.mpr ⟨k - i, by omega, by simp [hik]⟩
    have := (hsmall _ hmem).2
    unfold cEsc at this
    omega
  have hlast : i + 1 = text.length → (⟨2, text.map Int.ofNat, i, true⟩ : Recogniser).byteAt (i + 1) = some 0 := by
    intro hend
    simp [Recogniser.byteAt, hend, hlong]
  have hfirst : ¬ (2 ≤ (text.map Int.ofNat).length - i ∧ (text[i] : ℤ) = 27) := fun h => hesc i le_rfl hi h.2
  unfold drain
  rw [if_neg (by simp [err])]
  dsimp only
  rw [hbyte i hi, Option.bind_eq_bind, Option.bind_some, if_neg hfirst]
  by_cases hend : i + 1 = text.length
  · rw [hlast hend]
    simp [hend, own, err]
  · rw [hbyte (i + 1) (by omega)]
    simp [hend, own, err, hesc (i + 1) (by omega) (by omega)]

/-! ### One call -/

theorem getch_ground {results : List Result} {flags : ℕ} (hfine : Fine .ground false results) :
    ∃ r' q rest', getch extended reset results flags = some (r', q, rest') ∧ Sound r' rest' ∧
      reading extended .ground results = reported q ++ owed extended r' rest' := by
  rcases results with _ | ⟨res, results⟩
  · refine ⟨reset, _, [], rfl, .ground trivial, ?_⟩
    rw [reported_err (finish_err _ _)]
    rfl
  · cases res with
    | nothing =>
      refine ⟨reset, _, results, rfl, .ground hfine, ?_⟩
      rw [reported_err (finish_err _ _)]
      rfl
    | key k => exact ⟨reset, _, results, rfl, .ground hfine, rfl⟩
    | char ch =>
      by_cases hesc : ch = cEsc
      · subst hesc
        exact escape_step hfine
      · have hrest : ch ∉ remapped ∧ Fine .ground false results := (if_neg hesc).mp hfine
        refine ⟨reset, plain ch, results, ?_, .ground hrest.2, ?_⟩
        · by_cases hback : ch = 0x7F ∨ ch = 8
          · simp [getch, reset, wgetWch, plain, hback]
            rfl
          · simp [getch, reset, wgetWch, plain, hback, hesc, finish_typed hrest.1]
        · rw [owed_reset, reading, if_neg hesc, reported_plain]
          rfl

theorem getch_begun {text : List ℕ} {results : List Result} {flags : ℕ} (h : Begun text)
    (hfine : Fine (.csi text) true results) :
    ∃ r' q rest', getch extended ⟨1, text.map Int.ofNat, 0, false⟩ results flags = some (r', q, rest') ∧
      Sound r' rest' ∧ reading extended (.csi text) results = reported q ++ owed extended r' rest' := by
  rcases results with _ | ⟨res, results⟩
  · refine ⟨_, _, [], rfl, .begun h trivial, ?_⟩
    rw [reported_err (finish_err _ _)]
    rfl
  · cases res with
    | nothing =>
      refine ⟨_, _, results, rfl, .begun h hfine, ?_⟩
      rw [reported_err (finish_err _ _), owed_begun]
      rfl
    | key k => exact hfine.elim
    | char ch =>
      have hcall : getch extended ⟨1, text.map Int.ofNat, 0, false⟩ (.char ch :: results) flags =
          (keystring ⟨1, text.map Int.ofNat, 0, false⟩ ch 0).map fun q =>
            (q.1, finish q.2.1 q.2.2 true, results) := by
        have hback : ¬ (ch = 0x7F ∨ ch = 8) := not_or.mpr (hfine.1.2.2.1 rfl)
        have hesc : ch ≠ cEsc := hfine.1.2.1
        simp [getch, wgetWch, hback, hesc]
      rw [hcall]
      rcases begun_step h hfine with
        ⟨text', heq, h', hfine', hread⟩ | ⟨r', key, flags', heq, -, hsound, hread⟩
      · refine ⟨_, finish err 0 true, results, by rw [heq]; rfl, .begun h' hfine', ?_⟩
        rw [hread, reported_err (finish_err _ _), owed_begun]
        rfl
      · exact ⟨r', finish key flags' true, results, by rw [heq]; rfl, hsound, hread⟩

theorem getch_draining {text : List ℕ} {results : List Result} {i : ℕ} (hi : i < text.length)
    (hlong : text.length < 16) (hsmall : ∀ ch ∈ text.drop i, ch < 128 ∧ ch ≠ cEsc)
    (hfine : Fine .ground false results) :
    ∃ r' q rest', getch extended ⟨2, text.map Int.ofNat, i, true⟩ results 0 = some (r', q, rest') ∧
      Sound r' rest' ∧
      (text.drop i).map own ++ reading extended .ground results = reported q ++ owed extended r' rest' := by
  have hcall : getch extended ⟨2, text.map Int.ofNat, i, true⟩ results 0 =
      some (if i + 1 = text.length then reset else ⟨2, text.map Int.ofNat, i + 1, true⟩, own text[i], results) := by
    have hkey : (own text[i]).1 ≠ err := by
      simp [own, err]
    simp [getch, keystring, drain_step hi hlong hsmall, hkey]
  have hdrop : text.drop i = text[i] :: text.drop (i + 1) := List.drop_eq_getElem_cons hi
  have hown : reported (own text[i]) = [own text[i]] := reported_nat (Int.natCast_nonneg text[i])
  refine ⟨_, _, _, hcall, ?_, ?_⟩
  · split_ifs with hend
    · exact .ground hfine
    · exact .draining (by omega) hlong (fun ch hch => hsmall ch (by rw [hdrop]; exact .tail _ hch)) hfine
  · rw [hdrop, hown]
    split_ifs with hend
    · rw [hend, List.drop_length, owed_reset]
      rfl
    · rw [owed_draining]
      rfl

/-- What a call gives and what is then owed, together what was owed before it. -/
theorem getch_step {results : List Result} {flags : ℕ} (h : Sound r results)
    (hflags : r.keysInQueue = true → flags = 0) :
    ∃ r' q rest', getch extended r results flags = some (r', q, rest') ∧ Sound r' rest' ∧
      owed extended r results = reported q ++ owed extended r' rest' := by
  cases h with
  | ground hfine => exact getch_ground hfine
  | begun h hfine =>
    rw [owed_begun]
    exact getch_begun h hfine
  | draining hi hlong hsmall hfine =>
    obtain rfl := hflags rfl
    rw [owed_draining]
    exact getch_draining hi hlong hsmall hfine

/-! ### Calls -/

/-- One call for each of the flags, with what is reported. -/
def run (extended : ℕ → ℤ × ℕ) : Recogniser → List Result → List ℕ →
    Option (List (ℤ × ℕ) × Recogniser × List Result)
  | r, results, [] => some ([], r, results)
  | r, results, flags :: calls =>
    (getch extended r results flags).bind fun q =>
      (run extended q.1 q.2.2 calls).map fun p => (reported q.2.1 ++ p.1, p.2)

/-- The calls do not fail, and give what the reading gives: as far as they have come, and all of it when nothing is left
to read and the queue is empty. -/
def Reads (extended : ℕ → ℤ × ℕ) (results : List Result) (calls : List ℕ) : Prop :=
  ∃ given r rest, run extended reset results calls = some (given, r, rest) ∧
    given <+: reading extended .ground results ∧
    (rest = [] → r.keysInQueue = false → given = reading extended .ground results)

/-- The flags are zero at each call that takes a key from the queue. -/
def Cleared (extended : ℕ → ℤ × ℕ) : Recogniser → List Result → List ℕ → Prop
  | _, _, [] => True
  | r, results, flags :: calls =>
    (r.keysInQueue = true → flags = 0) ∧
      ∀ q, getch extended r results flags = some q → Cleared extended q.1 q.2.2 calls

theorem cleared_zero {calls : List ℕ} (h : ∀ flags ∈ calls, flags = 0) :
    ∀ (r : Recogniser) (results : List Result), Cleared extended r results calls := by
  induction calls with
  | nil => exact fun _ _ => trivial
  | cons flags calls ih =>
    intro r results
    exact ⟨fun _ => h flags (.head _), fun q _ => ih (fun f hf => h f (.tail _ hf)) q.1 q.2.2⟩

theorem run_owed {calls : List ℕ} : ∀ {r : Recogniser} {results : List Result},
    Sound r results → Cleared extended r results calls →
      ∃ given r' rest, run extended r results calls = some (given, r', rest) ∧ Sound r' rest ∧
        owed extended r results = given ++ owed extended r' rest := by
  induction calls with
  | nil => exact fun h _ => ⟨[], _, _, rfl, h, rfl⟩
  | cons flags calls ih =>
    intro r results h hflags
    obtain ⟨r₁, q, results₁, hcall, h₁, howed⟩ := getch_step h hflags.1
    obtain ⟨given, r', rest, hrun, h', hrest⟩ := ih h₁ (hflags.2 _ hcall)
    refine ⟨reported q ++ given, r', rest, ?_, h', ?_⟩
    · rw [run, hcall, Option.bind_some, hrun]
      rfl
    · rw [howed, hrest, List.append_assoc]

/-- At the end only a sequence that is not complete is left. -/
theorem owed_nil {r : Recogniser} (h : r.keysInQueue = false) : owed extended r [] = [] := by
  unfold owed
  rw [if_neg (by simp [h])]
  split_ifs <;> rfl

/-- Where the results are such as the recogniser can deal with, and the flags are clear when a key comes from the queue,
no call fails and the keystrokes are those of the reading. -/
theorem run_reads {results : List Result} {calls : List ℕ} (hfine : Fine .ground false results)
    (hflags : Cleared extended reset results calls) : Reads extended results calls := by
  obtain ⟨given, r, rest, hrun, -, howed⟩ := run_owed (.ground hfine) hflags
  rw [owed_reset] at howed
  refine ⟨given, r, rest, hrun, ⟨_, howed.symm⟩, fun hrest hqueue => ?_⟩
  subst hrest
  rw [howed, owed_nil hqueue, List.append_nil]

/-- `ESC [ 1 x`, which is no sequence, and a letter. -/
theorem run_reads_drained :
    Fine .ground false [.char 27, .char 91, .char 49, .char 120, .nothing, .char 97] ∧
      Reads (fun k => (k, 0)) [.char 27, .char 91, .char 49, .char 120, .nothing, .char 97] [0, 0, 0, 0, 0] := by
  have hfine : Fine .ground false [.char 27, .char 91, .char 49, .char 120, .nothing, .char 97] := by
    simp [Fine, cEsc, finals, params, remapped, keyFind, keySfind, keySelect, keyShome, keySend]
    decide
  exact ⟨hfine, run_reads hfine (cleared_zero (by decide) reset _)⟩

/-- Where an ESC is the character that a sequence cannot have, it is left in the queue as the start of a sequence, and the
call behind it fails: here the third, at `ESC [ 1 ESC`. -/
theorem not_reads : ¬ ∀ (extended : ℕ → ℤ × ℕ) (results : List Result) (calls : List ℕ), Reads extended results calls := by
  intro h
  obtain ⟨given, r, rest, hrun, -⟩ :=
    h (fun k => (k, 0)) [.char 27, .char 91, .char 49, .char 27] [0, 0, 0]
  have hfail : run (fun k => (k, 0)) reset [.char 27, .char 91, .char 49, .char 27] [0, 0, 0] = none := by
    rfl
  rw [hfail] at hrun
  cases hrun

end CProgram.Qodem.Keystrokes
