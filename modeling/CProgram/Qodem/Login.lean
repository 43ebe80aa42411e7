import CProgram.Qodem.Host
import Mathlib.Data.List.GetD

/-! Who is let in. What a caller types at the two prompts is read off the keys alone, as the text of
a line that is edited with backspace, and a caller inside the menus has typed the account. -/
namespace CProgram.Qodem.Host
open Terminal
variable {config : Config} {env : Env} {s t : Host} {ch : UInt8}

/-- A line while it is typed: its characters, and a character that is not complete yet. -/
structure Typed where
  chars : List UInt32
  state : ℕ
  char : UInt32

def Typed.key (typed : Typed) (ch : UInt8) : Typed :=
  if ch = 0x08 ∨ ch = 0x7F then { typed with chars := typed.chars.dropLast }
  else
    let state := Utf8Decode.next typed.state ch
    let char := Utf8Decode.gather typed.state typed.char ch
    if state = 0 then
      ⟨if typed.chars.length < 80 then typed.chars ++ [char] else typed.chars, 0, char⟩
    else if state = typed.state then ⟨typed.chars, 0, char⟩
    else ⟨typed.chars, state, char⟩

def typed (line : List UInt8) : Typed := line.foldl Typed.key ⟨[], 0, 0⟩

/-- The text of a line. -/
def text (line : List UInt8) : List UInt32 := (typed line).chars

/-- Since the call was answered: the keys of the line that is typed at a prompt, those of the
username, and the lines that have been compared. -/
structure Watch where
  line : List UInt8
  user : List UInt8
  compared : List (List UInt8 × List UInt8)

def watch : List Seen → Watch
  | [] => ⟨[], [], []⟩
  | .answered :: _ => ⟨[], [], []⟩
  | .key state loginState ch :: earlier =>
    let w := watch earlier
    if state = .login then
      if ch = cCr then
        if loginState = .password then ⟨[], w.user, (w.user, w.line) :: w.compared⟩
        else ⟨[], w.line, w.compared⟩
      else { w with line := w.line ++ [ch] }
    else w

/-- A username and a password that are the configured ones have been compared, each with as much of
its line as the login buffers hold. -/
def LoggedIn (config : Config) (seen : List Seen) : Prop :=
  ∃ lines ∈ (watch seen).compared,
    held 63 (text lines.1) = config.hostUsername ∧ held 63 (text lines.2) = config.hostPassword

/-- The main menu, the message, page and file transfer states. -/
def Inside (state : STATE) : Prop :=
  state ∈ [STATE.mainMenu, .enterMessage, .enterMessageFinish, .readMessages, .pageSysop, .uploadFile,
    .uploadFileXmodem, .uploadFileYmodem, .uploadFileZmodem, .uploadFileKermit, .listFiles,
    .downloadFile, .downloadFileXmodem, .downloadFileYmodem, .downloadFileZmodem, .downloadFileKermit]

instance (state : STATE) : Decidable (Inside state) := inferInstanceAs (Decidable (_ ∈ _))

def Waiting (state : STATE) : Prop :=
  state ∈ [STATE.listening, .modemListeningForRing, .modemListeningForConnect, .modemConnected]

instance (state : STATE) : Decidable (Waiting state) := inferInstanceAs (Decidable (_ ∈ _))

/-- Past the login. -/
def Within (state : STATE) : Prop := ¬ Waiting state ∧ state ≠ .login ∧ state ≠ .chat

instance (state : STATE) : Decidable (Within state) := inferInstanceAs (Decidable (_ ∧ _ ∧ _))

/-- A key neither puts a NUL character into a line of the login, nor comes while the sysop has broken
into the login. -/
def KeyFine (s : Host) (ch : UInt8) : Prop :=
  (s.currentState = .login → Utf8Decode.next s.utf8State ch = 0 →
      Utf8Decode.gather s.utf8State s.utf8Char ch ≠ 0) ∧
    (s.currentState = .chat → s.chatPreviousState ≠ .login)

instance : Decidable (KeyFine s ch) := inferInstanceAs (Decidable (_ ∧ _))

def EachFine (config : Config) (env : Env) : List UInt8 → Host → Prop
  | [], _ => True
  | ch :: rest, s => KeyFine s (config.translate8bitIn ch) ∧
      match stateMachine config env (config.translate8bitIn ch) s with
      | some t => EachFine config env rest t
      | none => True

instance decidableEachFine (config : Config) (env : Env) (input : List UInt8) (s : Host) :
    Decidable (EachFine config env input s) := by
  induction input generalizing s with
  | nil => exact isTrue trivial
  | cons ch rest ih =>
    unfold EachFine
    cases stateMachine config env (config.translate8bitIn ch) s with
    | none => exact inferInstanceAs (Decidable (_ ∧ True))
    | some t =>
      have := ih t
      exact inferInstanceAs (Decidable (_ ∧ EachFine config env rest t))

/-- The sysop logs in at the keyboard. -/
def LocalLogin (s : Host) : Event → Prop
  | .key _ keystroke _ => ¬ (s.localLogin ∨ s.hostOnline) ∧ (keystroke = .char 76 ∨ keystroke = .char 108)
  | _ => False

instance (s : Host) (event : Event) : Decidable (LocalLogin s event) := by
  cases event <;> unfold LocalLogin <;> infer_instance

/-- A step that leaves the login alone: keys as above, and the sysop breaks into the login only
between two characters. -/
def Fine (config : Config) (s : Host) : Event → Prop
  | .start _ => True
  | .lineDown => True
  | .data env input => s.hostOnline ∧ s.statusOnline → EachFine config env input (paging env s)
  | .key _ keystroke alt =>
    if s.localLogin ∨ s.hostOnline then
      if (keystroke = .char 99 ∨ keystroke = .char 67) ∧ alt then
        s.currentState = .login → s.utf8State = 0
      else if (keystroke = .char 104 ∨ keystroke = .char 72) ∧ alt then True
      else ∀ ch, keyByte keystroke = some ch → KeyFine s ch
    else True

instance (s : Host) (event : Event) : Decidable (Fine config s event) := by
  cases event with
  | start type => exact isTrue trivial
  | lineDown => exact isTrue trivial
  | data env input => exact inferInstanceAs (Decidable (_ → EachFine config env input (paging env s)))
  | key env keystroke alt =>
    have hbyte : Decidable (∀ ch, keyByte keystroke = some ch → KeyFine s ch) := by
      cases keyByte keystroke with
      | none => exact isTrue (by intro ch h; cases h)
      | some b =>
        exact decidable_of_iff (KeyFine s b) ⟨fun h ch hch => by cases hch; exact h, fun h => h b rfl⟩
    change Decidable (if s.localLogin ∨ s.hostOnline then
      if (keystroke = .char 99 ∨ keystroke = .char 67) ∧ alt then
        s.currentState = .login → s.utf8State = 0
      else if (keystroke = .char 104 ∨ keystroke = .char 72) ∧ alt then True
      else ∀ ch, keyByte keystroke = some ch → KeyFine s ch
    else True)
    infer_instance

/-! ### The line buffer -/

/-- The buffer holds the line that is typed. -/
structure LineIs (line : ℕ → UInt32) (n : ℕ) (state : ℕ) (char : UInt32) (typed : Typed) : Prop where
  count : n = typed.chars.length
  chars : ∀ i, line i = typed.chars.getD i 0
  state : state = typed.state
  char : typed.state ≠ 0 → char = typed.char
  room : typed.chars.length ≤ 80
  text : (0 : UInt32) ∉ typed.chars

theorem length_utf8Encode_pos (c : UInt32) : 0 < (utf8Encode c).length := by
  simp only [utf8Encode]
  split_ifs <;> simp

theorem held_take {n m : ℕ} (chars : List UInt32) (h : n ≤ m) : held n (chars.take m) = held n chars := by
  induction chars generalizing n m with
  | nil => simp
  | cons c chars ih =>
    cases m with
    | zero =>
      have hzero : n = 0 := by omega
      have hpos := length_utf8Encode_pos c
      rw [List.take_zero, held, held, if_neg (by omega)]
    | succ m =>
      rw [List.take_succ_cons, held, held]
      split
      · have hpos := length_utf8Encode_pos c
        rw [ih (by omega)]
      · rfl

theorem map_range_getD (chars : List UInt32) (n : ℕ) (h : (0 : UInt32) ∉ chars) :
    ((List.range n).map fun i => chars.getD i 0).takeWhile (· ≠ 0) = chars.take n := by
  induction chars generalizing n with
  | nil =>
    cases n with
    | zero => rfl
    | succ n => simp [List.range_succ_eq_map]
  | cons c chars ih =>
    cases n with
    | zero => rfl
    | succ n =>
      have hc : c ≠ 0 := fun hzero => h (hzero ▸ List.mem_cons_self)
      have hrest := ih n fun hmem => h (List.mem_cons_of_mem _ hmem)
      rw [List.range_succ_eq_map, List.map_cons, List.map_map, List.getD_cons_zero,
        List.takeWhile_cons_of_pos (by simpa using hc), List.take_succ_cons, ← hrest]
      rfl

theorem LineIs.wcstombs {line : ℕ → UInt32} {n state : ℕ} {char : UInt32} {typed : Typed}
    (h : LineIs line n state char typed) : wcstombs line 63 = held 63 typed.chars := by
  have hline : line = fun i => typed.chars.getD i 0 := funext h.chars
  rw [Host.wcstombs, hline, map_range_getD _ _ h.text, held_take _ (le_refl _)]

theorem lineIs_empty : LineIs (fun _ => 0) 0 0 0 (typed []) :=
  ⟨rfl, fun _ => rfl, rfl, fun _ => rfl, by decide, by intro h; cases h⟩

theorem getD_dropLast (chars : List UInt32) (i : ℕ) :
    chars.dropLast.getD i 0 = if i = chars.length - 1 then 0 else chars.getD i 0 := by
  by_cases hi : i < chars.length - 1
  · rw [if_neg (by omega), List.getD_eq_getElem?_getD, List.getD_eq_getElem?_getD,
      List.getElem?_dropLast, if_pos hi]
  · have hout : chars.dropLast.getD i 0 = 0 := by
      rw [List.getD_eq_default _ _ (by simpa using Nat.le_of_not_lt hi)]
    rw [hout]
    split
    · rfl
    · next hne => rw [List.getD_eq_default _ _ (by omega)]

theorem getD_snoc (chars : List UInt32) (c : UInt32) (i : ℕ) :
    (chars ++ [c]).getD i 0 = if i = chars.length then c else chars.getD i 0 := by
  rcases Nat.lt_trichotomy i chars.length with hlt | heq | hgt
  · rw [if_neg (by omega), List.getD_append _ _ _ _ hlt]
  · rw [if_pos heq, heq]
    simp
  · rw [if_neg (by omega), List.getD_eq_default _ _ (by simp; omega),
      List.getD_eq_default _ _ (by omega)]

/-- The line buffer of a host follows the line, whatever its characters are. -/
structure Follows (s : Host) (ty : Typed) : Prop where
  count : s.lineBufferN = ty.chars.length
  chars : ∀ i, s.lineBuffer i = ty.chars.getD i 0
  state : s.utf8State = ty.state
  char : ty.state ≠ 0 → s.utf8Char = ty.char
  room : ty.chars.length ≤ 80

theorem follows_backspace {ty : Typed} (hch : ch = 0x08 ∨ ch = 0x7F) (h : Follows s ty) :
    (lineBufferChar ch s).1 = false ∧ Follows (lineBufferChar ch s).2 (ty.key ch) := by
  have hkey : ty.key ch = { ty with chars := ty.chars.dropLast } := by rw [Typed.key, if_pos hch]
  rw [hkey]
  by_cases hpos : 0 < s.lineBufferN
  · have hchar : lineBufferChar ch s = (false, { s with
        lineBufferN := s.lineBufferN - 1
        lineBuffer := fun i => if i = s.lineBufferN - 1 then 0 else s.lineBuffer i }) := by
      rw [lineBufferChar, if_pos hch, if_pos hpos]
    have hroom := h.room
    have hshort : ty.chars.dropLast.length ≤ 80 := by
      rw [List.length_dropLast]
      omega
    have hchars (i : ℕ) : (if i = s.lineBufferN - 1 then 0 else s.lineBuffer i) =
        ty.chars.dropLast.getD i 0 := by
      rw [getD_dropLast, h.count, h.chars]
    have hcount : s.lineBufferN - 1 = ty.chars.dropLast.length := by
      rw [List.length_dropLast, h.count]
    rw [hchar]
    exact ⟨rfl, hcount, hchars, h.state, h.char, hshort⟩
  · have hchar : lineBufferChar ch s = (false, s) := by
      rw [lineBufferChar, if_pos hch, if_neg hpos]
    have hnil : ty.chars = [] := by
      rw [← List.length_eq_zero_iff, ← h.count]
      omega
    have hdrop : ty.chars.dropLast = ty.chars := by rw [hnil]; rfl
    rw [hchar, hdrop]
    exact ⟨rfl, h⟩

theorem Follows.gather {ty : Typed} (h : Follows s ty) (ch : UInt8) :
    Utf8Decode.gather ty.state ty.char ch = Utf8Decode.gather s.utf8State s.utf8Char ch := by
  rw [← h.state]
  by_cases hzero : ty.state = 0
  · rw [h.state, hzero]
    rfl
  · rw [h.char hzero]

/-- One key other than enter: the buffer goes on following the line. -/
theorem follows_key {ty : Typed} (hch : ch ≠ cCr) (h : Follows s ty) :
    (lineBufferChar ch s).1 = false ∧ Follows (lineBufferChar ch s).2 (ty.key ch) := by
  by_cases hback : ch = 0x08 ∨ ch = 0x7F
  · exact follows_backspace hback h
  have hkey : ty.key ch =
      if Utf8Decode.next s.utf8State ch = 0 then
        ⟨if ty.chars.length < 80 then ty.chars ++ [Utf8Decode.gather s.utf8State s.utf8Char ch]
          else ty.chars, 0, Utf8Decode.gather s.utf8State s.utf8Char ch⟩
      else if Utf8Decode.next s.utf8State ch = s.utf8State then
        ⟨ty.chars, 0, Utf8Decode.gather s.utf8State s.utf8Char ch⟩
      else ⟨ty.chars, Utf8Decode.next s.utf8State ch, Utf8Decode.gather s.utf8State s.utf8Char ch⟩ := by
    rw [Typed.key, if_neg hback, h.gather, ← h.state]
  have hroom := h.room
  by_cases hdone : Utf8Decode.next s.utf8State ch = 0
  · have hnot : ¬ (s.utf8State = Utf8Decode.next s.utf8State ch ∧ Utf8Decode.next s.utf8State ch ≠ 0) :=
      fun hboth => hboth.2 hdone
    rw [hkey, if_pos hdone]
    by_cases hfull : s.lineBufferN < 80
    · have hchar : lineBufferChar ch s = (false, { s with
          utf8State := 0, utf8Char := Utf8Decode.gather s.utf8State s.utf8Char ch
          lineBufferN := s.lineBufferN + 1
          lineBuffer := fun i => if i = s.lineBufferN then
            Utf8Decode.gather s.utf8State s.utf8Char ch else s.lineBuffer i }) := by
        simp only [lineBufferChar, if_neg hback, if_neg hch, if_neg hnot]
        rw [if_neg (not_not.mpr hdone), if_pos hfull]
      rw [hchar, if_pos (h.count ▸ hfull)]
      have hcount := h.count
      have hshort : (ty.chars ++ [Utf8Decode.gather s.utf8State s.utf8Char ch]).length ≤ 80 := by
        rw [List.length_append, List.length_singleton]
        omega
      have hchars (i : ℕ) : (if i = s.lineBufferN then Utf8Decode.gather s.utf8State s.utf8Char ch
          else s.lineBuffer i) = (ty.chars ++ [Utf8Decode.gather s.utf8State s.utf8Char ch]).getD i 0 := by
        rw [getD_snoc, h.count, h.chars]
      exact ⟨rfl, by simp [h.count], hchars, rfl, fun hzero => absurd rfl hzero, hshort⟩
    · have hchar : lineBufferChar ch s = (false, { s with
          utf8State := 0, utf8Char := Utf8Decode.gather s.utf8State s.utf8Char ch }) := by
        simp only [lineBufferChar, if_neg hback, if_neg hch, if_neg hnot]
        rw [if_neg (not_not.mpr hdone), if_neg hfull]
      rw [hchar, if_neg (h.count ▸ hfull)]
      exact ⟨rfl, h.count, h.chars, rfl, fun hzero => absurd rfl hzero, hroom⟩
  · rw [hkey, if_neg hdone]
    by_cases hsame : Utf8Decode.next s.utf8State ch = s.utf8State
    · have hchar : lineBufferChar ch s = (false, { s with
          utf8State := 0, utf8Char := Utf8Decode.gather s.utf8State s.utf8Char ch }) := by
        simp only [lineBufferChar, if_neg hback, if_neg hch]
        rw [if_pos ⟨hsame.symm, hdone⟩]
      rw [hchar, if_pos hsame]
      exact ⟨rfl, h.count, h.chars, rfl, fun hzero => absurd rfl hzero, hroom⟩
    · have hchar : lineBufferChar ch s = (false, { s with
          utf8State := Utf8Decode.next s.utf8State ch
          utf8Char := Utf8Decode.gather s.utf8State s.utf8Char ch }) := by
        simp only [lineBufferChar, if_neg hback, if_neg hch]
        rw [if_neg fun hboth => hsame hboth.1.symm, if_pos hdone]
      rw [hchar, if_neg hsame]
      exact ⟨rfl, h.count, h.chars, rfl, fun _ => rfl, hroom⟩

/-- The line buffer of a host holds the line. -/
def Holds (s : Host) (ty : Typed) : Prop :=
  LineIs s.lineBuffer s.lineBufferN s.utf8State s.utf8Char ty

theorem Holds.follows {ty : Typed} (h : Holds s ty) : Follows s ty :=
  ⟨h.count, h.chars, h.state, h.char, h.room⟩

theorem Follows.holds {ty : Typed} (h : Follows s ty) (htext : (0 : UInt32) ∉ ty.chars) : Holds s ty :=
  ⟨h.count, h.chars, h.state, h.char, h.room, htext⟩

/-- No NUL comes into the text, unless one is decoded. -/
theorem Typed.text_key {ty : Typed} (htext : (0 : UInt32) ∉ ty.chars)
    (hfine : Utf8Decode.next ty.state ch = 0 → Utf8Decode.gather ty.state ty.char ch ≠ 0) :
    (0 : UInt32) ∉ (ty.key ch).chars := by
  unfold Typed.key
  dsimp only
  split_ifs with hback hdone hshort
  · exact fun hmem => htext (List.mem_of_mem_dropLast hmem)
  · intro hmem
    rcases List.mem_append.mp hmem with hold | hnew
    · exact htext hold
    · exact hfine hdone (List.mem_singleton.mp hnew).symm
  · exact htext
  · exact htext
  · exact htext

/-- One key other than enter: the buffer goes on holding the line. -/
theorem holds_key {ty : Typed} (hch : ch ≠ cCr) (h : Holds s ty)
    (hfine : Utf8Decode.next s.utf8State ch = 0 → Utf8Decode.gather s.utf8State s.utf8Char ch ≠ 0) :
    (lineBufferChar ch s).1 = false ∧ Holds (lineBufferChar ch s).2 (ty.key ch) := by
  obtain ⟨hmore, hfollows⟩ := follows_key hch h.follows
  have hfine' : Utf8Decode.next ty.state ch = 0 → Utf8Decode.gather ty.state ty.char ch ≠ 0 := by
    rw [h.follows.gather, ← h.state]
    exact hfine
  exact ⟨hmore, hfollows.holds (Typed.text_key h.text hfine')⟩

theorem typed_snoc (line : List UInt8) (ch : UInt8) : typed (line ++ [ch]) = (typed line).key ch := by
  rw [typed, List.foldl_append]
  rfl

end CProgram.Qodem.Host
