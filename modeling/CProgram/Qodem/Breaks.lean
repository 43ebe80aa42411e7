import CProgram.Qodem.Admission

/-! A break of the sysop: chat is entered in the middle of what a caller does, lines are exchanged, and chat is left.
What comes back is the text that was put by last, over whatever stands in the line buffer by then. -/
namespace CProgram.Qodem.Host
open Terminal
variable {config : Config} {env : Env} {s t u v : Host} {ch : UInt8}

/-- The line of a caller when chat is entered. -/
def lineOf (s : Host) : List UInt32 := (List.range s.lineBufferN).map s.lineBuffer

/-- A chat: the text that has been put by, and the line that is typed. -/
structure Exchanged where
  put : List UInt32
  line : Typed

/-- A byte of either side. Enter finishes a line, which is put by in its turn. -/
def Exchanged.key (e : Exchanged) (ch : UInt8) : Exchanged :=
  if ch = cCr then ⟨e.line.chars, ⟨[], 0, 0⟩⟩ else { e with line := e.line.key ch }

def exchanged (put : List UInt32) (bytes : List UInt8) : Exchanged :=
  bytes.foldl Exchanged.key ⟨put, ⟨[], 0, 0⟩⟩

/-- A caller is there, on the line or at the keyboard of the host. -/
structure Called (s : Host) : Prop where
  busy : s.currentState ≠ .chat
  there : s.hostOnline = true ∧ s.statusOnline = true ∨ s.hostOnline = false ∧ s.localLogin = true

/-- Something that is typed, on either side: not Alt-C, and no hangup. -/
def Chats : Event → Prop
  | .data _ _ => True
  | .key _ keystroke alt =>
    ¬ ((keystroke = .char 99 ∨ keystroke = .char 67) ∧ alt) ∧ ¬ ((keystroke = .char 104 ∨ keystroke = .char 72) ∧ alt)
  | _ => False

/-- The bytes that reach the line editor. -/
def chatBytes (config : Config) (online : Bool) : Event → List UInt8
  | .data _ input => if online then input.map config.translate8bitIn else []
  | .key _ keystroke _ => (keyByte keystroke).toList
  | _ => []

/-- The session of the caller is what it was. The character is there only while one is decoded. -/
structure Returned (s t : Host) : Prop where
  state : t.currentState = s.currentState
  buffered : t.doLineBuffer = s.doLineBuffer
  count : t.lineBufferN = s.lineBufferN
  chars : ∀ i < 80, t.lineBuffer i = s.lineBuffer i
  utf8State : t.utf8State = s.utf8State
  utf8Char : s.utf8State ≠ 0 → t.utf8Char = s.utf8Char

/-- What is put by at the end is the caller's line, the line that is left in the editor agrees with the buffer
behind it, and the bytes leave the decoder where the caller had it. -/
structure Undisturbed (s : Host) (bytes : List UInt8) : Prop where
  put : (exchanged (lineOf s) bytes).put = lineOf s
  rest : ∀ i < 80, s.lineBufferN ≤ i → (exchanged (lineOf s) bytes).line.chars.getD i 0 = s.lineBuffer i
  decoder : (exchanged (lineOf s) bytes).line.state = s.utf8State
  char : s.utf8State ≠ 0 → (exchanged (lineOf s) bytes).line.char = s.utf8Char

/-! ### The buffers -/

/-- A line is as long as its buffer at most, and so is the one that was put by. -/
structure Roomy (s : Host) : Prop where
  line : s.lineBufferN ≤ 80
  saved : s.savedLineBufferN ≤ 80

/-- The line is the same, or a fresh one. -/
def Keeps (s t : Host) : Prop :=
  t.savedLineBufferN = s.savedLineBufferN ∧ (t.lineBufferN = s.lineBufferN ∨ t.lineBufferN = 0)

theorem Roomy.keeps (hs : Roomy s) (h : Keeps s t) : Roomy t := by
  obtain ⟨hsaved, hsame | hfresh⟩ := h
  · exact ⟨hsame ▸ hs.line, hsaved ▸ hs.saved⟩
  · exact ⟨by omega, hsaved ▸ hs.saved⟩

theorem keeps_doLogin (h : doLogin config s = some t) : Keeps s t := by
  unfold doLogin at h
  dsimp only at h
  repeat' split at h
  all_goals (cases h; first | exact ⟨rfl, .inl rfl⟩ | exact ⟨rfl, .inr rfl⟩)

theorem keeps_enterMessage (h : enterMessage env s = some t) : Keeps s t := by
  unfold enterMessage at h
  repeat' split at h
  all_goals (cases h; first | exact ⟨rfl, .inl rfl⟩ | exact ⟨rfl, .inr rfl⟩)

theorem keeps_hangup (h : hangup s = some t) : Keeps s t := by
  unfold hangup at h
  split_ifs at h
  · cases h; exact ⟨rfl, .inr rfl⟩
  · cases h; exact ⟨rfl, .inr rfl⟩

theorem keeps_pageSysop (env : Env) (s : Host) : Keeps s (pageSysop env s) := by
  unfold pageSysop
  split_ifs <;> exact ⟨rfl, .inl rfl⟩

theorem keeps_downloadFile (h : downloadFile env s = some t) : Keeps s t := by
  unfold downloadFile at h
  repeat' split at h
  all_goals cases h <;> first | exact ⟨rfl, .inl rfl⟩ | exact ⟨rfl, .inr rfl⟩

theorem keeps_uploadFile {protocol : Protocol} (h : uploadFile protocol env s = some t) : Keeps s t := by
  unfold uploadFile at h
  repeat' split at h
  all_goals cases h <;> first | exact ⟨rfl, .inl rfl⟩ | exact ⟨rfl, .inr rfl⟩

theorem roomy_chat (hs : Roomy s) : Roomy (chat s) := ⟨Nat.zero_le 80, hs.line⟩

theorem roomy_call {fn : Fn} (hs : Roomy s) (h : call config env s fn = some t) : Roomy t := by
  unfold call at h
  split at h
  · exact hs.keeps (keeps_doLogin h)
  · exact hs.keeps (keeps_enterMessage h)
  · cases h; exact hs.keeps (keeps_pageSysop env s)
  · cases h; exact roomy_chat hs
  · exact hs.keeps (keeps_hangup h)
  · exact hs.keeps (keeps_downloadFile h)
  · exact hs.keeps (keeps_uploadFile h)
  · cases h; exact hs

theorem roomy_menuKey (hs : Roomy s) (h : menuKey config env ch s = some t) : Roomy t := by
  unfold menuKey at h
  split at h
  · next row _ =>
    have hmoved : Roomy { s with currentState := row.nextState } := ⟨hs.line, hs.saved⟩
    exact roomy_call hmoved h
  · cases h; exact hs

theorem roomy_lineBufferChar (hs : Roomy s) (ch : UInt8) : Roomy (lineBufferChar ch s).2 := by
  have hline := hs.line
  unfold lineBufferChar
  dsimp only
  split_ifs with _ hpos _ _ _ hfull
  · exact ⟨by dsimp only; omega, hs.saved⟩
  · exact hs
  · exact hs
  · exact ⟨hline, hs.saved⟩
  · exact ⟨hline, hs.saved⟩
  · exact ⟨by dsimp only; omega, hs.saved⟩
  · exact ⟨hline, hs.saved⟩

theorem roomy_stateMachine (hs : Roomy s) (h : stateMachine config env ch s = some t) : Roomy t := by
  have hnoted : Roomy (noted ch s) := ⟨hs.line, hs.saved⟩
  have htyped := roomy_lineBufferChar hnoted ch
  unfold stateMachine at h
  dsimp only at h
  have hdone : Roomy { (lineBufferChar ch (noted ch s)).2 with doLineBuffer := false } :=
    ⟨htyped.line, htyped.saved⟩
  split_ifs at h
  · exact roomy_menuKey hdone h
  · cases h; exact htyped
  · exact roomy_menuKey hnoted h

theorem roomy_input (input : List UInt8) (hs : Roomy s)
    (h : input.foldlM (fun s ch => stateMachine config env (config.translate8bitIn ch) s) s = some t) : Roomy t := by
  induction input generalizing s with
  | nil =>
    cases h
    exact hs
  | cons ch input ih =>
    obtain ⟨u, hu, hrest⟩ := Option.bind_eq_some_iff.mp h
    exact ih (roomy_stateMachine hs hu) hrest

theorem roomy_answer (hs : Roomy s) (h : answer config s = some t) : Roomy t := by
  have hthere : Roomy { s with
      hostOnline := true, statusOnline := true, currentState := .login, seen := .answered :: s.seen } :=
    ⟨hs.line, hs.saved⟩
  exact hthere.keeps (keeps_doLogin h)

theorem keeps_hostModemData (h : hostModemData env s = some t) : Keeps s t := by
  unfold hostModemData at h
  split at h
  · cases h; split_ifs <;> exact ⟨rfl, .inl rfl⟩
  · cases h; split_ifs <;> exact ⟨rfl, .inl rfl⟩
  · split at h <;> (cases h; exact ⟨rfl, .inl rfl⟩)
  · cases h

theorem roomy_paging (hs : Roomy s) (env : Env) : Roomy (paging env s) := by
  unfold paging
  split_ifs
  · exact hs.keeps (keeps_pageSysop env s)
  · exact hs

theorem roomy_data {input : List UInt8} (hs : Roomy s) (h : hostProcessData config env input s = some t) :
    Roomy t := by
  have hpaged := roomy_paging hs env
  unfold hostProcessData at h
  dsimp only at h
  split at h
  · cases h; exact hpaged
  split at h
  · split at h
    · exact hpaged.keeps (keeps_hangup h)
    · exact roomy_input input hpaged h
  split at h
  · split at h
    · cases h; exact hpaged
    · obtain ⟨u, hu, hrest⟩ := Option.bind_eq_some_iff.mp h
      have hu' := hpaged.keeps (keeps_hostModemData hu)
      split_ifs at hrest
      · exact roomy_answer hu' hrest
      · cases hrest; exact hu'
  · split_ifs at h
    · cases h; exact hpaged
    · exact roomy_answer hpaged h
  · split_ifs at h
    · exact roomy_answer hpaged h
    · cases h; exact hpaged

theorem roomy_toggleChat (hs : Roomy s) : Roomy (toggleChat s) := by
  unfold toggleChat
  dsimp only
  split_ifs
  · exact ⟨Nat.zero_le 80, hs.line⟩
  · exact ⟨hs.saved, hs.saved⟩

theorem roomy_keyboard {keystroke : Keystroke} {alt : Bool} (hs : Roomy s)
    (h : hostKeyboardHandler config env keystroke alt s = some t) : Roomy t := by
  unfold hostKeyboardHandler at h
  split_ifs at h
  · cases h; exact roomy_toggleChat hs
  · exact hs.keeps (keeps_hangup h)
  · split at h
    · exact roomy_stateMachine hs h
    · cases h; exact hs
  · cases h; exact ⟨hs.line, hs.saved⟩
  · cases h; exact ⟨hs.line, hs.saved⟩
  · cases h; exact hs

theorem roomy_step {event : Event} (hs : Roomy s) (h : step config s event = some t) : Roomy t := by
  cases event with
  | start type => cases h; exact ⟨Nat.zero_le 80, hs.saved⟩
  | data env input => exact roomy_data hs h
  | key env keystroke alt => exact roomy_keyboard hs h
  | lineDown => cases h; exact ⟨hs.line, hs.saved⟩

theorem roomy_run (events : List Event) (hs : Roomy s) (h : run config events s = some t) : Roomy t := by
  induction events generalizing s with
  | nil =>
    cases h
    exact hs
  | cons event rest ih =>
    obtain ⟨u, hu, hrest⟩ := Option.bind_eq_some_iff.mp h
    exact ih (roomy_step hs hu) hrest

/-! ### The chat -/

/-- In the chat that was entered from `s`, when this has been exchanged. -/
structure Chatting (s u : Host) (e : Exchanged) : Prop where
  state : u.currentState = .chat
  buffered : u.doLineBuffer = true
  previousState : u.chatPreviousState = s.currentState
  previousBuffer : u.chatPreviousLineBuffer = s.doLineBuffer
  online : u.hostOnline = s.hostOnline
  status : u.statusOnline = s.statusOnline
  loggedIn : u.localLogin = s.localLogin
  follows : Follows u e.line
  count : u.savedLineBufferN = e.put.length
  saved : ∀ i < e.put.length, u.savedLineBuffer i = e.put.getD i 0

theorem getD_lineOf {i : ℕ} (hi : i < s.lineBufferN) : (lineOf s).getD i 0 = s.lineBuffer i := by
  simp [lineOf, List.getD_eq_getElem?_getD, hi]

theorem length_lineOf (s : Host) : (lineOf s).length = s.lineBufferN := by simp [lineOf]

theorem follows_promptLine (s : Host) : Follows (promptLine s) ⟨[], 0, 0⟩ :=
  ⟨rfl, fun _ => rfl, rfl, fun _ => rfl, Nat.zero_le 80⟩

theorem toggleChat_enter (h : s.currentState ≠ .chat) :
    toggleChat s = chat { s with
      page := false, chatPreviousState := s.currentState, chatPreviousLineBuffer := s.doLineBuffer
      currentState := .chat } := by
  rw [toggleChat, if_pos h]

theorem chatting_enter (h : s.currentState ≠ .chat) :
    Chatting s (toggleChat s) (exchanged (lineOf s) []) := by
  rw [toggleChat_enter h]
  refine ⟨rfl, rfl, rfl, rfl, rfl, rfl, rfl, follows_promptLine _, (length_lineOf s).symm, fun i hi => ?_⟩
  have hi' : i < s.lineBufferN := length_lineOf s ▸ hi
  exact (if_pos hi').trans (getD_lineOf hi').symm

/-- A finished line is put by. -/
theorem chatting_enterKey {e : Exchanged} (h : Chatting s u e) :
    Chatting s (chat { noted cCr u with doLineBuffer := false }) ⟨e.line.chars, ⟨[], 0, 0⟩⟩ := by
  have hcount := h.follows.count
  refine ⟨h.state, rfl, h.previousState, h.previousBuffer, h.online, h.status, h.loggedIn, follows_promptLine _,
    hcount, fun i hi => ?_⟩
  have hi' : i < u.lineBufferN := hcount ▸ hi
  exact (if_pos hi').trans (h.follows.chars i)

theorem lineBufferChar_session (ch : UInt8) (s : Host) :
    (lineBufferChar ch s).2.chatPreviousLineBuffer = s.chatPreviousLineBuffer ∧
      (lineBufferChar ch s).2.statusOnline = s.statusOnline ∧
      (lineBufferChar ch s).2.savedLineBufferN = s.savedLineBufferN ∧
      (lineBufferChar ch s).2.savedLineBuffer = s.savedLineBuffer := by
  unfold lineBufferChar
  dsimp only
  split_ifs <;> exact ⟨rfl, rfl, rfl, rfl⟩

theorem lineBufferChar_enter (s : Host) : lineBufferChar cCr s = (true, s) := by
  rw [lineBufferChar, if_neg (by decide), if_pos rfl]

theorem chatting_key {e : Exchanged} (h : Chatting s u e) (ch : UInt8) :
    ∃ v, stateMachine config env ch u = some v ∧ Chatting s v (e.key ch) := by
  rw [stateMachine_buffered h.buffered]
  by_cases hcr : ch = cCr
  · subst hcr
    rw [lineBufferChar_enter, if_pos rfl, Exchanged.key, if_pos rfl]
    have hstate : ({ noted cCr u with doLineBuffer := false } : Host).currentState = .chat := h.state
    exact ⟨_, menuKey_chat hstate, chatting_enterKey h⟩
  · have hnoted : Follows (noted ch u) e.line :=
      ⟨h.follows.count, h.follows.chars, h.follows.state, h.follows.char, h.follows.room⟩
    obtain ⟨hmore, hfollows⟩ := follows_key hcr hnoted
    obtain ⟨-, hstate, hlocal, honline, -, -, hbuffered, hprevious⟩ := lineBufferChar_frame ch (noted ch u)
    obtain ⟨hbuffer, hstatus, hcount, hsaved⟩ := lineBufferChar_session ch (noted ch u)
    rw [hmore, if_neg (by decide), Exchanged.key, if_neg hcr]
    exact ⟨_, rfl, hstate.trans h.state, hbuffered.trans h.buffered, hprevious.trans h.previousState,
      hbuffer.trans h.previousBuffer, honline.trans h.online, hstatus.trans h.status, hlocal.trans h.loggedIn,
      hfollows, hcount.trans h.count, fun i hi => (congrFun hsaved i).trans (h.saved i hi)⟩

theorem chatting_input {e : Exchanged} (input : List UInt8) (h : Chatting s u e) :
    ∃ v, input.foldlM (fun s ch => stateMachine config env (config.translate8bitIn ch) s) u = some v ∧
      Chatting s v ((input.map config.translate8bitIn).foldl Exchanged.key e) := by
  induction input generalizing u e with
  | nil => exact ⟨u, rfl, h⟩
  | cons ch input ih =>
    obtain ⟨w, hw, hchat⟩ := @chatting_key config env s u e h (config.translate8bitIn ch)
    obtain ⟨v, hv, hdone⟩ := ih hchat
    exact ⟨v, Option.bind_eq_some_iff.mpr ⟨w, hw, hv⟩, hdone⟩

theorem paging_chat (h : s.currentState = .chat) : paging env s = s := by
  rw [paging, if_neg]
  rintro ⟨-, hpage⟩
  rw [h] at hpage
  cases hpage

theorem chatting_data {e : Exchanged} {input : List UInt8} (hs : Called s) (h : Chatting s u e)
    (hv : hostProcessData config env input u = some v) :
    Chatting s v ((chatBytes config s.hostOnline (.data env input)).foldl Exchanged.key e) := by
  unfold hostProcessData at hv
  rw [paging_chat h.state] at hv
  dsimp only at hv
  have honline := h.online
  have hstatus := h.status
  have hlocal := h.loggedIn
  rcases hs.there with ⟨hon, hup⟩ | ⟨hoff, hin⟩
  · rw [hon] at honline
    rw [hup] at hstatus
    rw [if_neg (by simp [honline]), if_pos honline, if_neg (by simp [hstatus])] at hv
    obtain ⟨w, hw, hchat⟩ := @chatting_input config env s u e input h
    rw [hw] at hv
    cases hv
    rw [chatBytes, if_pos hon]
    exact hchat
  · rw [hoff] at honline
    rw [hin] at hlocal
    rw [chatBytes, if_neg (by simp [hoff])]
    split at hv
    · cases hv; exact h
    rw [if_neg (by simp [honline])] at hv
    split at hv
    · cases hv; exact h
    · cases hv; exact h
    · -- A call that is accepted now finds the host busy.
      split_ifs at hv with haccepted hlistening
      · rw [h.state] at hlistening
        cases hlistening
      · cases hv; exact h

theorem chatting_keyboard {e : Exchanged} {keystroke : Keystroke} {alt : Bool} (hs : Called s)
    (h : Chatting s u e) (hchats : Chats (.key env keystroke alt))
    (hv : hostKeyboardHandler config env keystroke alt u = some v) :
    Chatting s v ((chatBytes config s.hostOnline (.key env keystroke alt)).foldl Exchanged.key e) := by
  have hthere : u.localLogin = true ∨ u.hostOnline = true := by
    rcases hs.there with ⟨hon, -⟩ | ⟨-, hin⟩
    · exact .inr (h.online.trans hon)
    · exact .inl (h.loggedIn.trans hin)
  rw [hostKeyboardHandler, if_pos hthere, if_neg hchats.1, if_neg hchats.2] at hv
  rw [chatBytes]
  cases hbyte : keyByte keystroke with
  | none =>
    rw [hbyte] at hv
    cases hv
    exact h
  | some ch =>
    rw [hbyte] at hv
    obtain ⟨w, hw, hchat⟩ := @chatting_key config env s u e h ch
    dsimp only at hv
    rw [hw] at hv
    cases hv
    exact hchat

theorem chatting_run {e : Exchanged} (events : List Event) (hs : Called s) (h : Chatting s u e)
    (hchats : ∀ event ∈ events, Chats event) (hv : run config events u = some v) :
    Chatting s v ((events.flatMap (chatBytes config s.hostOnline)).foldl Exchanged.key e) := by
  induction events generalizing u e with
  | nil =>
    cases hv
    exact h
  | cons event rest ih =>
    obtain ⟨w, hw, hrest⟩ := Option.bind_eq_some_iff.mp hv
    have hfirst := hchats event List.mem_cons_self
    rw [List.flatMap_cons, List.foldl_append]
    have hlater : ∀ event ∈ rest, Chats event := fun event hmem => hchats event (List.mem_cons_of_mem _ hmem)
    cases event with
    | start type => exact hfirst.elim
    | data env input => exact ih (chatting_data hs h hw) hlater hrest
    | key env keystroke alt => exact ih (chatting_keyboard hs h hfirst hw) hlater hrest
    | lineDown => exact hfirst.elim

/-! ### Leaving -/

theorem toggleChat_leave (h : u.currentState = .chat) :
    toggleChat u = { u with
      page := false
      lineBuffer := fun i => if i < u.savedLineBufferN then u.savedLineBuffer i else u.lineBuffer i
      lineBufferN := u.savedLineBufferN
      currentState := u.chatPreviousState
      doLineBuffer := u.chatPreviousLineBuffer } := by
  rw [toggleChat, if_neg (not_not.mpr h)]
  rfl

/-- What the buffer holds behind a chat. -/
theorem Chatting.leave {e : Exchanged} (h : Chatting s u e) :
    (toggleChat u).lineBufferN = e.put.length ∧
      ∀ i, (toggleChat u).lineBuffer i = if i < e.put.length then e.put.getD i 0 else e.line.chars.getD i 0 := by
  rw [toggleChat_leave h.state]
  refine ⟨h.count, fun i => ?_⟩
  dsimp only
  rw [h.count]
  split
  · next hi => exact h.saved i hi
  · exact h.follows.chars i

theorem returned_iff {bytes : List UInt8} (hroom : Roomy s) (h : Chatting s u (exchanged (lineOf s) bytes)) :
    Returned s (toggleChat u) ↔ Undisturbed s bytes := by
  obtain ⟨hcount, hchars⟩ := h.leave
  have hline := hroom.line
  have hstate : (toggleChat u).utf8State = (exchanged (lineOf s) bytes).line.state := by
    rw [toggleChat_leave h.state]
    exact h.follows.state
  have hchar : (toggleChat u).utf8Char = u.utf8Char := by rw [toggleChat_leave h.state]
  constructor
  · intro hback
    have hlength : (exchanged (lineOf s) bytes).put.length = s.lineBufferN := hcount.symm.trans hback.count
    have hdecoder : (exchanged (lineOf s) bytes).line.state = s.utf8State := hstate.symm.trans hback.utf8State
    have hput : (exchanged (lineOf s) bytes).put = lineOf s := by
      apply List.ext_getElem?
      intro i
      by_cases hi : i < s.lineBufferN
      · have hsame := hback.chars i (by omega)
        rw [hchars i, if_pos (by omega), ← getD_lineOf hi] at hsame
        rw [List.getElem?_eq_getElem (by omega), List.getElem?_eq_getElem (by rw [length_lineOf]; exact hi)]
        rw [List.getD_eq_getElem _ _ (by omega), List.getD_eq_getElem _ _ (by rw [length_lineOf]; exact hi)] at hsame
        rw [hsame]
      · rw [List.getElem?_eq_none (by omega), List.getElem?_eq_none (by rw [length_lineOf]; omega)]
    refine ⟨hput, fun i hi hbehind => ?_, hdecoder, fun hbusy => ?_⟩
    · rw [← hback.chars i hi, hchars i, if_neg (by omega)]
    · rw [← hback.utf8Char hbusy, hchar]
      exact (h.follows.char (hdecoder ▸ hbusy)).symm
  · intro hfine
    have hlength : (exchanged (lineOf s) bytes).put.length = s.lineBufferN := by
      rw [hfine.put, length_lineOf]
    refine ⟨?_, ?_, hcount.trans hlength, fun i hi => ?_, hstate.trans hfine.decoder, fun hbusy => ?_⟩
    · rw [toggleChat_leave h.state]
      exact h.previousState
    · rw [toggleChat_leave h.state]
      exact h.previousBuffer
    · rw [hchars i, hlength]
      split
      · next hin => rw [hfine.put, getD_lineOf hin]
      · next hbehind => exact hfine.rest i hi (by omega)
    · rw [hchar, h.follows.char (hfine.decoder ▸ hbusy), hfine.char hbusy]

theorem step_altC (hthere : s.localLogin = true ∨ s.hostOnline = true) (env : Env) :
    step config s (.key env (.char 99) true) = some (toggleChat s) := by
  rw [step, hostKeyboardHandler, if_pos hthere, if_pos ⟨.inl rfl, rfl⟩]

theorem run_append (first second : List Event) (s : Host) :
    run config (first ++ second) s = (run config first s).bind (run config second) := by
  induction first generalizing s with
  | nil => rfl
  | cons event rest ih =>
    rw [List.cons_append, run, run, Option.bind_assoc]
    congr 1
    funext t
    exact ih t

/-- Behind every session, for every chat: the caller's session is what it was when the text that is put by at the
end is the caller's line, and the line and the decoder are left as the caller had them, and only then. -/
theorem chat_returned_iff (config : Config) (history events : List Event) (s t : Host) (before after : Env)
    (hs : run config history statics = some s) (hcalled : Called s) (hchats : ∀ event ∈ events, Chats event)
    (ht : run config (.key before (.char 99) true :: (events ++ [.key after (.char 99) true])) s = some t) :
    Returned s t ↔ Undisturbed s (events.flatMap (chatBytes config s.hostOnline)) := by
  have hroom : Roomy s := roomy_run history ⟨Nat.zero_le 80, Nat.zero_le 80⟩ hs
  have hthere : s.localLogin = true ∨ s.hostOnline = true := by
    rcases hcalled.there with ⟨hon, -⟩ | ⟨-, hin⟩
    · exact .inr hon
    · exact .inl hin
  rw [run, step_altC hthere, Option.bind_some, run_append] at ht
  obtain ⟨u, hu, hleave⟩ := Option.bind_eq_some_iff.mp ht
  have hchat := chatting_run events hcalled (chatting_enter hcalled.busy) hchats hu
  have hthere' : u.localLogin = true ∨ u.hostOnline = true := by
    rw [hchat.loggedIn, hchat.online]
    exact hthere
  rw [run, step_altC hthere'] at hleave
  cases hleave
  exact returned_iff hroom hchat

/-- A caller who is in the middle of the username, and the break of the sysop. -/
def breakConfig : Config := ⟨[97, 98], [], id⟩

def breakHistory : List Event := [.data (quiet true) [], .data (quiet false) [97, 98]]

def brokenIn (events : List Event) : List Event :=
  .key (quiet false) (.char 99) true :: (events ++ [.key (quiet false) (.char 99) true])

/-- `x` is typed and left in the editor. -/
theorem chat_returned_unfinished : ∃ s t, run breakConfig breakHistory statics = some s ∧
    run breakConfig (brokenIn [.data (quiet false) [120]]) s = some t ∧ Returned s t := by
  have hany : ((run breakConfig breakHistory statics).any fun s =>
      decide (s.currentState ≠ .chat ∧ s.hostOnline = true ∧ s.statusOnline = true) &&
        ((run breakConfig (brokenIn [.data (quiet false) [120]]) s).isSome &&
          decide ((exchanged (lineOf s) [120]).put = lineOf s ∧ s.lineBufferN = 2 ∧
            (exchanged (lineOf s) [120]).line.chars = [120] ∧ (∀ i : Fin 80, 2 ≤ i.1 → s.lineBuffer i = 0) ∧
            (exchanged (lineOf s) [120]).line.state = s.utf8State ∧ s.utf8State = 0))) = true := by
    decide +kernel
  obtain ⟨s, hs, hgood⟩ := exists_of_any hany
  rw [Bool.and_eq_true, Bool.and_eq_true, decide_eq_true_eq, decide_eq_true_eq] at hgood
  obtain ⟨⟨hstate, honline, hstatus⟩, hsome, hput, hcount, hchars, hzero, hdecoder, hrest⟩ := hgood
  obtain ⟨t, ht⟩ := Option.isSome_iff_exists.mp hsome
  have hcalled : Called s := ⟨hstate, .inl ⟨honline, hstatus⟩⟩
  refine ⟨s, t, hs, ht, (chat_returned_iff breakConfig breakHistory [.data (quiet false) [120]] s t (quiet false)
    (quiet false) hs hcalled (by simp [Chats]) ht).mpr ?_⟩
  have hbytes : ([Event.data (quiet false) [120]].flatMap (chatBytes breakConfig s.hostOnline)) = [120] := by
    rw [honline]
    rfl
  rw [hbytes]
  refine ⟨hput, fun i hi hbehind => ?_, hdecoder, fun hbusy => absurd hrest hbusy⟩
  rw [hchars, hzero ⟨i, hi⟩ (hcount ▸ hbehind), List.getD_eq_default _ _ (by simp; omega)]

/-- `x` and enter are typed, and the caller's username is `x`. -/
theorem chat_not_returned : ¬ ∀ (config : Config) (history events : List Event) (s t : Host) (before after : Env),
    run config history statics = some s → Called s → (∀ event ∈ events, Chats event) →
    run config (.key before (.char 99) true :: (events ++ [.key after (.char 99) true])) s = some t →
    Returned s t := by
  intro hall
  have hany : ((run breakConfig breakHistory statics).any fun s =>
      decide (s.currentState ≠ .chat ∧ s.hostOnline = true ∧ s.statusOnline = true) &&
        ((run breakConfig (brokenIn [.data (quiet false) [120, 13]]) s).any fun t =>
          decide (t.lineBufferN ≠ s.lineBufferN))) = true := by
    decide +kernel
  obtain ⟨s, hs, hgood⟩ := exists_of_any hany
  rw [Bool.and_eq_true, decide_eq_true_eq] at hgood
  obtain ⟨⟨hstate, honline, hstatus⟩, hafter⟩ := hgood
  obtain ⟨t, ht, hcount⟩ := exists_of_any hafter
  have hback := hall breakConfig breakHistory [.data (quiet false) [120, 13]] s t (quiet false) (quiet false) hs
    ⟨hstate, .inl ⟨honline, hstatus⟩⟩ (by simp [Chats]) ht
  exact of_decide_eq_true hcount hback.count

end CProgram.Qodem.Host
