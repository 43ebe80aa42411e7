import CProgram.Qodem.Shelf

/-! No caller stops host mode or leads it out of its arrays, as long as each line that is taken has a NUL in it, each
message that is saved can be read, and only the last message is killed. -/
namespace CProgram.Qodem.Callers
open Messages

/-- A line buffer with its count. -/
structure Bounded (n : ℕ) (line : ℕ → UInt32) : Prop where
  count : n ≤ lineSize
  beyond : ∀ i, lineSize ≤ i → line i = 0

def Uploading (state : Host.STATE) : Prop :=
  state = .uploadFileXmodem ∨ state = .uploadFileYmodem ∨ state = .uploadFileZmodem ∨ state = .uploadFileKermit

/-- The file name that is asked for. -/
structure Named (state : Host.STATE) (fileState : Host.FileState) (transferFilename filename : Bool) : Prop where
  asked : fileState = .filenameWait → transferFilename = false
  resumed : fileState = .filenameResume → filename = true ∧ Uploading state

/-- The message that is entered. -/
structure Draft (state : Host.STATE) (msgState : Host.MsgState) (msgFrom msgTo : Option Text) : Prop where
  begun : msgState = .from' → msgFrom = none ∧ msgTo = none
  sent : msgState = .to' → msgFrom ≠ none ∧ msgTo = none
  body : msgState = .body → msgFrom ≠ none ∧ msgTo ≠ none
  entering : msgState ≠ .msgInit → state = .enterMessage
  finished : state = .enterMessageFinish → msgFrom ≠ none ∧ msgTo ≠ none

/-- Host mode without a caller. -/
structure Idle (state : Host.STATE) (hostType : Host.HostType) (loginState : Host.LoginState) : Prop where
  state : state = .listening ∨
    hostType = .modem ∧ (state = .modemListeningForRing ∨ state = .modemListeningForConnect)
  login : loginState = .loginInit

structure Sound (readOnly : Bool) (c : Caller) : Prop where
  remote : c.host.localLogin = false
  offline : c.host.hostOnline = false → Idle c.host.currentState c.host.hostType c.host.loginState
  line : Bounded c.host.lineBufferN c.host.lineBuffer
  saved : Bounded c.host.savedLineBufferN c.host.savedLineBuffer
  named : Named c.host.currentState c.host.fileState c.host.transferFilename c.filename
  draft : Draft c.host.currentState c.host.msgState c.msgFrom c.msgTo
  frozen : readOnly = true → c.host.msgState = .msgInit ∧ c.host.fileState ≠ .filenameResume
  board : Whole c.board

/-- A function of the table is called, in a state that it can be called in. -/
structure Called (c : Caller) (fn : Host.Fn) : Prop where
  online : c.host.hostOnline = true
  resumed : c.host.fileState = .filenameResume → ∃ protocol, fn = .uploadFile protocol
  entering : c.host.msgState ≠ .msgInit → fn = .enterMessage
  finished : fn = .viewNewMessage ∨ fn = .saveMessage → c.msgFrom ≠ none ∧ c.msgTo ≠ none
  done : fn = .killMessage ∨ fn = .saveMessage → c.host.currentState = .mainMenu
  entered : fn = .enterMessage → c.host.currentState = .enterMessage
  uploading : ∀ protocol, fn = .uploadFile protocol → Uploading c.host.currentState
  downloading : ∀ protocol, fn = .downloadFile protocol → c.host.currentState ≠ .enterMessageFinish

variable {config : Host.Config} {env : Host.Env} {readOnly : Bool} {c t u : Caller} {fn : Host.Fn} {ch : UInt8}
  {s : Host.Host} {n : ℕ} {line : ℕ → UInt32}

instance (state : Host.STATE) : Decidable (Uploading state) := inferInstanceAs (Decidable (_ ∨ _))

/-! The rows of the table -/

theorem rows_uploading : ∀ row ∈ Host.states, Uploading row.state →
    row.nextState = row.state ∧ ∃ protocol, row.nextFn = .uploadFile protocol := by
  have hall : ∀ row ∈ Host.states, Uploading row.state → row.nextState = row.state ∧
      (row.nextFn = .uploadFile .xmodem ∨ row.nextFn = .uploadFile .ymodem ∨ row.nextFn = .uploadFile .zmodem ∨
        row.nextFn = .uploadFile .kermit) := by
    decide
  intro row hrow hstate
  obtain ⟨hnext, hx | hy | hz | hk⟩ := hall row hrow hstate
  · exact ⟨hnext, _, hx⟩
  · exact ⟨hnext, _, hy⟩
  · exact ⟨hnext, _, hz⟩
  · exact ⟨hnext, _, hk⟩

theorem rows_entering : ∀ row ∈ Host.states, row.state = .enterMessage →
    row.nextState = .enterMessage ∧ row.nextFn = .enterMessage := by decide

theorem rows_finished : ∀ row ∈ Host.states, row.nextState = .enterMessageFinish ∨ row.nextFn = .viewNewMessage ∨
    row.nextFn = .saveMessage → row.state = .enterMessageFinish := by decide

theorem rows_done : ∀ row ∈ Host.states, row.nextFn = .killMessage ∨ row.nextFn = .saveMessage →
    row.nextState = .mainMenu := by decide

theorem rows_entered : ∀ row ∈ Host.states, row.nextFn = .enterMessage → row.nextState = .enterMessage := by decide

theorem rows_upload : ∀ row ∈ Host.states, ∀ protocol, row.nextFn = .uploadFile protocol → Uploading row.nextState := by
  intro row hrow protocol
  revert row
  cases protocol <;> decide

theorem rows_download : ∀ row ∈ Host.states, ∀ protocol, row.nextFn = .downloadFile protocol →
    row.nextState ≠ .enterMessageFinish := by
  intro row hrow protocol
  revert row
  cases protocol <;> decide

theorem rows_idle : ∀ row ∈ Host.states, row.state ≠ .listening ∧ row.state ≠ .modemListeningForRing ∧
    row.state ≠ .modemListeningForConnect := by decide

/-! The line -/

theorem bounded_prompt : Bounded (Host.promptLine s).lineBufferN (Host.promptLine s).lineBuffer :=
  ⟨Nat.zero_le _, fun _ _ => rfl⟩

theorem bounded_char (h : Bounded s.lineBufferN s.lineBuffer) (ch : UInt8) :
    Bounded (Host.lineBufferChar ch s).2.lineBufferN (Host.lineBufferChar ch s).2.lineBuffer := by
  obtain ⟨hcount, hbeyond⟩ := h
  rw [Host.lineBufferChar]
  split
  · dsimp only
    split
    · refine ⟨by dsimp only; omega, ?_⟩
      intro i hi
      dsimp only
      split
      · rfl
      · exact hbeyond i hi
    · exact ⟨hcount, hbeyond⟩
  split
  · exact ⟨hcount, hbeyond⟩
  dsimp only
  split
  · exact ⟨hcount, hbeyond⟩
  split
  · exact ⟨hcount, hbeyond⟩
  split
  · next hroom =>
    refine ⟨hroom, ?_⟩
    intro i hi
    have hne : i ≠ s.lineBufferN := by
      rw [lineSize] at hi
      omega
    exact (if_neg hne).trans (hbeyond i hi)
  · exact ⟨hcount, hbeyond⟩

theorem char_frame (ch : UInt8) (s : Host.Host) : ∃ done n line state char, Host.lineBufferChar ch s =
    (done, { s with lineBufferN := n, lineBuffer := line, utf8State := state, utf8Char := char }) := by
  rw [Host.lineBufferChar]
  split
  · split
    · exact ⟨_, _, _, _, _, rfl⟩
    · exact ⟨_, s.lineBufferN, s.lineBuffer, s.utf8State, s.utf8Char, rfl⟩
  split
  · exact ⟨_, s.lineBufferN, s.lineBuffer, s.utf8State, s.utf8Char, rfl⟩
  dsimp only
  split
  · exact ⟨_, s.lineBufferN, s.lineBuffer, _, _, rfl⟩
  split
  · exact ⟨_, s.lineBufferN, s.lineBuffer, _, _, rfl⟩
  split
  · exact ⟨_, _, _, _, _, rfl⟩
  · exact ⟨_, s.lineBufferN, s.lineBuffer, _, _, rfl⟩

theorem Sound.typed (h : Sound readOnly c) (ch : UInt8) : Sound readOnly { c with host := (Host.lineBufferChar ch c.host).2 } := by
  have hline := bounded_char h.line ch
  obtain ⟨done, n, line, state, char, heq⟩ := char_frame ch c.host
  rw [heq] at hline ⊢
  exact ⟨h.remote, h.offline, hline, h.saved, h.named, h.draft, h.frozen, h.board⟩

/-- The states are left alone. -/
theorem Sound.seen (h : Sound readOnly c) (seen : List Host.Seen) (doLineBuffer : Bool) :
    Sound readOnly { c with host := { c.host with seen, doLineBuffer } } :=
  ⟨h.remote, h.offline, h.line, h.saved, h.named, h.draft, h.frozen, h.board⟩

theorem Sound.selected (h : Sound readOnly c) {row : Host.HostState} (hrow : Host.states.find? (Host.selects c.host ch) = some row) :
    Sound readOnly { c with host := { c.host with currentState := row.nextState } } ∧
      Called { c with host := { c.host with currentState := row.nextState } } row.nextFn := by
  obtain ⟨hmem, hstate⟩ := Host.find_row hrow
  obtain ⟨hlistening, hring, hconnect⟩ := rows_idle row hmem
  have honline : c.host.hostOnline = true := by
    by_contra hoff
    rw [Bool.not_eq_true] at hoff
    have hidle := (h.offline hoff).state
    rw [← hstate] at hidle
    obtain hl | ⟨-, hr | hc⟩ := hidle
    · exact hlistening hl
    · exact hring hr
    · exact hconnect hc
  have hresumed : c.host.fileState = .filenameResume →
      row.nextState = c.host.currentState ∧ ∃ protocol, row.nextFn = .uploadFile protocol := by
    intro hresume
    have huploading := (h.named.resumed hresume).2
    rw [← hstate] at huploading ⊢
    exact rows_uploading row hmem huploading
  have hentering : c.host.msgState ≠ .msgInit → row.nextState = .enterMessage ∧ row.nextFn = .enterMessage := by
    intro hmsg
    have hentry := h.draft.entering hmsg
    rw [← hstate] at hentry
    exact rows_entering row hmem hentry
  have hfinished : row.nextState = .enterMessageFinish ∨ row.nextFn = .viewNewMessage ∨ row.nextFn = .saveMessage →
      c.msgFrom ≠ none ∧ c.msgTo ≠ none := by
    intro hrows
    apply h.draft.finished
    rw [← hstate]
    exact rows_finished row hmem hrows
  constructor
  · refine ⟨h.remote, ?_, h.line, h.saved, ⟨h.named.asked, ?_⟩, ⟨h.draft.begun, h.draft.sent, h.draft.body, ?_, ?_⟩,
      h.frozen, h.board⟩
    · intro hoff
      rw [honline] at hoff
      cases hoff
    · intro hresume
      refine ⟨(h.named.resumed hresume).1, ?_⟩
      change Uploading row.nextState
      rw [(hresumed hresume).1]
      exact (h.named.resumed hresume).2
    · intro hmsg
      exact (hentering hmsg).1
    · intro hfinish
      exact hfinished (Or.inl hfinish)
  · refine ⟨honline, ?_, ?_, ?_, rows_done row hmem, rows_entered row hmem, rows_upload row hmem, rows_download row hmem⟩
    · intro hresume
      exact (hresumed hresume).2
    · intro hmsg
      exact (hentering hmsg).2
    · intro hfn
      exact hfinished (Or.inr hfn)

theorem Sound.byte (h : Sound readOnly c) {o : Option Host.Fn} (htake : c.takeByte ch = (t, o)) :
    Sound readOnly t ∧ ∀ fn, o = some fn → Called t fn := by
  have htyped : Sound readOnly { c with host := (if c.host.doLineBuffer then Host.lineBufferChar ch (Host.noted ch c.host)
      else (true, Host.noted ch c.host)).2 } := by
    have hnoted := h.seen (.key c.host.currentState c.host.loginState ch :: c.host.seen) c.host.doLineBuffer
    split
    · exact hnoted.typed ch
    · exact hnoted
  rw [Caller.takeByte] at htake
  generalize (if c.host.doLineBuffer then Host.lineBufferChar ch (Host.noted ch c.host)
      else (true, Host.noted ch c.host)) = typed at htyped htake
  dsimp only at htake
  split at htake
  · have hready := htyped.seen typed.2.seen false
    split at htake
    · next row hrow =>
      obtain ⟨rfl, rfl⟩ := Prod.mk.inj htake
      obtain ⟨hsound, hcalled⟩ := hready.selected hrow
      refine ⟨hsound, ?_⟩
      intro fn hfn
      rw [← Option.some.inj hfn]
      exact hcalled
    · obtain ⟨rfl, rfl⟩ := Prod.mk.inj htake
      refine ⟨hready, ?_⟩
      intro fn hfn
      cases hfn
  · obtain ⟨rfl, rfl⟩ := Prod.mk.inj htake
    refine ⟨htyped, ?_⟩
    intro fn hfn
    cases hfn

/-! One call -/

theorem call_some {host : Host.Host} (hbeside : c.beside config env fn = some t)
    (hhost : Host.call config env c.host fn = some host) : c.call config env fn = some { t with host } := by
  rw [Caller.call, hbeside, hhost]
  rfl

theorem online_idle {P : Prop} {online : Bool} (h : online = true) (hoff : online = false) : P := by
  rw [h] at hoff
  cases hoff

theorem mainMenu_eq (h : Whole c.board) : c.mainMenu = some { c with board := c.board.mainMenu } :=
  if_neg fun hnone => h.set (mem_everySecond hnone)

theorem killMessage_eq (h : Whole c.board) :
    c.killMessage = some ⟨c.host, c.board.mainMenu, none, none, [], c.filename⟩ := by
  have hcleared : Whole ({ c with msgFrom := none, msgTo := none, msgBody := [] } : Caller).board := h
  exact mainMenu_eq hcleared

theorem Called.unresumed (h : Called c fn) (hfn : ∀ protocol, fn ≠ .uploadFile protocol) :
    c.host.fileState ≠ .filenameResume := by
  intro hresume
  obtain ⟨protocol, hupload⟩ := h.resumed hresume
  exact hfn protocol hupload

theorem Called.init (h : Called c fn) (hfn : fn ≠ .enterMessage) : c.host.msgState = .msgInit := by
  by_contra hmsg
  exact hfn (h.entering hmsg)

theorem draft_init {state : Host.STATE} {msgState : Host.MsgState} {msgFrom msgTo : Option Text}
    (hmsg : msgState = .msgInit) (hstate : state = .enterMessageFinish → msgFrom ≠ none ∧ msgTo ≠ none) :
    Draft state msgState msgFrom msgTo := by
  subst hmsg
  refine ⟨?_, ?_, ?_, ?_, hstate⟩
  · intro hfrom
    cases hfrom
  · intro hto
    cases hto
  · intro hbody
    cases hbody
  · intro hother
    exact absurd rfl hother

theorem named_state {state : Host.STATE} {fileState : Host.FileState} {transferFilename filename : Bool}
    (hasked : fileState = .filenameWait → transferFilename = false) (hresume : fileState ≠ .filenameResume) :
    Named state fileState transferFilename filename :=
  ⟨hasked, fun heq => absurd heq hresume⟩

/-- To a menu. -/
theorem Sound.moved (h : Sound readOnly c) (honline : c.host.hostOnline = true)
    (hresume : c.host.fileState ≠ .filenameResume) (hmsg : c.host.msgState = .msgInit) {state : Host.STATE}
    (hstate : state ≠ .enterMessageFinish) : Sound readOnly { c with host := { c.host with currentState := state } } :=
  ⟨h.remote, online_idle honline, h.line, h.saved, named_state h.named.asked hresume,
    draft_init hmsg fun heq => absurd heq hstate, h.frozen, h.board⟩

theorem Sound.menu (h : Sound readOnly c) : Sound readOnly { c with board := c.board.mainMenu } :=
  ⟨h.remote, h.offline, h.line, h.saved, h.named, h.draft, h.frozen, whole_mainMenu h.board.file⟩

theorem Sound.login (h : Sound readOnly c) (hcalled : Called c .doLogin)
    (hline : c.host.loginState ≠ .loginInit → lineString c.host ≠ none) :
    ∃ u, c.call config env .doLogin = some u ∧ Sound readOnly u := by
  have honline := hcalled.online
  cases hlogin : c.host.loginState with
  | loginInit =>
    have hbeside : c.beside config env .doLogin = some c := by
      change c.doLogin config = _
      rw [Caller.doLogin, hlogin]
    have hhost : Host.call config env c.host .doLogin =
        some (Host.promptLine { c.host with loginState := .username }) := by
      change Host.doLogin config c.host = _
      rw [Host.doLogin, hlogin]
    exact ⟨_, call_some hbeside hhost,
      ⟨h.remote, online_idle honline, bounded_prompt, h.saved, h.named, h.draft, h.frozen, h.board⟩⟩
  | username =>
    obtain ⟨chars, hchars⟩ := Option.ne_none_iff_exists'.mp (hline (by rw [hlogin]; decide))
    have hbeside : c.beside config env .doLogin = some c := by
      change c.doLogin config = _
      rw [Caller.doLogin, hlogin, hchars]
      rfl
    have hhost : Host.call config env c.host .doLogin = some (Host.promptLine { c.host with
        loginUsername := Host.wcstombs c.host.lineBuffer 63, loginState := .password }) := by
      change Host.doLogin config c.host = _
      rw [Host.doLogin, hlogin]
    exact ⟨_, call_some hbeside hhost,
      ⟨h.remote, online_idle honline, bounded_prompt, h.saved, h.named, h.draft, h.frozen, h.board⟩⟩
  | password =>
    obtain ⟨chars, hchars⟩ := Option.ne_none_iff_exists'.mp (hline (by rw [hlogin]; decide))
    by_cases hright : c.host.loginUsername = config.hostUsername ∧
        Host.wcstombs c.host.lineBuffer 63 = config.hostPassword
    · have hbeside : c.beside config env .doLogin = some { c with board := c.board.mainMenu } := by
        change c.doLogin config = _
        rw [Caller.doLogin, hlogin, hchars, Option.bind_some, if_pos hright]
        exact mainMenu_eq h.board
      have hhost : Host.call config env c.host .doLogin = some { c.host with
          loginPassword := Host.wcstombs c.host.lineBuffer 63, loginState := .loginInit, currentState := .mainMenu } := by
        change Host.doLogin config c.host = _
        rw [Host.doLogin, hlogin]
        exact if_pos hright
      have hmoved := h.menu.moved honline (hcalled.unresumed (by simp)) (hcalled.init (by decide))
        (by decide : Host.STATE.mainMenu ≠ .enterMessageFinish)
      exact ⟨_, call_some hbeside hhost,
        ⟨h.remote, online_idle honline, h.line, h.saved, hmoved.named, hmoved.draft, h.frozen, hmoved.board⟩⟩
    · have hbeside : c.beside config env .doLogin = some c := by
        change c.doLogin config = _
        rw [Caller.doLogin, hlogin, hchars, Option.bind_some, if_neg hright]
      have hhost : Host.call config env c.host .doLogin = some (Host.promptLine { c.host with
          loginPassword := Host.wcstombs c.host.lineBuffer 63, loginState := .username }) := by
        change Host.doLogin config c.host = _
        rw [Host.doLogin, hlogin]
        exact if_neg hright
      exact ⟨_, call_some hbeside hhost,
        ⟨h.remote, online_idle honline, bounded_prompt, h.saved, h.named, h.draft, h.frozen, h.board⟩⟩

theorem Sound.entered (h : Sound env.readOnly c) (hcalled : Called c .enterMessage)
    (hline : env.readOnly = false ∧ c.host.msgState ≠ .msgInit → lineString c.host ≠ none) :
    ∃ u, c.call config env .enterMessage = some u ∧ Sound env.readOnly u := by
  have honline := hcalled.online
  have hstate := hcalled.entered rfl
  have hnamed (transferFilename : Bool) (state : Host.STATE)
      (hasked : c.host.fileState = .filenameWait → transferFilename = false) :
      Named state c.host.fileState transferFilename c.filename := named_state hasked (hcalled.unresumed (by simp))
  have hentering {state : Host.STATE} (h : state ≠ .enterMessageFinish) {P : Prop} (heq : state = .enterMessageFinish) : P :=
    absurd heq h
  have hstays : c.host.currentState ≠ .enterMessageFinish := by
    rw [hstate]
    decide
  by_cases hreadOnly : env.readOnly = true
  · have hbeside : c.beside config env .enterMessage = some { c with board := c.board.mainMenu } := by
      change c.enterMessage env = _
      rw [Caller.enterMessage, if_pos hreadOnly]
      exact mainMenu_eq h.board
    have hhost : Host.call config env c.host .enterMessage = some { c.host with currentState := .mainMenu } := by
      change Host.enterMessage env c.host = _
      rw [Host.enterMessage, if_pos hreadOnly]
    have hmoved := h.menu.moved honline (h.frozen hreadOnly).2 (h.frozen hreadOnly).1
      (by decide : Host.STATE.mainMenu ≠ .enterMessageFinish)
    exact ⟨_, call_some hbeside hhost, hmoved⟩
  rw [Bool.not_eq_true] at hreadOnly
  have hfrozen {msgState : Host.MsgState} {fileState : Host.FileState} (heq : env.readOnly = true) :
      msgState = .msgInit ∧ fileState ≠ .filenameResume := by
    rw [hreadOnly] at heq
    cases heq
  have hbeside : c.beside config env .enterMessage = c.enterMessage env := rfl
  have hhost : Host.call config env c.host .enterMessage = Host.enterMessage env c.host := rfl
  rw [Caller.enterMessage, if_neg (by simp [hreadOnly])] at hbeside
  rw [Host.enterMessage, if_neg (by simp [hreadOnly])] at hhost
  cases hmsg : c.host.msgState with
  | msgInit =>
    simp only [hmsg, killMessage_eq h.board] at hbeside hhost
    refine ⟨_, call_some hbeside hhost, ⟨h.remote, online_idle honline, bounded_prompt, h.saved,
      hnamed _ _ h.named.asked, ⟨fun _ => ⟨rfl, rfl⟩, ?_, ?_, fun _ => hstate, hentering hstays⟩, hfrozen,
      whole_mainMenu h.board.file⟩⟩
    · intro hto
      cases hto
    · intro hbody
      cases hbody
  | from' =>
    obtain ⟨hfrom, hto⟩ := h.draft.begun hmsg
    obtain ⟨chars, hchars⟩ := Option.ne_none_iff_exists'.mp (hline ⟨hreadOnly, by rw [hmsg]; decide⟩)
    simp only [hmsg, hchars, hfrom, if_true, Option.map_some] at hbeside hhost
    refine ⟨_, call_some hbeside hhost, ⟨h.remote, online_idle honline, bounded_prompt, h.saved,
      hnamed _ _ h.named.asked, ⟨?_, fun _ => ⟨Option.some_ne_none _, hto⟩, ?_, fun _ => hstate, hentering hstays⟩, hfrozen,
      h.board⟩⟩
    · intro hfrom'
      cases hfrom'
    · intro hbody
      cases hbody
  | to' =>
    obtain ⟨hfrom, hto⟩ := h.draft.sent hmsg
    obtain ⟨chars, hchars⟩ := Option.ne_none_iff_exists'.mp (hline ⟨hreadOnly, by rw [hmsg]; decide⟩)
    simp only [hmsg, hchars, hto, if_true, Option.map_some] at hbeside hhost
    refine ⟨_, call_some hbeside hhost, ⟨h.remote, online_idle honline, bounded_prompt, h.saved,
      hnamed _ _ h.named.asked, ⟨?_, ?_, fun _ => ⟨hfrom, Option.some_ne_none _⟩, fun _ => hstate, hentering hstays⟩, hfrozen,
      h.board⟩⟩
    · intro hfrom'
      cases hfrom'
    · intro hto'
      cases hto'
  | body =>
    have hboth := h.draft.body hmsg
    obtain ⟨chars, hchars⟩ := Option.ne_none_iff_exists'.mp (hline ⟨hreadOnly, by rw [hmsg]; decide⟩)
    simp only [hmsg, hchars, Option.map_some] at hbeside hhost
    have hkept : ∃ body, c.beside config env .enterMessage = some { c with msgBody := body } := by
      rw [hbeside]
      split
      · exact ⟨c.msgBody, rfl⟩
      · exact ⟨_, rfl⟩
    obtain ⟨body, hbody⟩ := hkept
    split at hhost
    · exact ⟨_, call_some hbody hhost, ⟨h.remote, online_idle honline, h.line, h.saved, hnamed _ _ h.named.asked,
        draft_init rfl fun _ => hboth, hfrozen, h.board⟩⟩
    · refine ⟨_, call_some hbody hhost, ⟨h.remote, online_idle honline, bounded_prompt, h.saved,
        hnamed _ _ h.named.asked, ⟨?_, ?_, fun _ => hboth, fun _ => hstate, hentering hstays⟩, hfrozen, h.board⟩⟩
      · intro hfrom
        cases hfrom
      · intro hto
        cases hto

theorem Sound.killed (h : Sound readOnly c) (hcalled : Called c .killMessage) :
    ∃ u, c.call config env .killMessage = some u ∧ Sound readOnly u := by
  have hstate := hcalled.done (Or.inl rfl)
  refine ⟨_, call_some (killMessage_eq h.board) rfl, ⟨h.remote, online_idle hcalled.online, h.line, h.saved, h.named,
    draft_init (hcalled.init (by decide)) ?_, h.frozen, whole_mainMenu h.board.file⟩⟩
  intro hfinish
  rw [hstate] at hfinish
  cases hfinish

theorem Sound.stored (h : Sound readOnly c) (hcalled : Called c .saveMessage)
    (hread : ∀ sender ∈ c.msgFrom, ∀ recipient ∈ c.msgTo, Readable ⟨sender, recipient, c.msgBody⟩) :
    ∃ u, c.call config env .saveMessage = some u ∧ Sound readOnly u := by
  obtain ⟨hfrom, hto⟩ := hcalled.finished (Or.inr rfl)
  obtain ⟨sender, hsender⟩ := Option.ne_none_iff_exists'.mp hfrom
  obtain ⟨recipient, hrecipient⟩ := Option.ne_none_iff_exists'.mp hto
  have hreadable := hread sender hsender recipient hrecipient
  have hsorted := h.board.file.appended hreadable
  have hset := h.board.set
  have hwhole : Whole (Board.mainMenu { c.board with
      file := c.board.file ++ rows (separator :: (⟨sender, recipient, c.msgBody⟩ : Letter).lines)
      kept := c.board.kept ++ [⟨sender, recipient, c.msgBody⟩] }) := whole_mainMenu hsorted
  have hbeside : c.beside config env .saveMessage = some ⟨c.host, Board.mainMenu { c.board with
      file := c.board.file ++ rows (separator :: (⟨sender, recipient, c.msgBody⟩ : Letter).lines)
      kept := c.board.kept ++ [⟨sender, recipient, c.msgBody⟩] }, none, none, [], c.filename⟩ := by
    change c.saveMessage = _
    rw [Caller.saveMessage, hsender, hrecipient]
    dsimp only
    rw [Caller.killMessage, Caller.mainMenu, if_neg fun hnone => hset (mem_everySecond hnone), Option.bind_some]
    exact mainMenu_eq hwhole
  have hstate := hcalled.done (Or.inr rfl)
  refine ⟨_, call_some hbeside rfl, ⟨h.remote, online_idle hcalled.online, h.line, h.saved, h.named,
    draft_init (hcalled.init (by decide)) ?_, h.frozen, hwhole⟩⟩
  intro hfinish
  rw [hstate] at hfinish
  cases hfinish

/-- A function that only works on the messages in memory. -/
theorem Sound.shelved (h : Sound readOnly c) {f : Board → Option Board} (hbeside : c.beside config env fn = c.onBoard f)
    (hhost : Host.call config env c.host fn = some c.host) (hf : ∃ b, f c.board = some b ∧ Whole b) :
    ∃ u, c.call config env fn = some u ∧ Sound readOnly u := by
  obtain ⟨b, hb, hwhole⟩ := hf
  rw [Caller.onBoard, hb, Option.map_some] at hbeside
  exact ⟨_, call_some hbeside hhost, ⟨h.remote, h.offline, h.line, h.saved, h.named, h.draft, h.frozen, hwhole⟩⟩

theorem Sound.still (h : Sound readOnly c) (hbeside : c.beside config env fn = some c)
    (hhost : Host.call config env c.host fn = some c.host) : ∃ u, c.call config env fn = some u ∧ Sound readOnly u :=
  ⟨_, call_some hbeside hhost, h⟩

theorem Sound.reset (h : Sound readOnly c) : Sound readOnly { c with host := Host.resetHost c.host } :=
  ⟨rfl, fun _ => ⟨Or.inl rfl, rfl⟩, ⟨Nat.zero_le _, fun _ _ => rfl⟩, h.saved,
    named_state (fun heq => by cases heq) (by decide : Host.FileState.filename ≠ .filenameResume),
    draft_init rfl (fun heq => by cases heq), fun _ => ⟨rfl, (by decide : Host.FileState.filename ≠ .filenameResume)⟩, h.board⟩

theorem hangup_eq (hremote : s.localLogin = false) (honline : s.hostOnline = true) :
    Host.hangup s = some (Host.resetHost s) := by
  rw [Host.hangup, if_pos honline, if_neg (by simp [hremote])]

theorem Sound.paged (h : Sound readOnly c) (hcalled : Called c .pageSysop) :
    ∃ u, c.call config env .pageSysop = some u ∧ Sound readOnly u := by
  have hmoved {state : Host.STATE} (hstate : state ≠ .enterMessageFinish) :=
    h.moved hcalled.online (hcalled.unresumed (by simp)) (hcalled.init (by decide)) hstate
  have hbeside : c.beside config env .pageSysop = c.pageSysop env := rfl
  have hhost : Host.call config env c.host .pageSysop = some (Host.pageSysop env c.host) := rfl
  rw [Caller.pageSysop] at hbeside
  rw [Host.pageSysop] at hhost
  cases hpage : c.host.page with
  | false =>
    rw [if_neg (by simp [hpage])] at hbeside
    rw [if_pos hpage] at hhost
    have hpaging := hmoved (by decide : Host.STATE.pageSysop ≠ .enterMessageFinish)
    exact ⟨_, call_some hbeside hhost, ⟨h.remote, online_idle hcalled.online, h.line, h.saved, hpaging.named,
      hpaging.draft, h.frozen, h.board⟩⟩
  | true =>
    rw [if_neg (by simp [hpage])] at hhost
    by_cases htime : env.now - c.host.pageStart ≥ 15
    · rw [if_pos ⟨hpage, htime⟩, mainMenu_eq h.board] at hbeside
      rw [if_pos htime] at hhost
      have hpaging := hmoved (by decide : Host.STATE.mainMenu ≠ .enterMessageFinish)
      exact ⟨_, call_some hbeside hhost, ⟨h.remote, online_idle hcalled.online, h.line, h.saved, hpaging.named,
        hpaging.draft, h.frozen, whole_mainMenu h.board.file⟩⟩
    · rw [if_neg (by simp [htime])] at hbeside
      rw [if_neg htime] at hhost
      split at hhost
      · exact ⟨_, call_some hbeside hhost, ⟨h.remote, h.offline, h.line, h.saved, h.named, h.draft, h.frozen, h.board⟩⟩
      · exact ⟨_, call_some hbeside hhost, h⟩

/-! A file -/

/-- The name is asked for. -/
theorem Sound.asked (h : Sound readOnly c) (honline : c.host.hostOnline = true) (hmsg : c.host.msgState = .msgInit)
    (hstate : c.host.currentState ≠ .enterMessageFinish) : Sound readOnly { c with host := Host.askFilename c.host } :=
  ⟨h.remote, online_idle honline, bounded_prompt, h.saved,
    named_state (fun _ => rfl) (by decide : Host.FileState.filenameWait ≠ .filenameResume),
    draft_init hmsg fun heq => absurd heq hstate,
    fun hread => ⟨(h.frozen hread).1, (by decide : Host.FileState.filenameWait ≠ .filenameResume)⟩, h.board⟩

/-- A file is there or not, and the menu again or a transfer. -/
theorem Sound.filed (h : Sound readOnly c) (honline : c.host.hostOnline = true) (hmsg : c.host.msgState = .msgInit)
    {state : Host.STATE} (hstate : state ≠ .enterMessageFinish) {fileState : Host.FileState}
    (hfile : fileState ≠ .filenameResume) {transferFilename : Bool}
    (hasked : fileState = .filenameWait → transferFilename = false) (filename : Bool) :
    Sound readOnly { c with
      host := { c.host with currentState := state, fileState, transferFilename }
      filename } :=
  ⟨h.remote, online_idle honline, h.line, h.saved, named_state hasked hfile,
    draft_init hmsg fun heq => absurd heq hstate, fun hread => ⟨(h.frozen hread).1, hfile⟩, h.board⟩

theorem Sound.downloaded (h : Sound readOnly c) {protocol : Host.Protocol} (hcalled : Called c (.downloadFile protocol))
    (hstate : c.host.currentState ≠ .enterMessageFinish)
    (hline : c.host.fileState = .filenameWait → lineString c.host ≠ none) :
    ∃ u, c.call config env (.downloadFile protocol) = some u ∧ Sound readOnly u := by
  have honline := hcalled.online
  have hremote := h.remote
  have hresume := hcalled.unresumed (by simp)
  have hmsg := hcalled.init (by simp)
  have hbeside : c.beside config env (.downloadFile protocol) = c.downloadFile := rfl
  have hhost : Host.call config env c.host (.downloadFile protocol) = Host.downloadFile env c.host := rfl
  rw [Caller.downloadFile, if_neg (by simp [hremote])] at hbeside
  rw [Host.downloadFile, if_neg (by simp [hremote]), if_neg (by simp [honline])] at hhost
  cases hfile : c.host.fileState with
  | filename =>
    rw [if_neg (by simp [hfile])] at hbeside
    rw [hfile] at hhost
    exact ⟨_, call_some hbeside hhost, h.asked honline hmsg hstate⟩
  | filenameWait =>
    have hnone := h.named.asked hfile
    obtain ⟨chars, hchars⟩ := Option.ne_none_iff_exists'.mp (hline hfile)
    rw [if_pos hfile, hchars, Option.map_some] at hbeside
    simp only [hfile, hnone, Bool.false_eq_true, if_false] at hhost
    have hback : Host.STATE.downloadFile ≠ .enterMessageFinish := by decide
    cases hstat : env.stat with
    | found =>
      rw [hstat] at hhost
      exact ⟨_, call_some hbeside hhost, h.filed honline hmsg hback (by decide : Host.FileState.transfer ≠ .filenameResume)
        (fun heq => by cases heq) c.filename⟩
    | noEntry =>
      rw [hstat] at hhost
      exact ⟨_, call_some hbeside hhost, h.filed honline hmsg hback (by decide : Host.FileState.filename ≠ .filenameResume)
        (fun heq => by cases heq) c.filename⟩
    | failed =>
      rw [hstat] at hhost
      exact ⟨_, call_some hbeside hhost, h.filed honline hmsg hback
        (by decide : Host.FileState.filenameWait ≠ .filenameResume) (fun _ => rfl) c.filename⟩
  | filenameResume => exact absurd hfile hresume
  | transfer =>
    rw [if_neg (by simp [hfile])] at hbeside
    rw [hfile] at hhost
    have hagain := h.filed honline hmsg hstate (by decide : Host.FileState.filename ≠ .filenameResume)
      (fun _ => rfl) c.filename
    exact ⟨_, call_some hbeside hhost, hagain.asked honline hmsg hstate⟩

theorem lineString_ne_nil {chars : List UInt32} (h : lineString s = some chars) (hfirst : s.lineBuffer 0 ≠ 0) :
    chars ≠ [] := by
  rw [lineString] at h
  split at h
  · have hrange : List.range lineSize = 0 :: (List.range 79).map (· + 1) := List.range_succ_eq_map
    have hchars := Option.some.inj h
    rw [hrange, List.map_cons, List.takeWhile_cons_of_pos (by simpa using hfirst)] at hchars
    rw [← hchars]
    exact List.cons_ne_nil _ _
  · cases h

theorem Sound.uploaded (h : Sound env.readOnly c) {protocol : Host.Protocol} (hcalled : Called c (.uploadFile protocol))
    (hline : env.readOnly = false ∧ (c.host.fileState = .filenameWait ∨ c.host.fileState = .filenameResume) →
      lineString c.host ≠ none) :
    ∃ u, c.call config env (.uploadFile protocol) = some u ∧ Sound env.readOnly u := by
  have honline := hcalled.online
  have hremote := h.remote
  have hmsg := hcalled.init (by simp)
  have huploading := hcalled.uploading protocol rfl
  have hstate : c.host.currentState ≠ .enterMessageFinish := by
    intro heq
    rw [heq] at huploading
    revert huploading
    decide
  have hbeside : c.beside config env (.uploadFile protocol) = c.uploadFile env protocol := rfl
  have hhost : Host.call config env c.host (.uploadFile protocol) = Host.uploadFile protocol env c.host := rfl
  rw [Caller.uploadFile] at hbeside
  rw [Host.uploadFile, if_neg (by simp [hremote])] at hhost
  have hmenu : Host.STATE.mainMenu ≠ .enterMessageFinish := by decide
  have hback : Host.STATE.uploadFile ≠ .enterMessageFinish := by decide
  have hfilename : Host.FileState.filename ≠ .filenameResume := by decide
  have hwait : Host.FileState.filenameWait ≠ .filenameResume := by decide
  have htransfer : Host.FileState.transfer ≠ .filenameResume := by decide
  by_cases hreadOnly : env.readOnly = true
  · rw [if_pos (Or.inr hreadOnly), mainMenu_eq h.board] at hbeside
    rw [if_pos hreadOnly] at hhost
    exact ⟨_, call_some hbeside hhost, h.menu.moved honline (h.frozen hreadOnly).2 hmsg hmenu⟩
  rw [if_neg (by simp [hremote, hreadOnly])] at hbeside
  rw [if_neg hreadOnly, if_neg (by simp [honline])] at hhost
  rw [Bool.not_eq_true] at hreadOnly
  cases hfile : c.host.fileState with
  | filename =>
    rw [hfile] at hbeside hhost
    exact ⟨_, call_some hbeside hhost, h.asked honline hmsg hstate⟩
  | transfer =>
    rw [hfile] at hbeside hhost
    have hagain := h.filed honline hmsg hstate hfilename (fun _ => rfl) c.filename
    exact ⟨_, call_some hbeside hhost, hagain.asked honline hmsg hstate⟩
  | filenameResume =>
    obtain ⟨hname, -⟩ := h.named.resumed hfile
    obtain ⟨chars, hchars⟩ := Option.ne_none_iff_exists'.mp (hline ⟨hreadOnly, Or.inr hfile⟩)
    simp only [hfile, hname, hchars, if_true, Option.map_some] at hbeside
    rw [hfile] at hhost
    dsimp only at hhost
    split at hhost
    · exact ⟨_, call_some hbeside hhost, h.filed honline hmsg hback htransfer (fun heq => by cases heq) false⟩
    · exact ⟨_, call_some hbeside hhost, h.filed honline hmsg hback hfilename (fun heq => by cases heq) false⟩
  | filenameWait =>
    have hnone := h.named.asked hfile
    obtain ⟨chars, hchars⟩ := Option.ne_none_iff_exists'.mp (hline ⟨hreadOnly, Or.inl hfile⟩)
    simp only [hfile, hchars, Option.map_some] at hbeside
    simp only [hfile, hnone, Bool.false_eq_true, if_false] at hhost
    have hkept : ∃ filename, c.beside config env (.uploadFile protocol) = some { c with filename } ∧
        (chars ≠ [] → env.stat = .found → ¬ (protocol = .xmodem ∨ protocol = .ymodem) → filename = true) := by
      rw [hbeside]
      split
      · next hempty => exact ⟨c.filename, rfl, fun hne => absurd hempty hne⟩
      · refine ⟨_, rfl, ?_⟩
        intro _ hstat hprotocol
        simp only [not_or] at hprotocol
        exact decide_eq_true ⟨hstat, hprotocol⟩
    obtain ⟨filename, hbeside, hfound⟩ := hkept
    split at hhost
    · exact ⟨_, call_some hbeside hhost, h.filed honline hmsg hback hfilename (fun heq => by cases heq) filename⟩
    next hfirst =>
    have hne := lineString_ne_nil hchars hfirst
    split at hhost
    · exact ⟨_, call_some hbeside hhost, h.filed honline hmsg hback htransfer (fun heq => by cases heq) filename⟩
    · exact ⟨_, call_some hbeside hhost, h.filed honline hmsg hback hwait (fun _ => rfl) filename⟩
    next hstat =>
    split at hhost
    · exact ⟨_, call_some hbeside hhost, h.filed honline hmsg hback hfilename (fun heq => by cases heq) filename⟩
    next hprotocol =>
    refine ⟨_, call_some hbeside hhost, ⟨h.remote, online_idle honline, bounded_prompt, h.saved,
      ⟨fun heq => (by cases heq), fun _ => ⟨hfound hne hstat hprotocol, huploading⟩⟩,
      draft_init hmsg fun heq => absurd heq hstate, ?_, h.board⟩⟩
    intro hread
    rw [hreadOnly] at hread
    cases hread

theorem Sound.chatting (h : Sound readOnly c) (hcalled : Called c .chat) :
    ∃ u, c.call config env .chat = some u ∧ Sound readOnly u := by
  have hsaved : Bounded (Host.chat c.host).savedLineBufferN (Host.chat c.host).savedLineBuffer := by
    refine ⟨h.line.count, ?_⟩
    intro i hi
    have hcount := h.line.count
    exact (if_neg (by omega : ¬ i < c.host.lineBufferN)).trans (h.saved.beyond i hi)
  have hbeside : c.beside config env .chat = some c := rfl
  exact ⟨_, call_some hbeside rfl,
    ⟨h.remote, online_idle hcalled.online, bounded_prompt, hsaved, h.named, h.draft, h.frozen, h.board⟩⟩

/-- A function of the table that is called with what it needs. -/
theorem Sound.call (h : Sound env.readOnly c) (hcalled : Called c fn) (hspared : Spared env.readOnly c fn) :
    ∃ u, c.call config env fn = some u ∧ Sound env.readOnly u := by
  cases fn with
  | doLogin => exact h.login hcalled hspared
  | viewCurrentMessage => exact h.shelved rfl rfl ⟨c.board, h.board.display, h.board⟩
  | viewNewMessage => exact h.still (if_pos (hcalled.finished (Or.inl rfl))) rfl
  | enterMessage => exact h.entered hcalled hspared
  | saveMessage => exact h.stored hcalled hspared
  | killMessage => exact h.killed hcalled
  | readMessagesMenu => exact h.shelved rfl rfl h.board.menu
  | killReadMessage => exact h.shelved rfl rfl (h.board.killed hspared.1 hspared.2)
  | previousMessage => exact h.shelved rfl rfl h.board.previous
  | nextMessage => exact h.shelved rfl rfl h.board.next
  | pageSysop => exact h.paged hcalled
  | chat => exact h.chatting hcalled
  | mainMenu => exact ⟨_, call_some (mainMenu_eq h.board) rfl, h.menu⟩
  | goodbye => exact ⟨_, call_some rfl (hangup_eq h.remote hcalled.online), h.reset⟩
  | downloadFile protocol => exact h.downloaded hcalled (hcalled.downloading protocol rfl) hspared
  | uploadFile protocol => exact h.uploaded hcalled hspared
  | listFiles | downloadFileMenu | uploadFileMenu | enterMessageFinishMenu => exact h.still rfl rfl

/-! Every byte -/

theorem Sound.key (h : Sound env.readOnly c)
    (hspared : ∀ t fn, c.takeByte ch = (t, some fn) → Spared env.readOnly t fn) :
    ∃ u, c.stateMachine config env ch = some u ∧ Sound env.readOnly u := by
  rw [Caller.stateMachine]
  generalize htake : c.takeByte ch = taken at hspared ⊢
  obtain ⟨t, o⟩ := taken
  obtain ⟨hsound, hcalled⟩ := h.byte htake
  cases o with
  | none => exact ⟨t, rfl, hsound⟩
  | some fn => exact hsound.call (hcalled fn rfl) (hspared t fn rfl)

theorem Sound.input {input : List (UInt8 × Around)} (h : Sound readOnly c)
    (hspared : EachSpared config readOnly input c) :
    ∃ u, input.foldlM (fun c byte => c.stateMachine config (byte.2.env readOnly) (config.translate8bitIn byte.1)) c =
      some u ∧ Sound readOnly u := by
  induction input generalizing c with
  | nil => exact ⟨c, rfl, h⟩
  | cons byte later ih =>
    obtain ⟨hbyte, hlater⟩ := hspared
    have hhere : Sound (byte.2.env readOnly).readOnly c := h
    obtain ⟨t, ht, hsound⟩ := @Sound.key config _ _ _ hhere hbyte
    obtain ⟨u, hu, hend⟩ := ih hsound (hlater t ht)
    refine ⟨u, ?_, hend⟩
    rw [List.foldlM_cons, ht]
    exact hu

/-! Calls -/

theorem Sound.paging (h : Sound env.readOnly c) : ∃ u, c.paging config env = some u ∧ Sound env.readOnly u := by
  rw [Caller.paging]
  split
  · next hpage =>
    obtain ⟨honline, hstate⟩ := hpage
    have hremote := h.remote
    have hspared : Spared env.readOnly c .pageSysop := fun hnever => hnever.elim
    have hcalled : Called c .pageSysop := by
      refine ⟨by simpa [hremote] using honline, ?_, ?_, by simp, by simp, by simp, by simp, by simp⟩
      · intro hresume
        have huploading := (h.named.resumed hresume).2
        rw [hstate] at huploading
        exact absurd huploading (by decide)
      · intro hmsg
        have hentry := h.draft.entering hmsg
        rw [hstate] at hentry
        cases hentry
    exact h.call hcalled hspared
  · exact ⟨c, rfl, h⟩

theorem Sound.quiet (h : Sound readOnly c) (hoff : c.host.hostOnline = false) :
    c.host.fileState ≠ .filenameResume ∧ c.host.msgState = .msgInit := by
  have hidle := (h.offline hoff).state
  have hstate : c.host.currentState = .listening ∨ c.host.currentState = .modemListeningForRing ∨
      c.host.currentState = .modemListeningForConnect := hidle.imp_right And.right
  constructor
  · intro hresume
    have huploading := (h.named.resumed hresume).2
    obtain heq | heq | heq := hstate <;> rw [heq] at huploading <;> revert huploading <;> decide
  · by_contra hmsg
    have hentry := h.draft.entering hmsg
    obtain heq | heq | heq := hstate <;> rw [heq] at hentry <;> cases hentry

/-- A call is answered. -/
theorem Sound.answered (h : Sound env.readOnly c) (hoff : c.host.hostOnline = false) :
    ∃ u, c.answer config env = some u ∧ Sound env.readOnly u := by
  obtain ⟨hresume, hmsg⟩ := h.quiet hoff
  have hlogin := (h.offline hoff).login
  have hsound : Sound env.readOnly { c with host := { c.host with
      hostOnline := true, statusOnline := true, currentState := .login, seen := .answered :: c.host.seen } } :=
    ⟨h.remote, online_idle rfl, h.line, h.saved, named_state h.named.asked hresume,
      draft_init hmsg (fun heq => by cases heq), h.frozen, h.board⟩
  have hcalled : Called { c with host := { c.host with
      hostOnline := true, statusOnline := true, currentState := .login, seen := .answered :: c.host.seen } } .doLogin :=
    ⟨rfl, fun heq => absurd heq hresume, fun hne => absurd hmsg hne, by simp, by simp, by simp, by simp, by simp⟩
  exact hsound.login hcalled fun hne => absurd hlogin hne

theorem Sound.listening (h : Sound readOnly c) (hoff : c.host.hostOnline = false) {state : Host.STATE}
    (hidle : Idle state c.host.hostType c.host.loginState) :
    Sound readOnly { c with host := { c.host with currentState := state } } := by
  obtain ⟨hresume, hmsg⟩ := h.quiet hoff
  refine ⟨h.remote, fun _ => hidle, h.line, h.saved, named_state h.named.asked hresume, draft_init hmsg ?_, h.frozen,
    h.board⟩
  intro hfinish
  obtain hl | ⟨-, hr | hc⟩ := hidle.state
  · rw [hl] at hfinish
    cases hfinish
  · rw [hr] at hfinish
    cases hfinish
  · rw [hc] at hfinish
    cases hfinish

/-- The modem is asked, or it has a caller. -/
theorem Sound.modem (h : Sound env.readOnly c) (hoff : c.host.hostOnline = false) (htype : c.host.hostType = .modem) :
    ∃ u, ((Host.hostModemData env c.host).bind fun host =>
        if host.hostOnline then
          (if host.currentState = .modemConnected then Caller.answer config env { c with host } else none)
        else some { c with host }) = some u ∧ Sound env.readOnly u := by
  have hidle := h.offline hoff
  have hring : Idle .modemListeningForRing c.host.hostType c.host.loginState :=
    ⟨Or.inr ⟨htype, Or.inl rfl⟩, hidle.login⟩
  have hconnect : Idle .modemListeningForConnect c.host.hostType c.host.loginState :=
    ⟨Or.inr ⟨htype, Or.inr rfl⟩, hidle.login⟩
  have hstill {host : Host.Host} (hhost : Host.hostModemData env c.host = some host) (hon : host.hostOnline = false)
      (hsound : Sound env.readOnly { c with host }) : ∃ u, ((Host.hostModemData env c.host).bind fun host =>
        if host.hostOnline then
          (if host.currentState = .modemConnected then Caller.answer config env { c with host } else none)
        else some { c with host }) = some u ∧ Sound env.readOnly u := by
    rw [hhost, Option.bind_some, if_neg (by simp [hon])]
    exact ⟨_, rfl, hsound⟩
  obtain hl | ⟨-, hr | hc⟩ := hidle.state
  · by_cases hsent : env.modemLine = .initSent
    · have hhost : Host.hostModemData env c.host = some { c.host with currentState := .modemListeningForRing } := by
        rw [Host.hostModemData, hl]
        dsimp only
        rw [if_pos hsent]
      exact hstill hhost hoff (h.listening hoff hring)
    · have hhost : Host.hostModemData env c.host = some c.host := by
        rw [Host.hostModemData, hl]
        dsimp only
        rw [if_neg hsent]
      exact hstill hhost hoff h
  · by_cases hrings : env.modemLine = .ring
    · have hhost : Host.hostModemData env c.host = some { c.host with currentState := .modemListeningForConnect } := by
        rw [Host.hostModemData, hr]
        dsimp only
        rw [if_pos hrings]
      exact hstill hhost hoff (h.listening hoff hconnect)
    · have hhost : Host.hostModemData env c.host = some c.host := by
        rw [Host.hostModemData, hr]
        dsimp only
        rw [if_neg hrings]
      exact hstill hhost hoff h
  · cases hline : env.modemLine with
    | restart =>
      have hdata : Host.hostModemData env c.host = some { c.host with currentState := .listening } := by
        simp [Host.hostModemData, hc, hline]
      exact hstill hdata hoff (h.listening hoff ⟨Or.inl rfl, hidle.login⟩)
    | connect =>
      have hdata : Host.hostModemData env c.host =
          some { c.host with hostOnline := true, currentState := .modemConnected } := by
        simp [Host.hostModemData, hc, hline]
      rw [hdata, Option.bind_some]
      dsimp only
      rw [if_pos rfl, if_pos rfl]
      exact h.answered hoff
    | nothing | initSent | ring =>
      have hdata : Host.hostModemData env c.host = some c.host := by simp [Host.hostModemData, hc, hline]
      exact hstill hdata hoff h

theorem Sound.waiting (h : Sound env.readOnly c) (hoff : c.host.hostOnline = false) (input : List UInt8) :
    ∃ u, c.waiting config env input = some u ∧ Sound env.readOnly u := by
  have hremote := h.remote
  have hidle := h.offline hoff
  have hlistening (htype : c.host.hostType ≠ .modem) : c.host.currentState = .listening :=
    hidle.state.resolve_right fun hmodem => htype hmodem.1
  have hnet (htype : c.host.hostType ≠ .modem) : ∃ u, (if env.accepted then
      (if c.host.currentState = .listening then c.answer config env else none) else some c) = some u ∧
        Sound env.readOnly u := by
    rw [if_pos (hlistening htype)]
    split
    · exact h.answered hoff
    · exact ⟨c, rfl, h⟩
  rw [Caller.waiting]
  split
  · exact ⟨c, rfl, h⟩
  cases htype : c.host.hostType with
  | modem =>
    dsimp only
    rw [if_neg (by simp [hremote])]
    exact h.modem hoff htype
  | serial =>
    dsimp only
    rw [if_neg (by simp [hremote]), if_pos (hlistening (by rw [htype]; decide))]
    exact h.answered hoff
  | socket | telnetd | sshd => exact hnet (by rw [htype]; decide)

theorem Sound.data (h : Sound readOnly c) (around : Around) (input : List (UInt8 × Around))
    (hmeets : Meets config readOnly c (.data around input)) :
    ∃ u, c.hostProcessData config readOnly around input = some u ∧ Sound readOnly u := by
  have hhere : Sound (around.env readOnly).readOnly c := h
  obtain ⟨t, ht, hsound⟩ := @Sound.paging config _ _ hhere
  rw [Caller.hostProcessData, ht, Option.bind_some]
  split
  · next honline =>
    split
    · rw [hangup_eq hsound.remote honline]
      exact ⟨_, rfl, hsound.reset⟩
    · next hstatus => exact Sound.input hsound (hmeets t ht honline (by simpa using hstatus))
  · next hoff => exact hsound.waiting (by simpa using hoff) _

/-! Runs -/

theorem statics_sound {file : List UInt8} (hfile : Sorted file) (kept : List Letter) : Sound readOnly (statics file kept) :=
  ⟨rfl, fun _ => ⟨Or.inl rfl, rfl⟩, ⟨Nat.zero_le _, fun _ _ => rfl⟩, ⟨Nat.zero_le _, fun _ _ => rfl⟩,
    named_state (fun heq => by cases heq) (by decide : Host.FileState.filename ≠ .filenameResume),
    draft_init rfl (fun heq => by cases heq), fun _ => ⟨rfl, (by decide : Host.FileState.filename ≠ .filenameResume)⟩,
    ⟨hfile, fun _ hslot => absurd hslot List.not_mem_nil, Or.inl ⟨rfl, Or.inl rfl⟩⟩⟩

theorem Sound.step (h : Sound readOnly c) {event : Event} (hmeets : Meets config readOnly c event) :
    ∃ u, step config readOnly c event = some u ∧ Sound readOnly u := by
  cases event with
  | process => exact ⟨_, rfl, statics_sound h.board.file c.board.kept⟩
  | start type =>
    have hreset := h.reset
    exact ⟨_, rfl, ⟨hreset.remote, fun _ => ⟨Or.inl rfl, rfl⟩, hreset.line, hreset.saved, hreset.named, hreset.draft,
      hreset.frozen, hreset.board⟩⟩
  | data around input => exact h.data around input hmeets
  | lineDown =>
    exact ⟨_, rfl, ⟨h.remote, h.offline, h.line, h.saved, h.named, h.draft, h.frozen, h.board⟩⟩

theorem Sound.run (h : Sound readOnly c) {events : List Event} (hmeets : MeetsAll config readOnly events c) :
    ∃ u, run config readOnly events c = some u ∧ Sound readOnly u := by
  induction events generalizing c with
  | nil => exact ⟨c, rfl, h⟩
  | cons event later ih =>
    obtain ⟨hevent, hlater⟩ := hmeets
    obtain ⟨t, ht, hsound⟩ := h.step hevent
    obtain ⟨u, hu, hend⟩ := ih hsound (hlater t ht)
    refine ⟨u, ?_, hend⟩
    rw [Callers.run, ht]
    exact hu

/-- The arrays are used inside their bounds, and every message in memory is there. -/
structure Safe (c : Caller) : Prop where
  line : Bounded c.host.lineBufferN c.host.lineBuffer
  saved : Bounded c.host.savedLineBufferN c.host.savedLineBuffer
  set : none ∉ c.board.allMessages
  current : c.board.allMessages ≠ [] → 0 ≤ c.board.currentMessage ∧ c.board.currentMessage < c.board.allMessages.length

/-- Nothing happens around a byte but for a call. -/
def still (accepted : Bool) : Around := ⟨0, .found, accepted, .nothing⟩

end CProgram.Qodem.Callers
