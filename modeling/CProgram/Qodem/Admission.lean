import CProgram.Qodem.Login

/-! Nobody gets past the login without the account: what the state and the line buffer have to do
with the keys, step by step, and over a whole session. -/
namespace CProgram.Qodem.Host
variable {config : Config} {env : Env} {s t : Host} {ch : UInt8}

/-- At a prompt: the line that is typed, and the username behind the first prompt. -/
def AtPrompt (seen : List Seen) (loginState : LoginState) (loginUsername : List UInt8) : Prop :=
  loginState = .username ∨
    loginState = .password ∧ loginUsername = held 63 (text (watch seen).user)

/-- The login lies behind a break of the sysop, its line put by between two characters. -/
structure PutBy (s : Host) : Prop where
  count : s.savedLineBufferN = (text (watch s.seen).line).length
  chars : ∀ i < s.savedLineBufferN, s.savedLineBuffer i = (text (watch s.seen).line).getD i 0
  clear : ∀ i, s.lineBuffer i = 0
  rest : s.utf8State = 0 ∧ (typed (watch s.seen).line).state = 0
  room : (text (watch s.seen).line).length ≤ 80
  noNul : (0 : UInt32) ∉ text (watch s.seen).line
  prompt : AtPrompt s.seen s.loginState s.loginUsername
  buffered : s.chatPreviousLineBuffer = true

/-- Somebody is on the line. -/
structure Online (config : Config) (s : Host) : Prop where
  awake : ¬ Waiting s.currentState
  login : s.currentState = .login → s.doLineBuffer = true ∧ Holds s (typed (watch s.seen).line) ∧
    AtPrompt s.seen s.loginState s.loginUsername
  within : Within s.currentState → LoggedIn config s.seen
  broken : s.currentState = .chat → (s.chatPreviousState = .login ∧ PutBy s) ∨
    (Within s.chatPreviousState ∧ LoggedIn config s.seen)

structure Sound (config : Config) (s : Host) : Prop where
  remote : s.localLogin = false
  offline : s.hostOnline = false →
    Waiting s.currentState ∧ s.loginState = .loginInit ∧ s.doLineBuffer = false
  online : s.hostOnline = true → Online config s

theorem sound_resetHost : Sound config (resetHost s) :=
  ⟨rfl, fun _ => ⟨(by decide : Waiting .listening), rfl, rfl⟩, fun h => by cases h⟩

/-! ### The table -/

theorem rows_within : ∀ row ∈ states, Within row.state →
    Within row.nextState ∧ row.nextFn ≠ .doLogin ∧ row.nextFn ≠ .chat := by decide

theorem rows_login : ∀ row ∈ states, row.state = .login →
    row.nextState = .login ∧ row.nextFn = .doLogin := by decide

theorem rows_chat : ∀ row ∈ states, row.state = .chat →
    row.nextState = .chat ∧ row.nextFn = .chat := by decide

theorem rows_waiting : ∀ row ∈ states, ¬ Waiting row.state := by decide

theorem find_row {row : HostState} (h : states.find? (selects s ch) = some row) :
    row ∈ states ∧ row.state = s.currentState := by
  have hsel := List.find?_some h
  simp only [selects, Bool.and_eq_true, decide_eq_true_eq] at hsel
  exact ⟨List.mem_of_find?_eq_some h, hsel.1⟩

theorem find_open {row : HostState} (hrow : row ∈ states) (hinput : row.input = 0)
    (hstate : row.state = s.currentState) : ∃ row', states.find? (selects s ch) = some row' := by
  cases hfind : states.find? (selects s ch) with
  | some row' => exact ⟨row', rfl⟩
  | none =>
    have hnone := List.find?_eq_none.mp hfind row hrow
    simp [selects, hstate, hinput] at hnone

theorem menuKey_login (h : s.currentState = .login) :
    menuKey config env ch s = doLogin config s := by
  have hmem : (⟨.login, 0, .login, .doLogin⟩ : HostState) ∈ states := by simp [states]
  obtain ⟨row, hrow⟩ := @find_open s ch _ hmem rfl h.symm
  obtain ⟨hin, hstate⟩ := find_row hrow
  obtain ⟨hnext, hfn⟩ := rows_login row hin (hstate.trans h)
  have hsame : { s with currentState := STATE.login } = s := by rw [← h]
  rw [menuKey, hrow]
  simp only [hnext, hfn, hsame, call]

theorem menuKey_chat (h : s.currentState = .chat) : menuKey config env ch s = some (chat s) := by
  have hmem : (⟨.chat, 0, .chat, .chat⟩ : HostState) ∈ states := by simp [states]
  obtain ⟨row, hrow⟩ := @find_open s ch _ hmem rfl h.symm
  obtain ⟨hin, hstate⟩ := find_row hrow
  obtain ⟨hnext, hfn⟩ := rows_chat row hin (hstate.trans h)
  have hsame : { s with currentState := STATE.chat } = s := by rw [← h]
  rw [menuKey, hrow]
  simp only [hnext, hfn, hsame, call]

/-! ### Inside -/

theorem within_mainMenu : Within .mainMenu := by decide

theorem within_enterMessageFinish : Within .enterMessageFinish := by decide

theorem within_pageSysop : Within .pageSysop := by decide

theorem within_downloadFile : Within .downloadFile := by decide

theorem within_uploadFile : Within .uploadFile := by decide

theorem awake_login : ¬ Waiting .login := by decide

/-- The state stays past the login, or the call is over. -/
def Calm (s t : Host) : Prop :=
  (t.localLogin = s.localLogin ∧ t.hostOnline = s.hostOnline ∧ t.seen = s.seen ∧
    Within t.currentState) ∨ ∃ u, t = resetHost u

theorem calm_enterMessage (hin : Within s.currentState) (h : enterMessage env s = some t) : Calm s t := by
  unfold enterMessage at h
  split at h
  · cases h
    exact Or.inl ⟨rfl, rfl, rfl, within_mainMenu⟩
  · split at h
    · cases h
      exact Or.inl ⟨rfl, rfl, rfl, hin⟩
    · cases h
      exact Or.inl ⟨rfl, rfl, rfl, hin⟩
    · cases h
      exact Or.inl ⟨rfl, rfl, rfl, hin⟩
    · split at h <;> cases h
      · exact Or.inl ⟨rfl, rfl, rfl, within_enterMessageFinish⟩
      · exact Or.inl ⟨rfl, rfl, rfl, hin⟩

theorem calm_pageSysop (hin : Within s.currentState) : Calm s (pageSysop env s) := by
  unfold pageSysop
  split
  · exact Or.inl ⟨rfl, rfl, rfl, within_pageSysop⟩
  · split
    · exact Or.inl ⟨rfl, rfl, rfl, within_mainMenu⟩
    · split
      · exact Or.inl ⟨rfl, rfl, rfl, hin⟩
      · exact Or.inl ⟨rfl, rfl, rfl, hin⟩

theorem calm_hangup (h : hangup s = some t) : Calm s t := by
  unfold hangup at h
  split at h
  · split at h
    · cases h
    · cases h
      exact Or.inr ⟨s, rfl⟩
  · split at h
    · cases h
      exact Or.inr ⟨s, rfl⟩
    · cases h

theorem calm_downloadFile (hin : Within s.currentState) (h : downloadFile env s = some t) : Calm s t := by
  unfold downloadFile at h
  split at h
  · cases h
    exact Or.inl ⟨rfl, rfl, rfl, within_mainMenu⟩
  · split at h
    · cases h
    · split at h
      · cases h
        exact Or.inl ⟨rfl, rfl, rfl, hin⟩
      · split at h
        · cases h
        · split at h <;> cases h <;> exact Or.inl ⟨rfl, rfl, rfl, within_downloadFile⟩
      · cases h
        exact Or.inl ⟨rfl, rfl, rfl, hin⟩
      · cases h

theorem calm_uploadFile {protocol : Protocol} (hin : Within s.currentState)
    (h : uploadFile protocol env s = some t) : Calm s t := by
  unfold uploadFile at h
  split at h
  · cases h
    exact Or.inl ⟨rfl, rfl, rfl, within_mainMenu⟩
  · split at h
    · cases h
      exact Or.inl ⟨rfl, rfl, rfl, within_mainMenu⟩
    · split at h
      · cases h
      · split at h
        · cases h
          exact Or.inl ⟨rfl, rfl, rfl, hin⟩
        · split at h
          · cases h
          · split at h
            · cases h
              exact Or.inl ⟨rfl, rfl, rfl, within_uploadFile⟩
            · split at h
              · cases h
                exact Or.inl ⟨rfl, rfl, rfl, within_uploadFile⟩
              · cases h
                exact Or.inl ⟨rfl, rfl, rfl, within_uploadFile⟩
              · split at h <;> cases h
                · exact Or.inl ⟨rfl, rfl, rfl, within_uploadFile⟩
                · exact Or.inl ⟨rfl, rfl, rfl, hin⟩
        · split at h <;> cases h <;> exact Or.inl ⟨rfl, rfl, rfl, within_uploadFile⟩
        · cases h
          exact Or.inl ⟨rfl, rfl, rfl, hin⟩

theorem calm_call {fn : Fn} (hin : Within s.currentState) (hlogin : fn ≠ .doLogin) (hchat : fn ≠ .chat)
    (h : call config env s fn = some t) : Calm s t := by
  cases fn with
  | doLogin => exact absurd rfl hlogin
  | chat => exact absurd rfl hchat
  | enterMessage => exact calm_enterMessage hin h
  | pageSysop =>
    cases h
    exact calm_pageSysop hin
  | goodbye => exact calm_hangup h
  | downloadFile _ => exact calm_downloadFile hin h
  | uploadFile _ => exact calm_uploadFile hin h
  | _ =>
    cases h
    exact Or.inl ⟨rfl, rfl, rfl, hin⟩

theorem calm_menuKey (hin : Within s.currentState) (h : menuKey config env ch s = some t) : Calm s t := by
  unfold menuKey at h
  split at h
  · next row hrow =>
    obtain ⟨hmem, hstate⟩ := find_row hrow
    obtain ⟨hnext, hlogin, hchat⟩ := rows_within row hmem (hstate ▸ hin)
    exact @calm_call config env { s with currentState := row.nextState } t _ hnext hlogin hchat h
  · cases h
    exact Or.inl ⟨rfl, rfl, rfl, hin⟩

theorem online_of_within (hin : Within s.currentState) (hlogged : LoggedIn config s.seen) :
    Online config s :=
  ⟨hin.1, fun h => absurd h hin.2.1, fun _ => hlogged, fun h => absurd h hin.2.2⟩

theorem sound_of_calm (hremote : s.localLogin = false) (honline : s.hostOnline = true)
    (hlogged : LoggedIn config s.seen) (h : Calm s t) : Sound config t := by
  rcases h with ⟨hlocal, hon, hseen, hin⟩ | ⟨u, rfl⟩
  · exact ⟨hlocal.trans hremote, fun hoff => absurd hoff (by rw [hon, honline]; decide),
      fun _ => online_of_within hin (hseen ▸ hlogged)⟩
  · exact sound_resetHost

/-! ### Keys -/

theorem watch_key_other {state : STATE} {ls : LoginState} {seen : List Seen} (h : state ≠ .login) :
    watch (.key state ls ch :: seen) = watch seen := by
  rw [watch, if_neg h]

theorem loggedIn_key {state : STATE} {ls : LoginState} {seen : List Seen} (h : state ≠ .login) :
    LoggedIn config (.key state ls ch :: seen) ↔ LoggedIn config seen := by
  rw [LoggedIn, watch_key_other h, LoggedIn]

theorem atPrompt_of_watch {seen seen' : List Seen} {ls : LoginState} {user : List UInt8}
    (h : (watch seen').user = (watch seen).user) (hat : AtPrompt seen ls user) : AtPrompt seen' ls user := by
  rw [AtPrompt, h]
  exact hat

theorem lineBufferChar_frame (ch : UInt8) (s : Host) :
    (lineBufferChar ch s).2.seen = s.seen ∧ (lineBufferChar ch s).2.currentState = s.currentState ∧
      (lineBufferChar ch s).2.localLogin = s.localLogin ∧
      (lineBufferChar ch s).2.hostOnline = s.hostOnline ∧
      (lineBufferChar ch s).2.loginState = s.loginState ∧
      (lineBufferChar ch s).2.loginUsername = s.loginUsername ∧
      (lineBufferChar ch s).2.doLineBuffer = s.doLineBuffer ∧
      (lineBufferChar ch s).2.chatPreviousState = s.chatPreviousState := by
  unfold lineBufferChar
  dsimp only
  split_ifs <;> exact ⟨rfl, rfl, rfl, rfl, rfl, rfl, rfl, rfl⟩

theorem stateMachine_buffered (h : s.doLineBuffer = true) : stateMachine config env ch s =
    if (lineBufferChar ch (noted ch s)).1 then
      menuKey config env ch { (lineBufferChar ch (noted ch s)).2 with doLineBuffer := false }
    else some (lineBufferChar ch (noted ch s)).2 := by
  rw [stateMachine, if_pos h]

theorem stateMachine_direct (h : s.doLineBuffer = false) :
    stateMachine config env ch s = menuKey config env ch (noted ch s) := by
  rw [stateMachine, if_neg (by rw [h]; decide)]

/-- Enter at one of the two prompts. -/
theorem sound_enter (hremote : s.localLogin = false) (honline : s.hostOnline = true)
    (hlogin : s.currentState = .login) {seen : List Seen} (hseen : s.seen = .key .login s.loginState cCr :: seen)
    (hline : Holds s (typed (watch seen).line)) (hprompt : AtPrompt seen s.loginState s.loginUsername)
    (h : doLogin config s = some t) : Sound config t := by
  have hheld : wcstombs s.lineBuffer 63 = held 63 (text (watch seen).line) := hline.wcstombs
  unfold doLogin at h
  rcases hprompt with huser | ⟨hpass, hname⟩
  · have hwatch : watch s.seen = ⟨[], (watch seen).line, (watch seen).compared⟩ := by
      rw [hseen, watch, if_pos rfl, if_pos rfl, huser]
      rfl
    rw [huser] at h
    cases h
    refine ⟨hremote, fun hoff => absurd (honline.symm.trans hoff) (by decide), fun _ => ?_⟩
    refine ⟨fun hwait => awake_login (hlogin ▸ hwait),
      fun _ => ⟨rfl, ?_, Or.inr ⟨rfl, ?_⟩⟩, fun hin => absurd hlogin hin.2.1,
      fun hchat => absurd (hlogin.symm.trans hchat) (by decide)⟩
    · change Holds (promptLine _) (typed (watch s.seen).line)
      rw [hwatch]
      exact lineIs_empty
    · change wcstombs s.lineBuffer 63 = held 63 (text (watch s.seen).user)
      rw [hwatch, hheld]
  · have hwatch : watch s.seen = ⟨[], (watch seen).user,
        ((watch seen).user, (watch seen).line) :: (watch seen).compared⟩ := by
      rw [hseen, watch, if_pos rfl, if_pos rfl, hpass]
      rfl
    rw [hpass] at h
    simp only at h
    split at h
    · next hequal =>
      cases h
      refine ⟨hremote, fun hoff => absurd (honline.symm.trans hoff) (by decide), fun _ => ?_⟩
      apply online_of_within within_mainMenu
      refine ⟨((watch seen).user, (watch seen).line), ?_, ?_, ?_⟩
      · change _ ∈ (watch s.seen).compared
        rw [hwatch]
        exact List.mem_cons_self
      · exact hname.symm.trans hequal.1
      · exact hheld.symm.trans hequal.2
    · cases h
      refine ⟨hremote, fun hoff => absurd (honline.symm.trans hoff) (by decide), fun _ => ?_⟩
      refine ⟨fun hwait => awake_login (hlogin ▸ hwait),
        fun _ => ⟨rfl, ?_, Or.inl rfl⟩, fun hin => absurd hlogin hin.2.1,
        fun hchat => absurd (hlogin.symm.trans hchat) (by decide)⟩
      change Holds (promptLine _) (typed (watch s.seen).line)
      rw [hwatch]
      exact lineIs_empty

/-- A key of the login. -/
theorem sound_loginKey (hs : Sound config s) (honline : s.hostOnline = true)
    (hlogin : s.currentState = .login) (hfine : KeyFine s ch)
    (h : stateMachine config env ch s = some t) : Sound config t := by
  obtain ⟨hbuffer, hline, hprompt⟩ := (hs.online honline).login hlogin
  let u := noted ch s
  have hseen : u.seen = .key .login s.loginState ch :: s.seen := by
    rw [← hlogin]
    rfl
  rw [stateMachine_buffered hbuffer] at h
  by_cases henter : ch = cCr
  · have hchar : lineBufferChar ch u = (true, u) := by
      rw [henter, lineBufferChar, if_neg (by decide), if_pos rfl]
    rw [show noted ch s = u from rfl, hchar, if_pos rfl,
      @menuKey_login config env { u with doLineBuffer := false } ch hlogin] at h
    rw [henter] at hseen
    exact @sound_enter config { u with doLineBuffer := false } t hs.remote honline hlogin s.seen
      hseen hline hprompt h
  · have hkey := @holds_key u ch _ henter hline (hfine.1 hlogin)
    have hframe := lineBufferChar_frame ch u
    rw [show noted ch s = u from rfl, hkey.1, if_neg (by decide)] at h
    cases h
    have hwatch : watch u.seen = { watch s.seen with line := (watch s.seen).line ++ [ch] } := by
      rw [hseen, watch, if_pos rfl, if_neg henter]
    refine ⟨hframe.2.2.1.trans hs.remote,
      fun hoff => absurd ((hframe.2.2.2.1.trans honline).symm.trans hoff) (by decide), fun _ => ?_⟩
    have hstate : (lineBufferChar ch u).2.currentState = .login := hframe.2.1.trans hlogin
    refine ⟨by rw [hstate]; decide, fun _ => ⟨hframe.2.2.2.2.2.2.1.trans hbuffer, ?_, ?_⟩,
      fun hin => absurd hstate hin.2.1, fun hchat => absurd (hstate.symm.trans hchat) (by decide)⟩
    · rw [hframe.1, hwatch, typed_snoc]
      exact hkey.2
    · rw [hframe.1, hframe.2.2.2.2.1, hframe.2.2.2.2.2.1]
      exact atPrompt_of_watch (by rw [hwatch]) hprompt

/-- A key past the login, or in a chat that does not lie before it. -/
theorem sound_otherKey (hs : Sound config s) (honline : s.hostOnline = true)
    (hlogin : s.currentState ≠ .login) (hfine : KeyFine s ch)
    (h : stateMachine config env ch s = some t) : Sound config t := by
  let u := noted ch s
  have hon := hs.online honline
  have hrow (v : Host) (hseen : v.seen = u.seen) (hstate : v.currentState = s.currentState)
      (hlocal : v.localLogin = s.localLogin) (hvon : v.hostOnline = s.hostOnline)
      (hprev : v.chatPreviousState = s.chatPreviousState) : Sound config v := by
    have hlogged : LoggedIn config s.seen → LoggedIn config v.seen := by
      rw [hseen]
      exact (loggedIn_key hlogin).mpr
    refine ⟨hlocal.trans hs.remote, fun hoff => absurd ((hvon.trans honline).symm.trans hoff) (by decide),
      fun _ => ⟨hstate ▸ hon.awake, fun hv => absurd (hstate.symm.trans hv) hlogin,
        fun hv => hlogged (hon.within (hstate ▸ hv)), fun hv => ?_⟩⟩
    have hchat : s.currentState = .chat := hstate.symm.trans hv
    rcases hon.broken hchat with hlog | ⟨hin, hthere⟩
    · exact absurd hlog.1 (hfine.2 hchat)
    · exact Or.inr ⟨hprev ▸ hin, hlogged hthere⟩
  have hmenu (v : Host) (hseen : v.seen = u.seen) (hstate : v.currentState = s.currentState)
      (hlocal : v.localLogin = s.localLogin) (hvon : v.hostOnline = s.hostOnline)
      (hprev : v.chatPreviousState = s.chatPreviousState)
      (hv : menuKey config env ch v = some t) : Sound config t := by
    by_cases hchat : s.currentState = .chat
    · rw [menuKey_chat (hstate.trans hchat)] at hv
      cases hv
      exact hrow (chat v) hseen hstate hlocal hvon hprev
    · have hin : Within s.currentState := ⟨hon.awake, hlogin, hchat⟩
      have hlogged : LoggedIn config v.seen := by
        rw [hseen]
        exact (loggedIn_key hlogin).mpr (hon.within hin)
      exact sound_of_calm (hlocal.trans hs.remote) (hvon.trans honline) hlogged
        (calm_menuKey (hstate ▸ hin) hv)
  by_cases hbuffer : s.doLineBuffer = true
  · have hframe := lineBufferChar_frame ch u
    rw [stateMachine_buffered hbuffer] at h
    split at h
    · exact hmenu { (lineBufferChar ch u).2 with doLineBuffer := false } hframe.1 hframe.2.1 hframe.2.2.1
        hframe.2.2.2.1 hframe.2.2.2.2.2.2.2 h
    · cases h
      exact hrow (lineBufferChar ch u).2 hframe.1 hframe.2.1 hframe.2.2.1 hframe.2.2.2.1
        hframe.2.2.2.2.2.2.2
  · rw [stateMachine_direct (by simpa using hbuffer)] at h
    exact hmenu u rfl rfl rfl rfl rfl h

/-- Keys that come when nobody is on the line any more find no row. -/
theorem sound_idleKey (hs : Sound config s) (hoff : s.hostOnline = false)
    (h : stateMachine config env ch s = some t) : Sound config t := by
  obtain ⟨hwait, -, hbuffer⟩ := hs.offline hoff
  have hmenu : menuKey config env ch (noted ch s) = some (noted ch s) := by
    rw [menuKey]
    split
    · next row hrow =>
      obtain ⟨hmem, hstate⟩ := find_row hrow
      exact absurd (hstate ▸ hwait) (rows_waiting row hmem)
    · rfl
  rw [stateMachine_direct hbuffer, hmenu] at h
  cases h
  exact ⟨hs.remote, hs.offline, fun hon => absurd (hoff.symm.trans hon) (by decide)⟩

theorem sound_key (hs : Sound config s) (hfine : KeyFine s ch)
    (h : stateMachine config env ch s = some t) : Sound config t := by
  cases honline : s.hostOnline with
  | false => exact sound_idleKey hs honline h
  | true =>
    by_cases hlogin : s.currentState = .login
    · exact sound_loginKey hs honline hlogin hfine h
    · exact sound_otherKey hs honline hlogin hfine h

theorem sound_input (input : List UInt8) (hs : Sound config s) (hfine : EachFine config env input s)
    (h : input.foldlM (fun s ch => stateMachine config env (config.translate8bitIn ch) s) s = some t) :
    Sound config t := by
  induction input generalizing s with
  | nil =>
    cases h
    exact hs
  | cons ch rest ih =>
    obtain ⟨hkey, hrest⟩ := hfine
    rw [List.foldlM_cons] at h
    cases hstep : stateMachine config env (config.translate8bitIn ch) s with
    | none =>
      rw [hstep] at h
      cases h
    | some u =>
      rw [hstep] at h hrest
      exact ih (sound_key hs hkey hstep) hrest h

/-! ### Steps -/

theorem sound_answer (hremote : s.localLogin = false) (hinit : s.loginState = .loginInit)
    (h : answer config s = some t) : Sound config t := by
  rw [answer, doLogin, hinit] at h
  cases h
  refine ⟨hremote, (fun hoff => by cases hoff), fun _ => ?_⟩
  exact ⟨awake_login, fun _ => ⟨rfl, lineIs_empty, Or.inl rfl⟩, fun hin => absurd rfl hin.2.1,
    fun hchat => by cases hchat⟩

theorem sound_hangup (h : hangup s = some t) : Sound config t := by
  unfold hangup at h
  split at h
  · split at h <;> cases h
    exact sound_resetHost
  · split at h <;> cases h
    exact sound_resetHost

theorem sound_paging (hs : Sound config s) : Sound config (paging env s) := by
  unfold paging
  split
  · next hboth =>
    have honline : s.hostOnline = true := by
      rcases hboth.1 with hon | hlocal
      · exact hon
      · exact absurd (hs.remote.symm.trans hlocal) (by decide)
    have hin : Within s.currentState := hboth.2 ▸ within_pageSysop
    exact sound_of_calm hs.remote honline ((hs.online honline).within hin) (calm_pageSysop hin)
  · exact hs

theorem paging_frame (env : Env) (s : Host) : (paging env s).hostOnline = s.hostOnline ∧
    (paging env s).statusOnline = s.statusOnline := by
  unfold paging pageSysop
  split_ifs <;> exact ⟨rfl, rfl⟩

theorem sound_hostModemData (hs : Sound config s) (hoff : s.hostOnline = false)
    (h : hostModemData env s = some t) : t.localLogin = false ∧ t.loginState = .loginInit ∧
      (t.hostOnline = false → Sound config t) := by
  obtain ⟨hwait, hinit, hbuffer⟩ := hs.offline hoff
  have hidle (state : STATE) (hstate : Waiting state) : Sound config { s with currentState := state } :=
    ⟨hs.remote, fun _ => ⟨hstate, hinit, hbuffer⟩, fun hon => absurd (hoff.symm.trans hon) (by decide)⟩
  unfold hostModemData at h
  split at h
  · cases h
    split
    · exact ⟨hs.remote, hinit, fun _ => hidle _ (by decide)⟩
    · exact ⟨hs.remote, hinit, fun _ => hs⟩
  · cases h
    split
    · exact ⟨hs.remote, hinit, fun _ => hidle _ (by decide)⟩
    · exact ⟨hs.remote, hinit, fun _ => hs⟩
  · split at h <;> cases h
    · exact ⟨hs.remote, hinit, fun _ => hidle _ (by decide)⟩
    · exact ⟨hs.remote, hinit, fun hoff' => by cases hoff'⟩
    · exact ⟨hs.remote, hinit, fun _ => hs⟩
  · cases h

theorem sound_data {input : List UInt8} (hs : Sound config s) (hfine : Fine config s (.data env input))
    (h : hostProcessData config env input s = some t) : Sound config t := by
  obtain ⟨hon, hstatus⟩ := paging_frame env s
  have hpaged : Sound config (paging env s) := sound_paging hs
  unfold hostProcessData at h
  generalize hu : paging env s = u at h hpaged hon hstatus
  simp only at h
  split at h
  · cases h
    exact hpaged
  · split at h
    · next honline =>
      split at h
      · exact sound_hangup h
      · next hup =>
        have hstatus' : s.statusOnline = true := by
          rw [← hstatus]
          simpa using hup
        have heach := hfine ⟨hon ▸ honline, hstatus'⟩
        rw [hu] at heach
        exact sound_input input hpaged heach h
    · next hoff =>
      have hoff' : u.hostOnline = false := by simpa using hoff
      have hinit := (hpaged.offline hoff').2.1
      split at h
      · split at h
        · cases h
          exact hpaged
        · obtain ⟨v, hv, hrest⟩ := Option.bind_eq_some_iff.mp h
          obtain ⟨hremote, hinit', hidle⟩ := sound_hostModemData hpaged hoff' hv
          split at hrest
          · split at hrest
            · exact sound_answer hremote hinit' hrest
            · cases hrest
          · next hstill =>
            cases hrest
            exact hidle (by simpa using hstill)
      · split at h
        · cases h
          exact hpaged
        · split at h
          · exact sound_answer hpaged.remote hinit h
          · cases h
      · split at h
        · split at h
          · exact sound_answer hpaged.remote hinit h
          · cases h
        · cases h
          exact hpaged

/-- Breaking into the login puts its line by, and breaking out takes it up again. -/
theorem sound_toggleChat (hs : Sound config s) (honline : s.hostOnline = true)
    (hbetween : s.currentState = .login → s.utf8State = 0) : Sound config (toggleChat s) := by
  have hon := hs.online honline
  unfold toggleChat
  dsimp only
  split
  · next hopen =>
    refine ⟨hs.remote, fun hoff => absurd (honline.symm.trans hoff) (by decide), fun _ => ?_⟩
    refine ⟨(by decide : ¬ Waiting .chat), (fun h => by cases h), fun h => absurd rfl h.2.2, fun _ => ?_⟩
    by_cases hlogin : s.currentState = .login
    · obtain ⟨hbuffer, hline, hprompt⟩ := hon.login hlogin
      refine Or.inl ⟨hlogin, hline.count, fun i hi => ?_, fun _ => rfl,
        ⟨rfl, hline.state.symm.trans (hbetween hlogin)⟩, hline.room, hline.text, hprompt, hbuffer⟩
      change (if i < s.lineBufferN then s.lineBuffer i else s.savedLineBuffer i) = _
      rw [if_pos (show i < s.lineBufferN from hi)]
      exact hline.chars i
    · have hin : Within s.currentState := ⟨hon.awake, hlogin, hopen⟩
      exact Or.inr ⟨hin, hon.within hin⟩
  · next hclosed =>
    have hchat : s.currentState = .chat := by simpa using hclosed
    refine ⟨hs.remote, fun hoff => absurd (honline.symm.trans hoff) (by decide), fun _ => ?_⟩
    rcases hon.broken hchat with ⟨hprev, hput⟩ | ⟨hin, hlogged⟩
    · refine ⟨?_, fun _ => ⟨hput.buffered, ?_, hput.prompt⟩, fun h => absurd hprev h.2.1,
        fun h => absurd (hprev.symm.trans h) (by decide)⟩
      · change ¬ Waiting s.chatPreviousState
        rw [hprev]
        exact awake_login
      · refine ⟨hput.count, fun i => ?_, hput.rest.1.trans hput.rest.2.symm,
          fun h => absurd hput.rest.2 h, hput.room, hput.noNul⟩
        change (if i < s.savedLineBufferN then s.savedLineBuffer i else s.lineBuffer i) = _
        split
        · next hi => exact hput.chars i hi
        · next hi =>
          rw [hput.clear, List.getD_eq_default]
          exact hput.count ▸ Nat.le_of_not_lt hi
    · exact ⟨hin.1, fun h => absurd h hin.2.1, fun _ => hlogged, fun h => absurd h hin.2.2⟩

theorem sound_keyboard {keystroke : Keystroke} {alt : Bool} (hs : Sound config s)
    (hlocal : ¬ LocalLogin s (.key env keystroke alt)) (hfine : Fine config s (.key env keystroke alt))
    (h : hostKeyboardHandler config env keystroke alt s = some t) : Sound config t := by
  unfold hostKeyboardHandler at h
  dsimp only [Fine] at hfine
  by_cases hbusy : s.localLogin ∨ s.hostOnline
  · have honline : s.hostOnline = true := by
      rcases hbusy with hl | hon
      · exact absurd (hs.remote.symm.trans hl) (by decide)
      · exact hon
    rw [if_pos hbusy] at h hfine
    split at h
    · next hbreak =>
      rw [if_pos hbreak] at hfine
      cases h
      exact sound_toggleChat hs honline hfine
    · next hbreak =>
      rw [if_neg hbreak] at hfine
      split at h
      · exact sound_hangup h
      · next hhang =>
        rw [if_neg hhang] at hfine
        split at h
        · next ch hch => exact sound_key hs (hfine ch hch) h
        · cases h
          exact hs
  · have hoff : s.hostOnline = false := by simpa using fun hon => hbusy (Or.inr hon)
    rw [if_neg hbusy] at h
    split at h
    · split at h
      · next hkey => exact absurd ⟨hbusy, hkey⟩ hlocal
      · split at h
        · cases h
          exact ⟨hs.remote, fun _ => hs.offline hoff, fun hon => by cases hon⟩
        · cases h
          exact hs
    · cases h

theorem sound_lineDown (hs : Sound config s) : Sound config { s with statusOnline := false } := by
  refine ⟨hs.remote, hs.offline, fun honline => ?_⟩
  have hon := hs.online honline
  refine ⟨hon.awake, hon.login, hon.within, fun hchat => ?_⟩
  rcases hon.broken hchat with ⟨hprev, hput⟩ | hin
  · exact Or.inl ⟨hprev, hput.count, hput.chars, hput.clear, hput.rest, hput.room, hput.noNul,
      hput.prompt, hput.buffered⟩
  · exact Or.inr hin

theorem sound_step {event : Event} (hs : Sound config s) (hlocal : ¬ LocalLogin s event)
    (hfine : Fine config s event) (h : step config s event = some t) : Sound config t := by
  cases event with
  | start type =>
    cases h
    exact ⟨rfl, fun _ => ⟨(by decide : Waiting .listening), rfl, rfl⟩, fun hon => by cases hon⟩
  | data env input => exact sound_data hs hfine h
  | key env keystroke alt => exact sound_keyboard hs hlocal hfine h
  | lineDown =>
    cases h
    exact sound_lineDown hs

/-! ### Sessions -/

def run (config : Config) : List Event → Host → Option Host
  | [], s => some s
  | event :: rest, s => (step config s event).bind (run config rest)

/-- In every step of a session. -/
def Always (config : Config) (P : Host → Event → Prop) : List Event → Host → Prop
  | [], _ => True
  | event :: rest, s => P s event ∧
      match step config s event with
      | some t => Always config P rest t
      | none => True

theorem sound_run (events : List Event) (hs : Sound config s)
    (hlocal : Always config (fun s event => ¬ LocalLogin s event) events s)
    (hfine : Always config (Fine config) events s) (h : run config events s = some t) :
    Sound config t := by
  induction events generalizing s with
  | nil =>
    cases h
    exact hs
  | cons event rest ih =>
    obtain ⟨u, hu, hrest⟩ := Option.bind_eq_some_iff.mp h
    obtain ⟨hlocal, hlocals⟩ := hlocal
    obtain ⟨hfine, hfines⟩ := hfine
    rw [hu] at hlocals hfines
    exact ih (sound_step hs hlocal hfine hu) hlocals hfines hrest

instance decidableAlways (config : Config) (P : Host → Event → Prop)
    [∀ s event, Decidable (P s event)] (events : List Event) (s : Host) :
    Decidable (Always config P events s) := by
  induction events generalizing s with
  | nil => exact isTrue trivial
  | cons event rest ih =>
    unfold Always
    cases step config s event with
    | none => exact inferInstanceAs (Decidable (_ ∧ True))
    | some t =>
      have := ih t
      exact inferInstanceAs (Decidable (_ ∧ Always config P rest t))

instance (seen : List Seen) : Decidable (LoggedIn config seen) :=
  inferInstanceAs (Decidable (∃ lines ∈ (watch seen).compared, _ ∧ _))

/-- A host right behind `host_start`. -/
def started (type : HostType) (s : Host) : Host := { resetHost s with hostActive := true, hostType := type }

/-- The statics of a process in which host mode has not run yet. -/
def statics : Host where
  currentState := .listening
  chatPreviousState := .listening
  chatPreviousLineBuffer := false
  hostOnline := false
  localLogin := false
  msgState := .msgInit
  fileState := .filename
  loginState := .loginInit
  loginUsername := []
  loginPassword := []
  lineBuffer := fun _ => 0
  lineBufferN := 0
  savedLineBuffer := fun _ => 0
  savedLineBufferN := 0
  doLineBuffer := false
  utf8State := 0
  utf8Char := 0
  transferFilename := false
  page := false
  pageStart := 0
  musicStart := 0
  statusOnline := false
  hostType := .socket
  hostActive := false
  seen := []

/-- Nothing special around a step, but for a caller. -/
def quiet (accepted : Bool) : Env := ⟨0, false, .found, accepted, .nothing⟩

theorem exists_of_any {o : Option Host} {p : Host → Bool} (h : o.any p = true) :
    ∃ t, o = some t ∧ p t = true := by
  cases o with
  | none => cases h
  | some t => exact ⟨t, rfl, h⟩

end CProgram.Qodem.Host
