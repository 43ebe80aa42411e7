import CProgram.Terminal.Utf8Decode

/-! Host mode: the micro-BBS that answers calls. The menus go by a table of transitions, the login,
a new message and a file transfer have states of their own, and one line buffer serves them all.
What is written to the screen and the line, and the contents of the messages, are left out. -/
namespace CProgram.Qodem.Host
open Terminal

inductive STATE
  | listening | modemListeningForRing | modemListeningForConnect | modemConnected | login | mainMenu
  | enterMessage | enterMessageFinish | readMessages | chat | pageSysop | localLogin
  | uploadFile | uploadFileXmodem | uploadFileYmodem | uploadFileZmodem | uploadFileKermit | listFiles
  | downloadFile | downloadFileXmodem | downloadFileYmodem | downloadFileZmodem | downloadFileKermit
  | goodbye | none
  deriving DecidableEq, Repr

inductive MsgState
  | msgInit | from' | to' | body
  deriving DecidableEq, Repr

inductive FileState
  | filename | filenameWait | filenameResume | transfer
  deriving DecidableEq, Repr

inductive LoginState
  | loginInit | username | password
  deriving DecidableEq, Repr

inductive HostType
  | socket | telnetd | sshd | modem | serial
  deriving DecidableEq, Repr

inductive Protocol
  | xmodem | ymodem | zmodem | kermit
  deriving DecidableEq, Repr

/-- The functions of the table. -/
inductive Fn
  | doLogin | viewCurrentMessage | viewNewMessage | enterMessage | saveMessage | killMessage
  | readMessagesMenu | killReadMessage | previousMessage | nextMessage | pageSysop | chat | listFiles
  | downloadFileMenu | uploadFileMenu | mainMenu | goodbye | downloadFile (protocol : Protocol)
  | uploadFile (protocol : Protocol) | enterMessageFinishMenu
  deriving DecidableEq, Repr

structure HostState where
  state : STATE
  input : UInt8
  nextState : STATE
  nextFn : Fn

def cCr : UInt8 := 0x0D

/-- `states`, up to the closing entry. -/
def states : List HostState :=
  [⟨.mainMenu, 101, .enterMessage, .enterMessage⟩,
    ⟨.mainMenu, 114, .readMessages, .readMessagesMenu⟩,
    ⟨.mainMenu, 112, .pageSysop, .pageSysop⟩,
    ⟨.mainMenu, 102, .mainMenu, .listFiles⟩,
    ⟨.mainMenu, 100, .downloadFile, .downloadFileMenu⟩,
    ⟨.mainMenu, 117, .uploadFile, .uploadFileMenu⟩,
    ⟨.mainMenu, 103, .goodbye, .goodbye⟩,
    ⟨.mainMenu, cCr, .mainMenu, .mainMenu⟩,
    ⟨.downloadFile, 120, .downloadFileXmodem, .downloadFile .xmodem⟩,
    ⟨.downloadFile, 121, .downloadFileYmodem, .downloadFile .ymodem⟩,
    ⟨.downloadFile, 122, .downloadFileZmodem, .downloadFile .zmodem⟩,
    ⟨.downloadFile, 107, .downloadFileKermit, .downloadFile .kermit⟩,
    ⟨.downloadFile, 113, .mainMenu, .mainMenu⟩,
    ⟨.downloadFile, cCr, .downloadFile, .downloadFileMenu⟩,
    ⟨.downloadFileXmodem, 0, .downloadFileXmodem, .downloadFile .xmodem⟩,
    ⟨.downloadFileYmodem, 0, .downloadFileYmodem, .downloadFile .ymodem⟩,
    ⟨.downloadFileZmodem, 0, .downloadFileZmodem, .downloadFile .zmodem⟩,
    ⟨.downloadFileKermit, 0, .downloadFileKermit, .downloadFile .kermit⟩,
    ⟨.uploadFile, 120, .uploadFileXmodem, .uploadFile .xmodem⟩,
    ⟨.uploadFile, 121, .uploadFileYmodem, .uploadFile .ymodem⟩,
    ⟨.uploadFile, 122, .uploadFileZmodem, .uploadFile .zmodem⟩,
    ⟨.uploadFile, 107, .uploadFileKermit, .uploadFile .kermit⟩,
    ⟨.uploadFile, 113, .mainMenu, .mainMenu⟩,
    ⟨.uploadFile, cCr, .uploadFile, .uploadFileMenu⟩,
    ⟨.uploadFileXmodem, 0, .uploadFileXmodem, .uploadFile .xmodem⟩,
    ⟨.uploadFileYmodem, 0, .uploadFileYmodem, .uploadFile .ymodem⟩,
    ⟨.uploadFileZmodem, 0, .uploadFileZmodem, .uploadFile .zmodem⟩,
    ⟨.uploadFileKermit, 0, .uploadFileKermit, .uploadFile .kermit⟩,
    ⟨.readMessages, 113, .mainMenu, .mainMenu⟩,
    ⟨.readMessages, 118, .readMessages, .viewCurrentMessage⟩,
    ⟨.readMessages, 101, .enterMessage, .enterMessage⟩,
    ⟨.readMessages, 112, .readMessages, .previousMessage⟩,
    ⟨.readMessages, 110, .readMessages, .nextMessage⟩,
    ⟨.readMessages, 107, .readMessages, .killReadMessage⟩,
    ⟨.readMessages, cCr, .readMessages, .readMessagesMenu⟩,
    ⟨.enterMessage, 0, .enterMessage, .enterMessage⟩,
    ⟨.enterMessageFinish, 118, .enterMessageFinish, .viewNewMessage⟩,
    ⟨.enterMessageFinish, 107, .mainMenu, .killMessage⟩,
    ⟨.enterMessageFinish, 115, .mainMenu, .saveMessage⟩,
    ⟨.enterMessageFinish, cCr, .enterMessageFinish, .enterMessageFinishMenu⟩,
    ⟨.chat, 0, .chat, .chat⟩,
    ⟨.login, 0, .login, .doLogin⟩]

/-- What the configuration says: the account, and the translation of incoming bytes. -/
structure Config where
  hostUsername : List UInt8
  hostPassword : List UInt8
  translate8bitIn : UInt8 → UInt8

inductive Stat
  | found | noEntry | failed
  deriving DecidableEq, Repr

inductive ModemLine
  | nothing | initSent | ring | restart | connect
  deriving DecidableEq, Repr

/-- What a step finds around it: the clock, `--read-only`, `stat()` on a file name, `net_accept()`,
and what the lines from the modem come to. -/
structure Env where
  now : ℤ
  readOnly : Bool
  stat : Stat
  accepted : Bool
  modemLine : ModemLine

/-- What an observer notes: a call that is answered, and a key that reaches the menus or the line
editor. -/
inductive Seen
  | answered
  | key (state : STATE) (loginState : LoginState) (ch : UInt8)
  deriving DecidableEq, Repr

structure Host where
  currentState : STATE
  chatPreviousState : STATE
  chatPreviousLineBuffer : Bool
  hostOnline : Bool
  localLogin : Bool
  msgState : MsgState
  fileState : FileState
  loginState : LoginState
  loginUsername : List UInt8
  loginPassword : List UInt8
  lineBuffer : ℕ → UInt32
  lineBufferN : ℕ
  savedLineBuffer : ℕ → UInt32
  savedLineBufferN : ℕ
  doLineBuffer : Bool
  utf8State : ℕ
  utf8Char : UInt32
  transferFilename : Bool
  page : Bool
  pageStart : ℤ
  musicStart : ℤ
  statusOnline : Bool
  hostType : HostType
  hostActive : Bool
  /-- What has been noted, the latest first. -/
  seen : List Seen

def resetLineBuffer (s : Host) : Host :=
  { s with lineBuffer := fun _ => 0, doLineBuffer := false, lineBufferN := 0, utf8State := 0,
           utf8Char := 0 }

def saveLineBuffer (s : Host) : Host :=
  { s with savedLineBuffer := fun i => if i < s.lineBufferN then s.lineBuffer i else s.savedLineBuffer i
           savedLineBufferN := s.lineBufferN }

def restoreLineBuffer (s : Host) : Host :=
  { s with lineBuffer := fun i => if i < s.savedLineBufferN then s.savedLineBuffer i else s.lineBuffer i
           lineBufferN := s.savedLineBufferN }

def resetHost (s : Host) : Host :=
  resetLineBuffer
    { s with currentState := .listening, hostOnline := false, localLogin := false,
             msgState := .msgInit, fileState := .filename, loginState := .loginInit }

/-- A fresh line to be typed. -/
def promptLine (s : Host) : Host := { resetLineBuffer s with doLineBuffer := true }

/-- `utf8_encode`. -/
def utf8Encode (c : UInt32) : List UInt8 :=
  let n := c.toNat
  if n < 0x80 then [UInt8.ofNat n]
  else if n < 0x800 then [UInt8.ofNat (0xC0 + n / 64), UInt8.ofNat (0x80 + n % 64)]
  else if n < 0x10000 then
    [UInt8.ofNat (0xE0 + n / 4096), UInt8.ofNat (0x80 + n / 64 % 64), UInt8.ofNat (0x80 + n % 64)]
  else
    [UInt8.ofNat (0xF0 + n / 262144), UInt8.ofNat (0x80 + n / 4096 % 64),
      UInt8.ofNat (0x80 + n / 64 % 64), UInt8.ofNat (0x80 + n % 64)]

/-- The bytes of as many characters as fit. -/
def held : ℕ → List UInt32 → List UInt8
  | _, [] => []
  | n, c :: rest =>
    if (utf8Encode c).length ≤ n then utf8Encode c ++ held (n - (utf8Encode c).length) rest else []

/-- `wcstombs` into `n` bytes, from a place of a wide string on; every character takes a byte at
least, so `n` characters are all it can come to read. -/
def wcstombs (line : ℕ → UInt32) (n : ℕ) : List UInt8 :=
  held n (((List.range n).map line).takeWhile (· ≠ 0))

/-- `line_buffer_char`: true when the user pressed enter. -/
def lineBufferChar (ch : UInt8) (s : Host) : Bool × Host :=
  if ch = 0x08 ∨ ch = 0x7F then
    (false, if 0 < s.lineBufferN then
        { s with lineBufferN := s.lineBufferN - 1
                 lineBuffer := fun i => if i = s.lineBufferN - 1 then 0 else s.lineBuffer i }
      else s)
  else if ch = cCr then (true, s)
  else
    let decoded := Utf8Decode.next s.utf8State ch
    let char := Utf8Decode.gather s.utf8State s.utf8Char ch
    if s.utf8State = decoded ∧ decoded ≠ 0 then (false, { s with utf8State := 0, utf8Char := char })
    else if decoded ≠ 0 then (false, { s with utf8State := decoded, utf8Char := char })
    else if s.lineBufferN < 80 then
      (false, { s with utf8State := 0, utf8Char := char, lineBufferN := s.lineBufferN + 1
                       lineBuffer := fun i => if i = s.lineBufferN then char else s.lineBuffer i })
    else (false, { s with utf8State := 0, utf8Char := char })

/-- `do_login`; the failed login goes back to the first prompt at once. -/
def doLogin (config : Config) (s : Host) : Option Host :=
  match s.loginState with
  | .loginInit => some (promptLine { s with loginState := .username })
  | .username =>
    some (promptLine { s with loginUsername := wcstombs s.lineBuffer 63, loginState := .password })
  | .password =>
    let password := wcstombs s.lineBuffer 63
    if s.loginUsername = config.hostUsername ∧ password = config.hostPassword then
      some { s with loginPassword := password, loginState := .loginInit, currentState := .mainMenu }
    else some (promptLine { s with loginPassword := password, loginState := .username })

def enterMessage (env : Env) (s : Host) : Option Host :=
  if env.readOnly then some { s with currentState := .mainMenu }
  else
    match s.msgState with
    | .msgInit => some (promptLine { s with msgState := .from' })
    | .from' => some (promptLine { s with msgState := .to' })
    | .to' => some (promptLine { s with msgState := .body })
    | .body =>
      if s.lineBuffer 0 = 46 ∧ s.lineBuffer 1 = 0 then
        some { s with currentState := .enterMessageFinish, msgState := .msgInit }
      else some (promptLine { s with msgState := .body })

/-- `hangup`; nothing on a failed assertion. -/
def hangup (s : Host) : Option Host :=
  if s.hostOnline then (if s.localLogin then none else some (resetHost s))
  else if s.localLogin then some (resetHost s) else none

def pageSysop (env : Env) (s : Host) : Host :=
  if s.page = false then
    { s with currentState := .pageSysop, page := true, pageStart := env.now, musicStart := env.now }
  else if env.now - s.pageStart ≥ 15 then { s with currentState := .mainMenu, page := false }
  else if env.now - s.musicStart ≥ 3 then { s with musicStart := env.now }
  else s

def chat (s : Host) : Host := promptLine (saveLineBuffer s)

/-- The first part of `download_file` and `upload_file`. -/
def askFilename (s : Host) : Host :=
  promptLine { s with transferFilename := false, fileState := .filenameWait }

def downloadFile (env : Env) (s : Host) : Option Host :=
  if s.localLogin then some { s with currentState := .mainMenu }
  else if s.hostOnline = false then none
  else
    match s.fileState with
    | .filename => some (askFilename s)
    | .filenameWait =>
      if s.transferFilename then none
      else
        match env.stat with
        | .noEntry => some { s with fileState := .filename, currentState := .downloadFile }
        | .failed => some { s with currentState := .downloadFile }
        | .found => some { s with fileState := .transfer, currentState := .downloadFile }
    | .transfer => some (askFilename { s with fileState := .filename })
    | .filenameResume => none

/-- `upload_file`: `transferFilename` stays set over the question whether to resume. -/
def uploadFile (protocol : Protocol) (env : Env) (s : Host) : Option Host :=
  if s.localLogin then some { s with currentState := .mainMenu }
  else if env.readOnly then some { s with currentState := .mainMenu }
  else if s.hostOnline = false then none
  else
    match s.fileState with
    | .filename => some (askFilename s)
    | .filenameWait =>
      if s.transferFilename then none
      else if s.lineBuffer 0 = 0 then
        some { s with fileState := .filename, currentState := .uploadFile }
      else
        match env.stat with
        | .noEntry => some { s with fileState := .transfer, currentState := .uploadFile }
        | .failed => some { s with currentState := .uploadFile }
        | .found =>
          if protocol = .xmodem ∨ protocol = .ymodem then
            some { s with fileState := .filename, currentState := .uploadFile }
          else some (promptLine { s with transferFilename := true, fileState := .filenameResume })
    | .filenameResume =>
      if s.lineBuffer 0 = 121 ∨ s.lineBuffer 0 = 89 then
        some { s with transferFilename := false, fileState := .transfer, currentState := .uploadFile }
      else
        some { s with transferFilename := false, fileState := .filename, currentState := .uploadFile }
    | .transfer => some (askFilename { s with fileState := .filename })

/-- A call through the table; the functions that only show something leave the state alone. -/
def call (config : Config) (env : Env) (s : Host) : Fn → Option Host
  | .doLogin => doLogin config s
  | .enterMessage => enterMessage env s
  | .pageSysop => some (pageSysop env s)
  | .chat => some (chat s)
  | .goodbye => hangup s
  | .downloadFile _ => downloadFile env s
  | .uploadFile protocol => uploadFile protocol env s
  | _ => some s

def tolower (ch : UInt8) : UInt8 := if 65 ≤ ch ∧ ch ≤ 90 then ch + 32 else ch

/-- The row that a key selects. -/
def selects (s : Host) (ch : UInt8) (row : HostState) : Bool :=
  row.state = s.currentState && (tolower ch = row.input || row.input = 0)

def menuKey (config : Config) (env : Env) (ch : UInt8) (s : Host) : Option Host :=
  match states.find? (selects s ch) with
  | some row => call config env { s with currentState := row.nextState } row.nextFn
  | none => some s

/-- A key is noted. -/
def noted (ch : UInt8) (s : Host) : Host :=
  { s with seen := .key s.currentState s.loginState ch :: s.seen }

/-- `state_machine_keyboard_handler` from the byte of the key on. -/
def stateMachine (config : Config) (env : Env) (ch : UInt8) (s : Host) : Option Host :=
  if s.doLineBuffer then
    let typed := lineBufferChar ch (noted ch s)
    if typed.1 then menuKey config env ch { typed.2 with doLineBuffer := false } else some typed.2
  else menuKey config env ch (noted ch s)

/-- A call is there: `host_online`, `LOGIN` and the first prompt. -/
def answer (config : Config) (s : Host) : Option Host :=
  doLogin config
    { s with hostOnline := true, statusOnline := true, currentState := .login
             seen := .answered :: s.seen }

/-- `host_modem_data` as far as it moves the state; the first branch of each is taken when the line
it waits for is complete. -/
def hostModemData (env : Env) (s : Host) : Option Host :=
  match s.currentState with
  | .listening =>
    some (if env.modemLine = .initSent then { s with currentState := .modemListeningForRing } else s)
  | .modemListeningForRing =>
    some (if env.modemLine = .ring then { s with currentState := .modemListeningForConnect } else s)
  | .modemListeningForConnect =>
    match env.modemLine with
    | .restart => some { s with currentState := .listening }
    | .connect => some { s with hostOnline := true, currentState := .modemConnected }
    | _ => some s
  | _ => none

/-- The page of the sysop goes on while nothing else happens. -/
def paging (env : Env) (s : Host) : Host :=
  if (s.hostOnline ∨ s.localLogin) ∧ s.currentState = .pageSysop then pageSysop env s else s

/-- `host_process_data`. -/
def hostProcessData (config : Config) (env : Env) (input : List UInt8) (s : Host) : Option Host :=
  let s := paging env s
  if s.hostOnline = false ∧ s.hostType = .serial ∧ input = [] then some s
  else if s.hostOnline then
    if s.statusOnline = false then hangup s
    else
      input.foldlM (fun s ch => stateMachine config env (config.translate8bitIn ch) s) s
  else
    match s.hostType with
    | .modem =>
      if s.localLogin then some s
      else
        (hostModemData env s).bind fun s =>
          if s.hostOnline then (if s.currentState = .modemConnected then answer config s else none)
          else some s
    | .serial =>
      if s.localLogin then some s
      else if s.currentState = .listening then answer config s else none
    | _ =>
      if env.accepted then (if s.currentState = .listening then answer config s else none)
      else some s

/-- Keys of the sysop: the named ones, the others as they come. -/
inductive Keystroke
  | enter | backspace | dc | escape | function | char (code : UInt32)
  deriving DecidableEq, Repr

def keyByte : Keystroke → Option UInt8
  | .enter => some cCr
  | .backspace => some 0x08
  | .dc => some 0x7F
  | .escape | .function => none
  | .char code => some code.toUInt8

/-- Break in or out of chat. -/
def toggleChat (s : Host) : Host :=
  let s := { s with page := false }
  if s.currentState ≠ .chat then
    chat { s with chatPreviousState := s.currentState, chatPreviousLineBuffer := s.doLineBuffer
                  currentState := .chat }
  else
    let s := restoreLineBuffer s
    { s with currentState := s.chatPreviousState, doLineBuffer := s.chatPreviousLineBuffer }

/-- `host_keyboard_handler`. -/
def hostKeyboardHandler (config : Config) (env : Env) (keystroke : Keystroke) (alt : Bool) (s : Host) :
    Option Host :=
  if s.localLogin ∨ s.hostOnline then
    if (keystroke = .char 99 ∨ keystroke = .char 67) ∧ alt then some (toggleChat s)
    else if (keystroke = .char 104 ∨ keystroke = .char 72) ∧ alt then hangup s
    else
      match keyByte keystroke with
      | some ch => stateMachine config env ch s
      | none => some s
  else if s.currentState = .listening ∨ s.currentState = .modemListeningForRing ∨
      s.currentState = .modemListeningForConnect then
    if keystroke = .char 76 ∨ keystroke = .char 108 then
      some { s with localLogin := true, currentState := .mainMenu }
    else if keystroke = .char 96 ∨ keystroke = .escape then
      some { s with hostOnline := false, hostActive := false }
    else some s
  else none

inductive Event
  | start (type : HostType)
  | data (env : Env) (input : List UInt8)
  | key (env : Env) (keystroke : Keystroke) (alt : Bool)
  | lineDown

def step (config : Config) (s : Host) : Event → Option Host
  | .start type => some { resetHost s with hostActive := true, hostType := type }
  | .data env input => hostProcessData config env input s
  | .key env keystroke alt => hostKeyboardHandler config env keystroke alt s
  | .lineDown => some { s with statusOnline := false }

end CProgram.Qodem.Host
