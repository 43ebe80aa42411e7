import CProgram.Qodem.Admission
import CProgram.Qodem.Messages

/-! Host mode with what it keeps of messages beside the states: the message that is being entered, the messages in
memory, the message file and the file name of an upload. Nothing is left of a run that ends in an abort, a failed
assertion, an unset pointer or a string without an end. -/
namespace CProgram.Qodem.Callers
open Messages

/-- What is found around a byte; `--read-only` is for a whole run. -/
structure Around where
  now : ℤ
  stat : Host.Stat
  accepted : Bool
  modemLine : Host.ModemLine

def Around.env (around : Around) (readOnly : Bool) : Host.Env :=
  ⟨around.now, readOnly, around.stat, around.accepted, around.modemLine⟩

structure Caller where
  host : Host.Host
  board : Board
  msgFrom : Option Text
  msgTo : Option Text
  msgBody : List Text
  /-- The name in `upload_file` is there. -/
  filename : Bool

/-- The length of `line_buffer`. -/
def lineSize : ℕ := 80

/-- `line_buffer` as a string, if there is a NUL in it. -/
def lineString (s : Host.Host) : Option (List UInt32) :=
  let chars := ((List.range lineSize).map s.lineBuffer).takeWhile (· ≠ 0)
  if chars.length < lineSize then some chars else none

def utf8 (line : List UInt32) : Text := line.flatMap Host.utf8Encode

namespace Caller
variable (config : Host.Config) (env : Host.Env) (c : Caller)

/-- `main_menu`, with `clear_all_messages`, which counts on twice. -/
def mainMenu : Option Caller :=
  if none ∈ everySecond c.board.allMessages then none else some { c with board := c.board.mainMenu }

def killMessage : Option Caller := mainMenu { c with msgFrom := none, msgTo := none, msgBody := [] }

def saveMessage : Option Caller :=
  match c.msgFrom, c.msgTo with
  | some sender, some recipient =>
    let m : Letter := ⟨sender, recipient, c.msgBody⟩
    (killMessage { c with board := { c.board with
      file := c.board.file ++ rows (separator :: m.lines)
      kept := c.board.kept ++ [m] } }).bind mainMenu
  | _, _ => none

def viewNewMessage : Option Caller := if c.msgFrom ≠ none ∧ c.msgTo ≠ none then some c else none

def doLogin : Option Caller :=
  match c.host.loginState with
  | .loginInit => some c
  | .username => (lineString c.host).map fun _ => c
  | .password =>
    (lineString c.host).bind fun _ =>
      if c.host.loginUsername = config.hostUsername ∧ Host.wcstombs c.host.lineBuffer 63 = config.hostPassword then
        c.mainMenu
      else some c

def enterMessage : Option Caller :=
  if env.readOnly then c.mainMenu
  else
    match c.host.msgState with
    | .msgInit => c.killMessage
    | .from' =>
      if c.msgFrom = none then (lineString c.host).map fun line => { c with msgFrom := some (utf8 line) } else none
    | .to' => if c.msgTo = none then (lineString c.host).map fun line => { c with msgTo := some (utf8 line) } else none
    | .body =>
      (lineString c.host).map fun line => if line = [46] then c else { c with msgBody := c.msgBody ++ [utf8 line] }

def pageSysop : Option Caller :=
  if c.host.page ∧ env.now - c.host.pageStart ≥ 15 then c.mainMenu else some c

def downloadFile : Option Caller :=
  if c.host.localLogin then c.mainMenu
  else if c.host.fileState = .filenameWait then (lineString c.host).map fun _ => c
  else some c

def uploadFile (protocol : Host.Protocol) : Option Caller :=
  if c.host.localLogin ∨ env.readOnly then c.mainMenu
  else
    match c.host.fileState with
    | .filenameWait =>
      (lineString c.host).map fun line =>
        if line = [] then c
        else { c with filename := env.stat = .found ∧ protocol ≠ .xmodem ∧ protocol ≠ .ymodem }
    | .filenameResume => if c.filename then (lineString c.host).map fun _ => { c with filename := false } else none
    | _ => some c

def onBoard (f : Board → Option Board) : Option Caller := (f c.board).map fun board => { c with board }

/-- What a function of the table does beside the states. -/
def beside : Host.Fn → Option Caller
  | .doLogin => c.doLogin config
  | .viewCurrentMessage => c.onBoard Board.displayMessage
  | .viewNewMessage => c.viewNewMessage
  | .enterMessage => c.enterMessage env
  | .saveMessage => c.saveMessage
  | .killMessage => c.killMessage
  | .readMessagesMenu => c.onBoard Board.readMessagesMenu
  | .killReadMessage => c.onBoard Board.killReadMessage
  | .previousMessage => c.onBoard Board.previousMessage
  | .nextMessage => c.onBoard Board.nextMessage
  | .pageSysop => c.pageSysop env
  | .mainMenu => c.mainMenu
  | .downloadFile _ => c.downloadFile
  | .uploadFile protocol => c.uploadFile env protocol
  | _ => some c

def call (fn : Host.Fn) : Option Caller :=
  (c.beside config env fn).bind fun t => (Host.call config env c.host fn).map fun host => { t with host }

/-- A byte goes to the line or to the menus, where a function is called for it if a row has it. -/
def takeByte (ch : UInt8) : Caller × Option Host.Fn :=
  let typed := if c.host.doLineBuffer then Host.lineBufferChar ch (Host.noted ch c.host) else (true, Host.noted ch c.host)
  if typed.1 then
    let host := { typed.2 with doLineBuffer := false }
    match Host.states.find? (Host.selects host ch) with
    | some row => ({ c with host := { host with currentState := row.nextState } }, some row.nextFn)
    | none => ({ c with host }, none)
  else ({ c with host := typed.2 }, none)

/-- `state_machine_keyboard_handler`. -/
def stateMachine (ch : UInt8) : Option Caller :=
  match c.takeByte ch with
  | (t, some fn) => t.call config env fn
  | (t, none) => some t

def answer : Option Caller :=
  call config env { c with host := { c.host with
    hostOnline := true, statusOnline := true, currentState := .login, seen := .answered :: c.host.seen } } .doLogin

/-- Nobody is on the line. -/
def waiting (input : List UInt8) : Option Caller :=
  if c.host.hostType = .serial ∧ input = [] then some c
  else
    match c.host.hostType with
    | .modem =>
      if c.host.localLogin then some c
      else
        (Host.hostModemData env c.host).bind fun host =>
          if host.hostOnline then (if host.currentState = .modemConnected then answer config env { c with host } else none)
          else some { c with host }
    | .serial =>
      if c.host.localLogin then some c
      else if c.host.currentState = .listening then answer config env c else none
    | _ => if env.accepted then (if c.host.currentState = .listening then answer config env c else none) else some c

/-- The page of the sysop goes on. -/
def paging : Option Caller :=
  if (c.host.hostOnline ∨ c.host.localLogin) ∧ c.host.currentState = .pageSysop then c.call config env .pageSysop
  else some c

/-- `host_process_data`; every byte has its own surroundings. -/
def hostProcessData (readOnly : Bool) (around : Around) (input : List (UInt8 × Around)) : Option Caller :=
  (c.paging config (around.env readOnly)).bind fun c =>
    if c.host.hostOnline then
      if c.host.statusOnline = false then (Host.hangup c.host).map fun host => { c with host }
      else
        input.foldlM (fun c byte => c.stateMachine config (byte.2.env readOnly) (config.translate8bitIn byte.1)) c
    else c.waiting config (around.env readOnly) (input.map Prod.fst)

end Caller

inductive Event
  | process
  | start (type : Host.HostType)
  | data (around : Around) (input : List (UInt8 × Around))
  | lineDown

/-- A process in which host mode has not run yet, with the file of messages that is there. -/
def statics (file : List UInt8) (kept : List Letter) : Caller :=
  ⟨Host.statics, { Board.start with file, kept }, none, none, [], false⟩

def step (config : Host.Config) (readOnly : Bool) (c : Caller) : Event → Option Caller
  | .process => some (statics c.board.file c.board.kept)
  | .start type => some { c with host := { Host.resetHost c.host with hostActive := true, hostType := type } }
  | .data around input => c.hostProcessData config readOnly around input
  | .lineDown => some { c with host := { c.host with statusOnline := false } }

def run (config : Host.Config) (readOnly : Bool) : List Event → Caller → Option Caller
  | [], c => some c
  | event :: later, c => (step config readOnly c event).bind (run config readOnly later)

/-! What a caller has to leave alone -/

/-- Behind a period that stands alone in its line there is none in the next line. -/
def Parted : Bool → List Text → Prop
  | opened, [] => opened = false
  | opened, line :: lines => if trim line = separator then opened = false ∧ Parted true lines else Parted false lines

/-- The lines of a message in the file, where line feeds that were typed end lines too. -/
def typedLines (m : Letter) : List Text := m.lines.flatMap (·.splitOn 10)

structure Readable (m : Letter) : Prop where
  room : ∀ line ∈ typedLines m, line.length < lineRoom
  parted : Parted true (typedLines m)

/-- The function takes the line as a string. -/
def takesLine (readOnly : Bool) (s : Host.Host) : Host.Fn → Prop
  | .doLogin => s.loginState ≠ .loginInit
  | .enterMessage => readOnly = false ∧ s.msgState ≠ .msgInit
  | .downloadFile _ => s.fileState = .filenameWait
  | .uploadFile _ => readOnly = false ∧ (s.fileState = .filenameWait ∨ s.fileState = .filenameResume)
  | _ => False

/-- A line that is taken has a NUL in it, a message that is saved can be read, and the last of the messages is the
one that is killed. -/
def Spared (readOnly : Bool) (c : Caller) : Host.Fn → Prop
  | .saveMessage => ∀ sender ∈ c.msgFrom, ∀ recipient ∈ c.msgTo, Readable ⟨sender, recipient, c.msgBody⟩
  | .killReadMessage => c.board.allMessages ≠ [] ∧ c.board.currentMessage + 1 = c.board.allMessages.length
  | fn => takesLine readOnly c.host fn → lineString c.host ≠ none

def EachSpared (config : Host.Config) (readOnly : Bool) : List (UInt8 × Around) → Caller → Prop
  | [], _ => True
  | byte :: later, c =>
    (∀ t fn, c.takeByte (config.translate8bitIn byte.1) = (t, some fn) → Spared readOnly t fn) ∧
      ∀ t, c.stateMachine config (byte.2.env readOnly) (config.translate8bitIn byte.1) = some t →
        EachSpared config readOnly later t

def Meets (config : Host.Config) (readOnly : Bool) (c : Caller) : Event → Prop
  | .data around input =>
    ∀ t, c.paging config (around.env readOnly) = some t → t.host.hostOnline = true → t.host.statusOnline = true →
      EachSpared config readOnly input t
  | _ => True

def MeetsAll (config : Host.Config) (readOnly : Bool) : List Event → Caller → Prop
  | [], _ => True
  | event :: later, c => Meets config readOnly c event ∧
      ∀ t, step config readOnly c event = some t → MeetsAll config readOnly later t

end CProgram.Qodem.Callers
