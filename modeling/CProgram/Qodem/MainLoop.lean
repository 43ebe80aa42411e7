import CProgram.Qodem.Write

/-! `process_incoming_data`: the bytes that arrive, the handlers that they are given to, and the bytes that
the handlers append for the remote side. What a handler does inside is not said here, only how many bytes
it takes, what it appends and the state that it leaves the program in. -/
namespace CProgram.Qodem.MainLoop

structure Ascii where
  sending : Bool
  useXlateTable : Bool
deriving DecidableEq, Repr

/-- The part of `q_program_state` that the main loop looks at. -/
inductive Program where
  | dialer (modem : Bool)
  /-- `Q_STATE_UPLOAD`, `Q_STATE_UPLOAD_BATCH`, `Q_STATE_DOWNLOAD`. -/
  | transfer (ascii : Option Ascii)
  | script | host | console | other
deriving DecidableEq, Repr

/-- The states in which handlers run until they append no more. -/
def Program.loops : Program → Bool
  | .transfer _ | .script | .host => true
  | _ => false

/-- A byte, how often it has been through the translation table of its direction, and whether it is the
dialer that has appended it. -/
structure Tagged where
  byte : UInt8
  passes : ℕ := 0
  dialed : Bool := false
deriving DecidableEq, Repr

def Tagged.translate (x : Tagged) : Tagged := { x with passes := x.passes + 1 }

def fresh (dialed : Bool) (bytes : List UInt8) : List Tagged := bytes.map fun b => { byte := b, dialed := dialed }

/-- What a handler does with the bytes that it is given. -/
structure Outcome where
  /-- How many it takes; of the console, with an autostart, how many come before the byte that completes
  it. -/
  taken : ℕ := 0
  autostart : Bool := false
  /-- An ASCII transfer that is over does nothing. -/
  idle : Bool := false
  appended : List UInt8 := []
  next : Program
deriving DecidableEq, Repr

/-- A call of a handler: how many bytes had been taken before, what it is given, what it reports. -/
structure Handing where
  start : ℕ
  bytes : List UInt8
  remaining : ℕ
deriving DecidableEq, Repr

structure Loop where
  program : Program
  /-- `q_buffer_raw` and `q_transfer_buffer_raw`. -/
  input : List Tagged := []
  output : List Tagged := []
  /-- For the record. -/
  received : List UInt8 := []
  consumed : ℕ := 0
  handed : List Handing := []
  emulated : List Tagged := []
  appended : List UInt8 := []
  /-- A byte from outside the data is `none`. -/
  written : List (Option Tagged) := []
deriving DecidableEq, Repr

namespace Loop

/-- The read in front of the handlers. -/
def receive (l : Loop) (arrives : List UInt8) : Loop :=
  { l with
    input := l.input ++ fresh false (arrives.take (bufferSize - l.input.length))
    received := l.received ++ arrives.take (bufferSize - l.input.length) }

/-- A handler has taken some of the bytes, and the rest is moved to the front. -/
def take (l : Loop) (n : ℕ) : Loop :=
  { l with
    handed := l.handed ++ [⟨l.consumed, l.input.map Tagged.byte, (l.input.drop n).length⟩]
    consumed := l.consumed + min n l.input.length
    input := l.input.drop n }

def append (l : Loop) (dialed : Bool) (bytes : List UInt8) : Loop :=
  { l with output := l.output ++ fresh dialed bytes, appended := l.appended ++ bytes }

/-- `console_process_incoming_data`, up to a byte: each is translated where it stands, and emulated. -/
def emulate (l : Loop) (n : ℕ) : Loop :=
  { l with emulated := l.emulated ++ (l.input.take n).map Tagged.translate }

/-- The byte that completes an autostart has been translated when the console returns. -/
def touchNext (l : Loop) (n : ℕ) : Loop :=
  { l with input := l.input.take n ++ ((l.input.drop n).take 1).map Tagged.translate ++ l.input.drop (n + 1) }

/-- `ascii_transfer`: the upload translates all of the output, the download all of the input. -/
def asciiTransfer (l : Loop) (a : Ascii) (appended : List UInt8) : Loop :=
  let l := l.append false appended
  let l := if a.sending && a.useXlateTable then { l with output := l.output.map Tagged.translate } else l
  let l := if !a.sending && a.useXlateTable then { l with input := l.input.map Tagged.translate } else l
  (l.emulate l.input.length).take l.input.length

/-- The handler of the state that the program is in. -/
def handle (l : Loop) (o : Outcome) : Loop :=
  match l.program with
  | .dialer true => (l.take o.taken).append true o.appended
  | .dialer false | .other => l
  | .transfer (some a) =>
    if o.idle then l else { l.asciiTransfer a o.appended with program := o.next }
  | .transfer none | .host => { (l.take o.taken).append false o.appended with program := o.next }
  | .script => { ((l.emulate o.taken).take o.taken).append false o.appended with program := o.next }
  | .console =>
    if o.autostart ∧ o.taken < l.input.length then
      { ((l.emulate o.taken).touchNext o.taken).take o.taken with program := o.next }
    else (l.emulate l.input.length).take l.input.length

/-- What was appended since then needs to be run once through the table. -/
def translateFrom (l : Loop) (old : ℕ) : Loop :=
  { l with output := l.output.take old ++ (l.output.drop old).map Tagged.translate }

/-- The transfer loop, for as long as the output grows. -/
def transferLoop : List Outcome → Loop → Loop
  | [], l => l
  | o :: outcomes, l =>
    if l.program.loops then
      let l' := (l.handle o).translateFrom l.output.length
      if l'.output.length = l.output.length then l' else transferLoop outcomes l'
    else l

/-- `qodem_write` without `sync`. -/
def write (l : Loop) (result : Result) : Loop :=
  match result with
  | .wrote n => { l with written := l.written ++ (l.output.take n).map some, output := l.output.drop n }
  | .again | .failed => l

/-- `qodem_write` with `sync` translates, and returns the count of its last write. -/
def writeSync (l : Loop) (answers : List Result) : Loop :=
  let calls := doWrite l.output.length answers 0 l.output.length
  { l with
    written := l.written ++
      (calls.flatMap Call.positions).map fun i => (l.output[i]?).map Tagged.translate
    output := l.output.drop ((calls.getLast?.map Call.taken).getD 0) }

end Loop

/-- What the world around one call does. -/
structure Turn where
  arrives : List UInt8
  dialer : Outcome
  handlers : List Outcome
  console : Outcome
  online : Bool
  result : Result
  answers : List Result
deriving DecidableEq, Repr

namespace Loop

def dialerPart (l : Loop) (t : Turn) : Loop :=
  if l.program = .dialer true ∧ l.output = [] then l.handle t.dialer else l

def consolePart (l : Loop) (t : Turn) : Loop := if l.program = .console then l.handle t.console else l

def writePart (l : Loop) (t : Turn) : Loop :=
  if t.online ∧ l.output ≠ [] then
    if l.program = .dialer true then l.writeSync t.answers else l.write t.result
  else l

def processIncomingData (l : Loop) (t : Turn) : Loop :=
  ((transferLoop t.handlers ((l.receive t.arrives).dialerPart t)).consolePart t).writePart t

def run (l : Loop) (turns : List Turn) : Loop := turns.foldl processIncomingData l

end Loop
end CProgram.Qodem.MainLoop
