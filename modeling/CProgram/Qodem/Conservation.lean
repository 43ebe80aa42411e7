import CProgram.Qodem.MainLoop

/-! The main loop loses no byte and repeats none, in either direction. What can go wrong is the number of
times a byte is translated: the console translates in place, before it knows that it will return. -/
namespace CProgram.Qodem.MainLoop
variable {l : Loop} {n p q : ℕ} {o : Outcome} {t : Turn} {turns : List Turn} {outcomes : List Outcome}
  {received more : List UInt8}

/-! ### What is asked of a run -/

/-- The front of the input has not been translated before. -/
def Loop.Untouched (l : Loop) : Prop := ∀ x ∈ l.input.head?, x.passes = 0

/-- The terminal is given no byte that has completed an autostart before, and no ASCII transfer
translates anything through its own table. -/
def HandlesWell (l : Loop) (o : Outcome) : Prop :=
  match l.program with
  | .transfer (some a) => o.idle ∨ (l.Untouched ∧
      (a.useXlateTable → if a.sending then l.output = [] ∧ o.appended = [] else l.input = []))
  | .script => o.taken = 0 ∨ l.Untouched
  | .console => l.Untouched
  | _ => True

def LoopsWell : List Outcome → Loop → Prop
  | [], _ => True
  | o :: outcomes, l => l.program.loops → HandlesWell l o ∧
    (((l.handle o).translateFrom l.output.length).output.length ≠ l.output.length →
      LoopsWell outcomes ((l.handle o).translateFrom l.output.length))

/-- The first write that takes anything takes everything. -/
def AtOnce (dataN : ℕ) : List Result → Prop
  | [] | .failed :: _ => True
  | .again :: answers => AtOnce dataN answers
  | .wrote rc :: answers => if rc = 0 then AtOnce dataN answers else rc = dataN

/-- While dialing, what goes out is the dialer's, and goes out at once; otherwise it is not the dialer's. -/
def WritesWell (l : Loop) (t : Turn) : Prop :=
  t.online ∧ l.output ≠ [] →
    if l.program = .dialer true then (∀ x ∈ l.output, x.dialed) ∧ AtOnce l.output.length t.answers
    else ∀ k, t.result = .wrote k → ∀ x ∈ l.output.take k, x.dialed = false

def GoesWell (l : Loop) (t : Turn) : Prop :=
  let looped := Loop.transferLoop t.handlers ((l.receive t.arrives).dialerPart t)
  LoopsWell t.handlers ((l.receive t.arrives).dialerPart t) ∧
    (looped.program = .console → HandlesWell looped t.console) ∧ WritesWell (looped.consolePart t) t

def RunsWell : Loop → List Turn → Prop
  | _, [] => True
  | l, t :: turns => GoesWell l t ∧ RunsWell (l.processIncomingData t) turns

/-! ### What is conserved -/

/-- Each handler is given what has been received and not yet taken, from `p` on and up to `q`. -/
def InOrder (received : List UInt8) : ℕ → List Handing → ℕ → Prop
  | p, [], q => p = q
  | p, h :: handed, q => h.start = p ∧ h.bytes = (received.drop p).take h.bytes.length ∧
    h.remaining ≤ h.bytes.length ∧ InOrder received (p + (h.bytes.length - h.remaining)) handed q

/-- What has reached the terminal has been translated once, and what waits has not, but for the first; what
is leaving has been translated, unless the dialer has appended it. -/
structure Passes (l : Loop) : Prop where
  waiting : ∀ x ∈ l.input.tail, x.passes = 0
  emulated : ∀ x ∈ l.emulated, x.passes = 1
  leaving : ∀ x ∈ l.output, x.passes = if x.dialed then 0 else 1

/-- A turn in which a byte arrives at the console. -/
def turn (arrives : List UInt8) (autostart : Bool) : Turn where
  arrives := arrives
  dialer := { next := .console }
  handlers := []
  console := { autostart := autostart, next := .console }
  online := true
  result := .again
  answers := []

end CProgram.Qodem.MainLoop
