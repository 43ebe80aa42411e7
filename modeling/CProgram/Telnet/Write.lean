import CProgram.Telnet.Read

/-! `telnet_write`: a buffer of its own in front of `send`, a CR that waits for its successor, and a count
of the bytes that it has taken from its caller. -/
namespace CProgram.Telnet
open CProgram.Qodem

/-- What `send` comes to. -/
inductive Send where
  /-- One byte and up to `n` more. -/
  | takes (n : ℕ)
  /-- `EAGAIN` or `EWOULDBLOCK`. -/
  | again
  | failed
deriving DecidableEq, Repr

/-- `write_buffer` up to `write_buffer_n`, and the flags of `telnet_write`. -/
structure Writer where
  buffer : List UInt8 := []
  writeCr : Bool := false
  writeLastError : Bool := false
deriving DecidableEq, Repr

/-- One character into the buffer, and whether it wants a flush. -/
def Writer.enqueue (w : Writer) (binaryMode : Bool) (ch : UInt8) : Writer × Bool :=
  if binaryMode then
    if ch = IAC then ({ w with buffer := w.buffer ++ [IAC, IAC] }, true)
    else ({ w with buffer := w.buffer ++ [ch] }, false)
  else if ch = CR then
    if w.writeCr then ({ w with buffer := w.buffer ++ [CR, NUL], writeCr := true }, true)
    else ({ w with writeCr := true }, false)
  else if ch = LF then
    if w.writeCr then ({ w with buffer := w.buffer ++ [CR, LF], writeCr := false }, true)
    else ({ w with buffer := w.buffer ++ [ch], writeCr := false }, false)
  else if ch = IAC then
    if w.writeCr then ({ w with buffer := w.buffer ++ [CR, NUL] ++ [IAC, IAC], writeCr := false }, true)
    else ({ w with buffer := w.buffer ++ [IAC, IAC], writeCr := false }, true)
  -- a CR that waits goes on waiting
  else ({ w with buffer := w.buffer ++ [ch] }, false)

/-- A bare CR from the console needs to go out. -/
def Writer.release (w : Writer) (atConsole : Bool) : Writer :=
  if w.writeCr && atConsole then { w with buffer := w.buffer ++ [CR], writeCr := false } else w

/-- A call under way: what is left of its input, the bytes taken (`i`), the count to be returned
(`sent`), and the bytes that have gone out. -/
structure Drive where
  writer : Writer
  rest : List UInt8
  taken : ℕ
  sent : ℕ
  wire : List UInt8
deriving DecidableEq, Repr

namespace Drive

/-- The loop, up to a flush, a full buffer or the end of the input. -/
def fillUp (binaryMode : Bool) : List UInt8 → Writer → ℕ → Writer × List UInt8 × ℕ × Bool
  | [], w, i => (w, [], i, false)
  | ch :: rest, w, i =>
    if bufferSize - w.buffer.length < 4 then (w, ch :: rest, i, false)
    else if (w.enqueue binaryMode ch).2 then ((w.enqueue binaryMode ch).1, rest, i + 1, true)
    else fillUp binaryMode rest (w.enqueue binaryMode ch).1 (i + 1)

/-- From one flush to the next, or to the end of the call. -/
def next (binaryMode atConsole : Bool) (d : Drive) : Drive × Bool :=
  match fillUp binaryMode d.rest d.writer d.taken with
  | (w, rest, i, true) => ({ d with writer := w, rest := rest, taken := i }, true)
  | (w, rest, i, false) =>
    ({ d with writer := w.release atConsole, rest := rest, taken := i },
      decide ((w.release atConsole).buffer ≠ []))

/-- `send` has taken some of the buffer; the count follows the input. -/
def flushed (d : Drive) (n : ℕ) : Drive :=
  { d with
    sent := d.taken
    wire := d.wire ++ d.writer.buffer.take (n + 1)
    writer := { d.writer with buffer := d.writer.buffer.drop (n + 1) } }

/-- The count, or -1. -/
def verdict (d : Drive) : Option ℕ := if 0 < d.sent then some d.sent else none

/-- From a flush on. -/
def push (binaryMode atConsole : Bool) : List Send → Drive → Drive × Option ℕ
  | [], d | .again :: _, d => (d, d.verdict)
  | .failed :: _, d =>
    ({ d with writer := { d.writer with writeLastError := decide (0 < d.sent) } }, d.verdict)
  | .takes n :: sends, d =>
    if ((d.flushed n).next binaryMode atConsole).2 then
      push binaryMode atConsole sends ((d.flushed n).next binaryMode atConsole).1
    else
      (((d.flushed n).next binaryMode atConsole).1, some ((d.flushed n).next binaryMode atConsole).1.sent)

end Drive

/-- `telnet_write`, once the options are sent. -/
def Writer.telnetWrite (w : Writer) (binaryMode atConsole : Bool) (input : List UInt8) (sends : List Send) :
    Drive × Option ℕ :=
  let d : Drive := ⟨w, input, 0, 0, []⟩
  if w.writeLastError then ({ d with writer := { w with writeLastError := false } }, none)
  else if input = [] then (d, some 0)
  else if w.buffer ≠ [] then d.push binaryMode atConsole sends
  else if (d.next binaryMode atConsole).2 then (d.next binaryMode atConsole).1.push binaryMode atConsole sends
  else ((d.next binaryMode atConsole).1, some (d.next binaryMode atConsole).1.sent)

/-! ### A channel -/

/-- An application that writes `text`, and the far end of its connection. -/
structure Link where
  /-- How much of the text has been taken. -/
  position : ℕ
  writer : Writer
  wire : List UInt8
  reader : Nvt
  delivered : List UInt8
deriving DecidableEq, Repr

/-- The options are settled, and nothing has been written. -/
def Link.start (binaryMode : Bool) : Link where
  position := 0
  writer := {}
  wire := []
  reader := { Nvt.reset.greet with binaryMode := binaryMode }
  delivered := []

inductive Event where
  /-- The application goes on with this many bytes of the text, at the console or elsewhere. -/
  | write (atConsole : Bool) (count : ℕ) (sends : List Send)
  /-- The far end receives this many bytes. -/
  | read (n : ℕ)
deriving DecidableEq, Repr

def Link.act (binaryMode : Bool) (c : Config) (text : List UInt8) (l : Link) : Event → Link
  | .write atConsole count sends =>
    let call := l.writer.telnetWrite binaryMode atConsole ((text.drop l.position).take count) sends
    { l with
      writer := call.1.writer
      wire := l.wire ++ call.1.wire
      position := l.position + call.2.getD 0 }
  | .read n =>
    let read := l.reader.telnetRead c (.bytes (l.wire.take n))
    { l with reader := read.nvt, wire := l.wire.drop n, delivered := l.delivered ++ read.stored }

def Link.run (binaryMode : Bool) (c : Config) (text : List UInt8) (l : Link) (events : List Event) : Link :=
  events.foldl (Link.act binaryMode c text) l

/-- The sends of an event are partial or meet `EAGAIN`; there is no error. -/
def Event.NoError : Event → Prop
  | .write _ _ sends => .failed ∉ sends
  | .read _ => True

end CProgram.Telnet
