import CProgram.Qodem.Write
import CProgram.Terminal.Resync

/-! The bridge between a script and the connection: what the script writes is decoded from UTF-8 and
posted to the remote side, and what the terminal prints is encoded for the script to read. -/
namespace CProgram.Qodem.Script
open CProgram.Bytes CProgram.Terminal CProgram.Terminal.Utf8Decode

/-- `utf8_encode`; what is no character of Unicode comes out blank. -/
def utf8Encode (ch : ℕ) : List UInt8 :=
  if ch ≤ 0x7F then [UInt8.ofNat ch]
  else if ch ≤ 0x7FF then [UInt8.ofNat (0xC0 + ch / 64 % 32), UInt8.ofNat (0x80 + ch % 64)]
  else if ch ≤ 0xFFFF then
    [UInt8.ofNat (0xE0 + ch / 4096 % 16), UInt8.ofNat (0x80 + ch / 64 % 64), UInt8.ofNat (0x80 + ch % 64)]
  else if ch ≤ 0x10FFFF then
    [UInt8.ofNat (0xF0 + ch / 262144 % 8), UInt8.ofNat (0x80 + ch / 4096 % 64),
      UInt8.ofNat (0x80 + ch / 64 % 64), UInt8.ofNat (0x80 + ch % 64)]
  else []

/-- The emulation and the translation tables. -/
structure Tables where
  /-- L_UTF8 or X_UTF8. -/
  utf8 : Bool
  translateUnicodeTo8Bit : ℕ → UInt8
  translateUnicodeOut : ℕ → ℕ

/-- What a code point is posted as. -/
def Tables.post (t : Tables) (utf8Char : UInt32) : List UInt8 :=
  if t.utf8 then utf8Encode (t.translateUnicodeOut utf8Char.toNat)
  -- the translation is stored too, and at once overwritten
  else [UInt8.ofNat utf8Char.toNat]

/-- What it is meant to be posted as. -/
def Tables.meant (t : Tables) (ch : ℕ) : List UInt8 :=
  if t.utf8 then utf8Encode (t.translateUnicodeOut ch) else [t.translateUnicodeTo8Bit ch]

/-- A byte as the loop finds it: the state of the decoder before the loop, and at the first byte of a call
what the local `utf8_char` holds by chance. -/
structure Mark where
  lastUtf8State : ℕ
  utf8Char : Option UInt32
  byte : UInt8
deriving DecidableEq, Repr

def Mark.next (m : Mark) (σ : ℕ) : ℕ := Utf8Decode.next σ m.byte

/-- The state after a byte; the state from before the loop, once more, is taken for an error. -/
def Mark.settle (m : Mark) (σ : ℕ) : ℕ := if m.lastUtf8State = m.next σ ∧ m.next σ ≠ 0 then 0 else m.next σ

def Mark.gather (m : Mark) (σ : ℕ) (acc : UInt32) : UInt32 := Utf8Decode.gather σ (m.utf8Char.getD acc) m.byte

/-- The code points that a row of bytes brings. -/
def decoded : ℕ → UInt32 → List Mark → List UInt32
  | _, _, [] => []
  | σ, acc, m :: marks =>
    (if m.next σ = 0 then [m.gather σ acc] else []) ++ decoded (m.settle σ) (m.gather σ acc) marks

/-- The bytes of one call. -/
def marks (lastUtf8State : ℕ) (utf8Char : UInt32) : List UInt8 → List Mark
  | [] => []
  | b :: bytes => ⟨lastUtf8State, some utf8Char, b⟩ :: bytes.map fun b => ⟨lastUtf8State, none, b⟩

structure Loop where
  utf8State : ℕ
  output : List UInt8
  rest : List UInt8
deriving DecidableEq, Repr

/-- The loop over `stdout_buffer`, with `used` bytes in the output already. -/
def loop (t : Tables) (outputMax used : ℕ) : List Mark → ℕ → UInt32 → List UInt8 → Loop
  | [], σ, _, output => ⟨σ, output, []⟩
  | m :: marks, σ, acc, output =>
    if m.next σ ≠ 0 then loop t outputMax used marks (m.settle σ) (m.gather σ acc) output
    else if sub32 outputMax (used + (output ++ t.post (m.gather σ acc)).length) < 4 then
      ⟨0, output ++ t.post (m.gather σ acc), marks.map Mark.byte⟩
    else loop t outputMax used marks 0 (m.gather σ acc) (output ++ t.post (m.gather σ acc))

/-- The script's side of the program. -/
structure Bridge where
  /-- How much of the script's output has been read. -/
  position : ℕ := 0
  stdoutUtf8State : ℕ := 0
  stdoutBuffer : List UInt8 := []
  printBuffer : List UInt8 := []
  printBufferFull : Bool := false
  /-- For the record: what has been posted, what has been decoded, and what the script has been sent. -/
  posted : List UInt8 := []
  history : List Mark := []
  stdin : List UInt8 := []
deriving DecidableEq, Repr

inductive Event where
  /-- `script_process_data` with stdout readable: `used` of `outputMax` bytes are in the output, a read
  would bring `count` bytes, and `utf8Char` is what the local variable holds by chance. -/
  | stdout (used outputMax count : ℕ) (utf8Char : UInt32)
  /-- `script_process_data` with stdin writeable: so many bytes are taken, or it is `EAGAIN`. -/
  | stdin (rc : Option ℕ)
  /-- `script_print_character`. -/
  | print (ch : ℕ)
deriving DecidableEq, Repr

namespace Bridge

/-- `sizeof(print_buffer)`. -/
def printBufferSize : ℕ := 512

def updatePrintBufferFlags (b : Bridge) : Bridge :=
  { b with printBufferFull := decide (printBufferSize - 4 ≤ b.printBuffer.length) }

/-- The read in front of the loop, which wants room for one character in the output. -/
def receive (b : Bridge) (script : List UInt8) (used outputMax count : ℕ) : Bridge :=
  if 0 < bufferSize - b.stdoutBuffer.length ∧ 4 < sub32 outputMax used then
    let n := min count (bufferSize - b.stdoutBuffer.length)
    { b with
      position := b.position + ((script.drop b.position).take n).length
      stdoutBuffer := b.stdoutBuffer ++ (script.drop b.position).take n }
  else b

def convert (b : Bridge) (t : Tables) (used outputMax : ℕ) (utf8Char : UInt32) : Bridge :=
  let row := marks b.stdoutUtf8State utf8Char b.stdoutBuffer
  let l := loop t outputMax used row b.stdoutUtf8State utf8Char []
  { b with
    stdoutUtf8State := l.utf8State
    stdoutBuffer := l.rest
    posted := b.posted ++ l.output
    history := b.history ++ row.take (row.length - l.rest.length) }

def act (b : Bridge) (t : Tables) (script : List UInt8) : Event → Bridge
  | .stdout used outputMax count utf8Char =>
    (b.receive script used outputMax count).convert t used outputMax utf8Char
  | .stdin rc =>
    let n := min (rc.getD 0) b.printBuffer.length
    if rc.isSome then
      updatePrintBufferFlags { b with
        printBuffer := b.printBuffer.drop n
        stdin := b.stdin ++ b.printBuffer.take n }
    else b
  | .print ch =>
    if b.printBufferFull then b
    else updatePrintBufferFlags { b with printBuffer := b.printBuffer ++ utf8Encode ch }

def run (b : Bridge) (t : Tables) (script : List UInt8) (events : List Event) : Bridge :=
  events.foldl (fun b event => b.act t script event) b

end Bridge
end CProgram.Qodem.Script
