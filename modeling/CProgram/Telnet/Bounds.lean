import CProgram.Telnet.Read

/-! Where `telnet_read` stays inside its buffers. It is asked for `count` bytes and may store more: a CR
that waited for its successor comes out with it, and a second CR brings a NUL along. The collector of a
subnegotiation does not look at the length at all. -/
namespace CProgram.Telnet
variable {c : Config} {t : Nvt} {ch : UInt8} {bytes : List UInt8} {r : Request}

namespace Nvt

/-- Two bytes are stored: the CR that waited, and one for this byte. -/
def doubles (t : Nvt) (ch : UInt8) : Bool :=
  !t.subnegEnd && !t.dowill && !t.iac && ch ≠ IAC && !t.binaryMode && t.readCr && ch ≠ NUL

/-- Nothing is stored: the byte belongs to a command, is a NUL by itself, or is a CR that waits. -/
def silent (t : Nvt) (ch : UInt8) : Bool :=
  t.subnegEnd || t.dowill || (if ch = IAC then !t.iac else t.iac) ||
    (ch ≠ IAC && !t.binaryMode && !t.readCr && (ch = NUL || ch = CR))

/-- The byte is an argument of a subnegotiation. -/
def collects (t : Nvt) (ch : UInt8) : Bool := t.subnegEnd && ch ≠ SE && (ch ≠ IAC || t.iac)

end Nvt

/-- How many of the bytes are such, each in the state that it finds. -/
def tally (c : Config) (such : Nvt → UInt8 → Bool) : Nvt → List UInt8 → ℕ
  | _, [] => 0
  | t, ch :: bytes => (if such t ch then 1 else 0) + tally c such (t.readByte c ch).nvt bytes

/-- At every byte of the row, in the state that it finds. -/
def Throughout (c : Config) (P : Nvt → UInt8 → Prop) : Nvt → List UInt8 → Prop
  | _, [] => True
  | t, ch :: bytes => P t ch ∧ Throughout c P (t.readByte c ch).nvt bytes

/-- In every call of a run. -/
def InEach (c : Config) (P : Nvt → Request → Prop) : Nvt → List Request → Prop
  | _, [] => True
  | t, r :: requests => P t r ∧ InEach c P (t.telnetRead c r.recv).nvt requests

/-- A call stores no more than it was asked for, and the collector stays in its buffer. -/
def Inside (c : Config) (t : Nvt) (r : Request) : Prop :=
  (t.telnetRead c r.recv).stored.length ≤ r.count ∧
    ∀ t' bytes, t.greet.fill c r.recv = some (t', bytes) →
      Throughout c (fun t ch => (t.readByte c ch).nvt.subneg.length ≤ subnegBufferMax) t' bytes

/-- The bytes that store two are made up for by bytes that store nothing and by room to spare, and an
argument of a subnegotiation comes only when fewer than 128 are there. -/
def Fits (c : Config) (t : Nvt) (r : Request) : Prop :=
  ∀ t' bytes, t.greet.fill c r.recv = some (t', bytes) →
    bytes.length + tally c Nvt.doubles t' bytes ≤ r.count + tally c Nvt.silent t' bytes ∧
      Throughout c (fun t ch => t.collects ch → t.subneg.length < subnegBufferMax) t' bytes

/-! ### Single bytes -/

/-- A console with the defaults. -/
def console : Config where
  host := false
  emulation := .vt .xterm
  utf8Lang := ascii "en_US.UTF-8"
  iso8859Lang := ascii "C"
  lines := 24
  columns := 80

end CProgram.Telnet
