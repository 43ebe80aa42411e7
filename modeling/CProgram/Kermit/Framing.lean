import CProgram.Kermit.FrameParse

/-! The packet buffer of `kermit()`: how the bytes of the line are collected, cut into packets and
thrown away, call by call. The very first call, which drops its input on purpose
(`toss_input_buffer`), comes before. -/
namespace CProgram.Kermit
open Bytes

/-- A packet as it is handed to the protocol layer. -/
structure InputPacket where
  type : Option PacketType
  seq : UInt8
  data : List UInt8
deriving DecidableEq, Repr

/-- `sizeof(packet_buffer)`. -/
def packetBufferSize : Nat := 2 * blockSize

/-- `packet_buffer`, and what goes with it. `packets` are those handed on so far. The last four
fields only record what happened: a pass looked behind its last byte, input was dropped, a call
returned at once because the session was over, the last call left its loop early. -/
structure Framing where
  packetBuffer : Nat → UInt8
  packetBufferN : Nat
  ctrlCCount : Nat
  aborted : Bool
  passes : Nat
  packets : List InputPacket
  overread : Bool
  leftOver : Bool
  ended : Bool
  early : Bool

/-- What the rest of the program adds: the parser in force after some packets, whether the session
is over, and whether the loop is left before or after a pass because there is no more room in the
output or in the output window. -/
structure Surroundings where
  context : List InputPacket → ParseContext
  finished : Nat → List InputPacket → Bool
  leaveBefore : Nat → Bool
  leaveAfter : Nat → Bool

def countCtrlC (count : Nat) (input : List UInt8) : Nat :=
  if input.length < 10 then input.foldl (fun n ch => if ch = 3 then n + 1 else 0) count else count

/-- `memcpy` of `bytes` to index `start`. -/
def copyIn (buffer : Nat → UInt8) (start : Nat) (bytes : List UInt8) : Nat → UInt8 :=
  fun i => if start ≤ i then (bytes[i - start]?).getD (buffer i) else buffer i

/-- `memmove` of `n` bytes from index `start` to the front; what lies behind them stays. -/
def moveDown (buffer : Nat → UInt8) (start n : Nat) : Nat → UInt8 :=
  fun i => if i < n then buffer (start + i) else buffer i

namespace Framing
variable (e : Surroundings)

/-- The packet a call of `decode_input_bytes` hands on. -/
def handed (r : Parsed) : List InputPacket :=
  match r.outcome with
  | .packet type seq data => [⟨type, seq, data⟩]
  | _ => []

/-- What `decode_input_bytes` returns: a packet was taken out, good or bad. -/
def hadSomeInput (r : Parsed) : Bool :=
  match r.outcome with
  | .packet _ _ _ => true
  | .bad => true
  | _ => false

/-- `packet_buffer` with as much of the input as it has room for. -/
def fill (s : Framing) (input : List UInt8) : Framing :=
  { s with
    packetBuffer := copyIn s.packetBuffer s.packetBufferN
      (input.take (packetBufferSize - s.packetBufferN))
    packetBufferN := s.packetBufferN + min (packetBufferSize - s.packetBufferN) input.length }

def parsed (s : Framing) : Parsed :=
  (e.context s.packets).decodeInputBytes s.packetBuffer s.packetBufferN

/-- The first MARK is the last byte: the parser reads LEN behind the valid bytes. -/
def atEdge (s : Framing) : Bool :=
  decide (5 ≤ s.packetBufferN) &&
    decide (findMark (e.context s.packets).session.mark s.packetBuffer s.packetBufferN =
      some (s.packetBufferN - 1))

/-- `decode_input_bytes`, and the bytes it discards taken off the buffer. -/
def decode (s : Framing) : Framing :=
  let r := s.parsed e
  { s with
    packetBuffer := moveDown s.packetBuffer r.discard (s.packetBufferN - r.discard)
    packetBufferN := s.packetBufferN - r.discard
    packets := s.packets ++ handed r
    overread := s.overread || s.atEdge e
    passes := s.passes + 1 }

/-- The three ^C in a row with which the remote user aborts. -/
def lookForCtrlC (s : Framing) (input : List UInt8) : Framing :=
  let count := countCtrlC s.ctrlCCount input
  { s with ctrlCCount := count, aborted := s.aborted || decide (3 ≤ count) }

/-- Leave the loop with `input` not copied yet. -/
def leave (s : Framing) (input : List UInt8) : Framing :=
  { s with leftOver := s.leftOver || !input.isEmpty, early := true }

/-- The `while` loop of `kermit()`, as far as the packet buffer goes. -/
def loop : Nat → Framing → List UInt8 → Option Framing
  | 0, _, _ => none
  | fuel + 1, s, input =>
    if e.leaveBefore s.passes then some (s.leave input)
    else
      let s₁ := (s.lookForCtrlC input).fill input
      let s₂ := s₁.decode e
      let rest := input.drop (packetBufferSize - s.packetBufferN)
      if e.leaveAfter s.passes then some (s₂.leave rest)
      else if rest.isEmpty = true ∧ hadSomeInput (s₁.parsed e) = false then
        some { s₂ with early := false }
      else loop fuel s₂ rest

/-- One call of `kermit()`. -/
def call (s : Framing) (input : List UInt8) : Option Framing :=
  if s.aborted || e.finished s.passes s.packets then some { s with ended := true }
  else s.loop e (s.packetBufferN + input.length + 1) input

/-- The calls for consecutive chunks of the line. -/
def calls (s : Framing) : List (List UInt8) → Option Framing
  | [] => some s
  | chunk :: chunks => (s.call e chunk).bind fun s' => calls s' chunks

def init : Framing := ⟨fun _ => 0, 0, 0, false, 0, [], false, false, false, false⟩

end Framing
end CProgram.Kermit
