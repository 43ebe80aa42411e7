import CProgram.Zmodem.Header

/-! `packet_buffer` and `decode_zdata_bytes`, which takes one data subpacket off it. -/
namespace CProgram.Zmodem

/-- `sizeof(packet_buffer)`. -/
def packetBufferSize : Nat := 2 * (1024 + 4 + 1)

/-- `packet_buffer` with all its bytes, the stale ones included, and `packet_buffer_n`. -/
structure Buffer where
  bytes : List UInt8
  n : Nat
  length_bytes : bytes.length = packetBufferSize
  n_le : n ≤ packetBufferSize

namespace Buffer

/-- The buffer before anything has arrived. -/
def empty : Buffer := ⟨List.replicate packetBufferSize 0, 0, by simp, Nat.zero_le _⟩

/-- The bytes that count. -/
def valid (b : Buffer) : List UInt8 := b.bytes.take b.n

/-- How much still fits. -/
def room (b : Buffer) : Nat := packetBufferSize - b.n

theorem length_valid (b : Buffer) : b.valid.length = b.n := by
  simp only [valid, List.length_take, b.length_bytes]
  exact Nat.min_eq_left b.n_le

/-- As much of the input as fits goes behind the valid bytes. -/
def fill (b : Buffer) (input : List UInt8) : Buffer where
  bytes := b.bytes.take b.n ++ input.take b.room ++ b.bytes.drop (b.n + (input.take b.room).length)
  n := b.n + (input.take b.room).length
  length_bytes := by
    have h := b.length_bytes
    have hn := b.n_le
    simp only [List.length_append, List.length_take, List.length_drop, room]
    omega
  n_le := by
    have hn := b.n_le
    simp only [List.length_take, room]
    omega

/-- `memmove` of the valid bytes from `d` on to the front. -/
def discard (b : Buffer) (d : Nat) : Buffer where
  bytes := (b.bytes.take b.n).drop d ++ b.bytes.drop (b.n - d)
  n := b.n - d
  length_bytes := by
    have h := b.length_bytes
    have hn := b.n_le
    simp only [List.length_append, List.length_take, List.length_drop]
    omega
  n_le := by
    have hn := b.n_le
    omega

def clear (b : Buffer) : Buffer := ⟨b.bytes, 0, b.length_bytes, Nat.zero_le _⟩

theorem valid_fill (b : Buffer) (input : List UInt8) :
    (b.fill input).valid = b.valid ++ input.take b.room := by
  have hlength := b.length_valid
  rw [valid, fill]
  simp only
  rw [List.take_left' (by rw [List.length_append]; exact congrArg (· + _) hlength)]
  rfl

theorem valid_discard (b : Buffer) (d : Nat) : (b.discard d).valid = b.valid.drop d := by
  have hlength := b.length_valid
  rw [valid, discard]
  simp only
  rw [List.take_left' (by rw [List.length_drop]; exact congrArg (· - d) hlength)]
  rfl

/-- The stale bytes come behind the valid ones. -/
theorem getD_bytes (b : Buffer) {i : Nat} (hi : i < b.n) (ch : UInt8) :
    b.bytes.getD i ch = b.valid.getD i ch := by
  rw [valid, List.getD_eq_getElem?_getD, List.getD_eq_getElem?_getD, List.getElem?_take_of_lt hi]

end Buffer

def zcrce : UInt8 := 104
def zcrcg : UInt8 := 105
def zcrcq : UInt8 := 106
def zcrcw : UInt8 := 107

def isCrcEscape (ch : UInt8) : Bool := ch = zcrce || ch = zcrcg || ch = zcrcq || ch = zcrcw

/-- The quick scan: is there a CRC escape at all. -/
def hasCrcEscape : List UInt8 → Bool
  | [] => false
  | ch :: input =>
    if ch = can then
      match input with
      | [] => false
      | ch :: input => isCrcEscape ch || hasCrcEscape input
    else hasCrcEscape input

/-- How `decode_zdata_bytes` ends: false, false with the transfer cancelled by two CANs, or a
subpacket with its CRC escape and CRC and the bytes behind it. -/
inductive Decoded where
  | incomplete
  | cancelled
  | subpacket (output crcBuffer rest : List UInt8)
deriving DecidableEq, Repr

/-- What the big loop has collected; the CRC buffer is empty until the CRC escape, its first
byte. -/
structure Decoding where
  output : List UInt8
  crcBuffer : List UInt8
deriving DecidableEq, Repr

def Decoding.put (d : Decoding) (ch : UInt8) : Decoding :=
  if d.crcBuffer = [] then { d with output := d.output ++ [ch] }
  else { d with crcBuffer := d.crcBuffer ++ [ch] }

/-- The big loop, behind a CAN if the flag says so; `size` is how long the CRC buffer gets. -/
def decodeLoop (size : Nat) : Bool → Decoding → List UInt8 → Decoded
  | _, _, [] => .incomplete
  | false, d, ch :: input =>
    if ch = can then decodeLoop size true d input
    else if (d.put ch).crcBuffer.length = size then
      .subpacket (d.put ch).output (d.put ch).crcBuffer input
    else decodeLoop size false (d.put ch) input
  | true, d, ch :: input =>
    if isCrcEscape ch then
      if d.crcBuffer = [] then decodeLoop size false { d with crcBuffer := [ch] } input
      else .incomplete
    else
      match unescape ch with
      | some ch =>
        if (d.put ch).crcBuffer.length = size then
          .subpacket (d.put ch).output (d.put ch).crcBuffer input
        else decodeLoop size false (d.put ch) input
      | none => if ch = can then .cancelled else decodeLoop size false d input

/-- `decode_zdata_bytes` up to the shift of its input. -/
def decodeZdataBytes (useCrc32 : Bool) (input : List UInt8) : Decoded :=
  if hasCrcEscape input then decodeLoop (if useCrc32 then 5 else 3) false ⟨[], []⟩ input
  else .incomplete

end CProgram.Zmodem
