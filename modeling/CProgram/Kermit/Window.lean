import CProgram.Kermit.Session

/-! The sliding windows: `nak_packet`, `window_next_packet_seq`, `find_input_slot` to `move_windows`.
Every index of a window that is used is recorded. -/
namespace CProgram.Kermit

/-- Case 2 of `find_input_slot`, for a window whose last slot has the number `last`. -/
def lostPacket (w last seq : Nat) : Bool :=
  let ws := (last + w) % 64
  (decide (last + 2 < ws) && decide (last + 2 ≤ seq) && decide (seq ≤ ws)) ||
    (decide (ws < last + 2) && (decide (last + 2 ≤ seq) || decide (seq ≤ ws)))

/-- The loop that makes gaps from the number `e` up to `seq`, at most `fuel` of them. -/
def fillGaps (w seq : Nat) : Nat → Nat → Circular Slot → Circular Slot
  | 0, _, r => r
  | fuel + 1, e, r =>
    if e ≠ seq ∧ r.count < w then
      fillGaps w seq fuel ((e + 1) % 64)
        (r.push w { r.cell r.next with seq := e, acked := false, data := [] })
    else r

namespace Transfer
open Circular
variable (s : Transfer)

def unacked (slot : Slot) : Bool := !slot.acked

/-- `input_window_i - 1`, or the end of the window in front of the first slot. -/
def lastIn : Nat := prev s.windoIn s.inputWindow.next

def lastSeq : Nat := (s.inputWindow.cell s.lastIn).seq

/-- `window_next_packet_seq`. -/
def windowNextPacketSeq (seq : Nat) : Bool :=
  decide (s.inputWindow.count = 0) || decide (seq = (s.lastSeq + 1) % 64)

def lastIndexes : List Nat := if s.inputWindow.count = 0 then [] else [s.lastIn]

/-- `input_window[input_window_begin]`. -/
def oldest : Slot := s.inputWindow.cell s.inputWindow.start

def dropOldest : Transfer :=
  { s with inputWindow := s.inputWindow.dropFirst s.windoIn, dropped := s.dropped + 1 }

def appendSlot (slot : Slot) : Transfer :=
  { s with inputWindow := s.inputWindow.push s.windoIn slot }

/-- The oldest slot of the input window leaves it; data goes to the file. -/
def rollOff : Transfer :=
  if s.oldest.type = some .kdata then (s.write s.oldest.data).dropOldest else s.dropOldest

/-- Where `nak_packet` finds the number it asks for when the window has no gap. -/
def nakIndex : Nat := prev s.inputWindow.count s.inputWindow.next

/-- The number that `nak_packet` asks for. -/
def nakSeq : Nat :=
  if s.sequenceNumber = 0 ∧ s.inputPacket.seq = 0 then 0
  else if s.inputWindow.count = 0 then s.sequenceNumber + 1
  else
    match s.inputWindow.walk s.windoIn unacked with
    | some k => (s.inputWindow.cell k).seq
    | none => (s.inputWindow.cell s.nakIndex).seq + 1

/-- The indexes that are used to find it. -/
def nakIndexes : List Nat :=
  if s.inputWindow.count = 0 then []
  else s.inputWindow.visited s.windoIn unacked ++
    if s.inputWindow.walk s.windoIn unacked = none then [s.nakIndex] else []

/-- The slot for a packet that has been asked for. -/
def nakSlot : Slot := ⟨s.inputPacket.seq, 1, false, s.inputPacket.type, []⟩

/-- A slot for the packet is made only when the window is full. -/
def nakGrow : Transfer :=
  if s.inputWindow.count = s.windoIn then
    if s.oldest.acked then s.rollOff.appendSlot s.nakSlot else { s with outputPacket := none }
  else s

/-- The part of `nak_packet` that makes a slot: only for the next number. -/
def nakWindow : Transfer :=
  if s.windowNextPacketSeq s.inputPacket.seq then
    (s.touchIn (s.lastIndexes ++ [s.inputWindow.start])).nakGrow
  else s.touchIn s.lastIndexes

/-- The NAK itself. -/
def nakOnly : Transfer := (s.put .knak s.nakSeq []).touchIn s.nakIndexes

/-- `nak_packet`. -/
def nakPacket : Transfer := if s.sessionParms.windowing then s.nakOnly.nakWindow else s.nakOnly

/-- `window_save_all`, at most `n` slots; they have all been saved if the window is empty then. -/
def saveSlots : Nat → Transfer → Transfer
  | 0, s => s
  | n + 1, s =>
    if s.oldest.acked then saveSlots n (s.touchIn [s.inputWindow.start]).rollOff
    else s.touchIn [s.inputWindow.start]

def windowSaveAll : Transfer := saveSlots s.inputWindow.count s

/-- Case 1 of `find_input_slot` writes the oldest slot if it holds data that has come in. -/
def writeOldest : Transfer :=
  if s.oldest.type = some .kdata ∧ s.oldest.acked then s.write s.oldest.data else s

/-- It leaves a full window. -/
def dropReceived : Transfer :=
  if s.oldest.acked ∧ s.inputWindow.count = s.windoIn then s.dropOldest else s

/-- Case 1: the packet is the next one. -/
def nextInSequence : Transfer := (s.touchIn [s.inputWindow.start]).writeOldest.dropReceived

/-- The packet that came in as a slot. -/
def inputSlot (tryCount : Nat) : Slot :=
  ⟨s.inputPacket.seq, tryCount, true, s.inputPacket.type, s.inputPacket.data⟩

/-- The number behind the last slot is asked for. -/
def askForNext : Transfer :=
  (s.withPacket { s.inputPacket with seq := (s.lastSeq + 1) % 64 }).nakPacket.withPacket
    s.inputPacket

/-- The window with gaps up to the packet that came in. -/
def gaps : Circular Slot :=
  fillGaps s.windoIn s.inputPacket.seq s.windoIn ((s.lastSeq + 1) % 64) s.inputWindow

/-- The packet goes behind the gaps if it fits. -/
def placeBehindGaps : Transfer :=
  { s.touchIn [s.lastIn] with
    inputWindow :=
      if s.gaps.count < s.windoIn then
        s.gaps.push s.windoIn (s.inputSlot (s.gaps.cell s.gaps.next).tryCount)
      else s.gaps }

/-- Case 2: packets are missing. -/
def gapInSequence : Transfer := s.askForNext.windowSaveAll.placeBehindGaps

/-- `find_input_slot`. -/
def findInputSlot : Transfer × Option Nat :=
  let isPacket (slot : Slot) : Bool := decide (slot.seq = s.inputPacket.seq)
  if s.inputWindow.count = 0 then (s, some s.inputWindow.next)
  else
    let s' := s.touchIn [s.lastIn]
    if s.inputPacket.seq = (s.lastSeq + 1) % 64 then
      (s'.nextInSequence, some s.inputWindow.next)
    else if lostPacket s.windoIn s.lastSeq s.inputPacket.seq then (s'.gapInSequence, none)
    else
      (s'.touchIn (s.inputWindow.visited s.windoIn isPacket), s.inputWindow.walk s.windoIn isPacket)

/-- `find_output_slot`. -/
def findOutputSlot : Option Nat :=
  if 1 < s.outputWindow.count then
    s.outputWindow.walk s.windoOut fun slot => decide (slot.seq = s.inputPacket.seq)
  else if s.outputWindow.count = 1 ∧
      (s.outputWindow.cell s.outputWindow.start).seq = s.inputPacket.seq then
    some s.outputWindow.start
  else none

def outputIndexes : List Nat :=
  if 1 < s.outputWindow.count then
    s.outputWindow.visited s.windoOut fun slot => decide (slot.seq = s.inputPacket.seq)
  else if s.outputWindow.count = 1 then [s.outputWindow.start]
  else []

/-- The bytes of a slot go out once more. -/
def resend (k : Nat) : Transfer :=
  let slot := s.outputWindow.cell k
  { s.touchOut [k] with
    output := s.output ++ slot.data
    outputWindow := s.outputWindow.store k { slot with tryCount := slot.tryCount + 1 } }

/-- The output window is emptied, and a NAK one past the window becomes an ACK. -/
def unstick : Transfer :=
  let ks := if 0 < s.outputWindow.count then s.outputWindow.visited s.windoOut fun _ => false
    else []
  { s.touchOut ks with
    outputWindow := ⟨s.outputWindow.cells, 0, 0, s.outputWindow.count - ks.length⟩
    inputPacket := { s.inputPacket with
      type := some .kack, seq := s.sequenceNumber % 64, data := [] } }

/-- What the sender does with an answer to the packet in slot `k`. -/
def answered (k : Nat) : Transfer :=
  let s' := s.touchOut [k]
  match s.inputPacket.type with
  | some .kack =>
    { s' with outputWindow := s.outputWindow.store k { s.outputWindow.cell k with acked := true } }
  | some .knak => (s'.resend k).consume
  | _ => (s'.abort "Wrong packet in sequence").consume

/-- `check_for_repeat`. -/
def checkForRepeat : Transfer :=
  if !s.inputPacket.parsedOk then s
  else if s.sessionParms.streaming ∧ (s.state = .kmRDW ∨ s.state = .kmSDW) then s
  else
    let s' := s.touchOut s.outputIndexes
    match s.findOutputSlot with
    | none =>
      if s.sending ∧ s.inputPacket.seq = (s.sequenceNumber + 1) % 64 ∧
          s.inputPacket.type = some .knak then s'.unstick
      else s'
    | some k => if s.sending then s'.answered k else (s'.resend k).consume

/-- The input window with the packet in slot `k`; behind the last one it grows. -/
def savedWindow (k : Nat) : Circular Slot :=
  if k = s.inputWindow.next ∧ s.inputWindow.count < s.windoIn then
    s.inputWindow.push s.windoIn (s.inputSlot 0)
  else s.inputWindow.store k (s.inputSlot 0)

/-- The packet is kept in slot `k`. -/
def saveAt (k : Nat) : Transfer :=
  { s.touchIn [k] with
    inputWindow := s.savedWindow k
    sequenceNumber := s.sequenceNumber + if k = s.inputWindow.next then 1 else 0 }

/-- `save_input_packet`. -/
def saveInputPacket : Transfer :=
  if !s.inputPacket.parsedOk ∨ s.sending then s
  else
    match s.findInputSlot.2 with
    | none => s.findInputSlot.1.consume
    | some k => s.findInputSlot.1.saveAt k

/-- The number that `handle_timeout` puts into the packet to be asked for again, and the slots it
looks at; in front of the first slot it takes the one behind the window. -/
def timeoutIndex : Nat := if s.inputWindow.next = 0 then s.windoIn else s.inputWindow.next - 1

def timeoutSeq : Nat :=
  if s.inputWindow.count = 0 then s.sequenceNumber
  else
    match s.inputWindow.walk s.windoIn unacked with
    | some k => (s.inputWindow.cell k).seq
    | none => (s.inputWindow.cell s.timeoutIndex).seq

def timeoutIndexes : List Nat :=
  if s.inputWindow.count = 0 then []
  else s.inputWindow.visited s.windoIn unacked ++
    if s.inputWindow.walk s.windoIn unacked = none then [s.timeoutIndex] else []

/-- `handle_timeout`. -/
def handleTimeout : Transfer :=
  if s.sending then
    if s.sessionParms.windowing ∧ 0 < s.outputWindow.count then
      let s' := s.touchOut (s.outputWindow.visited s.windoOut unacked)
      match s.outputWindow.walk s.windoOut unacked with
      | some k => s'.resend k
      | none => { s' with crashed := true }
    else s
  else
    ((s.touchIn s.timeoutIndexes).withPacket
      { s.inputPacket with seq := s.timeoutSeq }).nakPacket

/-- `move_windows`: the slots at the front that have been answered leave, at most `n`. -/
def moveSlots (w : Nat) : Nat → Circular Slot → Circular Slot
  | 0, r => r
  | n + 1, r => if (r.cell r.start).acked then moveSlots w n (r.dropFirst w) else r

def moveWindows : Transfer :=
  if s.sending then
    { s with outputWindow := moveSlots s.windoOut s.outputWindow.count s.outputWindow }
  else s

end Transfer
end CProgram.Kermit
