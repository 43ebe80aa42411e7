import CProgram.Kermit.InputWindow
import CProgram.Kermit.Numbering

/-! The number that a NAK asks for, and the one that the receiver waits for. -/
namespace CProgram.Kermit
open Circular

namespace Transfer
variable {s : Transfer} {newest : Option ℕ} {i j : ℕ}

/-- The slot in a place of the input window, the oldest one first. -/
def slotAt (s : Transfer) (i : ℕ) : Slot := s.inputWindow.cell ((s.inputWindow.start + i) % s.windoIn)

/-- The oldest slot that has not been received. -/
def FirstMissing (s : Transfer) (i : ℕ) : Prop :=
  i < s.inputWindow.count ∧ (s.slotAt i).acked = false ∧ ∀ j, j < i → (s.slotAt j).acked = true

/-- All slots of the window have been received. -/
def Complete (s : Transfer) : Prop := ∀ i, i < s.inputWindow.count → (s.slotAt i).acked = true

instance : Decidable s.Complete := inferInstanceAs (Decidable (∀ i, i < s.inputWindow.count → (s.slotAt i).acked = true))

/-- The number that follows the newest packet; a transfer starts with 0. -/
def following : Option ℕ → ℕ
  | none => 0
  | some n => (n + 1) % 64

/-- The newest packet is the last one of the window, or one from before if that is empty. -/
def newestIn (s : Transfer) (newest : Option ℕ) : Option ℕ :=
  if s.inputWindow.count = 0 then newest else some (s.slotAt (s.inputWindow.count - 1)).seq

/-- The NAK carries a number below 64: that of the oldest slot that is missing, or the one behind the newest packet. -/
def AsksRight (s : Transfer) (newest : Option ℕ) : Prop :=
  s.nakSeq < 64 ∧ (∀ i, s.FirstMissing i → s.nakSeq = (s.slotAt i).seq) ∧
    (s.Complete → s.nakSeq = following (s.newestIn newest))

/-- When it does. While `sequence_number` is 0 and the packet seems to be number 0, number 0 must be the one that is
waited for. With an empty window `sequence_number` must be the newest number, and less than 63. In a complete window the
newest number must be less than 63, and where the window ends in the last cell it must be full; otherwise another cell is
looked at. -/
def NakFits (s : Transfer) (newest : Option ℕ) : Prop :=
  if s.sequenceNumber = 0 ∧ s.inputPacket.seq = 0 then
    (∀ i, s.FirstMissing i → (s.slotAt i).seq = 0) ∧ (s.Complete → following (s.newestIn newest) = 0)
  else if s.inputWindow.count = 0 then following newest = s.sequenceNumber + 1
  else (∀ i, s.FirstMissing i → (s.slotAt i).seq < 64) ∧
    (s.Complete →
      if s.inputWindow.next = 0 ∧ s.inputWindow.count ≠ s.windoIn then
        (s.inputWindow.cell (s.inputWindow.count - 1)).seq + 1 =
          ((s.slotAt (s.inputWindow.count - 1)).seq + 1) % 64
      else (s.slotAt (s.inputWindow.count - 1)).seq < 63)

theorem following_lt : following newest < 64 := by
  cases newest with
  | none => exact Nat.zero_lt_succ _
  | some n => exact Nat.mod_lt _ (by decide)

theorem FirstMissing.unique (hi : s.FirstMissing i) (hj : s.FirstMissing j) : i = j := by
  obtain ⟨-, hmissing, hbefore⟩ := hi
  obtain ⟨-, hmissing', hbefore'⟩ := hj
  rcases lt_trichotomy i j with hlt | heq | hgt
  · exact absurd (hbefore' i hlt) (by rw [hmissing]; exact Bool.false_ne_true)
  · exact heq
  · exact absurd (hbefore j hgt) (by rw [hmissing']; exact Bool.false_ne_true)

theorem FirstMissing.not_complete (hi : s.FirstMissing i) : ¬ s.Complete := fun hcomplete =>
  absurd (hcomplete i hi.1) (by rw [hi.2.1]; exact Bool.false_ne_true)

/-- The walk through the window finds the oldest slot that is missing. -/
theorem nakSeq_window (hwf : s.inputWindow.WF s.windoIn) (hsome : s.inputWindow.count ≠ 0)
    (hlater : ¬ (s.sequenceNumber = 0 ∧ s.inputPacket.seq = 0)) :
    (∃ i, s.FirstMissing i ∧ s.nakSeq = (s.slotAt i).seq) ∨
      s.Complete ∧ s.nakSeq = (s.inputWindow.cell s.nakIndex).seq + 1 := by
  rw [nakSeq, if_neg hlater, if_neg hsome]
  rcases walk_spec (p := unacked) hwf (Nat.pos_of_ne_zero hsome) with ⟨i, hi, hmissing, hbefore, hwalk⟩ | ⟨hall, hwalk⟩
  · refine Or.inl ⟨i, ⟨hi, by simpa [unacked, slotAt] using hmissing, fun j hj => ?_⟩, ?_⟩
    · simpa [unacked, slotAt] using hbefore j hj
    · rw [hwalk]
      rfl
  · refine Or.inr ⟨fun i hi => by simpa [unacked, slotAt] using hall i hi, ?_⟩
    rw [hwalk]

/-- The slot in front of the end, by its index. -/
theorem nakIndex_eq (hwf : s.inputWindow.WF s.windoIn) (hsome : s.inputWindow.count ≠ 0)
    (hregular : ¬ (s.inputWindow.next = 0 ∧ s.inputWindow.count ≠ s.windoIn)) :
    s.inputWindow.cell s.nakIndex = s.slotAt (s.inputWindow.count - 1) := by
  have hstart := hwf.start_lt
  have hcount := hwf.count_le
  have hnext := hwf.next_eq
  rw [add_mod_of_lt hstart hcount] at hnext
  rw [slotAt, add_mod_of_lt hstart (by omega), nakIndex, prev]
  congr 1
  split_ifs at * <;> omega

theorem nakIndex_zero (hnext : s.inputWindow.next = 0) : s.nakIndex = s.inputWindow.count - 1 := if_pos hnext

/-- The NAK asks for what is missing just when the numbers fit. -/
theorem asksRight_iff_nakFits (hwf : s.inputWindow.WF s.windoIn) : s.AsksRight newest ↔ s.NakFits newest := by
  unfold AsksRight NakFits
  by_cases hfirst : s.sequenceNumber = 0 ∧ s.inputPacket.seq = 0
  · have hzero : s.nakSeq = 0 := by rw [nakSeq, if_pos hfirst]
    rw [if_pos hfirst, hzero]
    simp only [eq_comm (a := 0)]
    exact and_iff_right (Nat.zero_lt_succ _)
  · rw [if_neg hfirst]
    by_cases hempty : s.inputWindow.count = 0
    · have hnone : ∀ i, ¬ s.FirstMissing i := fun i hi => absurd hi.1 (by omega)
      have hcomplete : s.Complete := fun i hi => absurd hi (by omega)
      have hseq : s.nakSeq = s.sequenceNumber + 1 := by rw [nakSeq, if_neg hfirst, if_pos hempty]
      rw [if_pos hempty, hseq, newestIn, if_pos hempty]
      constructor
      · rintro ⟨-, -, heq⟩
        exact (heq hcomplete).symm
      · intro heq
        exact ⟨heq ▸ following_lt, fun i hi => absurd hi (hnone i), fun _ => heq.symm⟩
    · rw [if_neg hempty, newestIn, if_neg hempty]
      obtain ⟨i, hi, hseq⟩ | ⟨hcomplete, hseq⟩ := nakSeq_window hwf hempty hfirst
      · have honly : ∀ j, s.FirstMissing j → j = i := fun j hj => hj.unique hi
        rw [hseq]
        constructor
        · rintro ⟨hlt, -, -⟩
          exact ⟨fun j hj => honly j hj ▸ hlt, fun hcomplete => absurd hcomplete hi.not_complete⟩
        · rintro ⟨hlt, -⟩
          exact ⟨hlt i hi, fun j hj => by rw [honly j hj], fun hcomplete => absurd hcomplete hi.not_complete⟩
      · have hnone : ∀ i, ¬ s.FirstMissing i := fun i hi => hi.not_complete hcomplete
        rw [hseq]
        simp only [hcomplete, true_imp_iff, following]
        by_cases hturn : s.inputWindow.next = 0 ∧ s.inputWindow.count ≠ s.windoIn
        · rw [if_pos hturn, nakIndex_zero hturn.1]
          have hmod := Nat.mod_lt ((s.slotAt (s.inputWindow.count - 1)).seq + 1) (show 0 < 64 by decide)
          constructor
          · rintro ⟨-, -, heq⟩
            exact ⟨fun i hi => absurd hi (hnone i), heq⟩
          · rintro ⟨-, heq⟩
            exact ⟨heq ▸ hmod, fun i hi => absurd hi (hnone i), heq⟩
        · rw [if_neg hturn, nakIndex_eq hwf hempty hturn]
          constructor
          · rintro ⟨hlt, -, -⟩
            exact ⟨fun i hi => absurd hi (hnone i), by omega⟩
          · rintro ⟨-, hlt⟩
            exact ⟨by omega, fun i hi => absurd hi (hnone i), (Nat.mod_eq_of_lt (by omega)).symm⟩

/-! ### The window of a receiver is in order in every run -/

/-- No Send-Init has been accepted. -/
def Early (s : Transfer) : Prop := s.state = .init ∨ s.state = .kmR

/-- The input window keeps its size and stays in order, and the transfer does not start again. -/
structure Stays (s s' : Transfer) : Prop where
  sessionParms : s'.sessionParms = s.sessionParms
  sending : s'.sending = s.sending
  early : s'.Early → s.Early
  ring : s.inputWindow.WF s.windoIn → s'.inputWindow.WF s'.windoIn

variable {s' s'' : Transfer} {h : Host}

theorem Stays.refl (s : Transfer) : Stays s s := ⟨rfl, rfl, id, id⟩

theorem Stays.trans (h : Stays s s') (h' : Stays s' s'') : Stays s s'' :=
  ⟨h'.sessionParms.trans h.sessionParms, h'.sending.trans h.sending, h.early ∘ h'.early, h'.ring ∘ h.ring⟩

theorem Stays.of_same (h : SameWindows s s') (hearly : s'.Early → s.Early) : Stays s s' :=
  ⟨h.sessionParms, h.sending, hearly, fun hwf => by rw [h.windoIn, h.inputWindow]; exact hwf⟩

theorem stays_put {type : PacketType} {seq : ℕ} {data : List UInt8} : Stays s (s.put type seq data) := ⟨rfl, rfl, id, id⟩

theorem stays_consume : Stays s s.consume := ⟨rfl, rfl, id, id⟩

theorem stays_withPacket {p : CurrentPacket} : Stays s (s.withPacket p) := ⟨rfl, rfl, id, id⟩

theorem stays_touchIn {ks : List ℕ} : Stays s (s.touchIn ks) := ⟨rfl, rfl, id, id⟩

theorem stays_touchOut {ks : List ℕ} : Stays s (s.touchOut ks) := ⟨rfl, rfl, id, id⟩

/-- A transfer that is over does not start again. -/
theorem stays_stop {state : State} (hinit : state ≠ .init) (hr : state ≠ .kmR) : Stays s (s.stop state) :=
  ⟨rfl, rfl, fun hearly => hearly.elim (absurd · hinit) (absurd · hr), id⟩

theorem stays_goto {state : State} (hinit : state ≠ .init) (hr : state ≠ .kmR) : Stays s (s.goto state) :=
  ⟨rfl, rfl, fun hearly => hearly.elim (absurd · hinit) (absurd · hr), id⟩

theorem stays_abort {message : String} : Stays s (s.abort message) :=
  (stays_stop (by decide) (by decide)).trans stays_put

theorem stays_write {data : List UInt8} : Stays s (s.write data) := by
  refine .of_same (same_write data) ?_
  unfold write
  cases s.fileStream <;> exact id

theorem stays_ackPacket {really : Bool} : Stays s (s.ackPacket really) := by
  refine .of_same (same_ackPacket really) ?_
  unfold ackPacket
  split_ifs <;> exact id

theorem stays_ackAttributes : Stays s s.ackAttributes := by
  refine .of_same same_ackAttributes ?_
  unfold ackAttributes
  split_ifs <;> exact id

theorem stays_openFile {name : List UInt8} {exist : Bool} : Stays s (s.openFile h name exist) := by
  unfold openFile
  simp only
  by_cases hfails : h.openFails name = true
  · rw [if_pos hfails]
    refine Stays.trans ?_ stays_abort
    exact ⟨rfl, rfl, id, id⟩
  · rw [if_neg hfails]
    by_cases hattributes : s.inputPacket.type = some .kattributes
    · rw [if_pos hattributes]
      refine Stays.trans ?_ stays_ackAttributes
      exact ⟨rfl, rfl, id, id⟩
    · rw [if_neg hattributes]
      exact ⟨rfl, rfl, id, id⟩

theorem stays_openAt {position : ℕ} {name : List UInt8} {exist : Bool} :
    Stays s (({ s with filePosition := position }).openFile h name exist) := by
  refine Stays.trans ?_ stays_openFile
  exact ⟨rfl, rfl, id, id⟩

theorem stays_openNewFile : Stays s (s.openNewFile h) := by
  unfold openNewFile
  simp only
  split_ifs
  · refine Stays.trans ?_ stays_abort
    exact ⟨rfl, rfl, id, id⟩
  · exact stays_openAt

theorem stays_openExisting {content : List UInt8} : Stays s (s.openExisting h content) := by
  unfold openExisting
  cases s.attributes.access with
  | new => exact stays_openNewFile
  | supersede => exact stays_openNewFile
  | warn =>
    simp only
    split_ifs
    · exact stays_openAt
    · exact stays_openNewFile
  | append =>
    simp only
    split_ifs
    · exact stays_openNewFile
    · exact stays_openAt

theorem stays_openReceiveFile : Stays s (s.openReceiveFile h) := by
  unfold openReceiveFile
  split_ifs
  · exact stays_put
  · refine Stays.trans ?_ stays_abort
    exact ⟨rfl, rfl, id, id⟩
  · cases s.disk.lookup s.fileName with
    | none => exact stays_openAt
    | some content => exact stays_openExisting

theorem stays_closeFile : Stays s s.closeFile := by
  unfold closeFile
  have hclosed : Stays s s.fileClosed := ⟨rfl, rfl, id, id⟩
  exact ((hclosed.trans stays_ackPacket).trans stays_consume).trans (stays_goto (by decide) (by decide))

theorem stays_rollOff (hsome : 0 < s.inputWindow.count) : Stays s s.rollOff := by
  refine ⟨outer_rollOff.sessionParms, outer_rollOff.sending, ?_, fun hwf => ?_⟩
  · unfold rollOff write
    split_ifs
    · cases s.fileStream <;> exact id
    · exact id
  · rw [outer_rollOff.windoIn, rollOff_inputWindow]
    exact hwf.dropFirst hsome

theorem stays_nakGrow (hpos : 0 < s.windoIn) : Stays s s.nakGrow := by
  unfold nakGrow
  split_ifs with hfull hacked
  · have hroll : Stays s s.rollOff := stays_rollOff (by omega)
    refine ⟨hroll.sessionParms, hroll.sending, hroll.early, fun hwf => ?_⟩
    have hring := hroll.ring hwf
    refine hring.push ?_ _
    rw [rollOff_inputWindow, outer_rollOff.windoIn]
    show s.inputWindow.count - 1 < s.windoIn
    omega
  · exact ⟨rfl, rfl, id, id⟩
  · exact .refl s

theorem stays_nakPacket (hpos : 0 < s.windoIn) : Stays s s.nakPacket := by
  have honly : Stays s s.nakOnly := stays_put.trans stays_touchIn
  unfold nakPacket
  split_ifs
  · refine honly.trans ?_
    unfold nakWindow
    split_ifs
    · exact stays_touchIn.trans (stays_nakGrow hpos)
    · exact stays_touchIn
  · exact honly

theorem stays_saveSlots {n : ℕ} (hn : n ≤ s.inputWindow.count) : Stays s (saveSlots n s) := by
  induction n generalizing s with
  | zero => exact .refl s
  | succ n ih =>
    rw [saveSlots]
    split_ifs
    · have hroll : Stays s (s.touchIn [s.inputWindow.start]).rollOff :=
        stays_touchIn.trans (stays_rollOff (show 0 < s.inputWindow.count by omega))
      refine hroll.trans (ih ?_)
      rw [rollOff_inputWindow]
      show n ≤ s.inputWindow.count - 1
      omega
    · exact stays_touchIn

theorem stays_windowSaveAll : Stays s s.windowSaveAll := stays_saveSlots le_rfl

theorem stays_askForNext (hpos : 0 < s.windoIn) : Stays s s.askForNext := by
  unfold askForNext
  refine Stays.trans ?_ stays_withPacket
  refine Stays.trans ?_ (stays_nakPacket hpos)
  exact stays_withPacket

theorem wf_fillGaps {w seq fuel e : ℕ} {r : Circular Slot} (h : r.WF w) : (fillGaps w seq fuel e r).WF w := by
  induction fuel generalizing e r with
  | zero => exact h
  | succ fuel ih =>
    rw [fillGaps]
    split_ifs with hroom
    · exact ih (h.push hroom.2 _)
    · exact h

theorem stays_placeBehindGaps : Stays s s.placeBehindGaps := by
  refine ⟨rfl, rfl, id, fun hwf => ?_⟩
  have hgaps : s.gaps.WF s.windoIn := wf_fillGaps hwf
  show WF s.windoIn (if s.gaps.count < s.windoIn then _ else s.gaps)
  split_ifs with hroom
  · exact hgaps.push hroom _
  · exact hgaps

theorem stays_gapInSequence (hpos : 0 < s.windoIn) : Stays s s.gapInSequence :=
  ((stays_askForNext hpos).trans stays_windowSaveAll).trans stays_placeBehindGaps

theorem stays_nextInSequence : Stays s s.nextInSequence := by
  have hwrite : Stays (s.touchIn [s.inputWindow.start]) (s.touchIn [s.inputWindow.start]).writeOldest := by
    unfold writeOldest
    split_ifs
    · exact stays_write
    · exact .refl _
  unfold nextInSequence
  refine (stays_touchIn.trans hwrite).trans ?_
  unfold dropReceived
  split_ifs with hdrop
  · refine ⟨rfl, rfl, id, fun hwf => hwf.dropFirst ?_⟩
    have hfull := hdrop.2
    have hstart := hwf.start_lt
    omega
  · exact .refl _

theorem stays_findInputSlot (hpos : 0 < s.windoIn) : Stays s s.findInputSlot.1 := by
  unfold findInputSlot
  simp only
  split_ifs
  · exact .refl s
  · exact stays_touchIn.trans stays_nextInSequence
  · exact stays_touchIn.trans (stays_gapInSequence hpos)
  · exact stays_touchIn.trans stays_touchIn

theorem stays_saveAt {k : ℕ} : Stays s (s.saveAt k) := by
  refine ⟨rfl, rfl, id, fun hwf => ?_⟩
  show WF s.windoIn (s.savedWindow k)
  unfold savedWindow
  split_ifs with hroom
  · exact hwf.push hroom.2 _
  · exact hwf.store _ _

theorem stays_saveInputPacket (hpos : 0 < s.windoIn) : Stays s s.saveInputPacket := by
  unfold saveInputPacket
  split_ifs
  · exact .refl s
  · cases s.findInputSlot.2 with
    | none => exact (stays_findInputSlot hpos).trans stays_consume
    | some k => exact (stays_findInputSlot hpos).trans stays_saveAt

theorem stays_moveWindows (hreceives : s.sending = false) : Stays s s.moveWindows := by
  unfold moveWindows
  rw [if_neg (by rw [hreceives]; exact Bool.false_ne_true)]
  exact .refl s

theorem stays_checkForRepeat (hreceives : s.sending = false) : Stays s s.checkForRepeat := by
  unfold checkForRepeat
  simp only [hreceives, Bool.false_eq_true, false_and, if_false]
  split_ifs
  · exact .refl s
  · exact .refl s
  · cases s.findOutputSlot with
    | none => exact stays_touchOut
    | some k =>
      have hresend : Stays s ((s.touchOut s.outputIndexes).resend k) := ⟨rfl, rfl, id, id⟩
      exact hresend.trans stays_consume

theorem stays_processPayload {type : Option PacketType} {data : List UInt8} : Stays s (s.processPayload type data) := by
  unfold processPayload
  split
  · split
    · exact ⟨rfl, rfl, id, id⟩
    · exact stays_consume
  · exact ⟨rfl, rfl, id, id⟩
  · dsimp only
    split
    · exact ⟨rfl, rfl, id, id⟩
    · refine Stays.trans ?_ stays_consume
      refine Stays.trans ?_ stays_abort
      exact ⟨rfl, rfl, id, id⟩
  · exact stays_stop (by decide) (by decide)
  · exact stays_abort.trans stays_consume
  · exact stays_abort.trans stays_consume
  · split
    · exact stays_abort.trans stays_consume
    · exact .refl s
  · exact .refl s

theorem stays_openForData {type : Option PacketType} : Stays s (s.openForData h type) := by
  unfold openForData
  split
  · exact stays_openReceiveFile
  · exact .refl s

theorem stays_reject {type : Option PacketType} {checked : Bool} (hpos : 0 < s.windoIn) :
    Stays s (s.reject h type checked) := by
  unfold reject
  split
  · exact .refl s
  · cases checked with
    | false => exact stays_nakPacket hpos
    | true =>
      have hopen : Stays s (s.openForData h type) := stays_openForData
      refine hopen.trans (stays_nakPacket ?_)
      show 0 < (s.openForData h type).sessionParms.windoIn
      rw [hopen.sessionParms]
      exact hpos

theorem stays_decode {a : Arrival} (hpos : 0 < s.windoIn) : Stays s (s.decode h a) := by
  cases a with
  | short => exact .refl s
  | none type seq => exact stays_withPacket
  | bad type seq checked =>
    refine Stays.trans ?_ (stays_reject ?_)
    · exact stays_withPacket
    · exact hpos
  | packet type seq data =>
    refine Stays.trans ?_ stays_processPayload
    refine Stays.trans ?_ stays_openForData
    exact stays_withPacket

/-- The input window of a receiver is in order, and of one slot until a Send-Init has been accepted. -/
structure Ringed (s : Transfer) : Prop where
  receives : s.sending = false
  ring : s.inputWindow.WF s.windoIn
  early : s.Early → s.windoIn = 1

theorem Ringed.pos (h : s.Ringed) : 0 < s.windoIn := Nat.zero_lt_of_lt h.ring.start_lt

theorem Ringed.stays (h : s.Ringed) (hstays : Stays s s') : s'.Ringed :=
  ⟨hstays.sending.trans h.receives, hstays.ring h.ring, fun hearly =>
    (congrArg SessionParameters.windoIn hstays.sessionParms).trans (h.early (hstays.early hearly))⟩

theorem Ringed.takeArrival {a : Arrival} (hs : s.Ringed) : (s.takeArrival h a).Ringed := by
  have hdecode := hs.stays (stays_decode (h := h) (a := a) hs.pos)
  have hrepeat := hdecode.stays (stays_checkForRepeat hdecode.receives)
  have hsave := hrepeat.stays (stays_saveInputPacket hrepeat.pos)
  exact hsave.stays (stays_moveWindows hsave.receives)

/-- The negotiation gives the window its size, and empties it. -/
theorem Ringed.negotiated (hs : s.Ringed) (hearly : s.Early) :
    ((s.negotiateSendInit.ackSendInit .kack).consume.goto .kmRF).Ringed := by
  have hone := hs.early hearly
  have hring := hs.ring
  rw [hone] at hring
  have hone' : s.sessionParms.windoIn = 1 := hone
  have hlate : ((s.negotiateSendInit.ackSendInit .kack).consume.goto .kmRF).Early →
      ((s.negotiateSendInit.ackSendInit .kack).consume.goto .kmRF).windoIn = 1 := fun h => by
    obtain h | h := h <;> cases h
  by_cases hwindowing : (Kermit.negotiateSendInit s.localParms s.remoteParms s.sessionParms).windowing = true
  · have hsize : 0 < (Kermit.negotiateSendInit s.localParms s.remoteParms s.sessionParms).windoIn := by
      unfold Kermit.negotiateSendInit
      dsimp only
      split_ifs <;> first | omega | skip
      all_goals
        rename_i hwindo
        have hbound := UInt8.lt_iff_toNat_lt.not.mp hwindo
        have htwo : (2 : UInt8).toNat = 2 := rfl
        omega
    have heq : s.negotiateSendInit.inputWindow =
        ⟨List.replicate (Kermit.negotiateSendInit s.localParms s.remoteParms s.sessionParms).windoIn default, 0, 0, 0⟩ := by
      rw [negotiateSendInit]
      dsimp only
      rw [if_pos hwindowing]
    have hparms : s.negotiateSendInit.sessionParms =
        Kermit.negotiateSendInit s.localParms s.remoteParms s.sessionParms := by
      rw [negotiateSendInit]
      dsimp only
      rw [if_pos hwindowing]
    have hsending : s.negotiateSendInit.sending = s.sending := by
      rw [negotiateSendInit]
      dsimp only
      rw [if_pos hwindowing]
    refine ⟨hsending.trans hs.receives, ?_, hlate⟩
    show WF s.negotiateSendInit.sessionParms.windoIn s.negotiateSendInit.inputWindow
    rw [heq, hparms]
    exact ⟨List.length_replicate, hsize, hsize, Nat.zero_le _, Nat.mod_eq_of_lt hsize⟩
  · have hsize : (Kermit.negotiateSendInit s.localParms s.remoteParms s.sessionParms).windoIn = 1 := by
      unfold Kermit.negotiateSendInit at hwindowing ⊢
      dsimp only at hwindowing ⊢
      split_ifs <;> first | exact hone' | rfl
    have heq : s.negotiateSendInit.inputWindow = s.inputWindow ∧
        s.negotiateSendInit.sessionParms = Kermit.negotiateSendInit s.localParms s.remoteParms s.sessionParms ∧
        s.negotiateSendInit.sending = s.sending := by
      rw [negotiateSendInit]
      dsimp only
      rw [if_neg hwindowing]
      exact ⟨rfl, rfl, rfl⟩
    refine ⟨heq.2.2.trans hs.receives, ?_, hlate⟩
    show WF s.negotiateSendInit.sessionParms.windoIn s.negotiateSendInit.inputWindow
    rw [heq.1, heq.2.1, hsize]
    exact hring

theorem Ringed.receiveEof (hs : s.Ringed) : s.receiveEof.1.Ringed := by
  unfold Transfer.receiveEof
  split_ifs
  · exact hs.stays stays_closeFile
  · exact hs.stays (stays_windowSaveAll.trans stays_closeFile)
  · have hsaved := hs.stays stays_windowSaveAll
    exact hsaved.stays ((stays_nakPacket hsaved.pos).trans stays_consume)
  · exact hs.stays stays_closeFile

theorem Ringed.wrongPacket (hs : s.Ringed) : s.wrongPacket.1.Ringed := hs.stays stays_abort

theorem Ringed.receiveR (hs : s.Ringed) (hr : s.state = .kmR) : s.receiveR.1.Ringed := by
  unfold Transfer.receiveR
  split_ifs
  · exact hs
  · split
    · exact hs.negotiated (Or.inr hr)
    · exact hs.wrongPacket

theorem Ringed.receiveRF (hs : s.Ringed) : s.receiveRF.1.Ringed := by
  have hfile : Stays s s.ackFilePacket := stays_put
  unfold Transfer.receiveRF
  split_ifs
  · exact hs
  · split
    · exact hs.stays ((hfile.trans stays_consume).trans (stays_goto (by decide) (by decide)))
    · exact hs.stays ((stays_consume.trans stays_ackPacket).trans (stays_stop (by decide) (by decide)))
    · exact hs.wrongPacket

theorem Ringed.receiveRDW (hs : s.Ringed) : (s.receiveRDW h).1.Ringed := by
  unfold Transfer.receiveRDW
  by_cases hnone : (!s.inputPacket.parsedOk) = true
  · rw [if_pos hnone]
    exact hs
  · rw [if_neg hnone]
    split
    · exact hs.receiveEof
    · exact hs.stays (stays_ackPacket.trans stays_consume)
    · dsimp only
      split_ifs
      · exact hs.stays (stays_openReceiveFile.trans stays_consume)
      · exact hs.stays stays_consume
    · exact hs.wrongPacket

theorem Ringed.receiveState (hs : s.Ringed) : (s.receiveState h).1.Ringed := by
  unfold Transfer.receiveState
  split
  · rename_i hinit
    exact ⟨hs.receives, hs.ring, fun _ => hs.early (Or.inl hinit)⟩
  · rename_i hr
    exact hs.receiveR hr
  · exact hs.receiveRF
  · exact hs.receiveRDW
  · exact hs
  · exact hs
  · exact ⟨hs.receives, hs.ring, hs.early⟩

theorem Ringed.receiveLoop (hs : s.Ringed) {n : ℕ} : (Transfer.receiveLoop h n s).Ringed := by
  induction n generalizing s with
  | zero => exact hs
  | succ n ih =>
    rw [Transfer.receiveLoop]
    split_ifs
    · exact hs.receiveState
    · exact ih hs.receiveState

theorem stays_sendPacket (hreceives : s.sending = false) : Stays s s.sendPacket := by
  unfold sendPacket
  cases s.outputPacket with
  | none => exact .refl s
  | some p =>
    have hkeep : Stays s (s.keep p) := by
      have hnot : ¬ (s.sending = true ∧ (!s.sessionParms.streaming) = true) := fun h =>
        absurd h.1 (by rw [hreceives]; exact Bool.false_ne_true)
      unfold keep
      dsimp only
      rw [if_neg hnot]
      split_ifs
      · exact .refl s
      · exact ⟨rfl, rfl, id, id⟩
    have hcount : Stays (s.keep p) ((s.keep p).count p) := by
      unfold count
      dsimp only
      split_ifs <;> exact ⟨rfl, rfl, id, id⟩
    have hboth := hkeep.trans hcount
    exact ⟨hboth.sessionParms, hboth.sending, hboth.early, hboth.ring⟩

theorem Ringed.timeout (hs : s.Ringed) : s.timeout.Ringed := by
  unfold Transfer.timeout
  split_ifs with hstream
  · exact hs
  · have hcounted : Ringed { s with timeoutCount := s.timeoutCount + 1 } := ⟨hs.receives, hs.ring, hs.early⟩
    have hgiven : Ringed (if 5 ≤ s.timeoutCount + 1 then
        ({ s with timeoutCount := s.timeoutCount + 1 } : Transfer).abort "Too many timeouts"
        else { s with timeoutCount := s.timeoutCount + 1 }) := by
      split_ifs
      · exact hcounted.stays stays_abort
      · exact hcounted
    dsimp only
    generalize (if 5 ≤ s.timeoutCount + 1 then
        ({ s with timeoutCount := s.timeoutCount + 1 } : Transfer).abort "Too many timeouts"
        else { s with timeoutCount := s.timeoutCount + 1 }) = t at *
    unfold handleTimeout
    rw [if_neg (by rw [hgiven.receives]; exact Bool.false_ne_true)]
    have hasked : ((t.touchIn t.timeoutIndexes).withPacket { t.inputPacket with seq := t.timeoutSeq }).Ringed :=
      hgiven.stays (stays_touchIn.trans stays_withPacket)
    exact hasked.stays (stays_nakPacket hasked.pos)

theorem Ringed.enter (hs : s.Ringed) {expired : Bool} : (s.enter expired).Ringed := by
  have hfirst : Ringed (if s.sequenceNumber = 0 ∧ !s.sentNak then
      { (if s.state = .init ∧ !s.sending then s.nakPacket else s) with sentNak := true } else s) := by
    split_ifs
    · have hnak := hs.stays (stays_nakPacket hs.pos)
      exact ⟨hnak.receives, hnak.ring, hnak.early⟩
    · exact ⟨hs.receives, hs.ring, hs.early⟩
    · exact hs
  unfold Transfer.enter
  dsimp only
  cases expired with
  | false => exact hfirst
  | true => exact hfirst.timeout

theorem Ringed.pass (hs : s.Ringed) {a : Arrival} : (s.pass h a).Ringed := by
  have htaken := hs.takeArrival (h := h) (a := if s.tossInput then .short else a)
  unfold Transfer.pass
  simp only [htaken.receives, Bool.false_eq_true, false_and, and_false, if_false]
  have hloop := htaken.receiveLoop (h := h) (n := 4)
  exact hloop.stays (stays_sendPacket hloop.receives)

theorem Ringed.move (hs : s.Ringed) {m : Move} : (s.move h m).Ringed := by
  cases m with
  | enter expired =>
    rw [Transfer.move]
    split_ifs
    · exact hs
    · exact hs.enter
  | interrupt => exact hs.stays stays_abort
  | pass a => exact hs.pass
  | leave => exact ⟨hs.receives, hs.ring, hs.early⟩
  | skipFile => exact ⟨hs.receives, hs.ring, hs.early⟩

theorem Ringed.run (hs : s.Ringed) {moves : List Move} : (s.run h moves).Ringed := by
  induction moves generalizing s with
  | nil => exact hs
  | cons m moves ih => exact ih hs.move

theorem ringed_start {settings : Settings} {options : Options} {remote : SessionParameters} {attributes : Attributes}
    {uploads : List Upload} {disk : Disk} : (start settings options remote attributes false uploads disk).Ringed :=
  ⟨rfl, ⟨rfl, Nat.zero_lt_one, Nat.zero_lt_one, Nat.zero_le _, rfl⟩, fun _ => rfl⟩

/-! ### The newest packet of a run -/

/-- The newest packet in the window, among those that have been received. -/
def receivedIn (s : Transfer) : Option ℕ :=
  (((s.inputWindow.entries s.windoIn).filter Slot.acked).getLast?).map Slot.seq

/-- The number of the newest packet that has been received in a run, from `newest` on. -/
def newestAfter (h : Host) : List Move → Transfer → Option ℕ → Option ℕ
  | [], _, newest => newest
  | .pass a :: moves, s, newest => newestAfter h moves (s.pass h a)
      ((s.takeArrival h (if s.tossInput then .short else a)).receivedIn.or newest)
  | m :: moves, s, newest => newestAfter h moves (s.move h m) newest

/-- Whatever run a receiver has had, and whatever packet it looks at: the NAK asks for what is missing just when the
numbers fit. -/
theorem asksRight_iff (h : Host) (settings : Settings) (options : Options) (remote : SessionParameters)
    (attributes : Attributes) (uploads : List Upload) (disk : Disk) (moves : List Move) (p : CurrentPacket) :
    (((start settings options remote attributes false uploads disk).run h moves).withPacket p).AsksRight
        (newestAfter h moves (start settings options remote attributes false uploads disk) none) ↔
      (((start settings options remote attributes false uploads disk).run h moves).withPacket p).NakFits
        (newestAfter h moves (start settings options remote attributes false uploads disk) none) := by
  have hringed : (start settings options remote attributes false uploads disk).Ringed := ringed_start
  exact asksRight_iff_nakFits (hringed.run.stays stays_withPacket).ring

/-- A receiver that waits for the Send-Init. -/
def waitingReceiver : Transfer :=
  start ⟨false, false, false, false⟩ ⟨false, false, false⟩ (setDefaultSessionParameters ⟨false, false, false⟩)
    ⟨0, 0, false, false, .warn⟩ false [] []

/-- The Send-Init comes, with the number 0. -/
def firstMoves : List Move :=
  [.enter false, .pass .short, .leave, .enter false, .pass (.packet (some .ksinit) 0 (receiverParameters 32 32))]

/-- The Send-Init has been received, and 0 is asked for once more. -/
theorem not_asksRight : ¬ ∀ (h : Host) (settings : Settings) (options : Options) (remote : SessionParameters)
    (attributes : Attributes) (uploads : List Upload) (disk : Disk) (moves : List Move) (p : CurrentPacket),
      (((start settings options remote attributes false uploads disk).run h moves).withPacket p).AsksRight
        (newestAfter h moves (start settings options remote attributes false uploads disk) none) := by
  intro hall
  have hright := hall ⟨fun _ => false, fun _ => false⟩ ⟨false, false, false, false⟩ ⟨false, false, false⟩
    (setDefaultSessionParameters ⟨false, false, false⟩) ⟨0, 0, false, false, .warn⟩ [] [] firstMoves
    ⟨false, some .ksinit, 0, []⟩
  have hcomplete : ((waitingReceiver.run ⟨fun _ => false, fun _ => false⟩ firstMoves).withPacket
      ⟨false, some .ksinit, 0, []⟩).Complete := by decide
  have hasked := hright.2.2 hcomplete
  exact absurd hasked (by decide)

end Transfer
end CProgram.Kermit
