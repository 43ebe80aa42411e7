import CProgram.Kermit.Run
import CProgram.Kermit.InputWindow

/-! What a call of `kermit_send` builds, and the number it gives to it. -/
namespace CProgram.Kermit

/-- The Send-Init has not been answered yet. -/
def State.early : State → Bool
  | .init | .kmS | .kmR => true
  | _ => false

/-- The states of a sender behind the Send-Init. -/
def State.uploading : State → Bool
  | .kmSF | .kmSA | .kmSDW | .kmSZ | .kmSB => true
  | _ => false

theorem State.not_early {state : State} (h : state.uploading = true) :
    state.early = false := by
  cases state <;> first | rfl | cases h

/-- An ACK to the File-Header makes a sender with windows and without attributes build two packets,
of which it sends the second. -/
def SkipsNumber (s : Transfer) : Prop :=
  s.state = .kmSF ∧ s.inputPacket.parsedOk = true ∧ s.inputPacket.type = some .kack ∧
    s.sessionParms.windowing = true ∧ s.sessionParms.attributes = false

instance (s : Transfer) : Decidable (SkipsNumber s) := by unfold SkipsNumber; infer_instance

/-- The windows are those that were negotiated. -/
structure Renegotiated (s s' : Transfer) : Prop where
  sending : s'.sending = s.sending
  stray : s'.stray = s.stray
  parms : ∃ loc rem, s'.sessionParms = negotiateSendInit loc rem s.sessionParms
  inputWindow : s'.inputWindow =
    if s'.sessionParms.windowing then ⟨List.replicate s'.windoIn default, 0, 0, 0⟩
    else s.inputWindow
  outputWindow : s'.outputWindow =
    if s'.sessionParms.windowing then
      { s.outputWindow with cells := List.replicate s'.windoOut default }
    else s.outputWindow

theorem Renegotiated.congr {s t u v : Transfer} (h₁ : SameWindows s t) (h : Renegotiated t u)
    (h₂ : SameWindows u v) : Renegotiated s v where
  sending := h₂.sending.trans (h.sending.trans h₁.sending)
  stray := h₂.stray.trans (h.stray.trans h₁.stray)
  parms := by
    obtain ⟨loc, rem, hp⟩ := h.parms
    exact ⟨loc, rem, by rw [h₂.sessionParms, hp, h₁.sessionParms]⟩
  inputWindow := by rw [h₂.inputWindow, h.inputWindow, h₂.windoIn, h₂.sessionParms, h₁.inputWindow]
  outputWindow := by
    rw [h₂.outputWindow, h.outputWindow, h₂.windoOut, h₂.sessionParms, h₁.outputWindow]

/-- Where a sender is between two passes, a packet that has been built apart. -/
structure Quiet (s : Transfer) : Prop where
  init : s.state = .init → s.firstS = true
  firstS : s.state = .kmS → s.firstS = false
  firstSB : s.state = .kmSB → s.firstSB = false
  last : s.firstSB = false → s.state = .kmSB ∨ s.state = .abort ∨ s.state = .complete
  notFirst : s.isFirstDataPacket = false
  early : s.state.early = true → s.sequenceNumber = 0

/-- The flags that a sender consults. -/
def Transfer.flags (s : Transfer) : Bool × Bool × Bool := (s.firstS, s.firstSB, s.isFirstDataPacket)

theorem Quiet.flags_eq {s : Transfer} (h : Quiet s) (hstate : s.state ≠ .kmSB)
    (habort : s.state ≠ .abort) (hcomplete : s.state ≠ .complete) :
    s.flags = (s.firstS, true, false) := by
  have hsb : s.firstSB = true := by
    by_contra hne
    rcases h.last (Bool.eq_false_of_not_eq_true hne) with hs | hs | hs <;> contradiction
  rw [Transfer.flags, hsb, h.notFirst]

/-- The state after SF, in SA, SDW or SZ. -/
theorem Quiet.of_flags {s : Transfer} {first : Bool} (hflags : s.flags = (first, true, false))
    (hlate : s.state.uploading = true) (hsb : s.state ≠ .kmSB) : Quiet s where
  init := fun hs => by rw [hs] at hlate; cases hlate
  firstS := fun hs => by rw [hs] at hlate; cases hlate
  firstSB := fun hs => absurd hs hsb
  last := fun hf => by
    have : s.firstSB = true := congrArg (fun x => x.2.1) hflags
    rw [this] at hf
    cases hf
  notFirst := congrArg (fun x => x.2.2) hflags
  early := fun hs => by rw [State.not_early hlate] at hs; cases hs

theorem Quiet.consume {s : Transfer} (h : Quiet s) : Quiet s.consume :=
  ⟨h.init, h.firstS, h.firstSB, h.last, h.notFirst, h.early⟩

theorem Quiet.abort {s : Transfer} (hfirst : s.isFirstDataPacket = false) (message : String) :
    Quiet (s.abort message) where
  init := fun hs => by cases hs
  firstS := fun hs => by cases hs
  firstSB := fun hs => by cases hs
  last := fun _ => .inr (.inl rfl)
  notFirst := hfirst
  early := fun hs => by cases hs

/-- What one call builds: nothing, the Send-Init, a packet with the next number, or an Error. -/
inductive Builds (s s' : Transfer) : Prop where
  | nothing (hpacket : s'.outputPacket = s.outputPacket)
      (hnumber : s'.sequenceNumber = s.sequenceNumber)
      (hstate : s'.state = s.state ∨ s'.state = .complete) (hwindows : SameWindows s s')
      (hquiet : Quiet s')
  | sendInit (hearly : s.state.early = true) (hstate : s'.state = .kmS)
      (hnumber : s'.sequenceNumber = 0) (data : List UInt8)
      (hpacket : s'.outputPacket = some ⟨.ksinit, 0, data⟩) (hwindows : SameWindows s s')
      (hquiet : Quiet s')
  | next (type : PacketType) (data : List UInt8) (hsinit : type ≠ .ksinit) (herror : type ≠ .kerror)
      (hlate : s'.state.uploading = true) (hnumber : s'.sequenceNumber = s.sequenceNumber + 1)
      (hpacket : s'.outputPacket = some ⟨type, s'.sequenceNumber % 64, data⟩)
      (hwindows : SameWindows s s' ∨ s.state.early = true ∧ Renegotiated s s') (hquiet : Quiet s')
  | error (data : List UInt8) (hstate : s'.state = .abort)
      (hpacket : s'.outputPacket = some ⟨.kerror, s'.sequenceNumber % 64, data⟩)
      (hwindows : SameWindows s s') (hquiet : Quiet s')

namespace Transfer
variable {h : Host} {s t : Transfer} {n : Nat}

theorem sendLoop_done (hround : s.sendState h = (t, true)) : sendLoop h (n + 1) s = t := by
  rw [sendLoop, hround]
  rfl

theorem sendLoop_more (hround : s.sendState h = (t, false)) :
    sendLoop h (n + 1) s = sendLoop h n t := by
  rw [sendLoop, hround]
  rfl

/-- Without a packet these states have nothing to do. -/
theorem sendLoop_quiet (hparsed : s.inputPacket.parsedOk = false)
    (hstate : s.state = .kmSF ∨ s.state = .kmSA ∨ s.state = .kmSZ) :
    sendLoop h (n + 1) s = s := by
  have hround : s.sendState h = (s, true) := by
    rcases hstate with hs | hs | hs <;> simp [sendState, hs, sendSF, sendSA, sendSZ, hparsed]
  rw [sendLoop_done hround]

theorem sendLoop_over (hstate : s.state = .abort ∨ s.state = .complete) :
    sendLoop h (n + 1) s = s := by
  have hround : s.sendState h = (s, true) := by
    rcases hstate with hs | hs <;> simp [sendState, hs]
  rw [sendLoop_done hround]

/-- A packet with the number that is due, built in a state where it may be followed by SZ. -/
structure Numbered (s s' : Transfer) : Prop where
  packet : ∃ type data, type ≠ PacketType.ksinit ∧ type ≠ PacketType.kerror ∧
    s'.outputPacket = some ⟨type, s'.sequenceNumber % 64, data⟩
  inputPacket : s'.inputPacket = s.inputPacket
  state : s'.state = s.state ∨ s'.state = .kmSZ
  windows : SameWindows s s'
  flags : s'.flags = s.flags

theorem same_goto (state : State) : SameWindows s (s.goto state) := ⟨⟨rfl, rfl, rfl⟩, rfl, rfl⟩

theorem same_advance : SameWindows s s.advance := ⟨⟨rfl, rfl, rfl⟩, rfl, rfl⟩

theorem numbered_sendEof : Numbered s (s.sendEof.goto .kmSZ) := by
  unfold sendEof
  split_ifs
  · exact ⟨⟨.keof, _, by decide, by decide, rfl⟩, rfl, .inr rfl,
      ⟨⟨rfl, rfl, rfl⟩, rfl, rfl⟩, rfl⟩
  · exact ⟨⟨.keof, _, by decide, by decide, rfl⟩, rfl, .inr rfl,
      ⟨⟨rfl, rfl, rfl⟩, rfl, rfl⟩, rfl⟩

theorem sendEof_sequenceNumber : s.sendEof.sequenceNumber = s.sequenceNumber := by
  unfold sendEof
  split_ifs <;> rfl

theorem numbered_sendFileData : Numbered s s.sendFileData := by
  unfold sendFileData
  split_ifs
  · exact numbered_sendEof
  · exact ⟨⟨.kdata, _, by decide, by decide, rfl⟩, rfl, .inl rfl,
      ⟨⟨rfl, rfl, rfl⟩, rfl, rfl⟩, rfl⟩

theorem sendFileData_sequenceNumber : s.sendFileData.sequenceNumber = s.sequenceNumber := by
  unfold sendFileData
  split_ifs
  · exact sendEof_sequenceNumber
  · rfl

theorem numbered_nextPacket (hnone : s.outputPacket = none) : Numbered s s.sendSDNextPacket := by
  unfold sendSDNextPacket
  rw [if_neg (by simp [hnone])]
  have hcount : SameWindows s (if s.ahead then { s with sequenceNumber := s.sequenceNumber + 1 }
      else s) := by
    split_ifs
    · exact ⟨⟨rfl, rfl, rfl⟩, rfl, rfl⟩
    · exact .refl s
  set t := if s.ahead then { s with sequenceNumber := s.sequenceNumber + 1 } else s with ht
  have hinput : t.inputPacket = s.inputPacket := by
    rw [ht]
    split_ifs <;> rfl
  have hstate : t.state = s.state := by
    rw [ht]
    split_ifs <;> rfl
  have hflags : t.flags = s.flags := by
    rw [ht]
    split_ifs <;> rfl
  have hnumbered : Numbered t (if t.filePosition = t.attributes.fileSize ∨ t.skipFile then
      t.sendEof.goto .kmSZ else t.sendFileData) := by
    split_ifs
    · exact numbered_sendEof
    · exact numbered_sendFileData
  exact ⟨hnumbered.packet, hnumbered.inputPacket.trans hinput, hstate ▸ hnumbered.state,
    hcount.trans hnumbered.windows, hnumbered.flags.trans hflags⟩

theorem numbered_sendFileHeader : Numbered s s.sendFileHeader :=
  ⟨⟨.kfile, _, by decide, by decide, rfl⟩, rfl, .inl rfl,
      ⟨⟨rfl, rfl, rfl⟩, rfl, rfl⟩, rfl⟩

theorem numbered_sendFileAttributes : Numbered s s.sendFileAttributes := by
  unfold sendFileAttributes
  split_ifs
  · exact ⟨⟨.kattributes, _, by decide, by decide, rfl⟩, rfl, .inl rfl,
      ⟨⟨rfl, rfl, rfl⟩, rfl, rfl⟩, rfl⟩
  · exact ⟨⟨.kattributes, _, by decide, by decide, rfl⟩, rfl, .inl rfl,
      ⟨⟨rfl, rfl, rfl⟩, rfl, rfl⟩, rfl⟩

theorem sendFileAttributes_sequenceNumber :
    s.sendFileAttributes.sequenceNumber = s.sequenceNumber := by
  unfold sendFileAttributes
  split_ifs <;> rfl

theorem Numbered.goto {t : Transfer} (h : Numbered s t) (state : State) :
    Numbered (s.goto state) (t.goto state) where
  packet := h.packet
  inputPacket := h.inputPacket
  state := .inl rfl
  windows := ⟨⟨h.windows.outputWindow, h.windows.sessionParms, h.windows.sending⟩,
    h.windows.inputWindow, h.windows.stray⟩
  flags := h.flags

theorem Numbered.built {s s' : Transfer} (h : Numbered s s') : s'.outputPacket.isSome = true := by
  obtain ⟨type, data, -, -, hpacket⟩ := h.packet
  rw [hpacket]
  rfl

/-- A numbered packet is the one that goes out. -/
theorem Numbered.builds {s t s' : Transfer} {first : Bool} (h : Numbered t s')
    (hwin : SameWindows s t) (hlate : t.state.uploading = true) (hsb : t.state ≠ .kmSB)
    (hnumber : s'.sequenceNumber = s.sequenceNumber + 1) (hflags : t.flags = (first, true, false)) :
    Builds s s' := by
  obtain ⟨type, data, hsinit, herror, hpacket⟩ := h.packet
  have hlate' : s'.state.uploading = true ∧ s'.state ≠ .kmSB := by
    rcases h.state with hs | hs
    · rw [hs]
      exact ⟨hlate, hsb⟩
    · rw [hs]
      exact ⟨rfl, by decide⟩
  exact .next type data hsinit herror hlate'.1 hnumber hpacket (.inl (hwin.trans h.windows))
    (.of_flags (h.flags.trans hflags) hlate'.1 hlate'.2)

theorem nextPacket_sequenceNumber (hnone : s.outputPacket = none) :
    s.sendSDNextPacket.sequenceNumber = s.sequenceNumber + if s.ahead then 1 else 0 := by
  unfold sendSDNextPacket
  rw [if_neg (by simp [hnone])]
  simp only
  cases hahead : s.ahead with
  | true =>
    simp only [if_true]
    split_ifs
    · exact sendEof_sequenceNumber
    · exact sendFileData_sequenceNumber
  | false =>
    simp only [Bool.false_eq_true, if_false]
    split_ifs
    · exact sendEof_sequenceNumber
    · exact sendFileData_sequenceNumber

theorem notFirst_eq (hfirst : s.isFirstDataPacket = false) :
    s.notFirst = s := by
  rw [notFirst, ← hfirst]

/-- When a packet has been built in SDW and none has come in, there is nothing more to do, unless
windows are in use. -/
theorem sendLoop_built (hparsed : s.inputPacket.parsedOk = false)
    (hstate : s.state = .kmSDW ∨ s.state = .kmSZ) (hfirst : s.isFirstDataPacket = false)
    (hwindowing : s.sessionParms.windowing = false) (hbuilt : s.outputPacket.isSome = true) :
    sendLoop h (n + 1) s = s := by
  cases hstate with
  | inr hstate => exact sendLoop_quiet hparsed (.inr (.inr hstate))
  | inl hstate =>
    have hsdw : s.sendSDW = (s, true) := by
      unfold sendSDW
      rw [if_pos (by simp [hparsed]), notFirst_eq hfirst]
      split_ifs with hahead
      · have hstream : s.sessionParms.streaming = true := by
          simpa [ahead, hwindowing, hfirst] using hahead
        rw [sendSDNextPacket, if_pos ⟨hstream, hbuilt⟩]
      · rfl
    have hround : s.sendState h = (s, true) := by
      rw [sendState, hstate]
      exact hsdw
    rw [sendLoop_done hround]

/-- In SDW, with no packet to send yet and none that came in. -/
theorem builds_idleSDW (hquiet : Quiet s) (hnone : s.outputPacket = none)
    (hstate : s.state = .kmSDW) (hparsed : s.inputPacket.parsedOk = false) :
    Builds s (sendLoop h (n + 1) s) := by
  have hround : s.sendState h = s.sendSDW := by
    rw [sendState, hstate]
  unfold sendSDW at hround
  rw [if_pos (by simp [hparsed]), notFirst_eq hquiet.notFirst] at hround
  split_ifs at hround with hahead
  · rw [sendLoop_done hround]
    have hahead : s.ahead = true := by simpa [hquiet.notFirst] using hahead
    refine (numbered_nextPacket hnone).builds (.refl s) ?_ ?_ ?_
      (hquiet.flags_eq ?_ ?_ ?_)
    · rw [hstate]
      rfl
    · rw [hstate]
      decide
    · rw [nextPacket_sequenceNumber hnone, hahead, if_pos rfl]
    all_goals
      rw [hstate]
      decide
  · rw [sendLoop_done hround]
    exact .nothing rfl rfl (.inl rfl) (.refl s) hquiet

/-- A packet that no state expects. -/
theorem builds_wrongPacket (hquiet : Quiet s) : Builds s s.wrongPacket.1 :=
  .error _ rfl rfl (same_abort _) (.abort hquiet.notFirst _)

theorem renegotiated : Renegotiated s s.negotiateSendInit := by
  unfold negotiateSendInit
  simp only
  split_ifs with hw
  · exact ⟨rfl, rfl, ⟨_, _, rfl⟩, by rw [if_pos hw]; rfl, by rw [if_pos hw]; rfl⟩
  · exact ⟨rfl, rfl, ⟨_, _, rfl⟩, by rw [if_neg hw], by rw [if_neg hw]⟩

theorem negotiateSendInit_sequenceNumber :
    s.negotiateSendInit.sequenceNumber = s.sequenceNumber := by
  unfold negotiateSendInit
  simp only
  split_ifs <;> rfl

theorem same_takeSendInit : SameWindows s s.takeSendInit := ⟨⟨rfl, rfl, rfl⟩, rfl, rfl⟩

theorem renegotiated_acceptS : Renegotiated s s.acceptS :=
  Renegotiated.congr same_takeSendInit renegotiated
    (same_advance.trans (numbered_sendFileHeader.windows.trans (same_goto _)))

theorem acceptS_sequenceNumber : s.acceptS.sequenceNumber = s.sequenceNumber + 1 :=
  congrArg (· + 1) (negotiateSendInit_sequenceNumber (s := s.takeSendInit))

theorem acceptS_packet : ∃ data, s.acceptS.outputPacket =
    some ⟨.kfile, s.acceptS.sequenceNumber % 64, data⟩ := ⟨_, rfl⟩

theorem negotiateSendInit_flags : s.negotiateSendInit.flags = s.flags := by
  unfold negotiateSendInit
  simp only
  split_ifs <;> rfl

theorem header_flags (state : State) : (s.advance.sendFileHeader.goto state).flags = s.flags := rfl

theorem acceptS_flags : s.acceptS.flags = s.flags := by
  unfold acceptS
  rw [header_flags, negotiateSendInit_flags]
  rfl

/-- In S the Send-Init has gone out, or is the packet to be sent. -/
theorem startS_fields : SameWindows s s.startS ∧ s.startS.inputPacket = s.inputPacket ∧
    s.startS.state = s.state ∧ s.startS.firstS = false ∧ s.startS.firstSB = s.firstSB ∧
    s.startS.isFirstDataPacket = s.isFirstDataPacket := by
  unfold startS
  split_ifs with hfirst
  · exact ⟨⟨⟨rfl, rfl, rfl⟩, rfl, rfl⟩, rfl, rfl, rfl, rfl, rfl⟩
  · exact ⟨.refl s, rfl, rfl, Bool.eq_false_of_not_eq_true hfirst, rfl, rfl⟩

theorem startS_sequenceNumber (hzero : s.sequenceNumber = 0) : s.startS.sequenceNumber = 0 := by
  unfold startS
  split_ifs
  · rfl
  · exact hzero

/-- A state that waits for the answer to the Send-Init. -/
theorem quiet_S (hstate : s.state = .kmS) (hfirst : s.firstS = false) (hsb : s.firstSB = true)
    (hnot : s.isFirstDataPacket = false) (hzero : s.sequenceNumber = 0) : Quiet s where
  init := fun hs => by rw [hstate] at hs; cases hs
  firstS := fun _ => hfirst
  firstSB := fun hs => by rw [hstate] at hs; cases hs
  last := fun hs => by rw [hsb] at hs; cases hs
  notFirst := hnot
  early := fun _ => hzero

theorem builds_S (hstate : s.state = .kmS) (hzero : s.sequenceNumber = 0)
    (hsb : s.firstSB = true) (hnot : s.isFirstDataPacket = false) :
    Builds s (sendLoop h (n + 2) s) ∧
      (s.firstS = true → (sendLoop h (n + 2) s).outputPacket ≠ none) := by
  obtain ⟨hwin, hinput, hstart, hfirst, hlast, hdata⟩ := startS_fields (s := s)
  have hround : s.sendState h = s.sendS := by
    rw [sendState, hstate]
  have hearly : s.state.early = true := by
    rw [hstate]
    rfl
  have hwrong : Builds s (s.startS.abort "Wrong packet in sequence") :=
    .error _ rfl rfl (hwin.trans (same_abort _)) (.abort (hdata.trans hnot) _)
  have hquiet : Quiet s.startS := quiet_S (hstart.trans hstate) hfirst (hlast.trans hsb)
    (hdata.trans hnot) (startS_sequenceNumber hzero)
  unfold sendS at hround
  simp only at hround
  by_cases hparsed : s.inputPacket.parsedOk = true
  · rw [if_neg (by simp [hinput, hparsed])] at hround
    cases htype : s.inputPacket.type with
    | none =>
      simp only [hinput, htype] at hround
      rw [sendLoop_done hround]
      exact ⟨hwrong, fun _ => Option.some_ne_none _⟩
    | some type =>
      cases type with
      | knak =>
        simp only [hinput, htype] at hround
        rw [sendLoop_done hround]
        refine ⟨.sendInit hearly (hstart.trans hstate) rfl _ rfl
          (hwin.trans ⟨⟨rfl, rfl, rfl⟩, rfl, rfl⟩) ?_, fun _ => Option.some_ne_none _⟩
        exact quiet_S (hstart.trans hstate) hfirst (hlast.trans hsb) (hdata.trans hnot) rfl
      | kack =>
        simp only [hinput, htype] at hround
        rw [sendLoop_more hround]
        rw [sendLoop_quiet rfl (.inl rfl)]
        have hnumber : s.startS.acceptS.sequenceNumber = s.sequenceNumber + 1 := by
          rw [acceptS_sequenceNumber, startS_sequenceNumber hzero, hzero]
        have hflags : s.startS.acceptS.flags = (false, true, false) := by
          rw [acceptS_flags, flags, hfirst, hlast, hsb, hdata, hnot]
        obtain ⟨data, hpacket⟩ := acceptS_packet (s := s.startS)
        refine ⟨.next .kfile data (by decide) (by decide) rfl hnumber hpacket
          (.inr ⟨hearly, Renegotiated.congr hwin renegotiated_acceptS (.refl _)⟩)
          (.of_flags hflags rfl (fun hs => by cases hs)), fun _ => ?_⟩
        rw [hpacket]
        exact Option.some_ne_none _
      | _ =>
        simp only [hinput, htype] at hround
        rw [sendLoop_done hround]
        exact ⟨hwrong, fun _ => Option.some_ne_none _⟩
  · rw [if_pos (by simp [hinput, hparsed])] at hround
    rw [sendLoop_done hround]
    unfold startS at hquiet ⊢
    split_ifs at hquiet ⊢ with hf
    · exact ⟨.sendInit hearly hstate rfl _ rfl ⟨⟨rfl, rfl, rfl⟩, rfl, rfl⟩ hquiet,
        fun _ => Option.some_ne_none _⟩
    · exact ⟨.nothing rfl rfl (.inl rfl) (.refl s) hquiet, fun hf' => absurd hf' hf⟩

/-- The flags in a state between SF and SZ. -/
theorem flags_of_state (hquiet : Quiet s) {state : State} (hstate : s.state = state)
    (hsb : state ≠ .kmSB) (habort : state ≠ .abort) (hcomplete : state ≠ .complete) :
    s.flags = (s.firstS, true, false) :=
  hquiet.flags_eq (hstate ▸ hsb) (hstate ▸ habort) (hstate ▸ hcomplete)

theorem builds_SF (hquiet : Quiet s) (hstate : s.state = .kmSF)
    (hregular : ¬ SkipsNumber s) : Builds s (sendLoop h (n + 2) s) := by
  have hround : s.sendState h = s.sendSF := by
    rw [sendState, hstate]
  have hsf : s.advance.state = .kmSF := hstate
  have hlate : s.advance.state.uploading = true := by
    rw [hsf]
    rfl
  have hflags : s.flags = (s.firstS, true, false) :=
    flags_of_state hquiet hstate (by decide) (by decide) (by decide)
  unfold sendSF at hround
  by_cases hparsed : s.inputPacket.parsedOk = true
  · rw [if_neg (by simp [hparsed])] at hround
    cases htype : s.inputPacket.type with
    | none =>
      simp only [htype] at hround
      rw [sendLoop_done hround]
      exact builds_wrongPacket hquiet
    | some type =>
      cases type with
      | kack =>
        simp only [htype] at hround
        have hnum : Numbered s.advance s.advance.sendFileData := numbered_sendFileData
        have hdone : s.advance.sendFileData.inputPacket.parsedOk = false :=
          congrArg CurrentPacket.parsedOk hnum.inputPacket
        have hfile : s.advance.fileEof = s.fileEof := rfl
        split_ifs at hround with hattr heof
        · have hnum : Numbered s.advance s.advance.sendFileAttributes := numbered_sendFileAttributes
          rw [sendLoop_more hround]
          rw [sendLoop_quiet (s := s.advance.sendFileAttributes.goto .kmSA)
            (congrArg CurrentPacket.parsedOk hnum.inputPacket) (.inr (.inl rfl))]
          exact (hnum.goto .kmSA).builds (same_advance.trans (same_goto _)) rfl
            (fun hs => by cases hs)
            sendFileAttributes_sequenceNumber hflags
        · have hsz : s.advance.sendFileData.state = .kmSZ := by
            rw [sendFileData, hfile, if_pos heof]
            rfl
          rw [sendLoop_more hround, sendLoop_quiet hdone (.inr (.inr hsz))]
          exact hnum.builds same_advance hlate (by rw [hsf]; decide) sendFileData_sequenceNumber
            hflags
        · have hwindowing : s.sessionParms.windowing = false := by
            by_contra hw
            exact hregular ⟨hstate, hparsed, htype, by simpa using hw,
              Bool.eq_false_of_not_eq_true hattr⟩
          have hparms : (s.advance.sendFileData.goto .kmSDW).sessionParms = s.sessionParms :=
            hnum.windows.sessionParms
          have hfirst : (s.advance.sendFileData.goto .kmSDW).isFirstDataPacket = false := by
            rw [sendFileData, hfile, if_neg heof]
            exact hquiet.notFirst
          rw [sendLoop_more hround, sendLoop_built (s := s.advance.sendFileData.goto .kmSDW) hdone
            (.inl rfl) hfirst (by rw [hparms, hwindowing]) hnum.built]
          exact (hnum.goto .kmSDW).builds (same_advance.trans (same_goto _)) rfl
            (fun hs => by cases hs)
            sendFileData_sequenceNumber hflags
      | _ =>
        simp only [htype] at hround
        rw [sendLoop_done hround]
        exact builds_wrongPacket hquiet
  · rw [if_pos (by simp [hparsed])] at hround
    rw [sendLoop_done hround]
    exact .nothing rfl rfl (.inl rfl) (.refl s) hquiet

/-- What SDW does when it has a packet to build. -/
theorem sendLoop_SDW (hparsed : s.inputPacket.parsedOk = false) (hstate : s.state = .kmSDW)
    (hwork : s.ahead = true ∨ s.isFirstDataPacket = true) :
    sendLoop h (n + 1) s = s.notFirst.sendSDNextPacket := by
  have hround : s.sendState h = s.sendSDW := by
    rw [sendState, hstate]
  refine sendLoop_done (hround.trans ?_)
  rw [sendSDW, if_pos (by simp [hparsed]), if_pos hwork]

theorem same_readyForData : SameWindows s s.readyForData := ⟨⟨rfl, rfl, rfl⟩, rfl, rfl⟩

theorem same_notFirst : SameWindows s s.notFirst := ⟨⟨rfl, rfl, rfl⟩, rfl, rfl⟩

theorem resumeAt_fields : SameWindows s s.resumeAt ∧ s.resumeAt.inputPacket = s.inputPacket ∧
    s.resumeAt.sequenceNumber = s.sequenceNumber ∧ s.resumeAt.outputPacket = s.outputPacket ∧
    s.resumeAt.flags = s.flags := by
  unfold resumeAt
  split_ifs
  · exact ⟨⟨⟨rfl, rfl, rfl⟩, rfl, rfl⟩, rfl, rfl, rfl, rfl⟩
  · exact ⟨.refl s, rfl, rfl, rfl, rfl⟩

theorem ahead_eq (hsame : SameWindows s t) : t.ahead = s.ahead := by
  unfold Transfer.ahead
  rw [hsame.sessionParms]

/-- The state in which SA leaves the building of a packet to SDW. -/
theorem acceptSA_fields : SameWindows s s.acceptSA ∧ s.acceptSA.inputPacket.parsedOk = false ∧
    s.acceptSA.sequenceNumber = s.sequenceNumber + (if s.ahead then 0 else 1) ∧
    s.acceptSA.outputPacket = none ∧ s.acceptSA.flags = (s.firstS, s.firstSB, true) ∧
    s.acceptSA.state = .kmSDW := by
  unfold acceptSA
  cases hahead : s.ahead with
  | true =>
    simp only [if_true]
    obtain ⟨hw, hi, hn, ho, hf⟩ := resumeAt_fields (s := s.consume.readyForData)
    exact ⟨(same_consume.trans same_readyForData).trans (hw.trans (same_goto _)),
      congrArg CurrentPacket.parsedOk hi, hn, ho, hf, rfl⟩
  | false =>
    simp only [Bool.false_eq_true, if_false]
    obtain ⟨hw, hi, hn, ho, hf⟩ := resumeAt_fields (s := s.advance.readyForData)
    exact ⟨(same_advance.trans same_readyForData).trans (hw.trans (same_goto _)),
      congrArg CurrentPacket.parsedOk hi, hn, ho, hf, rfl⟩

theorem builds_SA (hquiet : Quiet s) (hstate : s.state = .kmSA) : Builds s (sendLoop h (n + 2) s) := by
  have hround : s.sendState h = s.sendSA := by
    rw [sendState, hstate]
  unfold sendSA at hround
  by_cases hparsed : s.inputPacket.parsedOk = true
  · rw [if_neg (by simp [hparsed])] at hround
    cases htype : s.inputPacket.type with
    | none =>
      simp only [htype] at hround
      rw [sendLoop_done hround]
      exact builds_wrongPacket hquiet
    | some type =>
      cases type with
      | kack =>
        simp only [htype] at hround
        obtain ⟨hwin, hdone, hnumber, hnone, hfirst, hsdw⟩ := acceptSA_fields (s := s)
        rw [sendLoop_more hround, sendLoop_SDW hdone hsdw
          (.inr (congrArg (fun x => x.2.2) hfirst))]
        have hnum := numbered_nextPacket (s := s.acceptSA.notFirst) hnone
        have hcount := nextPacket_sequenceNumber (s := s.acceptSA.notFirst) hnone
        have hlate : s.acceptSA.notFirst.state.uploading = true := congrArg State.uploading hsdw
        have hnumber' : s.acceptSA.notFirst.sequenceNumber = _ := hnumber
        have hflags : s.acceptSA.notFirst.flags = (s.firstS, true, false) := by
          have hsb := congrArg (fun x => x.2.1) (flags_of_state hquiet hstate (by decide)
            (by decide) (by decide))
          have h₁ : s.acceptSA.firstS = s.firstS := congrArg (fun x => x.1) hfirst
          have h₂ : s.acceptSA.firstSB = s.firstSB := congrArg (fun x => x.2.1) hfirst
          exact Prod.ext h₁ (Prod.ext (h₂.trans hsb) rfl)
        have hne : s.acceptSA.notFirst.state ≠ .kmSB := fun hs => by
          have : State.kmSDW = .kmSB := hsdw.symm.trans hs
          cases this
        refine hnum.builds (hwin.trans same_notFirst) hlate hne ?_ hflags
        rw [hcount, hnumber', ahead_eq (hwin.trans same_notFirst)]
        cases s.ahead <;> rfl
      | _ =>
        simp only [htype] at hround
        rw [sendLoop_done hround]
        exact builds_wrongPacket hquiet
  · rw [if_pos (by simp [hparsed])] at hround
    rw [sendLoop_done hround]
    exact .nothing rfl rfl (.inl rfl) (.refl s) hquiet

theorem skipped_fields : SameWindows s s.skipped ∧ s.skipped.inputPacket = s.inputPacket ∧
    s.skipped.sequenceNumber = s.sequenceNumber ∧ s.skipped.outputPacket = s.outputPacket ∧
    s.skipped.flags = s.flags ∧ s.skipped.state = s.state := by
  unfold skipped
  split_ifs
  · exact ⟨⟨⟨rfl, rfl, rfl⟩, rfl, rfl⟩, rfl, rfl, rfl, rfl, rfl⟩
  · exact ⟨.refl s, rfl, rfl, rfl, rfl, rfl⟩

/-- A state of SDW from which the next packet is built. -/
theorem builds_nextPacket (hwin : SameWindows s t) (hstate : t.state = .kmSDW)
    (hnone : t.outputPacket = none)
    (hnumber : t.sequenceNumber + (if t.ahead then 1 else 0) = s.sequenceNumber + 1)
    {first : Bool} (hflags : t.flags = (first, true, false)) : Builds s t.sendSDNextPacket := by
  have hlate : t.state.uploading = true := by
    rw [hstate]
    rfl
  exact (numbered_nextPacket hnone).builds hwin hlate (by rw [hstate]; decide)
    ((nextPacket_sequenceNumber hnone).trans hnumber) hflags

theorem builds_SDW (hquiet : Quiet s) (hnone : s.outputPacket = none)
    (hstate : s.state = .kmSDW) : Builds s (sendLoop h (n + 2) s) := by
  have hflags : s.flags = (s.firstS, true, false) :=
    flags_of_state hquiet hstate (by decide) (by decide) (by decide)
  by_cases hparsed : s.inputPacket.parsedOk = true
  · have hround : s.sendState h = s.sendSDW := by
      rw [sendState, hstate]
    unfold sendSDW at hround
    rw [if_neg (by simp [hparsed])] at hround
    cases htype : s.inputPacket.type with
    | none =>
      simp only [htype] at hround
      rw [sendLoop_done hround]
      exact builds_wrongPacket hquiet
    | some type =>
      cases type with
      | kack =>
        simp only [htype] at hround
        obtain ⟨hw, hi, hn, ho, hf, hs⟩ := skipped_fields (s := s.consume)
        have hbuilds : s.ahead = true → Builds s s.consume.skipped.sendSDNextPacket := by
          intro hahead
          refine builds_nextPacket (same_consume.trans hw) (hs.trans hstate) (ho.trans hnone) ?_
            (hf.trans hflags)
          rw [hn, ahead_eq (same_consume.trans hw), hahead]
          rfl
        split_ifs at hround with hwindowing hahead
        · rw [sendLoop_done hround]
          exact hbuilds (by simp [ahead, hwindowing])
        · have hnum := numbered_nextPacket (ho.trans hnone)
          rw [sendLoop_more hround, sendLoop_built
            (congrArg CurrentPacket.parsedOk (hnum.inputPacket.trans hi)) ?_ ?_ ?_ hnum.built]
          · exact hbuilds hahead
          · exact hnum.state.imp (·.trans (hs.trans hstate)) id
          · exact congrArg (fun x => x.2.2) (hnum.flags.trans (hf.trans hflags))
          · rw [(same_consume.trans (hw.trans hnum.windows)).sessionParms]
            exact Bool.eq_false_of_not_eq_true hwindowing
        · obtain ⟨hw, hi, hn, ho, hf, hs⟩ := skipped_fields (s := s.advance)
          have hwin : SameWindows s s.advance.skipped.delivered :=
            same_advance.trans (hw.trans ⟨⟨rfl, rfl, rfl⟩, rfl, rfl⟩)
          have hnone' : s.advance.skipped.delivered.outputPacket = none := ho.trans hnone
          have hnum := numbered_nextPacket hnone'
          have hinput : s.advance.skipped.delivered.inputPacket = s.advance.inputPacket := hi
          have hsdw : s.advance.skipped.delivered.state = .kmSDW := hs.trans hstate
          have hflags' : s.advance.skipped.delivered.flags = (s.firstS, true, false) :=
            hf.trans hflags
          have hnumber : s.advance.skipped.delivered.sequenceNumber = s.sequenceNumber + 1 := hn
          rw [sendLoop_more hround, sendLoop_built
            (congrArg CurrentPacket.parsedOk (hnum.inputPacket.trans hinput)) ?_ ?_ ?_ hnum.built]
          · refine builds_nextPacket hwin hsdw hnone' ?_ hflags'
            rw [ahead_eq hwin, if_neg hahead]
            exact hnumber
          · exact hnum.state.imp (·.trans hsdw) id
          · exact congrArg (fun x => x.2.2) (hnum.flags.trans hflags')
          · rw [(hwin.trans hnum.windows).sessionParms]
            exact Bool.eq_false_of_not_eq_true hwindowing
      | _ =>
        simp only [htype] at hround
        rw [sendLoop_done hround]
        exact builds_wrongPacket hquiet
  · exact builds_idleSDW hquiet hnone hstate (Bool.eq_false_of_not_eq_true hparsed)

/-- SB, when the Break has gone out or is to be built. -/
theorem sendLoop_SB (hparsed : s.inputPacket.parsedOk = false) (hstate : s.state = .kmSB) :
    sendLoop h (n + 1) s = s.startSB := by
  have hround : s.sendState h = s.sendSB := by
    rw [sendState, hstate]
  have hinput : s.startSB.inputPacket = s.inputPacket := by
    unfold startSB
    split_ifs <;> rfl
  unfold sendSB at hround
  simp only at hround
  rw [if_pos (by simp [hinput, hparsed])] at hround
  exact sendLoop_done hround

theorem builds_SB (hquiet : Quiet s) (hstate : s.state = .kmSB) :
    Builds s (sendLoop h (n + 2) s) := by
  have hround : s.sendState h = s.sendSB := by
    rw [sendState, hstate]
  have hstart : s.startSB = s := by
    rw [startSB, hquiet.firstSB hstate]
    rfl
  unfold sendSB at hround
  simp only [hstart] at hround
  by_cases hparsed : s.inputPacket.parsedOk = true
  · rw [if_neg (by simp [hparsed])] at hround
    cases htype : s.inputPacket.type with
    | none =>
      simp only [htype] at hround
      rw [sendLoop_done hround]
      exact builds_wrongPacket hquiet
    | some type =>
      cases type with
      | kack =>
        simp only [htype] at hround
        rw [sendLoop_more hround, sendLoop_over (.inr rfl)]
        refine .nothing rfl rfl (.inr rfl) (same_consume.trans (same_stop _)) ?_
        exact {
          init := fun hs => by cases hs
          firstS := fun hs => by cases hs
          firstSB := fun hs => by cases hs
          last := fun _ => .inr (.inr rfl)
          notFirst := hquiet.notFirst
          early := fun hs => by cases hs }
      | _ =>
        simp only [htype] at hround
        rw [sendLoop_done hround]
        exact builds_wrongPacket hquiet
  · rw [if_pos (by simp [hparsed])] at hround
    rw [sendLoop_done hround]
    exact .nothing rfl rfl (.inl rfl) (.refl s) hquiet

theorem same_nextUpload : SameWindows s s.nextUpload := ⟨⟨rfl, rfl, rfl⟩, rfl, rfl⟩

theorem same_openUpload (upload : Upload) : SameWindows s (s.openUpload upload) :=
  ⟨⟨rfl, rfl, rfl⟩, rfl, rfl⟩

theorem builds_SZ (hquiet : Quiet s) (hstate : s.state = .kmSZ) :
    Builds s (sendLoop h (n + 2) s) := by
  have hflags : s.flags = (s.firstS, true, false) :=
    flags_of_state hquiet hstate (by decide) (by decide) (by decide)
  have hround : s.sendState h = s.sendSZ h := by
    rw [sendState, hstate]
  unfold sendSZ at hround
  by_cases hparsed : s.inputPacket.parsedOk = true
  · rw [if_neg (by simp [hparsed])] at hround
    cases htype : s.inputPacket.type with
    | none =>
      simp only [htype] at hround
      rw [sendLoop_done hround]
      exact builds_wrongPacket hquiet
    | some type =>
      cases type with
      | kack =>
        simp only [htype] at hround
        split_ifs at hround with hwait
        · rw [sendLoop_done hround]
          exact .nothing rfl rfl (.inl rfl) same_consume hquiet.consume
        · have hwin : SameWindows s s.advance.nextUpload := same_advance.trans same_nextUpload
          rw [sendLoop_more hround]
          unfold setupForNextFile
          cases s.advance.nextUpload.uploads with
          | nil =>
            simp only
            have hsb : (s.advance.nextUpload.noUpload.goto .kmSB).firstSB = true :=
              congrArg (fun x => x.2.1) hflags
            rw [sendLoop_SB rfl rfl, startSB, if_pos hsb]
            refine .next .kbreak [] (by decide) (by decide) rfl rfl rfl
              (.inl (hwin.trans ⟨⟨rfl, rfl, rfl⟩, rfl, rfl⟩)) ?_
            exact {
              init := fun hs => by cases hs
              firstS := fun hs => by cases hs
              firstSB := fun _ => rfl
              last := fun _ => .inl rfl
              notFirst := hquiet.notFirst
              early := fun hs => by cases hs }
          | cons upload rest =>
            simp only
            split_ifs
            · rw [sendLoop_over (.inl rfl)]
              have hfirst : (s.advance.nextUpload.openUpload upload).isFirstDataPacket = false :=
                hquiet.notFirst
              exact .error _ rfl rfl ((hwin.trans (same_openUpload upload)).trans (same_abort _))
                (.abort hfirst _)
            · rw [sendLoop_quiet rfl (.inl rfl)]
              exact (numbered_sendFileHeader.goto .kmSF).builds
                ((hwin.trans (same_openUpload upload)).trans (same_goto _)) rfl
                (fun hs => by cases hs) rfl
                hflags
      | _ =>
        simp only [htype] at hround
        rw [sendLoop_done hround]
        exact builds_wrongPacket hquiet
  · rw [if_pos (by simp [hparsed])] at hround
    rw [sendLoop_done hround]
    exact .nothing rfl rfl (.inl rfl) (.refl s) hquiet

/-- The first call builds the Send-Init, or what follows it. -/
theorem builds_init (hquiet : Quiet s) (hstate : s.state = .init) (hnone : s.outputPacket = none) :
    Builds s (sendLoop h (n + 3) s) := by
  have hearly : s.state.early = true := by
    rw [hstate]
    rfl
  have hround : s.sendState h = (s.goto .kmS, false) := by
    rw [sendState, hstate]
  have hsb : s.firstSB = true := by
    by_contra hne
    rcases hquiet.last (Bool.eq_false_of_not_eq_true hne) with hs | hs | hs <;>
      · rw [hstate] at hs
        cases hs
  have hsame : SameWindows s (s.goto .kmS) := same_goto _
  rw [sendLoop_more hround]
  obtain ⟨hbuilds, hsome⟩ := builds_S (h := h) (n := n) (s := s.goto .kmS) rfl
    (hquiet.early hearly) hsb hquiet.notFirst
  cases hbuilds with
  | nothing hpacket =>
    exact absurd (hpacket.trans hnone) (hsome (hquiet.init hstate))
  | sendInit _ hs hn data hp hw hq => exact .sendInit hearly hs hn data hp (hsame.trans hw) hq
  | next type data h₁ h₂ h₃ h₄ h₅ h₆ h₇ =>
    refine .next type data h₁ h₂ h₃ h₄ h₅ (h₆.imp hsame.trans fun hr => ?_) h₇
    exact ⟨hearly, Renegotiated.congr hsame hr.2 (.refl _)⟩
  | error data hs hp hw hq => exact .error data hs hp (hsame.trans hw) hq

/-- What `kermit_send` builds. -/
theorem builds_kermitSend (hquiet : Quiet s) (hregular : ¬ SkipsNumber s)
    (hnone : s.outputPacket = none ∨ s.state = .abort) : Builds s (s.kermitSend h) := by
  have hidle : s.state = .abort ∨ s.state = .complete → Builds s (s.kermitSend h) := by
    intro hover
    rw [kermitSend, sendLoop_over hover]
    exact .nothing rfl rfl (.inl rfl) (.refl s) hquiet
  have hlost : s.state = .kmR ∨ s.state = .kmRF ∨ s.state = .kmRDW → Builds s (s.kermitSend h) := by
    intro hr
    have hround : s.sendState h = ({ s with crashed := true }, true) := by
      rcases hr with hs | hs | hs <;> rw [sendState, hs]
    rw [kermitSend, sendLoop_done hround]
    exact .nothing rfl rfl (.inl rfl) ⟨⟨rfl, rfl, rfl⟩, rfl, rfl⟩
      ⟨hquiet.init, hquiet.firstS, hquiet.firstSB, hquiet.last, hquiet.notFirst, hquiet.early⟩
  have hpacket (state : State) (hs : s.state = state) (ha : state ≠ .abort) :
      s.outputPacket = none := hnone.resolve_right (hs ▸ ha)
  cases hstate : s.state with
  | init => exact builds_init hquiet hstate (hpacket _ hstate (by decide))
  | complete => exact hidle (.inr hstate)
  | abort => exact hidle (.inl hstate)
  | kmS =>
    have hearly : s.state.early = true := by
      rw [hstate]
      rfl
    have hflags := flags_of_state hquiet hstate (by decide) (by decide) (by decide)
    exact (builds_S hstate (hquiet.early hearly) (congrArg (fun x => x.2.1) hflags)
      hquiet.notFirst).1
  | kmSF => exact builds_SF hquiet hstate hregular
  | kmSA => exact builds_SA hquiet hstate
  | kmSDW => exact builds_SDW hquiet (hpacket _ hstate (by decide)) hstate
  | kmSZ => exact builds_SZ hquiet hstate
  | kmSB => exact builds_SB hquiet hstate
  | kmR => exact hlost (.inl hstate)
  | kmRF => exact hlost (.inr (.inl hstate))
  | kmRDW => exact hlost (.inr (.inr hstate))

end Transfer
end CProgram.Kermit
