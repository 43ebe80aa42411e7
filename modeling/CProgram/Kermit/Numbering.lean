import CProgram.Kermit.Sending

/-! The numbers that a sender gives to its packets. -/
namespace CProgram.Kermit

/-- The packets that have gone out for the first time, Errors apart: Send-Inits with the number 0,
and behind them packets with the numbers 1, 2, 3 and so on modulo 64. -/
structure Series (built : List (PacketType × Nat)) (inits : Nat)
    (rest : List (PacketType × Nat)) : Prop where
  split : built.filter (fun p => decide (p.1 ≠ .kerror)) =
    List.replicate inits (.ksinit, 0) ++ rest
  noInit : ∀ p ∈ rest, p.1 ≠ .ksinit
  numbers : rest.map Prod.snd = (List.range rest.length).map fun i => (i + 1) % 64

/-- The packets carry consecutive numbers modulo 64, from 0 for the Send-Init. -/
def InSequence (built : List (PacketType × Nat)) : Prop :=
  ∃ inits rest, Series built inits rest ∧ (rest ≠ [] → 0 < inits)

/-- What a sender does to its state while it takes a packet in. -/
structure Calm (s s' : Transfer) : Prop where
  sending : s'.sending = s.sending
  built : s'.built = s.built
  sequenceNumber : s'.sequenceNumber = s.sequenceNumber
  flags : s'.flags = s.flags
  outcome : s'.state = s.state ∧ s'.outputPacket = s.outputPacket ∨
    s'.state = .abort ∧ (s'.outputPacket = s.outputPacket ∨
      ∃ p, s'.outputPacket = some p ∧ p.type = .kerror)

variable {s s' s'' : Transfer}

theorem Calm.refl (s : Transfer) : Calm s s := ⟨rfl, rfl, rfl, rfl, .inl ⟨rfl, rfl⟩⟩

theorem Calm.trans (h : Calm s s') (h' : Calm s' s'') : Calm s s'' where
  sending := h'.sending.trans h.sending
  built := h'.built.trans h.built
  sequenceNumber := h'.sequenceNumber.trans h.sequenceNumber
  flags := h'.flags.trans h.flags
  outcome := by
    rcases h.outcome with ⟨hs, ho⟩ | ⟨hs, ho⟩ <;> rcases h'.outcome with ⟨hs', ho'⟩ | ⟨hs', ho'⟩
    · exact .inl ⟨hs'.trans hs, ho'.trans ho⟩
    · exact .inr ⟨hs', ho'.imp (·.trans ho) id⟩
    · exact .inr ⟨hs'.trans hs, ho.imp (ho'.trans ·) fun ⟨p, hp, ht⟩ => ⟨p, ho'.trans hp, ht⟩⟩
    · refine .inr ⟨hs', ?_⟩
      rcases ho' with ho' | ho'
      · exact ho.imp (ho'.trans ·) fun ⟨p, hp, ht⟩ => ⟨p, ho'.trans hp, ht⟩
      · exact .inr ho'

namespace Transfer
variable {h : Host}

theorem calm_abort (message : String) : Calm s (s.abort message) :=
  ⟨rfl, rfl, rfl, rfl, .inr ⟨rfl, .inr ⟨_, rfl, rfl⟩⟩⟩

theorem calm_stop : Calm s (s.stop .abort) := ⟨rfl, rfl, rfl, rfl, .inr ⟨rfl, .inl rfl⟩⟩

theorem calm_consume : Calm s s.consume := ⟨rfl, rfl, rfl, rfl, .inl ⟨rfl, rfl⟩⟩

theorem calm_touchOut (ks : List Nat) : Calm s (s.touchOut ks) :=
  ⟨rfl, rfl, rfl, rfl, .inl ⟨rfl, rfl⟩⟩

theorem calm_resend (k : Nat) : Calm s (s.resend k) := ⟨rfl, rfl, rfl, rfl, .inl ⟨rfl, rfl⟩⟩

theorem calm_unstick : Calm s s.unstick := ⟨rfl, rfl, rfl, rfl, .inl ⟨rfl, rfl⟩⟩

theorem calm_withPacket (p : CurrentPacket) : Calm s (s.withPacket p) :=
  ⟨rfl, rfl, rfl, rfl, .inl ⟨rfl, rfl⟩⟩

theorem calm_processPayload (type : Option PacketType) (data : List UInt8) :
    Calm s (s.processPayload type data) := by
  unfold processPayload
  split
  · split
    · exact ⟨rfl, rfl, rfl, rfl, .inl ⟨rfl, rfl⟩⟩
    · exact calm_consume
  · exact ⟨rfl, rfl, rfl, rfl, .inl ⟨rfl, rfl⟩⟩
  · simp only
    split_ifs
    · exact ⟨rfl, rfl, rfl, rfl, .inl ⟨rfl, rfl⟩⟩
    · exact ⟨rfl, rfl, rfl, rfl, .inr ⟨rfl, .inr ⟨_, rfl, rfl⟩⟩⟩
  · exact calm_stop
  · exact (calm_abort _).trans calm_consume
  · exact (calm_abort _).trans calm_consume
  · split_ifs
    · exact (calm_abort _).trans calm_consume
    · exact .refl s
  · exact .refl s

theorem openForData_of_sending (type : Option PacketType) (hstate : s.state ≠ .kmRDW) :
    s.openForData h type = s := by
  rw [openForData, if_neg]
  exact fun hc => hstate hc.2.1

theorem calm_decode (a : Arrival) (hsending : s.sending = true) (hstate : s.state ≠ .kmRDW) :
    Calm s (s.decode h a) := by
  cases a with
  | short => exact .refl s
  | none type seq => exact calm_withPacket _
  | bad type seq checked =>
    have hskip : (s.withPacket ⟨false, type, seq, []⟩).reject h type checked =
        s.withPacket ⟨false, type, seq, []⟩ := if_pos hsending
    rw [decode, hskip]
    exact calm_withPacket _
  | packet type seq data =>
    have hopen : (s.withPacket ⟨true, type, seq, data⟩).openForData h type =
        s.withPacket ⟨true, type, seq, data⟩ := openForData_of_sending type hstate
    rw [decode, hopen]
    exact (calm_withPacket _).trans (calm_processPayload _ _)

theorem calm_answered (k : Nat) : Calm s (s.answered k) := by
  unfold answered
  simp only
  split
  · exact ⟨rfl, rfl, rfl, rfl, .inl ⟨rfl, rfl⟩⟩
  · exact (calm_touchOut _).trans ((calm_resend _).trans calm_consume)
  · exact (calm_touchOut _).trans ((calm_abort _).trans calm_consume)

theorem calm_checkForRepeat (hsending : s.sending = true) : Calm s s.checkForRepeat := by
  unfold checkForRepeat
  by_cases hparsed : (!s.inputPacket.parsedOk) = true
  · rw [if_pos hparsed]
    exact .refl s
  rw [if_neg hparsed]
  by_cases hstream : s.sessionParms.streaming = true ∧ (s.state = .kmRDW ∨ s.state = .kmSDW)
  · rw [if_pos hstream]
    exact .refl s
  rw [if_neg hstream]
  simp only
  cases s.findOutputSlot with
  | none =>
    simp only
    split_ifs
    · exact (calm_touchOut _).trans calm_unstick
    · exact calm_touchOut _
  | some k =>
    simp only
    rw [if_pos hsending]
    exact (calm_touchOut _).trans (calm_answered k)

theorem saveInputPacket_of_sending (hsending : s.sending = true) : s.saveInputPacket = s := by
  rw [saveInputPacket, if_pos (.inr hsending)]

theorem calm_moveWindows : Calm s s.moveWindows := by
  unfold moveWindows
  split_ifs
  · exact ⟨rfl, rfl, rfl, rfl, .inl ⟨rfl, rfl⟩⟩
  · exact .refl s

theorem calm_takeArrival (a : Arrival) (hsending : s.sending = true) (hstate : s.state ≠ .kmRDW) :
    Calm s (s.takeArrival h a) := by
  have hdecode := calm_decode (h := h) a hsending hstate
  have hcheck := calm_checkForRepeat (hdecode.sending.trans hsending)
  have hsent := hcheck.sending.trans (hdecode.sending.trans hsending)
  unfold takeArrival
  rw [saveInputPacket_of_sending hsent]
  exact hdecode.trans (hcheck.trans calm_moveWindows)

theorem calm_handleTimeout (hsending : s.sending = true) : Calm s s.handleTimeout := by
  unfold handleTimeout
  rw [if_pos hsending]
  split_ifs
  · simp only
    split
    · exact (calm_touchOut _).trans (calm_resend _)
    · exact ⟨rfl, rfl, rfl, rfl, .inl ⟨rfl, rfl⟩⟩
  · exact .refl s

theorem keep_fields (p : OutputPacket) : (s.keep p).sending = s.sending ∧
    (s.keep p).built = s.built ∧ (s.keep p).sequenceNumber = s.sequenceNumber ∧
    (s.keep p).flags = s.flags ∧ (s.keep p).state = s.state := by
  unfold keep
  simp only
  split_ifs <;> exact ⟨rfl, rfl, rfl, rfl, rfl⟩

theorem count_fields (p : OutputPacket) : (s.count p).sending = s.sending ∧
    (s.count p).built = s.built ∧ (s.count p).sequenceNumber = s.sequenceNumber ∧
    (s.count p).flags = s.flags ∧ (s.count p).state = s.state := by
  unfold count
  simp only
  split_ifs <;> exact ⟨rfl, rfl, rfl, rfl, rfl⟩

theorem sendPacket_none (hnone : s.outputPacket = none) : s.sendPacket = s := by
  rw [sendPacket, hnone]

/-- A packet that goes out is put down in `built`. -/
theorem sendPacket_some {p : OutputPacket} (hp : s.outputPacket = some p) :
    s.sendPacket.sending = s.sending ∧ s.sendPacket.built = s.built ++ [(p.type, p.seq)] ∧
    s.sendPacket.sequenceNumber = s.sequenceNumber ∧ s.sendPacket.flags = s.flags ∧
    s.sendPacket.state = s.state ∧ s.sendPacket.outputPacket = none := by
  obtain ⟨h₁, -, h₃, h₄, h₅⟩ := keep_fields (s := s) p
  obtain ⟨g₁, -, g₃, g₄, g₅⟩ := count_fields (s := s.keep p) p
  rw [sendPacket, hp]
  exact ⟨g₁.trans h₁, rfl, g₃.trans h₃, g₄.trans h₄, g₅.trans h₅, rfl⟩

theorem built_sendEof : s.sendEof.built = s.built := by
  unfold sendEof
  split_ifs <;> rfl

theorem built_sendFileData : s.sendFileData.built = s.built := by
  unfold sendFileData
  split_ifs
  · exact built_sendEof
  · rfl

theorem built_sendFileAttributes : s.sendFileAttributes.built = s.built := by
  unfold sendFileAttributes
  split_ifs <;> rfl

theorem built_negotiateSendInit : s.negotiateSendInit.built = s.built := by
  unfold negotiateSendInit
  simp only
  split_ifs <;> rfl

theorem built_setupForNextFile : (s.setupForNextFile h).built = s.built := by
  unfold setupForNextFile
  split
  · rfl
  · split_ifs <;> rfl

theorem built_sendSDNextPacket : s.sendSDNextPacket.built = s.built := by
  unfold sendSDNextPacket
  split
  · rfl
  · split
    · simp only
      split
      · exact built_sendEof (s := { s with sequenceNumber := s.sequenceNumber + 1 })
      · exact built_sendFileData (s := { s with sequenceNumber := s.sequenceNumber + 1 })
    · simp only
      split
      · exact built_sendEof
      · exact built_sendFileData

theorem built_skipped : s.skipped.built = s.built := by
  unfold skipped
  split_ifs <;> rfl

theorem built_resumeAt : s.resumeAt.built = s.built := by
  unfold resumeAt
  split_ifs <;> rfl

theorem built_startS : s.startS.built = s.built := by
  unfold startS
  split_ifs <;> rfl

theorem built_startSB : s.startSB.built = s.built := by
  unfold startSB
  split_ifs <;> rfl

theorem built_sendS : s.sendS.1.built = s.built := by
  have hstart : s.startS.built = s.built := built_startS
  rw [← hstart, sendS]
  generalize s.startS = t
  split
  · rfl
  split
  · rfl
  · exact built_negotiateSendInit (s := t.takeSendInit)
  · rfl

theorem built_sendSF : s.sendSF.1.built = s.built := by
  unfold sendSF
  split
  · rfl
  · split
    · split_ifs
      · exact built_sendFileAttributes (s := s.advance)
      · exact built_sendFileData (s := s.advance)
      · exact built_sendFileData (s := s.advance)
    · rfl

theorem built_acceptSA : s.acceptSA.built = s.built := by
  unfold acceptSA
  split_ifs
  · exact built_resumeAt (s := s.consume.readyForData)
  · exact built_resumeAt (s := s.advance.readyForData)

theorem built_sendSA : s.sendSA.1.built = s.built := by
  unfold sendSA
  split_ifs
  · rfl
  · split
    · exact built_acceptSA
    · rfl

theorem built_sendSDW : s.sendSDW.1.built = s.built := by
  unfold sendSDW
  split
  · split_ifs
    · exact built_sendSDNextPacket (s := s.notFirst)
    · rfl
  · split
    · split_ifs
      · exact built_sendSDNextPacket.trans (built_skipped (s := s.consume))
      · exact built_sendSDNextPacket.trans (built_skipped (s := s.consume))
      · exact (built_sendSDNextPacket (s := s.advance.skipped.delivered)).trans
          (built_skipped (s := s.advance))
    · rfl

theorem built_sendSZ : (s.sendSZ h).1.built = s.built := by
  unfold sendSZ
  split
  · rfl
  · split
    · split_ifs
      · rfl
      · exact built_setupForNextFile (s := s.advance.nextUpload)
    · rfl

theorem built_sendSB : s.sendSB.1.built = s.built := by
  unfold sendSB
  simp only
  split_ifs
  · exact built_startSB
  · split
    · exact built_startSB
    · exact built_startSB

theorem built_sendState : (s.sendState h).1.built = s.built := by
  unfold sendState
  split
  · rfl
  · exact built_sendS
  · exact built_sendSF
  · exact built_sendSA
  · exact built_sendSDW
  · exact built_sendSZ
  · exact built_sendSB
  · rfl
  · rfl
  · rfl

/-- Only `sendPacket` puts a packet down in `built`. -/
theorem built_sendLoop (n : Nat) : ∀ s : Transfer, (sendLoop h n s).built = s.built := by
  induction n with
  | zero => exact fun _ => rfl
  | succ n ih =>
    intro s
    rw [sendLoop]
    split_ifs
    · exact built_sendState
    · exact (ih _).trans built_sendState

end Transfer

namespace Series
variable {built rest : List (PacketType × Nat)} {inits : Nat}

theorem nil : Series [] 0 [] := ⟨rfl, by simp, rfl⟩

theorem error (hs : Series built inits rest) (n : Nat) :
    Series (built ++ [(.kerror, n)]) inits rest where
  split := by
    rw [List.filter_append, hs.split]
    simp
  noInit := hs.noInit
  numbers := hs.numbers

theorem init (hs : Series built inits []) : Series (built ++ [(.ksinit, 0)]) (inits + 1) [] where
  split := by
    rw [List.filter_append, hs.split, List.replicate_succ']
    simp
  noInit := hs.noInit
  numbers := rfl

theorem next (hs : Series built inits rest) {type : PacketType} (hsinit : type ≠ .ksinit)
    (herror : type ≠ .kerror) :
    Series (built ++ [(type, (rest.length + 1) % 64)]) inits
      (rest ++ [(type, (rest.length + 1) % 64)]) where
  split := by
    rw [List.filter_append, hs.split]
    simp [herror]
  noInit := fun p hp => by
    cases List.mem_append.mp hp with
    | inl hp => exact hs.noInit p hp
    | inr hp => exact List.mem_singleton.mp hp ▸ hsinit
  numbers := by
    rw [List.map_append, hs.numbers, List.length_append, List.length_singleton, List.range_succ,
      List.map_append]
    rfl

end Series

/-- The state of a sender whose packets have gone out in sequence. -/
structure Numbers (s : Transfer) : Prop where
  sending : s.sending = true
  quiet : Quiet s
  notReceiving : s.state ≠ .kmRDW
  packet : s.outputPacket = none ∨
    s.state = .abort ∧ ∃ p, s.outputPacket = some p ∧ p.type = .kerror
  series : ∃ inits rest, Series s.built inits rest ∧ (s.state = .init → inits = 0) ∧
    (s.state.early = true → rest = []) ∧ (rest ≠ [] → 0 < inits) ∧
    (s.state ≠ .abort → s.state ≠ .complete →
      (s.state ≠ .init → 0 < inits) ∧ s.sequenceNumber = rest.length)

/-- Flags, state and number decide where a sender is. -/
theorem Quiet.congr {s s' : Transfer} (h : Quiet s) (hflags : s'.flags = s.flags)
    (hnumber : s'.sequenceNumber = s.sequenceNumber)
    (hstate : s'.state = s.state ∨ s'.state = .abort) : Quiet s' := by
  have h₁ : s'.firstS = s.firstS := congrArg (fun x => x.1) hflags
  have h₂ : s'.firstSB = s.firstSB := congrArg (fun x => x.2.1) hflags
  have h₃ : s'.isFirstDataPacket = s.isFirstDataPacket := congrArg (fun x => x.2.2) hflags
  rcases hstate with hs | hs
  · exact ⟨by rw [hs, h₁]; exact h.init, by rw [hs, h₁]; exact h.firstS,
      by rw [hs, h₂]; exact h.firstSB, by rw [hs, h₂]; exact h.last, h₃.trans h.notFirst,
      by rw [hs, hnumber]; exact h.early⟩
  · have hne : ∀ {state : State}, state ≠ .abort → s'.state ≠ state := fun hne hc =>
      hne (hc.symm.trans hs)
    exact {
      init := fun hc => absurd hc (hne (by decide))
      firstS := fun hc => absurd hc (hne (by decide))
      firstSB := fun hc => absurd hc (hne (by decide))
      last := fun _ => .inr (.inl hs)
      notFirst := h₃.trans h.notFirst
      early := fun hc => by rw [hs] at hc; cases hc }

theorem Numbers.inSequence {s : Transfer} (h : Numbers s) : InSequence s.built := by
  obtain ⟨inits, rest, hseries, -, -, hpos, -⟩ := h.series
  exact ⟨inits, rest, hseries, hpos⟩

/-- Taking a packet in leaves the numbers alone. -/
theorem Numbers.calm {s s' : Transfer} (h : Numbers s) (hc : Calm s s') : Numbers s' := by
  have hstate : s'.state = s.state ∨ s'.state = .abort := hc.outcome.imp (·.1) (·.1)
  obtain ⟨inits, rest, hseries, hinit, hearly, hpos, hnumber⟩ := h.series
  refine ⟨hc.sending.trans h.sending, h.quiet.congr hc.flags hc.sequenceNumber hstate, ?_, ?_,
    inits, rest, hc.built ▸ hseries, ?_⟩
  · rcases hstate with hs | hs
    · exact hs ▸ h.notReceiving
    · rw [hs]
      decide
  · rcases hc.outcome with ⟨hs, ho⟩ | ⟨hs, ho | ho⟩
    · rw [hs, ho]
      exact h.packet
    · exact h.packet.imp (ho.trans ·) fun hp => ⟨hs, by rw [ho]; exact hp.2⟩
    · exact .inr ⟨hs, ho⟩
  · rw [hc.sequenceNumber]
    rcases hstate with hs | hs
    · rw [hs]
      exact ⟨hinit, hearly, hpos, hnumber⟩
    · rw [hs]
      exact ⟨(fun hc => by cases hc), (fun hc => by cases hc), hpos, fun hc => absurd rfl hc⟩

/-- What is built goes out with the number that is next. -/
theorem Numbers.builds {s s' : Transfer} (h : Numbers s) (hb : Builds s s')
    (hbuilt : s'.built = s.built) (hlive : s.state ≠ .abort ∧ s.state ≠ .complete)
    (hfirst : s.state = .init → s'.state = .kmS ∧ s'.outputPacket.isSome) :
    Numbers s'.sendPacket := by
  have hnone : s.outputPacket = none := h.packet.resolve_right fun hp => hlive.1 hp.1
  obtain ⟨inits, rest, hseries, hinit, hearly, hpos, hnumber⟩ := h.series
  obtain ⟨hinits, hnumber⟩ := hnumber hlive.1 hlive.2
  cases hb with
  | nothing hpacket hn hs hw hq =>
    have hnone' : s'.outputPacket = none := hpacket.trans hnone
    have hinit' : s.state ≠ .init := fun hc => by
      have hsome := (hfirst hc).2
      rw [hnone'] at hsome
      cases hsome
    rw [Transfer.sendPacket_none hnone']
    refine ⟨hw.sending.trans h.sending, hq, ?_, .inl hnone', inits, rest, hbuilt ▸ hseries, ?_⟩
    · rcases hs with hs | hs
      · exact hs ▸ h.notReceiving
      · rw [hs]
        decide
    · rcases hs with hs | hs
      · rw [hs, hn]
        exact ⟨hinit, hearly, hpos, fun _ _ => ⟨hinits, hnumber⟩⟩
      · rw [hs]
        exact ⟨(fun hc => by cases hc), (fun hc => by cases hc), hpos, fun _ hc => absurd rfl hc⟩
  | sendInit he hs hn data hp hw hq =>
    obtain ⟨h₁, h₂, h₃, h₄, h₅, h₆⟩ := Transfer.sendPacket_some hp
    have hnil := hearly he
    subst hnil
    refine ⟨h₁.trans (hw.sending.trans h.sending), hq.congr h₄ h₃ (.inl h₅), ?_, .inl h₆,
      inits + 1, [], ?_, ?_⟩
    · rw [h₅, hs]
      decide
    · rw [h₂, hbuilt]
      exact hseries.init
    · rw [h₃, h₅, hs, hn]
      exact ⟨(fun hc => by cases hc), fun _ => rfl, fun hc => absurd rfl hc,
        fun _ _ => ⟨fun _ => Nat.succ_pos _, rfl⟩⟩
  | next type data hsinit herror hlate hn hp hw hq =>
    obtain ⟨h₁, h₂, h₃, h₄, h₅, h₆⟩ := Transfer.sendPacket_some hp
    have hsent : s'.sending = s.sending := hw.elim (·.sending) (·.2.sending)
    have hinit' : s.state ≠ .init := fun hc => by
      rw [(hfirst hc).1] at hlate
      cases hlate
    have hnext : s'.sequenceNumber = rest.length + 1 := by rw [hn, hnumber]
    refine ⟨h₁.trans (hsent.trans h.sending), hq.congr h₄ h₃ (.inl h₅), ?_, .inl h₆,
      inits, rest ++ [(type, (rest.length + 1) % 64)], ?_, ?_⟩
    · rw [h₅]
      exact fun hc => by
        rw [hc] at hlate
        cases hlate
    · rw [h₂, hbuilt, ← hnext]
      exact hnext ▸ hseries.next hsinit herror
    · rw [h₃, h₅, hnext, List.length_append, List.length_singleton]
      refine ⟨fun hc => ?_, fun hc => ?_, fun _ => hinits hinit', fun _ _ => ⟨fun _ => hinits hinit', rfl⟩⟩
      · rw [hc] at hlate
        cases hlate
      · rw [State.not_early hlate] at hc
        cases hc
  | error data hs hp hw hq =>
    obtain ⟨h₁, h₂, h₃, h₄, h₅, h₆⟩ := Transfer.sendPacket_some hp
    refine ⟨h₁.trans (hw.sending.trans h.sending), hq.congr h₄ h₃ (.inl h₅), ?_, .inl h₆,
      inits, rest, ?_, ?_⟩
    · rw [h₅, hs]
      decide
    · rw [h₂, hbuilt]
      exact hseries.error _
    · rw [h₅, hs]
      exact ⟨(fun hc => by cases hc), (fun hc => by cases hc), hpos, fun hc => absurd rfl hc⟩

/-- A transfer that is over sends what is left: at most an Error. -/
theorem Numbers.over {s : Transfer} (h : Numbers s) :
    Numbers s.sendPacket := by
  rcases h.packet with hp | ⟨hs, p, hp, hp'⟩
  · rwa [Transfer.sendPacket_none hp]
  · obtain ⟨h₁, h₂, h₃, h₄, h₅, h₆⟩ := Transfer.sendPacket_some hp
    obtain ⟨inits, rest, hseries, -, -, hpos, -⟩ := h.series
    refine ⟨h₁.trans h.sending, h.quiet.congr h₄ h₃ (.inl h₅), ?_, .inl h₆, inits, rest, ?_, ?_⟩
    · rw [h₅]
      exact h.notReceiving
    · rw [h₂, hp']
      exact hseries.error _
    · rw [h₅, hs]
      exact ⟨(fun hc => by cases hc), (fun hc => by cases hc), hpos, fun hc => absurd rfl hc⟩

/-- A sender between two moves. Its first call throws its input away. -/
structure Sender (s : Transfer) : Prop where
  numbers : Numbers s
  first : s.state = .init → s.tossInput = true ∧ s.inputPacket.parsedOk = false

/-- A step in which no number is skipped: a call makes a pass before it returns, and no ACK gets
to the File-Header of a sender with windows and without attributes. -/
def Regular (h : Host) (s : Transfer) : Transfer.Move → Prop
  | .pass a =>
    let t := s.takeArrival h (if s.tossInput then .short else a)
    (t.outputWindow.count = t.windoOut ∧ t.sending = true ∧ (!t.sessionParms.streaming) = true) ∨
      ¬ SkipsNumber t
  | .leave => s.state = .init → s.sentNak = false
  | _ => True

instance (h : Host) (s : Transfer) (m : Transfer.Move) : Decidable (Regular h s m) := by
  cases m <;> unfold Regular <;> infer_instance

/-- A step that leaves the packet at hand where it is. -/
theorem Sender.calm {s s' : Transfer} (h : Sender s) (hc : Calm s s')
    (htoss : s'.tossInput = s.tossInput)
    (hinput : s'.inputPacket.parsedOk = true → s.inputPacket.parsedOk = true) : Sender s' where
  numbers := h.numbers.calm hc
  first := fun hs => by
    have hinit : s.state = .init := by
      rcases hc.outcome with ⟨hs', -⟩ | ⟨hs', -⟩
      · exact hs'.symm.trans hs
      · rw [hs'] at hs
        cases hs
    obtain ⟨ht, hp⟩ := h.first hinit
    refine ⟨htoss.trans ht, ?_⟩
    cases hp' : s'.inputPacket.parsedOk with
    | false => rfl
    | true => exact (hinput hp').symm.trans hp

namespace Transfer
variable {h : Host}

theorem input_handleTimeout (hsending : s.sending = true) :
    s.handleTimeout.tossInput = s.tossInput ∧ s.handleTimeout.inputPacket = s.inputPacket := by
  unfold handleTimeout
  rw [if_pos hsending]
  split_ifs
  · simp only
    split <;> exact ⟨rfl, rfl⟩
  · exact ⟨rfl, rfl⟩

theorem input_moveWindows :
    s.moveWindows.tossInput = s.tossInput ∧ s.moveWindows.inputPacket = s.inputPacket := by
  unfold moveWindows
  split_ifs <;> exact ⟨rfl, rfl⟩

/-- The first call finds nothing. -/
theorem input_takeArrival_short (hsending : s.sending = true)
    (hparsed : s.inputPacket.parsedOk = false) :
    (s.takeArrival h .short).tossInput = s.tossInput ∧
      (s.takeArrival h .short).inputPacket = s.inputPacket := by
  have hcheck : s.checkForRepeat = s := if_pos (by rw [hparsed]; rfl)
  unfold takeArrival
  rw [decode, hcheck, saveInputPacket_of_sending hsending]
  exact input_moveWindows

/-- The first call builds the Send-Init. -/
theorem first_sendLoop {n : Nat} (hstate : s.state = .init) (hfirst : s.firstS = true)
    (hparsed : s.inputPacket.parsedOk = false) :
    (sendLoop h (n + 2) s).state = .kmS ∧ (sendLoop h (n + 2) s).outputPacket.isSome := by
  have hround : s.sendState h = (s.goto .kmS, false) := by rw [sendState, hstate]
  have hstart : (s.goto .kmS).startS = { (s.goto .kmS).ackSendInit .ksinit with firstS := false } :=
    if_pos hfirst
  have hround' : (s.goto .kmS).sendState h = ((s.goto .kmS).startS, true) := by
    rw [hstart]
    have hparsed' : (!((s.goto .kmS).startS).inputPacket.parsedOk) = true := by
      rw [hstart]
      exact (congrArg (!·) hparsed).trans rfl
    exact (if_pos hparsed').trans (by rw [hstart])
  rw [sendLoop_more hround, sendLoop_done hround', hstart]
  exact ⟨rfl, rfl⟩

end Transfer

theorem Sender.timeout {s : Transfer} (hs : Sender s) : Sender s.timeout := by
  have hcount : Sender { s with timeoutCount := s.timeoutCount + 1 } :=
    hs.calm ⟨rfl, rfl, rfl, rfl, .inl ⟨rfl, rfl⟩⟩ rfl id
  have hlate {t : Transfer} (ht : Sender t) : Sender t.handleTimeout := by
    have hinput := Transfer.input_handleTimeout ht.numbers.sending
    exact ht.calm (Transfer.calm_handleTimeout ht.numbers.sending) hinput.1 fun hp => hinput.2 ▸ hp
  unfold Transfer.timeout
  split
  · exact hs
  · simp only
    split
    · exact hlate (hcount.calm (Transfer.calm_abort _) rfl id)
    · exact hlate hcount

theorem Sender.enter {s : Transfer} (hs : Sender s) (expired : Bool) : Sender (s.enter expired) := by
  have hfirst : Sender (if s.sequenceNumber = 0 ∧ !s.sentNak then
      { (if s.state = .init ∧ !s.sending then s.nakPacket else s) with sentNak := true }
      else s) := by
    split
    · rw [if_neg (fun hc => by rw [hs.numbers.sending] at hc; cases hc.2)]
      exact hs.calm ⟨rfl, rfl, rfl, rfl, .inl ⟨rfl, rfl⟩⟩ rfl id
    · exact hs
  cases expired with
  | false => exact hfirst
  | true => exact hfirst.timeout

theorem Sender.takeArrival {h : Host} {s : Transfer} (hs : Sender s) (a : Arrival) :
    Sender (s.takeArrival h (if s.tossInput then .short else a)) where
  numbers := hs.numbers.calm (Transfer.calm_takeArrival _ hs.numbers.sending hs.numbers.notReceiving)
  first := fun hinit => by
    have hc := Transfer.calm_takeArrival (h := h) (if s.tossInput then .short else a)
      hs.numbers.sending hs.numbers.notReceiving
    have hinit' : s.state = .init := by
      rcases hc.outcome with ⟨hs', -⟩ | ⟨hs', -⟩
      · exact hs'.symm.trans hinit
      · rw [hs'] at hinit
        cases hinit
    obtain ⟨ht, hp⟩ := hs.first hinit'
    rw [if_pos ht]
    obtain ⟨h₁, h₂⟩ := Transfer.input_takeArrival_short (h := h) hs.numbers.sending hp
    exact ⟨h₁.trans ht, h₂ ▸ hp⟩

/-- After a round of the state functions the first call is over. -/
theorem Sender.send {h : Host} {s : Transfer} (hs : Sender s) (hskip : ¬ SkipsNumber s) :
    Sender (s.kermitSend h).sendPacket := by
  have hsend : (s.kermitSend h).built = s.built := Transfer.built_sendLoop 4 s
  by_cases hover : s.state = .abort ∨ s.state = .complete
  · have hidle : s.kermitSend h = s := Transfer.sendLoop_over hover
    rw [hidle]
    refine ⟨hs.numbers.over, fun hinit => ?_⟩
    have hstate : s.sendPacket.state = s.state := by
      cases ho : s.outputPacket with
      | none => rw [Transfer.sendPacket_none ho]
      | some p => exact (Transfer.sendPacket_some ho).2.2.2.2.1
    rw [hstate] at hinit
    rw [hinit] at hover
    rcases hover with hc | hc <;> cases hc
  · have hlive : s.state ≠ .abort ∧ s.state ≠ .complete := not_or.mp hover
    have hnone : s.outputPacket = none ∨ s.state = .abort := hs.numbers.packet.imp id (·.1)
    have hbuilds := Transfer.builds_kermitSend (h := h) hs.numbers.quiet hskip hnone
    have hfirst (hinit : s.state = .init) :
        (s.kermitSend h).state = .kmS ∧ (s.kermitSend h).outputPacket.isSome :=
      Transfer.first_sendLoop hinit (hs.numbers.quiet.init hinit) (hs.first hinit).2
    refine ⟨hs.numbers.builds hbuilds hsend hlive hfirst, fun hinit => ?_⟩
    have hstate : (s.kermitSend h).sendPacket.state = (s.kermitSend h).state := by
      cases ho : (s.kermitSend h).outputPacket with
      | none => rw [Transfer.sendPacket_none ho]
      | some p => exact (Transfer.sendPacket_some ho).2.2.2.2.1
    rw [hstate] at hinit
    cases hbuilds with
    | nothing hp hn hst hw hq =>
      rcases hst with hst | hst
      · rw [(hfirst (hst.symm.trans hinit)).1] at hinit
        cases hinit
      · rw [hst] at hinit
        cases hinit
    | sendInit he hst hn data hp hw hq =>
      rw [hst] at hinit
      cases hinit
    | next type data h₁ h₂ hlate hn hp hw hq =>
      rw [hinit] at hlate
      cases hlate
    | error data hst hp hw hq =>
      rw [hst] at hinit
      cases hinit

theorem Sender.pass {h : Host} {s : Transfer} (hs : Sender s) (a : Arrival)
    (hregular : Regular h s (.pass a)) : Sender (s.pass h a) := by
  have htaken := hs.takeArrival (h := h) a
  unfold Transfer.pass
  simp only
  by_cases hfull : (s.takeArrival h (if s.tossInput then .short else a)).outputWindow.count =
      (s.takeArrival h (if s.tossInput then .short else a)).windoOut ∧
      (s.takeArrival h (if s.tossInput then .short else a)).sending = true ∧
      (!(s.takeArrival h (if s.tossInput then .short else a)).sessionParms.streaming) = true
  · rw [if_pos hfull]
    exact htaken.calm Transfer.calm_consume rfl fun hp => by cases hp
  · rw [if_neg hfull, if_pos htaken.numbers.sending]
    exact htaken.send (hregular.resolve_left hfull)

theorem Sender.move {h : Host} {s : Transfer} (hs : Sender s) (m : Transfer.Move)
    (hregular : Regular h s m) : Sender (s.move h m) := by
  cases m with
  | enter expired =>
    unfold Transfer.move
    split_ifs
    · exact hs
    · exact hs.enter expired
  | interrupt => exact hs.calm (Transfer.calm_abort _) rfl id
  | pass a => exact hs.pass a hregular
  | leave =>
    refine ⟨hs.numbers.calm ⟨rfl, rfl, rfl, rfl, .inl ⟨rfl, rfl⟩⟩, fun hinit => ⟨?_, rfl⟩⟩
    exact (congrArg₂ (fun x y => x && !y) (hs.first hinit).1 (hregular hinit)).trans rfl
  | skipFile => exact hs.calm ⟨rfl, rfl, rfl, rfl, .inl ⟨rfl, rfl⟩⟩ rfl id

theorem Sender.start (settings : Settings) (options : Options) (remote : SessionParameters)
    (attributes : Attributes) (uploads : List Upload) (disk : Disk) :
    Sender (.start settings options remote attributes true uploads disk) where
  numbers :=
    { sending := rfl
      quiet :=
        { init := fun _ => rfl
          firstS := fun hs => by cases hs
          firstSB := fun hs => by cases hs
          last := fun hs => by cases hs
          notFirst := rfl
          early := fun _ => rfl }
      notReceiving := (by decide : State.init ≠ .kmRDW)
      packet := .inl rfl
      series := ⟨0, [], .nil, fun _ => rfl, fun _ => rfl, fun hc => absurd rfl hc,
        fun _ _ => ⟨fun hc => absurd rfl hc, rfl⟩⟩ }
  first := fun _ => ⟨rfl, rfl⟩

/-- In every run without a skipped number the sender's packets are numbered 0, 1, 2 and so on
modulo 64. -/
theorem inSequence_run (h : Host) (settings : Settings) (options : Options)
    (remote : SessionParameters) (attributes : Attributes) (uploads : List Upload) (disk : Disk)
    (moves : List Transfer.Move)
    (hregular : Transfer.Every h (Regular h) moves
      (.start settings options remote attributes true uploads disk)) :
    InSequence (Transfer.run h
      (.start settings options remote attributes true uploads disk) moves).built :=
  (Transfer.run_induction (fun _ m hs hr => hs.move m hr)
    (Sender.start settings options remote attributes uploads disk) hregular).numbers.inSequence

theorem InSequence.number_lt {built : List (PacketType × Nat)} (h : InSequence built)
    {type : PacketType} {number : Nat} (hmem : (type, number) ∈ built) (herror : type ≠ .kerror) :
    number < built.length := by
  obtain ⟨inits, rest, hs, hpos⟩ := h
  have hfilter : (type, number) ∈ List.replicate inits (PacketType.ksinit, 0) ++ rest := by
    rw [← hs.split]
    exact List.mem_filter.mpr ⟨hmem, decide_eq_true herror⟩
  have hlength : inits + rest.length ≤ built.length := by
    have hle := List.length_filter_le (fun p => decide (p.1 ≠ .kerror)) built
    rw [hs.split] at hle
    simpa using hle
  rcases List.mem_append.mp hfilter with hinit | hrest
  · have hzero : number = 0 := congrArg Prod.snd (List.eq_of_mem_replicate hinit)
    rw [hzero]
    exact List.length_pos_of_mem hmem
  · have hnumber : number ∈ rest.map Prod.snd := List.mem_map.mpr ⟨_, hrest, rfl⟩
    rw [hs.numbers] at hnumber
    obtain ⟨i, hi, heq⟩ := List.mem_map.mp hnumber
    have hi' := List.mem_range.mp hi
    have hinits := hpos (List.ne_nil_of_mem hrest)
    have hmod := Nat.mod_le (i + 1) 64
    omega

/-- A sender with a file of two bytes. -/
def smallUpload : Transfer :=
  .start ⟨false, false, false, false⟩ ⟨false, false, false⟩
    (setDefaultSessionParameters ⟨false, false, false⟩) ⟨0, 0, false, false, .warn⟩ true
    [⟨[102], [104, 105], [], 0⟩] []

/-- The receiver's parameters, with a CAPAS and two window slots or none. -/
def receiverParameters (capas windo : UInt8) : List UInt8 :=
  [112, 37, 32, 64, 45, 35, 89, 51, 126, capas, windo]

/-- The Send-Init goes out, is acknowledged, and then the File-Header is. -/
def openingMoves (capas windo : UInt8) : List Transfer.Move :=
  [.enter false, .pass .short, .leave, .enter false,
    .pass (.packet (some .kack) 0 (receiverParameters capas windo)),
    .pass (.packet (some .kack) 1 [])]

theorem inSequence_run_opening :
    InSequence (Transfer.run ⟨fun _ => false, fun _ => false⟩ smallUpload
      (openingMoves 40 32)).built :=
  inSequence_run ⟨fun _ => false, fun _ => false⟩ _ _ _ _ _ _ _ (by decide)

/-- A receiver with windows and without attributes: the first packet with data has the number 3. -/
theorem not_inSequence_run :
    ¬ InSequence (Transfer.run ⟨fun _ => false, fun _ => false⟩ smallUpload
      (openingMoves 36 34)).built := by
  have hbuilt : (Transfer.run ⟨fun _ => false, fun _ => false⟩ smallUpload
      (openingMoves 36 34)).built = [(.ksinit, 0), (.kfile, 1), (.kdata, 3)] := by decide
  rw [hbuilt]
  intro h
  have hmem : (PacketType.kdata, 3) ∈ [(PacketType.ksinit, 0), (.kfile, 1), (.kdata, 3)] := by
    decide
  exact absurd (h.number_lt hmem (by decide)) (by decide)

end CProgram.Kermit
