import CProgram.Zmodem.Receiver

/-! Where the receiver writes: every byte of a ZDATA frame goes to the offset that its frame gives
it, as long as each ZDATA header that is accepted carries the receiver's own file position. -/
namespace CProgram.Zmodem

/-- The offset that the frame gives to the next byte, with the newest event first. -/
def nextOffset : List Event → Nat
  | [] => 0
  | .zdata offset _ :: _ => offset
  | .write _ data :: log => nextOffset log + data.length
  | .zeof _ _ :: log => nextOffset log

/-- Every write is at the offset its frame gives it. -/
def Labelled (log : List Event) : Prop :=
  ∀ position data log', .write position data :: log' <:+ log → position = nextOffset log'

/-- Every ZDATA header accepted carries the file position of the receiver. -/
def HeadersMatch (log : List Event) : Prop :=
  ∀ offset position, .zdata offset position ∈ log → offset = position

/-- Every subpacket accepted is what the file holds from the offset that its frame gives it. -/
def Pieces (file : List UInt8) (log : List Event) : Prop :=
  ∀ position data log', .write position data :: log' <:+ log →
    data <+: file.drop (nextOffset log')

/-- Every ZEOF accepted gives the length of the file. -/
def Ends (file : List UInt8) (log : List Event) : Prop :=
  ∀ argument content, .zeof argument content ∈ log → argument = file.length

namespace Receiver

/-- The rounds of one file transfer: the next ZFILE ends it. -/
def transfer : List (Host × List UInt8) → Receiver → Receiver
  | [], r => r
  | (h, input) :: rounds, r =>
    if r.state = .zfile then r else transfer rounds (r.receiveRound h input).1

/-- What a file transfer is about: the file position, the open file, the disk and the events. -/
structure View where
  position : Nat
  stream : Option Stream
  disk : Disk
  log : List Event

def view (r : Receiver) : View := ⟨r.filePosition, r.fileStream, r.disk, r.log⟩

/-- The receiver collects the subpackets of a ZDATA frame. -/
def InFrame (r : Receiver) : Prop := r.state = .zdata ∧ r.priorState = .zrposWait

/-- The states in which the file is open. -/
def Open (r : Receiver) : Prop :=
  r.state = .zrpos ∨ r.state = .zrposWait ∨ r.state = .zcrc ∨ r.state = .zcrcWait ∨ r.InFrame

/-- Neither file nor events change, but that the file may be closed. -/
structure Kept (r r' : Receiver) : Prop where
  position_eq : r'.filePosition = r.filePosition
  stream : ∀ s, r'.fileStream = some s → r.fileStream = some s
  disk_eq : r'.disk = r.disk
  log_eq : r'.log = r.log

/-- What is left of the file transfer is as it was, and no file is opened and no frame begun. -/
structure Quiet (r r' : Receiver) : Prop where
  kept : Kept r r'
  opened : r'.Open → r.Open
  inFrame : r'.InFrame → r.InFrame

/-- What a round can do to the file. -/
inductive FileStep (r r' : Receiver) : Prop where
  | quiet (h : Quiet r r')
  | header (offset : Nat) (hstate : r.state = .zrposWait)
      (hview : r'.view = { r.view with log := .zdata offset r.filePosition :: r.log })
      (hframe : r'.InFrame)
  | write (s : Stream) (data : List UInt8) (hframe : r.InFrame) (hs : r.fileStream = some s)
      (hview : r'.view = ⟨r.filePosition + data.length,
        some { s with position := s.position + data.length },
        r.disk.put s.name (((r.disk.lookup s.name).getD []).takeD s.position 0 ++ data ++
          ((r.disk.lookup s.name).getD []).drop (s.position + data.length)),
        .write s.position data :: r.log⟩)
  | close (s : Stream) (hstate : r.state = .zrposWait) (hs : r.fileStream = some s)
      (hview : r'.view = { r.view with
        stream := none
        log := .zeof r.filePosition (r.received.getD []) :: r.log })
      (hopen : ¬ r'.Open)
  | renew (name : List UInt8) (hframe : ¬ r'.InFrame)
      (hview : r'.view = ⟨0, some ⟨name, 0⟩, r.disk.put name [], r.log⟩)
  | drop (hs : r'.fileStream = none) (hdisk : r'.disk = r.disk) (hlog : r'.log = r.log)
      (hopen : ¬ r'.Open)

variable {h : Host} {r r' : Receiver}

namespace Kept

theorem refl : Kept r r := ⟨rfl, fun _ => id, rfl, rfl⟩

theorem of_view (hv : r'.view = r.view) : Kept r r' := by
  simp only [view, View.mk.injEq] at hv
  obtain ⟨hp, hs, hd, hl⟩ := hv
  exact ⟨hp, fun s h => hs.symm.trans h, hd, hl⟩

theorem trans {r'' : Receiver} (h₁ : Kept r r') (h₂ : Kept r' r'') : Kept r r'' where
  position_eq := h₂.position_eq.trans h₁.position_eq
  stream s h := h₁.stream s (h₂.stream s h)
  disk_eq := h₂.disk_eq.trans h₁.disk_eq
  log_eq := h₂.log_eq.trans h₁.log_eq

theorem same {r'' : Receiver} (hk : Kept r r') (hv : r''.view = r'.view) : Kept r r'' :=
  hk.trans (.of_view hv)

theorem stop (hk : Kept r r') (state : State) : Kept r (r'.stop state) :=
  ⟨hk.position_eq, fun _ h => (nomatch h), hk.disk_eq, hk.log_eq⟩

theorem errors (hk : Kept r r') : Kept r r'.statsIncrementErrors := by
  unfold statsIncrementErrors
  split_ifs
  · have hcount : Kept r r'.countError := hk.same rfl
    exact hcount.stop .abort
  · exact hk.same rfl

end Kept

theorem kept_timeout : Kept r r.timeout := by
  have hcount : Kept r r.countTimeout.statsIncrementErrors := .errors (.of_view rfl)
  unfold timeout
  split_ifs
  · exact hcount.stop .abort
  · exact hcount

theorem kept_takeHeader (p : Parsed) : Kept r (r.takeHeader p).1 := by
  obtain ⟨code, discard, packet⟩ := p
  cases code with
  | ok =>
    simp only [takeHeader]
    split_ifs <;> exact .of_view rfl
  | crcerror => exact .errors (.of_view rfl)
  | nodata => exact .of_view rfl
  | invalid => exact .of_view rfl

theorem not_open_abort : ¬ r.abort.1.Open := by simp [Open, InFrame, abort, Receiver.stop]

/-- A header that was read leaves the file alone. -/
theorem view_parse (hp : r.parse.2 = .ok) : r.parse.1.view = r.view := by
  revert hp
  rw [parse]
  cases parsePacket (crc32Tab r.crcTabMade) r.packetBuffer.valid with
  | mk code discard packet =>
    intro hp
    cases code with
    | ok =>
      simp only [takeHeader]
      split_ifs <;> rfl
    | crcerror => cases hp
    | nodata => rfl
    | invalid => rfl

theorem state_statsIncrementErrors :
    r.statsIncrementErrors.state = r.state ∨ r.statsIncrementErrors.state = .abort := by
  unfold statsIncrementErrors
  split_ifs
  · exact .inr rfl
  · exact .inl rfl

theorem priorState_statsIncrementErrors : r.statsIncrementErrors.priorState = r.priorState := by
  unfold statsIncrementErrors
  split_ifs <;> rfl

theorem open_statsIncrementErrors (ho : r.statsIncrementErrors.Open) : r.Open := by
  rcases r.state_statsIncrementErrors with hs | hs
  · rw [Open, InFrame, hs, priorState_statsIncrementErrors] at ho
    exact ho
  · simp [Open, InFrame, hs] at ho

theorem inFrame_statsIncrementErrors (hf : r.statsIncrementErrors.InFrame) : r.InFrame := by
  rcases r.state_statsIncrementErrors with hs | hs
  · rw [InFrame, hs, priorState_statsIncrementErrors] at hf
    exact hf
  · simp [InFrame, hs] at hf

namespace Quiet

theorem refl : Quiet r r := ⟨.refl, id, id⟩

/-- A receiver that is not in any of the states with an open file. -/
theorem of_closed (hk : Kept r r') (ho : ¬ r'.Open) : Quiet r r' where
  kept := hk
  opened h := absurd h ho
  inFrame h := absurd (.inr (.inr (.inr (.inr h)))) ho

/-- A receiver that is between two frames of an open file. -/
theorem of_open (hk : Kept r r') (ho : r.Open) (hf : ¬ r'.InFrame) : Quiet r r' :=
  ⟨hk, fun _ => ho, fun h => absurd h hf⟩

theorem trans {r'' : Receiver} (h₁ : Quiet r r') (h₂ : Quiet r' r'') : Quiet r r'' where
  kept := h₁.kept.trans h₂.kept
  opened h := h₁.opened (h₂.opened h)
  inFrame h := h₁.inFrame (h₂.inFrame h)

end Quiet

theorem quiet_garbledHeader : Quiet r r.garbledHeader.1 :=
  ⟨.same (.errors .refl) rfl, open_statsIncrementErrors,
    inFrame_statsIncrementErrors⟩

/-- A header that could not be read does not change the state, but for the errors it counts. -/
theorem quiet_takeHeader (p : Parsed) (hp : (r.takeHeader p).2 ≠ .ok) :
    Quiet r (r.takeHeader p).1 := by
  obtain ⟨code, discard, packet⟩ := p
  cases code with
  | ok =>
    simp only [takeHeader] at hp
    split_ifs at hp <;> exact absurd rfl hp
  | crcerror =>
    exact ⟨kept_takeHeader _, open_statsIncrementErrors, inFrame_statsIncrementErrors⟩
  | nodata => exact ⟨.of_view rfl, id, id⟩
  | invalid => exact ⟨.of_view rfl, id, id⟩

/-- A header that was read switches to data if some follows. -/
theorem state_takeHeader (p : Parsed) (hp : (r.takeHeader p).2 = .ok) :
    if (r.takeHeader p).1.packet.type.hasData then
      (r.takeHeader p).1.state = .zdata ∧ (r.takeHeader p).1.priorState = r.state
    else (r.takeHeader p).1.state = r.state ∧ (r.takeHeader p).1.priorState = r.priorState := by
  obtain ⟨code, discard, packet⟩ := p
  cases code with
  | ok => by_cases hdata : packet.type.hasData <;> simp [takeHeader, hdata]
  | crcerror => simp [takeHeader] at hp
  | nodata => simp [takeHeader] at hp
  | invalid => simp [takeHeader] at hp

/-- A waiting state: what it does is up to the header, the answer to a garbled one, and the
timer. -/
theorem fileStep_await {garbled accept expired : Receiver → Receiver × Bool}
    (hg : ∀ r₁ : Receiver, Quiet r r₁ → FileStep r (garbled r₁).1)
    (ha : r.parse.2 = .ok → FileStep r (accept r.parse.1).1)
    (he : ∀ r₁ : Receiver, Kept r r₁ → FileStep r (expired r₁).1) :
    FileStep r (r.await h garbled accept expired).1 := by
  unfold await
  split_ifs
  · cases hparse : r.parse.2 with
    | invalid => exact hg _ (quiet_takeHeader _ (by rw [parse] at hparse; simp [hparse]))
    | crcerror => exact hg _ (quiet_takeHeader _ (by rw [parse] at hparse; simp [hparse]))
    | nodata => exact .quiet (quiet_takeHeader _ (by rw [parse] at hparse; simp [hparse]))
    | ok => exact ha hparse
  · exact he _ kept_timeout
  · exact .quiet .refl

theorem fileStep_closed (hk : Kept r r') (ho : ¬ r'.Open) : FileStep r r' :=
  .quiet (.of_closed hk ho)

theorem fileStep_zchallengeWait : FileStep r (r.receiveZchallengeWait h).1 := by
  refine fileStep_await (fun r₁ h₁ => .quiet (h₁.trans quiet_garbledHeader)) ?_ ?_
  · intro hparse
    have hk : Kept r r.parse.1 := .of_view (view_parse hparse)
    generalize r.parse.1 = r₁ at hk ⊢
    unfold acceptZchallengeWait
    split
    · split_ifs
      · exact fileStep_closed (hk.same rfl) (by simp [Open, InFrame, goto])
      · exact fileStep_closed (hk.errors.stop .abort) not_open_abort
    · exact fileStep_closed (hk.errors.same rfl) (by simp [Open, InFrame, goto])
    · exact fileStep_closed (hk.same rfl) (by simp [Open, InFrame, goto])
    · exact fileStep_closed (hk.stop .abort) not_open_abort
  · intro r₁ hk
    exact fileStep_closed (hk.same rfl) (by simp [Open, InFrame, goto])

/-- A file that is made anew, unless it cannot be. -/
theorem fileStep_openNewFile {r₁ : Receiver} (hv : r₁.view = r.view) :
    FileStep r (r₁.openNewFile h).1 := by
  have hk : Kept r r₁ := .of_view hv
  simp only [view, View.mk.injEq] at hv
  unfold openNewFile
  by_cases hstat : h.statFails (r₁.disk.freeName h.statFails r₁.fileName)
  · simp only [hstat, if_true]
    exact fileStep_closed ⟨hk.position_eq, fun _ h => (nomatch h), hk.disk_eq, hk.log_eq⟩ not_open_abort
  · simp only [hstat, openFile, Bool.false_eq_true, if_false]
    by_cases hopen : h.openFails (r₁.disk.freeName h.statFails r₁.fileName)
    · simp only [hopen, if_true]
      exact .drop rfl hk.disk_eq hk.log_eq not_open_abort
    · simp only [hopen, Bool.false_eq_true, if_false]
      exact .renew (r₁.disk.freeName h.statFails r₁.fileName) (by simp [InFrame]) (by simp [view, hv])

theorem fileStep_zcrcWait (hstate : r.state = .zcrcWait) : FileStep r (r.receiveZcrcWait h).1 := by
  have ho : r.Open := by simp [Open, hstate]
  refine fileStep_await (fun r₁ h₁ => .quiet (h₁.trans quiet_garbledHeader)) ?_ ?_
  · intro hparse
    have hv : r.parse.1.view = r.view := view_parse hparse
    generalize r.parse.1 = r₁ at hv ⊢
    have hk : Kept r r₁ := .of_view hv
    unfold acceptZcrcWait
    split
    · split_ifs
      · exact fileStep_closed (hk.same rfl) (by simp [Open, InFrame, goto])
      · exact .quiet (.of_open (hk.same rfl) ho (by simp [InFrame, goto]))
      · exact fileStep_openNewFile hv
    · exact .quiet (.of_open (hk.errors.same rfl) ho (by simp [InFrame, goto]))
    · exact .quiet (.of_open (hk.errors.same rfl) ho (by simp [InFrame, goto]))
    · exact fileStep_closed (hk.stop .abort) not_open_abort
  · intro r₁ hk
    exact .quiet (.of_open (hk.same rfl) ho (by simp [InFrame, goto]))

theorem not_open_zrinitAgain : ¬ r.zrinitAgain.1.Open := by
  unfold zrinitAgain
  split_ifs <;> simp [Open, InFrame, goto]

theorem view_zrinitAgain : r.zrinitAgain.1.view = r.view := by
  unfold zrinitAgain
  split_ifs <;> rfl

theorem fileStep_zrinitWait (hstate : r.state = .zrinitWait) :
    FileStep r (r.receiveZrinitWait h).1 := by
  refine fileStep_await (fun r₁ h₁ => .quiet (h₁.trans quiet_garbledHeader)) ?_ ?_
  · intro hparse
    have hk : Kept r r.parse.1 := .of_view (view_parse hparse)
    have hs := state_takeHeader _ hparse
    rw [← parse] at hs
    generalize r.parse.1 = r₁ at hk hs ⊢
    unfold acceptZrinitWait
    split
    · exact fileStep_closed (hk.same rfl) (by simp [Open, InFrame, goto])
    · exact fileStep_closed (hk.same rfl) (by simp [Open, InFrame, goto])
    · exact fileStep_closed (hk.same rfl) (by simp [Open, InFrame, collect, goto, startData])
    · -- a command stays with the state that the header switched to
      next htype =>
      rw [htype, hstate] at hs
      exact fileStep_closed hk (by simp [Open, InFrame, hs.1, hs.2])
    · exact fileStep_closed (hk.same rfl) (by simp [Open, InFrame, collect, goto, startData])
    · exact fileStep_closed (hk.errors.same view_zrinitAgain) not_open_zrinitAgain
    · exact fileStep_closed (hk.stop .abort) not_open_abort
  · intro r₁ hk
    exact fileStep_closed (hk.same view_zrinitAgain) not_open_zrinitAgain

theorem fileStep_zrposWait (hstate : r.state = .zrposWait) :
    FileStep r (r.receiveZrposWait h).1 := by
  have ho : r.Open := by simp [Open, hstate]
  refine fileStep_await ?_ ?_ ?_
  · intro r₁ h₁
    split_ifs
    · exact .quiet (h₁.trans quiet_garbledHeader)
    · exact .quiet h₁
  · intro hparse
    have hv : r.parse.1.view = r.view := view_parse hparse
    have hs := state_takeHeader _ hparse
    rw [← parse] at hs
    generalize r.parse.1 = r₁ at hv hs ⊢
    have hk : Kept r r₁ := .of_view hv
    have hv' := hv
    simp only [view, View.mk.injEq] at hv'
    unfold acceptZrposWait
    split
    · next htype =>
      rw [htype, hstate] at hs
      unfold acceptZeof
      split_ifs with hlen hstream
      · exact .quiet (.of_open (hk.same rfl) ho (by simp [InFrame, crash, hs.1]))
      · obtain ⟨s, hs⟩ := Option.ne_none_iff_exists'.mp hstream
        refine .close s hstate (hv'.2.1.symm.trans hs) ?_ (by simp [Open, InFrame, goto])
        simp [view, goto, buildPacket, received, ← hlen, hv']
      · exact .quiet (.of_open (hk.errors.same rfl) ho (by simp [InFrame, goto]))
    · exact .header (bigToLittleEndian r₁.packet.argument).toNat hstate
        (by simp [view, acceptZdata, collect, goto, startData, hv'])
        (by simp [InFrame, acceptZdata, collect, goto, startData])
    · exact .quiet (.of_open (hk.errors.same rfl) ho (by simp [InFrame, goto]))
    · exact fileStep_closed (hk.stop .abort) not_open_abort
  · intro r₁ hk
    exact .quiet (.of_open (hk.same rfl) ho (by simp [InFrame, goto]))

@[simp] theorem view_nextState : r.nextState.1.view = r.view := by
  unfold nextState
  split_ifs
  · split <;> rfl
  · rfl

/-- `receive_zdata` ends in a frame only if it was in one. -/
theorem quiet_nextState (hstate : r.state = .zdata) : Quiet r r.nextState.1 := by
  have hframe (h : r.nextState.1.Open) : r.InFrame := by
    unfold nextState at h
    split_ifs at h with hprior
    · split at h <;> simp [Open, InFrame, goto, buildPacket, hprior] at h
    · simpa [Open, InFrame, goto, hstate] using h
  refine ⟨.of_view view_nextState, fun h => .inr (.inr (.inr (.inr (hframe h)))), fun h => hframe ?_⟩
  exact .inr (.inr (.inr (.inr h)))

theorem fileStep_acceptSubpacket {r₁ : Receiver} (hr : Quiet r r₁) (hv : r₁.view = r.view)
    (hstate : r₁.state = .zdata) (hdata : r₁.packet.dataN ≤ r₁.packet.data.length) (escape : UInt8) :
    FileStep r (r₁.acceptSubpacket escape).1 := by
  unfold acceptSubpacket
  by_cases hprior : r₁.priorState = .zrposWait
  · have hframe : r.InFrame := hr.inFrame ⟨hstate, hprior⟩
    have hend (r₂ : Receiver) (ack : Prop) [Decidable ack] (type : PacketType) (n : UInt32) :
        (let r₃ := if ack then r₂.startData.buildPacket type n else r₂.startData
          if escape = zcrce ∨ escape = zcrcw then r₃.goto .zrposWait else r₃.nextState).1.view =
          r₂.view := by
      dsimp only
      split_ifs <;> first | exact view_nextState | rfl
    simp only [view, View.mk.injEq] at hv
    simp only [hprior, if_true]
    cases hs : r₁.fileStream with
    | none =>
      refine .quiet ⟨.of_view ((hend _ _ _ _).trans ?_), fun _ => .inr (.inr (.inr (.inr hframe))),
        fun _ => hframe⟩
      simp [writePacket, hs, view, hv]
      exact hs.symm.trans hv.2.1
    | some s =>
      refine .write s (r₁.packet.data.take r₁.packet.dataN) hframe (hv.2.1.symm.trans hs)
        ((hend _ _ _ _).trans ?_)
      simp [writePacket, hs, view, hv, hdata]
  · simp only [hprior, if_false]
    exact .quiet (hr.trans (quiet_nextState hstate))

theorem fileStep_rejectSubpacket {r₁ : Receiver} (hr : Quiet r r₁) (hstate : r₁.state = .zdata) :
    FileStep r r₁.rejectSubpacket.1 := by
  unfold rejectSubpacket
  by_cases hprior : r₁.priorState = .zrposWait
  · have hframe : r.InFrame := hr.inFrame ⟨hstate, hprior⟩
    simp only [hprior, if_true]
    exact .quiet (.of_open (hr.kept.errors.same rfl) (.inr (.inr (.inr (.inr hframe)))) (by simp [InFrame]))
  · simp only [hprior, if_false]
    split_ifs
    · exact fileStep_closed (hr.kept.errors.same rfl) (by simp [Open, InFrame])
    · exact .quiet (hr.trans (quiet_nextState hstate))

theorem fileStep_zdata (hstate : r.state = .zdata) : FileStep r (r.receiveZdata h).1 := by
  unfold receiveZdata
  split
  · exact .quiet ⟨.of_view rfl, id, id⟩
  · exact fileStep_closed ⟨rfl, fun _ h => (nomatch h), rfl, rfl⟩ not_open_abort
  · dsimp only
    split_ifs
    · exact .quiet ⟨.of_view rfl, id, id⟩
    · unfold receiveSubpacket
      dsimp only
      split_ifs
      · exact fileStep_closed ⟨rfl, fun _ h => (nomatch h), rfl, rfl⟩ not_open_abort
      · refine fileStep_acceptSubpacket ?_ ?_ ?_ ?_ _
        · exact ⟨.of_view rfl, id, id⟩
        · rfl
        · exact hstate
        · simp only [List.length_append, List.length_take, List.length_drop, List.takeD_length]
          omega
      · refine fileStep_rejectSubpacket ?_ ?_
        · exact ⟨.of_view rfl, id, id⟩
        · exact hstate
      · refine fileStep_acceptSubpacket ?_ ?_ ?_ ?_ _
        · exact ⟨.of_view rfl, id, id⟩
        · rfl
        · exact hstate
        · simp only [List.length_append, List.length_take, List.length_drop, List.takeD_length]
          omega
      · refine fileStep_rejectSubpacket ?_ ?_
        · exact ⟨.of_view rfl, id, id⟩
        · exact hstate

theorem FileStep.of_fill {input : List UInt8}
    (hstep : FileStep { r with packetBuffer := r.packetBuffer.fill input } r') :
    FileStep r r' := by
  cases hstep with
  | quiet hq =>
    obtain ⟨hp, hs, hd, hl⟩ := hq.kept
    exact .quiet ⟨⟨hp, hs, hd, hl⟩, hq.opened, hq.inFrame⟩
  | header offset hstate hview hframe => exact .header offset hstate hview hframe
  | write s data hframe hs hview => exact .write s data hframe hs hview
  | close s hstate hs hview hopen => exact .close s hstate hs hview hopen
  | renew name hframe hview => exact .renew name hframe hview
  | drop hs hdisk hlog hopen => exact .drop hs hdisk hlog hopen

theorem fileStep_state (hstate : r.state ≠ .zfile) : FileStep r (r.receiveState h).1 := by
  unfold receiveState
  split
  · split_ifs <;> exact fileStep_closed (.of_view rfl) (by simp [Open, InFrame, goto])
  · exact fileStep_closed (.of_view rfl) (by simp [Open, InFrame, goto, receiveZchallenge])
  · exact fileStep_zchallengeWait
  · next hs =>
    unfold receiveZcrc
    split_ifs
    · exact .quiet ⟨.of_view rfl, id, id⟩
    · exact .quiet (.of_open (.of_view rfl) (by simp [Open, hs]) (by simp [InFrame, goto]))
  · next hs => exact fileStep_zcrcWait hs
  · exact fileStep_closed (.of_view rfl) (by simp [Open, InFrame, goto, receiveZrinit])
  · next hs => exact fileStep_zrinitWait hs
  · next hs => exact .quiet (.of_open (.of_view rfl) (by simp [Open, hs])
      (by simp [InFrame, goto, receiveZrpos]))
  · next hs => exact fileStep_zrposWait hs
  · next hs => exact absurd hs hstate
  · unfold receiveZskip
    split_ifs
    · exact .quiet ⟨.of_view rfl, id, id⟩
    · exact .drop rfl rfl rfl (by simp [Open, InFrame, goto])
  · next hs => exact fileStep_zdata hs
  · exact fileStep_closed (.stop .refl .complete) (by simp [Open, InFrame, stop])
  · exact .quiet .refl
  · exact .quiet .refl
  · exact .quiet ⟨.of_view rfl, id, id⟩

/-- What a round does to the file, from any state but that in which the next file is opened. -/
theorem fileStep_round (hstate : r.state ≠ .zfile) (input : List UInt8) :
    FileStep r (r.receiveRound h input).1 := by
  unfold receiveRound
  split_ifs
  · exact .quiet .refl
  · exact .of_fill (fileStep_state hstate)

end Receiver

theorem labelled_cons {e : Event} {log : List Event} (hlog : Labelled log)
    (he : ∀ position data, e = .write position data → position = nextOffset log) :
    Labelled (e :: log) := by
  intro position data log' hsuffix
  rcases List.suffix_cons_iff.mp hsuffix with heq | hrest
  · obtain ⟨rfl, rfl⟩ := List.cons.inj heq
    exact he position data rfl
  · exact hlog position data log' hrest

theorem HeadersMatch.tail {e : Event} {log : List Event} (h : HeadersMatch (e :: log)) :
    HeadersMatch log := fun offset position hm => h offset position (List.mem_cons_of_mem _ hm)

theorem Pieces.tail {file : List UInt8} {e : Event} {log : List Event}
    (h : Pieces file (e :: log)) : Pieces file log :=
  fun position data log' hs => h position data log' (hs.trans (List.suffix_cons _ _))

theorem Ends.tail {file : List UInt8} {e : Event} {log : List Event} (h : Ends file (e :: log)) :
    Ends file log := fun argument content hm => h argument content (List.mem_cons_of_mem _ hm)

/-- A piece of the file behind what is already there. -/
theorem append_prefix {file content data : List UInt8} {n : Nat} (hc : content <+: file)
    (hn : content.length = n) (hd : data <+: file.drop n) : content ++ data <+: file := by
  obtain ⟨rest, rfl⟩ := hc
  rw [← hn, List.drop_left] at hd
  exact (List.prefix_append_right_inj content).mpr hd

namespace Receiver
variable {h : Host} {r r' : Receiver} {file : List UInt8}

/-- The open file is as long as the receiver thinks, and every write so far was labelled. -/
structure Sound (r : Receiver) : Prop where
  stream : ∀ s, r.fileStream = some s →
    ∃ content, r.disk.lookup s.name = some content ∧ content.length = s.position
  aligned : r.Open → ∀ s, r.fileStream = some s → s.position = r.filePosition
  frame : HeadersMatch r.log → r.InFrame → r.filePosition = nextOffset r.log
  labelled : HeadersMatch r.log → Labelled r.log

theorem Sound.step (hr : r.Sound) (hstep : FileStep r r') : r'.Sound := by
  cases hstep with
  | quiet hq =>
    obtain ⟨hp, hs, hd, hl⟩ := hq.kept
    refine ⟨fun s h => ?_, fun ho s h => ?_, fun hm hf => ?_, fun hm => ?_⟩
    · rw [hd]
      exact hr.stream s (hs s h)
    · rw [hp]
      exact hr.aligned (hq.opened ho) s (hs s h)
    · rw [hl] at hm ⊢
      rw [hp]
      exact hr.frame hm (hq.inFrame hf)
    · rw [hl] at hm ⊢
      exact hr.labelled hm
  | header offset hstate hview hframe =>
    simp only [view, View.mk.injEq] at hview
    obtain ⟨hp, hs, hd, hl⟩ := hview
    refine ⟨?_, fun _ => ?_, fun hm _ => ?_, fun hm => ?_⟩
    · rw [hs, hd]
      exact hr.stream
    · rw [hs, hp]
      exact hr.aligned (.inr (.inl hstate))
    · rw [hl] at hm ⊢
      rw [hp]
      exact (hm offset r.filePosition (List.mem_cons_self)).symm
    · rw [hl] at hm ⊢
      exact labelled_cons (hr.labelled hm.tail) (by simp)
  | write s data hframe hs hview =>
    simp only [view, View.mk.injEq] at hview
    obtain ⟨hp, hs', hd, hl⟩ := hview
    obtain ⟨content, hc, hlen⟩ := hr.stream s hs
    have hpos : s.position = r.filePosition := hr.aligned (.inr (.inr (.inr (.inr hframe)))) s hs
    refine ⟨fun s₂ h₂ => ?_, fun _ s₂ h₂ => ?_, fun hm _ => ?_, fun hm => ?_⟩
    · obtain rfl := Option.some.inj (hs'.symm.trans h₂)
      rw [hd]
      refine ⟨_, Disk.lookup_put _ _ _, ?_⟩
      simp only [hc, Option.getD_some, List.length_append, List.takeD_length, List.length_drop]
      omega
    · obtain rfl := Option.some.inj (hs'.symm.trans h₂)
      simp only [hp, hpos]
    · rw [hl] at hm ⊢
      rw [hp, hr.frame hm.tail hframe]
      rfl
    · rw [hl] at hm ⊢
      refine labelled_cons (hr.labelled hm.tail) fun position data' he => ?_
      obtain ⟨rfl, -⟩ := Event.write.inj he
      rw [hpos, hr.frame hm.tail hframe]
  | close s hstate hs hview hopen =>
    simp only [view, View.mk.injEq] at hview
    obtain ⟨hp, hs', hd, hl⟩ := hview
    refine ⟨by simp [hs'], fun ho => absurd ho hopen,
      fun _ hf => absurd (.inr (.inr (.inr (.inr hf)))) hopen, fun hm => ?_⟩
    rw [hl] at hm ⊢
    exact labelled_cons (hr.labelled hm.tail) (by simp)
  | renew name hframe hview =>
    simp only [view, View.mk.injEq] at hview
    obtain ⟨hp, hs, hd, hl⟩ := hview
    refine ⟨fun s₂ h₂ => ?_, fun _ s₂ h₂ => ?_, fun _ hf => absurd hf hframe, fun hm => ?_⟩
    · obtain rfl := Option.some.inj (hs.symm.trans h₂)
      exact ⟨[], by rw [hd, Disk.lookup_put], rfl⟩
    · obtain rfl := Option.some.inj (hs.symm.trans h₂)
      exact hp.symm
    · rw [hl] at hm ⊢
      exact hr.labelled hm
  | drop hs hdisk hlog hopen =>
    refine ⟨by simp [hs], fun ho => absurd ho hopen,
      fun _ hf => absurd (.inr (.inr (.inr (.inr hf)))) hopen, fun hm => ?_⟩
    rw [hlog] at hm ⊢
    exact hr.labelled hm

/-- What has been received of a file, if all that was accepted is true of it. -/
structure Whole (file : List UInt8) (r : Receiver) : Prop where
  received : HeadersMatch r.log → Pieces file r.log → Ends file r.log →
    ∀ content, r.received = some content → content <+: file
  closed : HeadersMatch r.log → Pieces file r.log → Ends file r.log →
    ∀ argument content, .zeof argument content ∈ r.log → content = file

theorem Whole.step (hr : r.Sound) (hw : r.Whole file) (hstep : FileStep r r') :
    r'.Whole file := by
  cases hstep with
  | quiet hq =>
    obtain ⟨-, hs, hd, hl⟩ := hq.kept
    constructor
    · rw [hl]
      intro hm hp he content hrec
      obtain ⟨s, h, hcontent⟩ := Option.bind_eq_some_iff.mp hrec
      rw [hd] at hcontent
      exact hw.received hm hp he content (Option.bind_eq_some_iff.mpr ⟨s, hs s h, hcontent⟩)
    · rw [hl]
      exact hw.closed
  | header offset hstate hview hframe =>
    simp only [view, View.mk.injEq] at hview
    obtain ⟨-, hs, hd, hl⟩ := hview
    constructor
    · rw [hl, Receiver.received, hs, hd]
      exact fun hm hp he => hw.received hm.tail hp.tail he.tail
    · rw [hl]
      intro hm hp he argument content hmem
      exact hw.closed hm.tail hp.tail he.tail argument content (by simpa using hmem)
  | write s data hframe hs hview =>
    simp only [view, View.mk.injEq] at hview
    obtain ⟨-, hs', hd, hl⟩ := hview
    obtain ⟨content, hc, hlen⟩ := hr.stream s hs
    have hpos : s.position = r.filePosition := hr.aligned (.inr (.inr (.inr (.inr hframe)))) s hs
    constructor
    · rw [hl]
      intro hm hp he content' hrec
      have hold := hw.received hm.tail hp.tail he.tail content (by simp [Receiver.received, hs, hc])
      have hnew : content' = content ++ data := by
        rw [Receiver.received, hs', hd, Option.bind_some, Disk.lookup_put] at hrec
        rw [← Option.some.inj hrec, hc, Option.getD_some, ← hlen, List.takeD_eq_take _ le_rfl,
          List.take_length, List.drop_eq_nil_of_le (by omega), List.append_nil]
      rw [hnew]
      have hnext : content.length = nextOffset r.log := by
        rw [hlen, hpos, hr.frame hm.tail hframe]
      exact append_prefix hold hnext (hp s.position data r.log List.suffix_rfl)
    · rw [hl]
      intro hm hp he argument content hmem
      exact hw.closed hm.tail hp.tail he.tail argument content (by simpa using hmem)
  | close s hstate hs hview hopen =>
    simp only [view, View.mk.injEq] at hview
    obtain ⟨-, hs', hd, hl⟩ := hview
    constructor
    · intro _ _ _ content hrec
      simp [Receiver.received, hs'] at hrec
    · rw [hl]
      intro hm hp he argument content hmem
      rcases List.mem_cons.mp hmem with heq | hold
      · obtain ⟨rfl, rfl⟩ := Event.zeof.inj heq
        have hpos : s.position = r.filePosition := hr.aligned (.inr (.inl hstate)) s hs
        obtain ⟨content, hc, hlen⟩ := hr.stream s hs
        have hrec : r.received = some content := by simp [Receiver.received, hs, hc]
        have hpre := hw.received hm.tail hp.tail he.tail content hrec
        have hfile := he _ _ List.mem_cons_self
        rw [hrec, Option.getD_some]
        exact hpre.eq_of_length (by omega)
      · exact hw.closed hm.tail hp.tail he.tail argument content hold
  | renew name hframe hview =>
    simp only [view, View.mk.injEq] at hview
    obtain ⟨-, hs, hd, hl⟩ := hview
    constructor
    · intro _ _ _ content hrec
      rw [Receiver.received, hs, hd, Option.bind_some, Disk.lookup_put] at hrec
      exact Option.some.inj hrec ▸ List.nil_prefix
    · rw [hl]
      exact hw.closed
  | drop hs hdisk hlog hopen =>
    constructor
    · intro _ _ _ content hrec
      simp [Receiver.received, hs] at hrec
    · rw [hlog]
      exact hw.closed

/-- A file transfer that begins: the file has just been opened. -/
structure Opened (r : Receiver) : Prop where
  state : r.state = .zrpos ∨ r.state = .zcrc
  stream : ∃ content, r.fileStream = some ⟨r.fileFullname, r.filePosition⟩ ∧
    r.disk.lookup r.fileFullname = some content ∧ content.length = r.filePosition

theorem Opened.sound (ho : r.Opened) (hlog : r.log = []) : r.Sound := by
  obtain ⟨content, hs, hc, hlen⟩ := ho.stream
  refine ⟨fun s h => ?_, fun _ s h => ?_, fun _ hf => ?_, fun _ => ?_⟩
  · obtain rfl := Option.some.inj (hs.symm.trans h)
    exact ⟨content, hc, hlen⟩
  · obtain rfl := Option.some.inj (hs.symm.trans h)
    rfl
  · rcases ho.state with hst | hst <;> exact absurd (hst.symm.trans hf.1) (by simp)
  · rw [hlog]
    intro position data log' hsuffix
    simp at hsuffix

theorem opened_openFile {exist : Bool} (hstate : r.state = .zrpos ∨ r.state = .zcrc)
    (hpos : r.filePosition = if exist then ((r.disk.lookup r.fileFullname).getD []).length else 0)
    (habort : (r.openFile h exist).1.state ≠ .abort) : Opened (r.openFile h exist).1 := by
  by_cases hopen : h.openFails r.fileFullname
  · simp [openFile, hopen, abort, Receiver.stop] at habort
  · simp only [openFile, hopen, Bool.false_eq_true, if_false]
    refine ⟨hstate, _, ?_, Disk.lookup_put _ _ _, ?_⟩
    · cases exist <;> simp [hpos]
    · cases exist <;> simp [hpos]

theorem opened_openNewFile (habort : (r.openNewFile h).1.state ≠ .abort) :
    Opened (r.openNewFile h).1 := by
  unfold openNewFile at habort ⊢
  by_cases hstat : h.statFails (r.disk.freeName h.statFails r.fileName)
  · simp [hstat, abort, Receiver.stop] at habort
  · simp only [hstat, Bool.false_eq_true, if_false] at habort ⊢
    exact opened_openFile (.inl rfl) rfl habort

/-- `receive_zfile` begins a file transfer, unless it gives up. -/
theorem opened_receiveZfile (habort : (r.receiveZfile h).1.state ≠ .abort) :
    Opened (r.receiveZfile h).1 := by
  unfold receiveZfile at habort ⊢
  generalize r.scanZfile = r₁ at habort ⊢
  by_cases hstat : h.statFails r₁.fileFullname
  · simp [hstat, abort, Receiver.stop] at habort
  · simp only [hstat, Bool.false_eq_true, if_false] at habort ⊢
    cases hfile : r₁.disk.lookup r₁.fileFullname with
    | none =>
      simp only [hfile] at habort ⊢
      exact opened_openFile (.inl rfl) rfl habort
    | some content =>
      simp only [hfile] at habort ⊢
      split_ifs at habort ⊢
      · exact opened_openNewFile habort
      · exact opened_openFile (.inr rfl) (by simp [hfile]) habort
      · exact opened_openFile (.inr rfl) (by simp [hfile]) habort
      · exact opened_openFile (.inl rfl) (by simp [hfile]) habort

theorem sound_transfer (rounds : List (Host × List UInt8)) (hr : r.Sound) :
    (transfer rounds r).Sound := by
  induction rounds generalizing r with
  | nil => exact hr
  | cons round rounds ih =>
    rw [transfer]
    split_ifs with hstate
    · exact hr
    · exact ih (hr.step (fileStep_round hstate _))

theorem whole_transfer (rounds : List (Host × List UInt8)) (hr : r.Sound) (hw : r.Whole file) :
    (transfer rounds r).Whole file := by
  induction rounds generalizing r with
  | nil => exact hw
  | cons round rounds ih =>
    rw [transfer]
    split_ifs with hstate
    · exact hw
    · have hstep := fileStep_round (h := round.1) hstate round.2
      exact ih (hr.step hstep) (hw.step hr hstep)

/-- Over every run of one file transfer in which each ZDATA header accepted carries the file
position of the receiver: what is written is written where its frame says, what has been received
of a file whose pieces arrive is a prefix of it, and when ZEOF is accepted it is all of it. -/
theorem writes_labelled (ho : r.Opened) (hlog : r.log = []) (rounds : List (Host × List UInt8))
    (hheaders : HeadersMatch (transfer rounds r).log) :
    Labelled (transfer rounds r).log ∧
    ∀ file, (∀ content, r.received = some content → content <+: file) →
      Pieces file (transfer rounds r).log → Ends file (transfer rounds r).log →
      (∀ content, (transfer rounds r).received = some content → content <+: file) ∧
      ∀ argument content, .zeof argument content ∈ (transfer rounds r).log → content = file := by
  have hsound := ho.sound hlog
  refine ⟨(sound_transfer rounds hsound).labelled hheaders, fun file hfile hpieces hends => ?_⟩
  have hwhole : r.Whole file := by
    refine ⟨fun _ _ _ => hfile, fun _ _ _ argument content hmem => ?_⟩
    rw [hlog] at hmem
    exact absurd hmem List.not_mem_nil
  have hrun := whole_transfer rounds hsound hwhole
  exact ⟨hrun.received hheaders hpieces hends, hrun.closed hheaders hpieces hends⟩

theorem opened_exampleReceiver : exampleReceiver.Opened := ⟨.inl rfl, [], rfl, rfl, rfl⟩

/-- ZDATA at offset 0 with the subpacket `ab`, and at offset 2 with `ce`; both end with ZCRCW. -/
def frameAb : List UInt8 := [42, 24, 65, 10, 0, 0, 0, 0, 70, 174, 97, 98, 24, 107, 28, 222, 17]
def frameCe : List UInt8 := [42, 24, 65, 10, 2, 0, 0, 0, 171, 198, 99, 101, 24, 107, 235, 41, 17]

/-- ZEOF with the length 4. -/
def frameEof : List UInt8 := [42, 24, 65, 11, 4, 0, 0, 0, 38, 14]

/-- The rounds for some frames, each taken by a round for its header and one for its data. -/
def exampleRounds (frames : List (List UInt8)) : List (Host × List UInt8) :=
  (exampleHost, []) :: frames.flatMap fun frame => [(exampleHost, frame), (exampleHost, [])]

/-- The sender answers two ZRPOS of the receiver with two frames for the same offset. -/
theorem not_labelled_secondFrame :
    ¬ ∀ (r : Receiver) (rounds : List (Host × List UInt8)), r.Opened → r.log = [] →
      Labelled (transfer rounds r).log := by
  intro hall
  have hlabelled := hall exampleReceiver (exampleRounds [frameAb, frameAb]) opened_exampleReceiver
    rfl
  have hlog : (transfer (exampleRounds [frameAb, frameAb]) exampleReceiver).log =
      [.write 2 [97, 98], .zdata 0 2, .write 0 [97, 98], .zdata 0 0] := by decide +kernel
  rw [hlog] at hlabelled
  exact absurd (hlabelled 2 [97, 98] _ List.suffix_rfl) (by decide)

theorem writes_labelled_twoFrames :
    Labelled (transfer (exampleRounds [frameAb, frameCe, frameEof]) exampleReceiver).log ∧
    ∀ argument content, .zeof argument content ∈
      (transfer (exampleRounds [frameAb, frameCe, frameEof]) exampleReceiver).log →
      content = [97, 98, 99, 101] := by
  have hlog : (transfer (exampleRounds [frameAb, frameCe, frameEof]) exampleReceiver).log =
      [.zeof 4 [97, 98, 99, 101], .write 2 [99, 101], .zdata 2 2, .write 0 [97, 98],
        .zdata 0 0] := by decide +kernel
  have hheaders : HeadersMatch
      (transfer (exampleRounds [frameAb, frameCe, frameEof]) exampleReceiver).log := by
    rw [hlog]
    intro offset position hmem
    simp at hmem
    omega
  have hrun := writes_labelled opened_exampleReceiver rfl
    (exampleRounds [frameAb, frameCe, frameEof]) hheaders
  refine ⟨hrun.1, (hrun.2 [97, 98, 99, 101] ?_ ?_ ?_).2⟩
  · intro content hrec
    have hempty : content = [] := (Option.some.inj hrec).symm
    rw [hempty]
    exact List.nil_prefix
  · rw [hlog]
    intro position data log' hsuffix
    simp only [List.suffix_cons_iff, List.suffix_nil, List.cons.injEq, Event.write.injEq,
      reduceCtorEq, false_and, false_or, or_false] at hsuffix
    rcases hsuffix with ⟨⟨rfl, rfl⟩, rfl⟩ | ⟨⟨rfl, rfl⟩, rfl⟩ <;> decide
  · rw [hlog]
    intro argument content hmem
    simp at hmem
    simp [hmem]

end Receiver
end CProgram.Zmodem
