import CProgram.Zmodem.Progress

/-! What a call of `zmodem_receive` leaves behind: `input_n` is a parameter by value, so input that
does not fit is lost when the call returns, and a buffer that is full takes nothing more. -/
namespace CProgram.Zmodem
open Loops

/-- The states that read a header. -/
def State.waits : State → Bool
  | .zchallengeWait | .zcrcWait | .zrinitWait | .zrposWait => true
  | _ => false

namespace Receiver
variable {h : Host} {r r' : Receiver}

/-- The transfer has ended, or the process has. -/
def Over (r : Receiver) : Prop := r.state = .abort ∨ r.state = .complete ∨ r.crashed = true

/-- The receiver with a subpacket taken off its buffer. -/
def collected (r : Receiver) (output : List UInt8) (i : ℕ) : Receiver :=
  { r with
    packet := { r.packet with
      data := r.packet.data.takeD r.packet.dataN 0 ++ output
      dataN := output.length }
    packetBuffer := r.packetBuffer.discard i }

/-- The bytes that the CRC of a subpacket is taken over. -/
def checkedData (r : Receiver) (crcBuffer : List UInt8) : List UInt8 :=
  r.packet.data.take r.packet.dataN ++ [crcBuffer.headD 0]

def crcOk (r : Receiver) (crcBuffer : List UInt8) : Bool :=
  if r.packet.useCrc32 then
    computeCrc32 (crc32Tab r.crcTabMade) crc32Preset (r.checkedData crcBuffer) =
      littleEndian (crcBuffer.drop 1)
  else computeCrc16 r.packet.crc16 (r.checkedData crcBuffer) = bigEndian (crcBuffer.drop 1)

/-- How many errors a garbled header counts for. -/
def errorsOf (code : ParsePacket) : ℕ := if code = .crcerror then 2 else 1

/-- The loop stops with the transfer still going on, and leaves so many bytes in the buffer. -/
inductive Rests (h : Host) (r : Receiver) : ℕ → Prop
  | unfinishedHeader (hs : r.state.waits = true) (hn : 0 < r.packetBuffer.n)
      (hcode : r.front.code = .nodata) : Rests h r (r.packetBuffer.n - r.front.discard)
  | garbledHeader (hs : r.state.waits = true) (hcode : r.front.code = .invalid ∨ r.front.code = .crcerror)
      (hmode : ¬ (r.state = .zrposWait ∧ r.priorState = .zrposWait))
      (herrors : r.consecutiveErrors + errorsOf r.front.code < 15) : Rests h r 0
  | unfinishedData (hs : r.state = .zdata)
      (hdecode : decodeZdataBytes r.packet.useCrc32 r.packetBuffer.valid = .incomplete) :
      Rests h r r.packetBuffer.n
  | damagedData (output crcBuffer rest : List UInt8) (hs : r.state = .zdata)
      (hdecode : decodeZdataBytes r.packet.useCrc32 r.packetBuffer.valid = .subpacket output crcBuffer rest)
      (hend : subpacketEnd h r crcBuffer rest ≤ r.packetBuffer.n)
      (hescape : isCrcEscape (crcBuffer.headD 0) = true)
      (hcrc : (r.collected output (subpacketEnd h r crcBuffer rest)).crcOk crcBuffer = false)
      (hprior : r.priorState = .zrposWait ∨ r.priorState = .zrinitWait) : Rests h r 0
  | command (output crcBuffer rest : List UInt8) (hs : r.state = .zdata)
      (hdecode : decodeZdataBytes r.packet.useCrc32 r.packetBuffer.valid = .subpacket output crcBuffer rest)
      (hend : subpacketEnd h r crcBuffer rest ≤ r.packetBuffer.n)
      (hescape : isCrcEscape (crcBuffer.headD 0) = true)
      (hcrc : (r.collected output (subpacketEnd h r crcBuffer rest)).crcOk crcBuffer = true)
      (hprior : r.priorState = .zrinitWait) (htype : r.packet.type = .zsinit ∨ r.packet.type = .zcommand) :
      Rests h r (r.packetBuffer.n - subpacketEnd h r crcBuffer rest)

/-- A round that stops on a full buffer: it leaves it full, or it leaves input behind. -/
def Overruns (h : Host) (c : Receiver × List UInt8) : Prop :=
  c.1.crashed = false ∧ ∃ m, Rests h (c.1.fill c.2) m ∧
    (c.2.drop c.1.packetBuffer.room ≠ [] ∨ m = packetBufferSize)

/-- How a round that is the last ends. -/
inductive Stops (h : Host) (r : Receiver) (round : Receiver × Bool) : Prop
  | ended (ho : round.1.Over)
  | idle (hn : r.packetBuffer.n = 0) (hsame : round.1.packetBuffer.n = 0)
  | rests (hrests : Rests h r round.1.packetBuffer.n)

/-- The receiver with the subpacket and its escape in `packet.data`, and the CRC of both. -/
def checked (r : Receiver) (crcBuffer : List UInt8) : Receiver :=
  let data := r.checkedData crcBuffer
  let packet := { r.packet with data := data ++ r.packet.data.drop data.length }
  if r.packet.useCrc32 then
    { r with packet := { packet with crc32 := computeCrc32 (crc32Tab r.crcTabMade) crc32Preset data } }
  else { r with packet := { packet with crc16 := computeCrc16 r.packet.crc16 data } }

theorem receiveSubpacket_eq (crcBuffer : List UInt8) :
    r.receiveSubpacket crcBuffer =
      if !isCrcEscape (crcBuffer.headD 0) then r.abort
      else if r.crcOk crcBuffer then (r.checked crcBuffer).acceptSubpacket (crcBuffer.headD 0)
      else (r.checked crcBuffer).rejectSubpacket := by
  unfold receiveSubpacket crcOk checked checkedData
  dsimp only
  split_ifs <;> first | rfl | simp_all

theorem receiveZdata_subpacket {output crcBuffer rest : List UInt8}
    (hdecode : decodeZdataBytes r.packet.useCrc32 r.packetBuffer.valid = .subpacket output crcBuffer rest) :
    r.receiveZdata h =
      if r.packetBuffer.n < subpacketEnd h r crcBuffer rest then r.crash
      else (r.collected output (subpacketEnd h r crcBuffer rest)).receiveSubpacket crcBuffer := by
  rw [receiveZdata, hdecode]
  rfl

/-- What checking the CRC leaves alone. -/
theorem checked_fields (crcBuffer : List UInt8) :
    (r.checked crcBuffer).state = r.state ∧ (r.checked crcBuffer).priorState = r.priorState ∧
      (r.checked crcBuffer).packetBuffer = r.packetBuffer ∧ (r.checked crcBuffer).crashed = r.crashed ∧
      (r.checked crcBuffer).packet.type = r.packet.type := by
  unfold checked
  dsimp only
  split_ifs <;> exact ⟨rfl, rfl, rfl, rfl, rfl⟩

theorem over_abort : r.abort.1.Over := .inl rfl

theorem over_crash : r.crash.1.Over := .inr (.inr rfl)

/-! ### The end of a data subpacket -/

theorem nextState_done (hdone : r.nextState.2 = true) :
    r.priorState = .zrinitWait ∧ (r.packet.type = .zsinit ∨ r.packet.type = .zcommand) ∧
      r.nextState.1.packetBuffer = r.packetBuffer := by
  revert hdone
  unfold nextState
  split_ifs with hprior
  · split
    · intro hdone
      cases hdone
    · next htype => exact fun _ => ⟨hprior, .inl htype, rfl⟩
    · next htype => exact fun _ => ⟨hprior, .inr htype, rfl⟩
    · intro hdone
      cases hdone
  · intro hdone
    cases hdone

theorem nextState_command (hprior : r.priorState = .zrinitWait)
    (htype : r.packet.type = .zsinit ∨ r.packet.type = .zcommand) :
    r.nextState.2 = true ∧ r.nextState.1.packetBuffer = r.packetBuffer ∧
      r.nextState.1.state = .zrinitWait ∧ r.nextState.1.crashed = r.crashed := by
  rw [nextState, if_pos hprior]
  rcases htype with htype | htype <;> rw [htype] <;> exact ⟨rfl, rfl, rfl, rfl⟩

theorem priorState_writePacket : r.writePacket.priorState = r.priorState := by
  unfold writePacket
  cases r.fileStream <;> rfl

theorem acceptSubpacket_done {escape : UInt8} (hdone : (r.acceptSubpacket escape).2 = true) :
    r.priorState = .zrinitWait ∧ (r.packet.type = .zsinit ∨ r.packet.type = .zcommand) ∧
      (r.acceptSubpacket escape).1.packetBuffer = r.packetBuffer := by
  revert hdone
  by_cases hprior : r.priorState = .zrposWait
  · -- behind a write the loop goes on, whatever the subpacket ended with
    have hnext (r₁ : Receiver) (hr₁ : r₁.priorState = .zrposWait) : r₁.nextState.2 = false := by
      rw [nextState, if_neg (by rw [hr₁]; decide)]
      rfl
    have hwrite : r.writePacket.priorState = .zrposWait := priorState_writePacket.trans hprior
    unfold acceptSubpacket
    split_ifs
    · intro hdone
      cases hdone
    · intro hdone
      have hgoes := hnext (r.writePacket.startData.buildPacket .zack
        (bigToLittleEndian (UInt32.ofNat r.writePacket.filePosition))) hwrite
      exact Bool.noConfusion (hgoes.symm.trans hdone)
    · intro hdone
      cases hdone
    · intro hdone
      exact Bool.noConfusion ((hnext r.writePacket.startData hwrite).symm.trans hdone)
  · rw [acceptSubpacket, if_neg hprior]
    exact nextState_done

theorem state_statsIncrementErrors_zdata (hs : r.state = .zdata) :
    r.statsIncrementErrors = r.countError := by
  rw [statsIncrementErrors, if_neg fun h => h.2 hs]

theorem rejectSubpacket_done (hdone : r.rejectSubpacket.2 = true) :
    (r.priorState = .zrposWait ∨ r.priorState = .zrinitWait) ∧ r.rejectSubpacket.1.packetBuffer.n = 0 := by
  revert hdone
  unfold rejectSubpacket
  split_ifs with hpos hinit
  · exact fun _ => ⟨.inl hpos, rfl⟩
  · exact fun _ => ⟨.inr hinit, rfl⟩
  · intro hdone
    exact absurd (nextState_done hdone).1 hinit

theorem rejectSubpacket_rests (hs : r.state = .zdata)
    (hprior : r.priorState = .zrposWait ∨ r.priorState = .zrinitWait) :
    r.rejectSubpacket.2 = true ∧ r.rejectSubpacket.1.packetBuffer.n = 0 ∧
      r.rejectSubpacket.1.state.waits = true ∧ r.rejectSubpacket.1.crashed = r.crashed := by
  rw [rejectSubpacket, state_statsIncrementErrors_zdata hs]
  rcases hprior with hprior | hprior <;> rw [hprior] <;> exact ⟨rfl, rfl, rfl, rfl⟩

theorem stops_zdata (hs : r.state = .zdata) (hdone : (r.receiveZdata h).2 = true) :
    Stops h r (r.receiveZdata h) := by
  cases hdecode : decodeZdataBytes r.packet.useCrc32 r.packetBuffer.valid with
  | incomplete =>
    refine .rests ?_
    have hn : (r.receiveZdata h).1.packetBuffer = r.packetBuffer := by
      rw [receiveZdata, hdecode]
    rw [hn]
    exact .unfinishedData hs hdecode
  | cancelled =>
    refine .ended ?_
    rw [receiveZdata, hdecode]
    exact over_abort
  | subpacket output crcBuffer rest =>
    rw [receiveZdata_subpacket hdecode] at hdone ⊢
    by_cases hend : r.packetBuffer.n < subpacketEnd h r crcBuffer rest
    · rw [if_pos hend]
      exact .ended over_crash
    · rw [if_neg hend, receiveSubpacket_eq] at hdone ⊢
      obtain ⟨hstate, hpriorState, hbuffer, -, htype⟩ :=
        checked_fields (r := r.collected output (subpacketEnd h r crcBuffer rest)) crcBuffer
      cases hescape : isCrcEscape (crcBuffer.headD 0) with
      | false => exact .ended over_abort
      | true =>
        rw [hescape, if_neg (by decide)] at hdone
        rw [if_neg (by decide)]
        cases hcrc : (r.collected output (subpacketEnd h r crcBuffer rest)).crcOk crcBuffer with
        | true =>
          rw [hcrc, if_pos rfl] at hdone
          rw [if_pos rfl]
          obtain ⟨hprior, hcommand, hn⟩ := acceptSubpacket_done hdone
          rw [htype] at hcommand
          refine .rests ?_
          rw [hn, hbuffer]
          exact .command output crcBuffer rest hs hdecode (not_lt.mp hend) hescape hcrc
            (hpriorState.symm.trans hprior) hcommand
        | false =>
          rw [hcrc, if_neg (by decide)] at hdone
          rw [if_neg (by decide)]
          obtain ⟨hprior, hn⟩ := rejectSubpacket_done hdone
          rw [hpriorState] at hprior
          refine .rests ?_
          rw [hn]
          exact .damagedData output crcBuffer rest hs hdecode (not_lt.mp hend) hescape hcrc hprior

/-! ### The end of a wait -/

theorem state_garbled (hs : r.state.waits = true)
    (hcode : r.front.code = .invalid ∨ r.front.code = .crcerror) :
    r.parse.1.garbledHeader.1.state = .abort ∨
      (r.parse.1.garbledHeader.1.state = r.state ∧ r.consecutiveErrors + errorsOf r.front.code < 15) := by
  have hzdata : r.state ≠ .zdata := by
    intro hzdata
    rw [hzdata] at hs
    cases hs
  have hcount (r₁ : Receiver) (h₁ : r₁.state ≠ .zdata) : r₁.statsIncrementErrors.state = .abort ∨
      (r₁.statsIncrementErrors.state = r₁.state ∧ r₁.consecutiveErrors + 1 < 15 ∧
        r₁.statsIncrementErrors = r₁.countError) := by
    unfold statsIncrementErrors
    split_ifs with herrors
    · exact .inl rfl
    · refine .inr ⟨rfl, ?_, rfl⟩
      by_contra hmany
      exact herrors ⟨by omega, h₁⟩
  have hgarbled (r₁ : Receiver) : r₁.garbledHeader.1.state = r₁.statsIncrementErrors.state := rfl
  rw [hgarbled]
  rcases hcode with hcode | hcode
  · rw [parse_invalid hcode, hcode]
    rcases hcount r.taken hzdata with habort | ⟨hsame, herrors, -⟩
    · exact .inl habort
    · exact .inr ⟨hsame, herrors⟩
  · rw [parse_crcerror hcode, hcode]
    rcases hcount r.taken hzdata with habort | ⟨hsame, herrors, hcounted⟩
    · rcases hcount r.taken.statsIncrementErrors (by rw [habort]; decide) with habort' | ⟨hsame', -, -⟩
      · exact .inl habort'
      · exact .inl (hsame'.trans habort)
    · rw [hcounted]
      rcases hcount r.taken.countError hzdata with habort' | ⟨hsame', herrors', -⟩
      · exact .inl habort'
      · exact .inr ⟨hsame', herrors'⟩

theorem stops_await {garbled accept expired : Receiver → Receiver × Bool} (hs : r.state.waits = true)
    (haccept : ∀ r₁ : Receiver, (accept r₁).2 = true → (accept r₁).1.Over)
    (hexpired : ∀ r₁ : Receiver, (expired r₁).2 = false)
    (hgarbled : r.front.code = .invalid ∨ r.front.code = .crcerror → (garbled r.parse.1).2 = true →
      garbled r.parse.1 = r.parse.1.garbledHeader ∧ ¬ (r.state = .zrposWait ∧ r.priorState = .zrposWait))
    (hdone : (r.await h garbled accept expired).2 = true) : Stops h r (r.await h garbled accept expired) := by
  have hrests (hcode : r.front.code = .invalid ∨ r.front.code = .crcerror)
      (hdone : (garbled r.parse.1).2 = true) : Stops h r (garbled r.parse.1) := by
    obtain ⟨hsame, hmode⟩ := hgarbled hcode hdone
    rw [hsame]
    rcases state_garbled hs hcode with habort | ⟨-, herrors⟩
    · exact .ended (.inl habort)
    · exact .rests (.garbledHeader hs hcode hmode herrors)
  revert hdone
  unfold await
  by_cases hn : 0 < r.packetBuffer.n
  · rw [if_pos hn, parse_snd]
    cases hcode : r.front.code with
    | invalid => exact hrests (.inl hcode)
    | crcerror => exact hrests (.inr hcode)
    | nodata =>
      refine fun _ => .rests ?_
      have hbuffer : r.parse.1.packetBuffer.n = r.packetBuffer.n - r.front.discard := by
        rw [packetBuffer_parse]
        rfl
      dsimp only
      rw [hbuffer]
      exact .unfinishedHeader hs hn hcode
    | ok => exact fun hdone => .ended (haccept _ hdone)
  · rw [if_neg hn]
    split_ifs
    · intro hdone
      rw [hexpired] at hdone
      cases hdone
    · exact fun _ => .idle (by omega) (by dsimp only; omega)

theorem over_acceptZchallengeWait (hdone : r.acceptZchallengeWait.2 = true) : r.acceptZchallengeWait.1.Over := by
  revert hdone
  unfold acceptZchallengeWait
  split
  · split_ifs
    · intro hdone
      cases hdone
    · exact fun _ => over_abort
  · intro hdone
    cases hdone
  · intro hdone
    cases hdone
  · exact fun _ => over_abort

theorem over_openFile {exist : Bool} (hdone : (r.openFile h exist).2 = true) : (r.openFile h exist).1.Over := by
  revert hdone
  unfold openFile
  split_ifs
  · exact fun _ => over_abort
  · intro hdone
    cases hdone
  · intro hdone
    cases hdone

theorem over_openNewFile (hdone : (r.openNewFile h).2 = true) : (r.openNewFile h).1.Over := by
  revert hdone
  unfold openNewFile
  dsimp only
  split_ifs
  · exact fun _ => over_abort
  · exact over_openFile

theorem over_acceptZcrcWait (hdone : (r.acceptZcrcWait h).2 = true) : (r.acceptZcrcWait h).1.Over := by
  revert hdone
  unfold acceptZcrcWait
  split
  · split_ifs
    · intro hdone
      cases hdone
    · intro hdone
      cases hdone
    · exact over_openNewFile
  · intro hdone
    cases hdone
  · intro hdone
    cases hdone
  · exact fun _ => over_abort

theorem zrinitAgain_goes : r.zrinitAgain.2 = false := by
  unfold zrinitAgain
  split_ifs <;> rfl

theorem over_acceptZrinitWait (hdone : r.acceptZrinitWait.2 = true) : r.acceptZrinitWait.1.Over := by
  revert hdone
  unfold acceptZrinitWait
  split
  · intro hdone
    cases hdone
  · intro hdone
    cases hdone
  · intro hdone
    cases hdone
  · intro hdone
    cases hdone
  · intro hdone
    cases hdone
  · intro hdone
    rw [zrinitAgain_goes] at hdone
    cases hdone
  · exact fun _ => over_abort

theorem over_acceptZrposWait (hdone : r.acceptZrposWait.2 = true) : r.acceptZrposWait.1.Over := by
  revert hdone
  unfold acceptZrposWait
  split
  · unfold acceptZeof
    split_ifs
    · exact fun _ => over_crash
    · intro hdone
      cases hdone
    · intro hdone
      cases hdone
  · intro hdone
    cases hdone
  · intro hdone
    cases hdone
  · exact fun _ => over_abort

theorem over_receiveZfile (hdone : (r.receiveZfile h).2 = true) : (r.receiveZfile h).1.Over := by
  revert hdone
  unfold receiveZfile
  dsimp only
  by_cases hstat : h.statFails r.scanZfile.fileFullname
  · rw [if_pos hstat]
    exact fun _ => over_abort
  · rw [if_neg hstat]
    cases r.scanZfile.disk.lookup r.scanZfile.fileFullname with
    | none => exact over_openFile
    | some content =>
      dsimp only
      split_ifs
      · exact over_openNewFile
      · exact over_openFile
      · exact over_openFile
      · exact over_openFile

theorem priorState_parse (hcode : r.front.code = .invalid ∨ r.front.code = .crcerror) :
    r.parse.1.priorState = r.priorState := by
  rcases hcode with hcode | hcode
  · rw [parse_invalid hcode]
    rfl
  · rw [parse_crcerror hcode]
    unfold statsIncrementErrors
    split_ifs <;> rfl

/-- What a round that is the last has done. -/
theorem stops_receiveState (hdone : (r.receiveState h).2 = true) : Stops h r (r.receiveState h) := by
  have hgarbled {s : State} (hs : r.state = s) (hne : s ≠ .zrposWait) :
      r.parse.1.garbledHeader = r.parse.1.garbledHeader ∧
        ¬ (r.state = .zrposWait ∧ r.priorState = .zrposWait) := by
    refine ⟨rfl, fun hmode => hne ?_⟩
    rw [← hs]
    exact hmode.1
  revert hdone
  unfold receiveState
  split
  · intro hdone
    split_ifs at hdone <;> cases hdone
  · intro hdone
    cases hdone
  · next hs =>
    exact fun hdone => stops_await (by rw [hs]; rfl) (fun _ => over_acceptZchallengeWait) (fun _ => rfl)
      (fun _ _ => hgarbled hs (by decide)) hdone
  · unfold receiveZcrc
    split_ifs
    · exact fun _ => .ended over_crash
    · intro hdone
      cases hdone
  · next hs =>
    exact fun hdone => stops_await (by rw [hs]; rfl) (fun _ => over_acceptZcrcWait) (fun _ => rfl)
      (fun _ _ => hgarbled hs (by decide)) hdone
  · intro hdone
    cases hdone
  · next hs =>
    exact fun hdone => stops_await (by rw [hs]; rfl) (fun _ => over_acceptZrinitWait)
      (fun _ => zrinitAgain_goes) (fun _ _ => hgarbled hs (by decide)) hdone
  · intro hdone
    cases hdone
  · next hs =>
    refine fun hdone => stops_await (by rw [hs]; rfl) (fun _ => over_acceptZrposWait) (fun _ => rfl)
      (fun hcode hdone => ?_) hdone
    split_ifs at hdone ⊢ with hprior
    rw [priorState_parse hcode] at hprior
    exact ⟨rfl, fun hmode => hprior hmode.2⟩
  · exact fun hdone => .ended (over_receiveZfile hdone)
  · unfold receiveZskip
    split_ifs
    · exact fun _ => .ended over_crash
    · intro hdone
      cases hdone
  · next hs => exact stops_zdata hs
  · exact fun _ => .ended (.inr (.inl rfl))
  · next hs => exact fun _ => .ended (.inl hs)
  · next hs => exact fun _ => .ended (.inr (.inl hs))
  · exact fun _ => .ended over_crash

/-- The round stops, the transfer goes on, and so many bytes stay. -/
structure Leaves (round : Receiver × Bool) (m : ℕ) : Prop where
  done : round.2 = true
  n_eq : round.1.packetBuffer.n = m
  going : ¬ round.1.Over

theorem not_over_of_waits (hs : r.state.waits = true) (halive : r.crashed = false) : ¬ r.Over := by
  rintro (habort | hcomplete | hcrashed)
  · rw [habort] at hs
    cases hs
  · rw [hcomplete] at hs
    cases hs
  · rw [halive] at hcrashed
    cases hcrashed

theorem crashed_statsIncrementErrors : r.statsIncrementErrors.crashed = r.crashed := by
  unfold statsIncrementErrors
  split_ifs <;> rfl

theorem crashed_parse (hcode : r.front.code = .invalid ∨ r.front.code = .crcerror) :
    r.parse.1.crashed = r.crashed := by
  rcases hcode with hcode | hcode
  · rw [parse_invalid hcode]
    rfl
  · rw [parse_crcerror hcode]
    exact crashed_statsIncrementErrors

theorem parse_nodata (hcode : r.front.code = .nodata) : r.parse.1 = r.taken := by
  rw [parse, takeHeader, ← front, hcode]
  rfl

theorem leaves_nodata {garbled accept expired : Receiver → Receiver × Bool} (hs : r.state.waits = true)
    (halive : r.crashed = false) (hn : 0 < r.packetBuffer.n) (hcode : r.front.code = .nodata) :
    Leaves (r.await h garbled accept expired) (r.packetBuffer.n - r.front.discard) := by
  rw [await, if_pos hn, parse_snd, hcode]
  dsimp only
  rw [parse_nodata hcode]
  exact ⟨rfl, rfl, not_over_of_waits hs halive⟩

theorem statsIncrementErrors_of_lt (herrors : r.consecutiveErrors + 1 < 15) :
    r.statsIncrementErrors = r.countError := by
  rw [statsIncrementErrors, if_neg fun h => absurd h.1 (by omega)]

/-- A garbled header that does not make the errors too many leaves the state as it is. -/
theorem state_garbled_of_lt (hcode : r.front.code = .invalid ∨ r.front.code = .crcerror)
    (herrors : r.consecutiveErrors + errorsOf r.front.code < 15) :
    r.parse.1.statsIncrementErrors.state = r.state := by
  have htaken : r.taken.consecutiveErrors = r.consecutiveErrors := rfl
  have hcounted : r.taken.countError.consecutiveErrors = r.consecutiveErrors + 1 := rfl
  rcases hcode with hcode | hcode
  · have hone : errorsOf .invalid = 1 := rfl
    rw [hcode, hone] at herrors
    rw [parse_invalid hcode, statsIncrementErrors_of_lt (by omega)]
    rfl
  · have htwo : errorsOf .crcerror = 2 := rfl
    rw [hcode, htwo] at herrors
    rw [parse_crcerror hcode, statsIncrementErrors_of_lt (r := r.taken) (by omega),
      statsIncrementErrors_of_lt (r := r.taken.countError) (by omega)]
    rfl

theorem leaves_garbledHeader (hwaits : r.statsIncrementErrors.state.waits = true) (halive : r.crashed = false) :
    Leaves r.garbledHeader 0 :=
  ⟨rfl, rfl, not_over_of_waits (r := r.garbledHeader.1) hwaits (crashed_statsIncrementErrors.trans halive)⟩

theorem leaves_garbled {garbled accept expired : Receiver → Receiver × Bool} (hs : r.state.waits = true)
    (halive : r.crashed = false) (hcode : r.front.code = .invalid ∨ r.front.code = .crcerror)
    (hgarbled : garbled r.parse.1 = r.parse.1.garbledHeader)
    (herrors : r.consecutiveErrors + errorsOf r.front.code < 15) :
    Leaves (r.await h garbled accept expired) 0 := by
  have hn : 0 < r.packetBuffer.n := pos_of_front (by rcases hcode with h | h <;> rw [h] <;> decide)
  have heq : r.await h garbled accept expired = r.parse.1.garbledHeader := by
    rw [await, if_pos hn, parse_snd]
    rcases hcode with hcode | hcode <;> rw [hcode] <;> exact hgarbled
  rw [heq]
  apply leaves_garbledHeader
  · rw [state_garbled_of_lt hcode herrors]
    exact hs
  · exact (crashed_parse hcode).trans halive

theorem leaves_zdata (hs : r.state = .zdata) (halive : r.crashed = false) {m : ℕ} (hrests : Rests h r m) :
    Leaves (r.receiveZdata h) m := by
  have hnot : r.state.waits ≠ true := by
    rw [hs]
    decide
  cases hrests with
  | unfinishedHeader hwaits => exact absurd hwaits hnot
  | garbledHeader hwaits => exact absurd hwaits hnot
  | unfinishedData _ hdecode =>
    rw [receiveZdata, hdecode]
    refine ⟨rfl, rfl, ?_⟩
    rintro (habort | hcomplete | hcrashed)
    · cases hs.symm.trans habort
    · cases hs.symm.trans hcomplete
    · cases halive.symm.trans hcrashed
  | damagedData output crcBuffer rest _ hdecode hend hescape hcrc hprior =>
    obtain ⟨hstate, hpriorState, -, hcrashed, -⟩ :=
      checked_fields (r := r.collected output (subpacketEnd h r crcBuffer rest)) crcBuffer
    rw [receiveZdata_subpacket hdecode, if_neg (not_lt.mpr hend), receiveSubpacket_eq, hescape,
      if_neg (by decide), hcrc, if_neg (by decide)]
    obtain ⟨hdone, hn, hwaits, hc⟩ := rejectSubpacket_rests (hstate.trans hs)
      (by rw [hpriorState]; exact hprior)
    exact ⟨hdone, hn, not_over_of_waits hwaits (hc.trans (hcrashed.trans halive))⟩
  | command output crcBuffer rest _ hdecode hend hescape hcrc hprior htype =>
    obtain ⟨-, hpriorState, hbuffer, hcrashed, hsame⟩ :=
      checked_fields (r := r.collected output (subpacketEnd h r crcBuffer rest)) crcBuffer
    have hprior' : ((r.collected output (subpacketEnd h r crcBuffer rest)).checked crcBuffer).priorState =
        .zrinitWait := hpriorState.trans hprior
    obtain ⟨hdone, hn, hwaits, hc⟩ := nextState_command hprior' (by rw [hsame]; exact htype)
    rw [receiveZdata_subpacket hdecode, if_neg (not_lt.mpr hend), receiveSubpacket_eq, hescape,
      if_neg (by decide), hcrc, if_pos rfl, acceptSubpacket, if_neg (by rw [hprior']; decide)]
    refine ⟨hdone, ?_, not_over_of_waits (by rw [hwaits]; rfl) (hc.trans (hcrashed.trans halive))⟩
    rw [hn, hbuffer]
    rfl

theorem leaves_receiveState (halive : r.crashed = false) {m : ℕ} (hrests : Rests h r m) :
    Leaves (r.receiveState h) m := by
  have hzdata (hs : r.state = .zdata) : Leaves (r.receiveState h) m := by
    rw [receiveState, hs]
    exact leaves_zdata hs halive hrests
  cases hrests with
  | unfinishedHeader hwaits hn hcode =>
    rw [receiveState]
    cases hs : r.state with
    | zchallengeWait => exact leaves_nodata hwaits halive hn hcode
    | zcrcWait => exact leaves_nodata hwaits halive hn hcode
    | zrinitWait => exact leaves_nodata hwaits halive hn hcode
    | zrposWait => exact leaves_nodata hwaits halive hn hcode
    | _ =>
      rw [hs] at hwaits
      cases hwaits
  | garbledHeader hwaits hcode hmode herrors =>
    rw [receiveState]
    cases hs : r.state with
    | zchallengeWait => exact leaves_garbled hwaits halive hcode rfl herrors
    | zcrcWait => exact leaves_garbled hwaits halive hcode rfl herrors
    | zrinitWait => exact leaves_garbled hwaits halive hcode rfl herrors
    | zrposWait =>
      refine leaves_garbled hwaits halive hcode ?_ herrors
      rw [if_pos fun hprior => hmode ⟨hs, ?_⟩]
      rw [← priorState_parse hcode, hprior]
    | _ =>
      rw [hs] at hwaits
      cases hwaits
  | unfinishedData hs => exact hzdata hs
  | damagedData _ _ _ hs => exact hzdata hs
  | command _ _ _ hs => exact hzdata hs

/-! ### The call -/

variable {hosts : ℕ → Host} {c : Receiver × List UInt8} {n : ℕ}

/-- What a round that is the last should leave behind. -/
def Keeps (c : Receiver × List UInt8) : Prop :=
  c.1.Over ∨ c.2 = [] ∧ c.1.packetBuffer.n < packetBufferSize

theorem drop_room (hn : (c.1.fill c.2).packetBuffer.n < packetBufferSize) :
    c.2.drop c.1.packetBuffer.room = [] := by
  have hfill : (c.1.fill c.2).packetBuffer.n = c.1.packetBuffer.n + (c.2.take c.1.packetBuffer.room).length := rfl
  rw [hfill, List.length_take, Buffer.room] at hn
  apply List.drop_eq_nil_of_le
  have hle := c.1.packetBuffer.n_le
  rw [Buffer.room]
  omega

theorem keeps_iff_round (hdone : (body hosts n c).2 = true) :
    Keeps (body hosts n c).1 ↔ ¬ Overruns (hosts n) c := by
  cases halive : c.1.crashed with
  | true =>
    have hover : (body hosts n c).1.1.Over := by
      rw [body, receiveRound, if_pos halive]
      exact .inr (.inr halive)
    exact ⟨fun _ ho => (by cases halive.symm.trans ho.1), fun _ => .inl hover⟩
  | false =>
    rw [body_of_alive halive] at hdone ⊢
    have hlen : ((c.1.fill c.2).receiveState (hosts n)).1.packetBuffer.n ≤ packetBufferSize :=
      Buffer.n_le _
    constructor
    · rintro hkeeps ⟨-, m, hrests, hleft⟩
      obtain ⟨-, hm, hgoing⟩ := leaves_receiveState (r := c.1.fill c.2) halive hrests
      rcases hkeeps with hover | ⟨hnil, hroom⟩
      · exact hgoing hover
      · dsimp only at hnil hroom
        rcases hleft with hne | hfull
        · exact hne hnil
        · omega
    · intro hnot
      cases stops_receiveState hdone with
      | ended ho => exact .inl ho
      | idle hn hsame =>
        refine .inr ⟨drop_room (by rw [hn]; decide), ?_⟩
        dsimp only
        rw [hsame]
        decide
      | rests hrests =>
        refine .inr ⟨?_, ?_⟩
        · by_contra hne
          exact hnot ⟨halive, _, hrests, .inl hne⟩
        · refine lt_of_le_of_ne hlen fun hfull => ?_
          exact hnot ⟨halive, _, hrests, .inr hfull⟩

theorem overruns_done (ho : Overruns (hosts n) c) : (body hosts n c).2 = true := by
  obtain ⟨halive, m, hrests, -⟩ := ho
  rw [body_of_alive halive]
  exact (leaves_receiveState (r := c.1.fill c.2) halive hrests).done

/-- A call that returns with the transfer going on has taken all of its input and left room in the
buffer exactly when no round has stopped on a buffer that was full. -/
theorem keeps_iff (hosts : ℕ → Host) (r : Receiver) (input : List UInt8) :
    (∀ result, Returns (body hosts) (r, input) result → Keeps result) ↔
      ∀ n c, Loops.before (body hosts) (r, input) n = some c → ¬ Overruns (hosts n) c := by
  constructor
  · intro hkeeps n c hc ho
    have hdone := overruns_done ho
    exact (keeps_iff_round hdone).mp (hkeeps _ ⟨n, c, hc, Prod.ext rfl hdone⟩) ho
  · rintro hnot result ⟨n, c, hc, hbody⟩
    have hdone : (body hosts n c).2 = true := by rw [hbody]
    have hround := (keeps_iff_round hdone).mpr (hnot n c hc)
    rw [hbody] at hround
    exact hround

/-- Input that fits with a byte to spare is never lost. -/
theorem not_overruns_of_lt (hroom : c.1.packetBuffer.n + c.2.length < packetBufferSize) :
    ¬ Overruns h c := by
  rintro ⟨halive, m, hrests, hleft⟩
  have hfill : (c.1.fill c.2).packetBuffer.n < packetBufferSize := by
    change c.1.packetBuffer.n + (c.2.take c.1.packetBuffer.room).length < _
    rw [List.length_take]
    omega
  rcases hleft with hne | hfull
  · exact hne (drop_room hfill)
  · have hle : m ≤ (c.1.fill c.2).packetBuffer.n := by
      cases hrests with
      | unfinishedHeader => exact Nat.sub_le ..
      | garbledHeader => exact Nat.zero_le _
      | unfinishedData => exact le_rfl
      | damagedData => exact Nat.zero_le _
      | command => exact Nat.sub_le ..
    omega

theorem parsePacket_pads (tab : List UInt32) (n : ℕ) :
    parsePacket tab (List.replicate n zpad) = ⟨.nodata, 0, .clear⟩ := by
  have htake : (List.replicate n zpad).takeWhile (· ≠ zpad) = [] := by
    cases n <;> rfl
  have hdrop : (List.replicate n zpad).dropWhile (· = zpad) = [] := by
    rw [List.dropWhile_replicate, if_pos (by decide)]
  rw [parsePacket, htake, List.length_nil, List.drop_zero, hdrop]

theorem fill_state (r : Receiver) (input : List UInt8) : (r.fill input).state = r.state := rfl

theorem fill_valid (r : Receiver) (input : List UInt8) :
    (r.fill input).packetBuffer.valid = (r.packetBuffer.fill input).valid := rfl

/-- ZPADs alone fill the buffer: they could be the beginning of a header. -/
theorem not_keeps_pads :
    ¬ ∀ result, Returns (body fun _ => exampleHost) (exampleAsking, List.replicate packetBufferSize zpad) result →
      Keeps result := by
  intro hkeeps
  have hn : exampleAsking.packetBuffer.n = 0 := by decide +kernel
  have hroom : exampleAsking.packetBuffer.room = packetBufferSize := by
    rw [Buffer.room, hn]
    rfl
  have hvalid : (exampleAsking.fill (List.replicate packetBufferSize zpad)).packetBuffer.valid =
      List.replicate packetBufferSize zpad := by
    have hnil : exampleAsking.packetBuffer.valid = [] := by
      rw [← List.length_eq_zero_iff, Buffer.length_valid, hn]
    rw [fill_valid, Buffer.valid_fill, hnil, hroom, List.take_replicate, min_self, List.nil_append]
  have hfront : (exampleAsking.fill (List.replicate packetBufferSize zpad)).front = ⟨.nodata, 0, .clear⟩ := by
    rw [front, hvalid, parsePacket_pads]
  have hfull : (exampleAsking.fill (List.replicate packetBufferSize zpad)).packetBuffer.n = packetBufferSize := by
    rw [← Buffer.length_valid, hvalid, List.length_replicate]
  have hstate : (exampleAsking.fill (List.replicate packetBufferSize zpad)).state = .zrposWait := by
    rw [fill_state]
    decide +kernel
  have hoverruns : Overruns exampleHost (exampleAsking, List.replicate packetBufferSize zpad) := by
    have hrests := Rests.unfinishedHeader (h := exampleHost)
      (r := exampleAsking.fill (List.replicate packetBufferSize zpad))
      (by rw [hstate]; rfl) (by rw [hfull]; decide) (by rw [hfront])
    rw [hfront, hfull] at hrests
    have halive : exampleAsking.crashed = false := by decide +kernel
    exact ⟨halive, _, hrests, .inr rfl⟩
  have hdone : (body (fun _ => exampleHost) 0 (exampleAsking, List.replicate packetBufferSize zpad)).2 = true :=
    overruns_done hoverruns
  exact (keeps_iff_round hdone).mp (hkeeps _ ⟨0, _, rfl, Prod.ext rfl hdone⟩) hoverruns

end Receiver
end CProgram.Zmodem
