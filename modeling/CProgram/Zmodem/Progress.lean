import CProgram.Lib.Loops
import CProgram.Zmodem.Labels

/-! Whether a call of `zmodem_receive` returns: every round takes bytes, counts an error or moves on,
but for one that finds a header it can neither read nor pass. -/
namespace CProgram.Zmodem
open Loops

/-! ### What a header and a subpacket take off the buffer -/

theorem finishHeader_ok {tab : List UInt32} {pad stop : ℕ} {raw : RawHeader}
    (h : (finishHeader tab pad stop raw).code = .ok) : (finishHeader tab pad stop raw).discard = stop := by
  revert h
  rw [finishHeader]
  cases packetType (raw.header.headD 0) with
  | none => intro h; cases h
  | some type =>
    intro h
    dsimp only at h ⊢
    split_ifs at h ⊢ <;> rfl

theorem headerBytes_done {n : ℕ} {gotCan : Bool} {bytes input bytes' rest : List UInt8}
    (h : headerBytes n gotCan bytes input = .done bytes' rest) : rest.length ≤ input.length := by
  induction n, gotCan, bytes, input using headerBytes.induct with
  | case1 gotCan bytes input =>
    rw [headerBytes, HeaderBytes.done.injEq] at h
    rw [h.2]
  | case2 => cases h
  | case3 n gotCan bytes input ih =>
    rw [headerBytes, if_pos rfl] at h
    exact (ih h).trans (by simp)
  | case4 n bytes ch input hcan hbad =>
    rw [headerBytes, if_neg hcan, if_pos rfl, hbad] at h
    cases h
  | case5 n bytes ch input hcan ch' hgood ih =>
    rw [headerBytes, if_neg hcan, if_pos rfl, hgood] at h
    exact (ih h).trans (by simp)
  | case6 n gotCan bytes ch input hcan hnot ih =>
    rw [headerBytes, if_neg hcan, if_neg hnot] at h
    exact (ih h).trans (by simp)

theorem parseBinary_ok {tab : List UInt32} {size pad n : ℕ} {useCrc32 : Bool} {bad : ParsePacket}
    {input : List UInt8} (hbad : bad ≠ .ok) (hsize : input.length < size)
    (h : (parseBinary tab size pad n useCrc32 bad input).code = .ok) :
    0 < (parseBinary tab size pad n useCrc32 bad input).discard := by
  revert h
  rw [parseBinary]
  by_cases hshort : input.length + 1 < n + 6
  · rw [if_pos hshort]
    intro h
    cases h
  · rw [if_neg hshort]
    cases hbytes : headerBytes (n + 5) false [] input with
    | short => intro h; cases h
    | bad => exact fun h => absurd h hbad
    | done bytes rest =>
      intro h
      have hrest := headerBytes_done hbytes
      rw [finishHeader_ok h]
      omega

theorem parseHex_ok {tab : List UInt32} {size pad : ℕ} {input : List UInt8} (hsize : input.length < size)
    (h : (parseHex tab size pad input).code = .ok) : 0 < (parseHex tab size pad input).discard := by
  revert h
  rw [parseHex]
  by_cases hshort : input.length < 16
  · rw [if_pos hshort]
    intro h
    cases h
  · rw [if_neg hshort]
    cases dehexifyString (input.take 14) with
    | none => intro h; cases h
    | some bytes =>
      dsimp only
      split_ifs
      · intro h
        rw [finishHeader_ok h]
        omega
      · intro h
        cases h
      · intro h
        rw [finishHeader_ok h]
        omega

/-- A header that is read is taken off the buffer. -/
theorem parsePacket_ok {tab : List UInt32} {input : List UInt8} (h : (parsePacket tab input).code = .ok) :
    0 < (parsePacket tab input).discard := by
  revert h
  rw [parsePacket]
  cases hrest : (input.drop (input.takeWhile (· ≠ zpad)).length).dropWhile (· = zpad) with
  | nil => intro h; cases h
  | cons ch rest =>
    have hlength : rest.length + 1 ≤ input.length := by
      have hdrop := (List.dropWhile_suffix (l := input.drop (input.takeWhile (· ≠ zpad)).length) (· = zpad)).length_le
      rw [hrest, List.length_cons, List.length_drop] at hdrop
      omega
    dsimp only
    split_ifs with hcan
    · intro h
      cases h
    · split
      · intro h
        cases h
      · exact parseBinary_ok (by decide) (by simp at hlength; omega)
      · exact parseHex_ok (by simp at hlength; omega)
      · exact parseBinary_ok (by decide) (by simp at hlength; omega)
      · intro h
        cases h

theorem decodeLoop_subpacket {size : ℕ} {gotCan : Bool} {d : Decoding} {input output crcBuffer rest : List UInt8}
    (h : decodeLoop size gotCan d input = .subpacket output crcBuffer rest) : rest.length < input.length := by
  induction input generalizing gotCan d with
  | nil =>
    rw [decodeLoop] at h
    cases h
  | cons ch input ih =>
    cases gotCan with
    | false =>
      rw [decodeLoop] at h
      split_ifs at h
      · exact (ih h).trans (by simp)
      · rw [Decoded.subpacket.injEq] at h
        rw [h.2.2]
        simp
      · exact (ih h).trans (by simp)
    | true =>
      rw [decodeLoop] at h
      split_ifs at h
      · exact (ih h).trans (by simp)
      · split at h
        · split_ifs at h
          · rw [Decoded.subpacket.injEq] at h
            rw [h.2.2]
            simp
          · exact (ih h).trans (by simp)
        · cases h
      · split at h
        · split_ifs at h
          · rw [Decoded.subpacket.injEq] at h
            rw [h.2.2]
            simp
          · exact (ih h).trans (by simp)
        · exact (ih h).trans (by simp)

theorem decodeZdataBytes_subpacket {useCrc32 : Bool} {input output crcBuffer rest : List UInt8}
    (h : decodeZdataBytes useCrc32 input = .subpacket output crcBuffer rest) : rest.length < input.length := by
  rw [decodeZdataBytes] at h
  by_cases hescape : hasCrcEscape input
  · rw [if_pos hescape] at h
    exact decodeLoop_subpacket h
  · rw [if_neg hescape] at h
    cases h

/-! ### What a round does to the buffer -/

namespace Receiver
variable {h : Host} {r r' : Receiver}

/-- The receiver once what fits of the input is in its buffer. -/
def fill (r : Receiver) (input : List UInt8) : Receiver :=
  { r with packetBuffer := r.packetBuffer.fill input }

theorem packetBuffer_statsIncrementErrors : r.statsIncrementErrors.packetBuffer = r.packetBuffer := by
  unfold statsIncrementErrors
  split_ifs <;> rfl

theorem packetBuffer_takeHeader (p : Parsed) :
    (r.takeHeader p).1.packetBuffer = r.packetBuffer.discard p.discard := by
  obtain ⟨code, discard, packet⟩ := p
  cases code with
  | ok =>
    simp only [takeHeader]
    split_ifs <;> rfl
  | crcerror => exact packetBuffer_statsIncrementErrors
  | nodata => rfl
  | invalid => rfl

theorem takeHeader_snd (p : Parsed) : (r.takeHeader p).2 = p.code := by
  obtain ⟨code, discard, packet⟩ := p
  cases code with
  | ok =>
    simp only [takeHeader]
    split_ifs <;> rfl
  | crcerror => rfl
  | nodata => rfl
  | invalid => rfl

/-- The header that is at the front of the buffer. -/
def front (r : Receiver) : Parsed := parsePacket (crc32Tab r.crcTabMade) r.packetBuffer.valid

theorem parse_snd : r.parse.2 = r.front.code := takeHeader_snd _

theorem packetBuffer_parse : r.parse.1.packetBuffer = r.packetBuffer.discard r.front.discard :=
  packetBuffer_takeHeader _

/-- The receiver without the header at the front of its buffer. -/
def taken (r : Receiver) : Receiver :=
  { r with packet := r.front.packet, packetBuffer := r.packetBuffer.discard r.front.discard }

theorem parse_invalid (hcode : r.front.code = .invalid) : r.parse.1 = r.taken := by
  rw [parse, takeHeader, ← front, hcode]
  rfl

theorem parse_crcerror (hcode : r.front.code = .crcerror) : r.parse.1 = r.taken.statsIncrementErrors := by
  rw [parse, takeHeader, ← front, hcode]
  rfl

theorem pos_of_front (hcode : r.front.code ≠ .nodata) : 0 < r.packetBuffer.n := by
  by_contra hzero
  apply hcode
  have hnil : r.packetBuffer.valid = [] := by
    rw [← List.length_eq_zero_iff, Buffer.length_valid]
    omega
  rw [front, hnil]
  rfl

/-- How far a state is from waiting or from the end. -/
def rank : State → ℕ
  | .init | .zfile => 3
  | .zchallenge | .zcrc | .zrinit | .zrpos | .zskip => 2
  | .abort | .complete => 0
  | _ => 1

/-- What a round has done that the loop goes on after. -/
inductive Progress (r r' : Receiver) : Prop
  | taken (hn : r'.packetBuffer.n < r.packetBuffer.n)
  | counted (hn : r'.packetBuffer.n ≤ r.packetBuffer.n)
      (he : 15 - r'.consecutiveErrors < 15 - r.consecutiveErrors)
  | moved (hn : r'.packetBuffer.n ≤ r.packetBuffer.n)
      (he : 15 - r'.consecutiveErrors ≤ 15 - r.consecutiveErrors)
      (hs : rank r'.state < rank r.state)

theorem Progress.ahead {a b : State} (hs : r.state = a) (hs' : r'.state = b) (hrank : rank b < rank a)
    (hn : r'.packetBuffer.n ≤ r.packetBuffer.n)
    (he : 15 - r'.consecutiveErrors ≤ 15 - r.consecutiveErrors) : Progress r r' :=
  .moved hn he (by rw [hs, hs']; exact hrank)

/-- A header that cannot be made out is at the front of the buffer, and nothing is taken off. -/
structure Stuck (r : Receiver) : Prop where
  alive : r.crashed = false
  state_eq : r.state = .zrposWait
  prior_eq : r.priorState = .zrposWait
  code_eq : r.front.code = .invalid
  discard_eq : r.front.discard = 0

theorem packetBuffer_acceptZchallengeWait : r.acceptZchallengeWait.1.packetBuffer = r.packetBuffer := by
  unfold acceptZchallengeWait
  split
  · split_ifs
    · rfl
    · exact packetBuffer_statsIncrementErrors
  · exact packetBuffer_statsIncrementErrors
  · rfl
  · rfl

theorem packetBuffer_openFile (exist : Bool) : (r.openFile h exist).1.packetBuffer = r.packetBuffer := by
  unfold openFile
  split_ifs <;> rfl

theorem packetBuffer_openNewFile : (r.openNewFile h).1.packetBuffer = r.packetBuffer := by
  unfold openNewFile
  dsimp only
  split_ifs
  · rfl
  · exact packetBuffer_openFile false

theorem packetBuffer_acceptZcrcWait : (r.acceptZcrcWait h).1.packetBuffer = r.packetBuffer := by
  unfold acceptZcrcWait
  split
  · split_ifs
    · rfl
    · rfl
    · exact packetBuffer_openNewFile
  · exact packetBuffer_statsIncrementErrors
  · exact packetBuffer_statsIncrementErrors
  · rfl

theorem packetBuffer_zrinitAgain : r.zrinitAgain.1.packetBuffer = r.packetBuffer := by
  unfold zrinitAgain
  split_ifs <;> rfl

theorem packetBuffer_acceptZrinitWait : r.acceptZrinitWait.1.packetBuffer = r.packetBuffer := by
  unfold acceptZrinitWait
  split
  · rfl
  · rfl
  · rfl
  · rfl
  · rfl
  · exact packetBuffer_zrinitAgain.trans packetBuffer_statsIncrementErrors
  · rfl

theorem packetBuffer_acceptZrposWait : r.acceptZrposWait.1.packetBuffer = r.packetBuffer := by
  unfold acceptZrposWait
  split
  · unfold acceptZeof
    split_ifs
    · rfl
    · rfl
    · exact packetBuffer_statsIncrementErrors
  · rfl
  · exact packetBuffer_statsIncrementErrors
  · rfl

/-- A header that is read makes the buffer shorter. -/
theorem parse_taken (hcode : r.front.code = .ok) : r.parse.1.packetBuffer.n < r.packetBuffer.n := by
  have hpos : 0 < r.front.discard := parsePacket_ok hcode
  have hn : 0 < r.packetBuffer.n := pos_of_front (by rw [hcode]; decide)
  rw [packetBuffer_parse]
  change r.packetBuffer.n - r.front.discard < r.packetBuffer.n
  omega

/-- A state that waits goes on only with a header that it has read, or with one that it takes
differently from a garbled one. -/
theorem await_goes {garbled accept expired : Receiver → Receiver × Bool} (hexpired : h.expired = false)
    (haccept : ∀ r₁ : Receiver, (accept r₁).1.packetBuffer = r₁.packetBuffer)
    (hgarbled : r.front.code = .invalid ∨ r.front.code = .crcerror → (garbled r.parse.1).2 = false →
      Progress r (garbled r.parse.1).1)
    (hgoes : (r.await h garbled accept expired).2 = false) :
    Progress r (r.await h garbled accept expired).1 := by
  revert hgoes
  unfold await
  by_cases hn : 0 < r.packetBuffer.n
  · rw [if_pos hn, parse_snd]
    cases hcode : r.front.code with
    | invalid => exact hgarbled (.inl hcode)
    | crcerror => exact hgarbled (.inr hcode)
    | nodata => intro hgoes; cases hgoes
    | ok =>
      intro _
      have htaken := parse_taken hcode
      rw [← haccept] at htaken
      exact .taken htaken
  · rw [if_neg hn, hexpired]
    intro hgoes
    cases hgoes

theorem progress_errors (hstate : r.state ≠ .zdata) (hrank : 0 < rank r.state) :
    Progress r r.statsIncrementErrors := by
  unfold statsIncrementErrors
  by_cases herrors : 15 ≤ r.consecutiveErrors + 1
  · rw [if_pos ⟨herrors, hstate⟩]
    exact .moved le_rfl (Nat.sub_le_sub_left (Nat.le_succ _) 15) hrank
  · rw [if_neg fun h => herrors h.1]
    refine .counted le_rfl ?_
    change 15 - (r.consecutiveErrors + 1) < 15 - r.consecutiveErrors
    omega

theorem progress_zrposWait (hexpired : h.expired = false) (hstate : r.state = .zrposWait)
    (hstuck : ¬ (r.priorState = .zrposWait ∧ r.front.code = .invalid ∧ r.front.discard = 0))
    (hgoes : (r.receiveZrposWait h).2 = false) : Progress r (r.receiveZrposWait h).1 := by
  refine await_goes hexpired (fun r₁ => packetBuffer_acceptZrposWait) (fun hcode => ?_) hgoes
  have hn : 0 < r.packetBuffer.n := pos_of_front (by rcases hcode with h | h <;> rw [h] <;> decide)
  split_ifs with hprior
  · intro hdone
    cases hdone
  intro _
  rcases hcode with hcode | hcode
  · rw [parse_invalid hcode] at hprior ⊢
    have hdiscard : r.front.discard ≠ 0 := fun hzero => hstuck ⟨not_not.mp hprior, hcode, hzero⟩
    refine .taken ?_
    change r.packetBuffer.n - r.front.discard < r.packetBuffer.n
    omega
  · rw [parse_crcerror hcode]
    have hle : r.taken.packetBuffer.n ≤ r.packetBuffer.n := Nat.sub_le ..
    have htaken : Progress r.taken r.taken.statsIncrementErrors :=
      progress_errors (by change r.state ≠ _; rw [hstate]; decide) (by change 0 < rank r.state; rw [hstate]; decide)
    cases htaken with
    | taken hn => exact .taken (hn.trans_le hle)
    | counted hn he => exact .counted (hn.trans hle) he
    | moved hn he hs => exact .moved (hn.trans hle) he hs

/-! ### Data -/

theorem nextState_goes (hgoes : r.nextState.2 = false) : r.nextState.1.packetBuffer = r.packetBuffer := by
  revert hgoes
  unfold nextState
  split_ifs
  · split
    · exact fun _ => rfl
    · intro hgoes
      cases hgoes
    · intro hgoes
      cases hgoes
    · exact fun _ => rfl
  · exact fun _ => rfl

theorem packetBuffer_writePacket : r.writePacket.packetBuffer = r.packetBuffer := by
  unfold writePacket
  cases r.fileStream <;> rfl

theorem acceptSubpacket_goes {escape : UInt8} (hgoes : (r.acceptSubpacket escape).2 = false) :
    (r.acceptSubpacket escape).1.packetBuffer = r.packetBuffer := by
  revert hgoes
  unfold acceptSubpacket
  split_ifs
  · exact fun _ => packetBuffer_writePacket
  · exact fun hgoes => (nextState_goes hgoes).trans packetBuffer_writePacket
  · exact fun _ => packetBuffer_writePacket
  · exact fun hgoes => (nextState_goes hgoes).trans packetBuffer_writePacket
  · exact nextState_goes

theorem rejectSubpacket_goes (hgoes : r.rejectSubpacket.2 = false) :
    r.rejectSubpacket.1.packetBuffer = r.packetBuffer := by
  revert hgoes
  unfold rejectSubpacket
  split_ifs
  · intro hgoes
    cases hgoes
  · intro hgoes
    cases hgoes
  · exact nextState_goes

theorem receiveSubpacket_goes {crcBuffer : List UInt8} (hgoes : (r.receiveSubpacket crcBuffer).2 = false) :
    (r.receiveSubpacket crcBuffer).1.packetBuffer = r.packetBuffer := by
  revert hgoes
  unfold receiveSubpacket
  dsimp only
  split_ifs
  · intro hgoes
    cases hgoes
  · exact acceptSubpacket_goes
  · exact rejectSubpacket_goes
  · exact acceptSubpacket_goes
  · exact rejectSubpacket_goes

theorem subpacketEnd_pos {output crcBuffer rest : List UInt8}
    (hdecode : decodeZdataBytes r.packet.useCrc32 r.packetBuffer.valid = .subpacket output crcBuffer rest) :
    0 < subpacketEnd h r crcBuffer rest := by
  have hlength := decodeZdataBytes_subpacket hdecode
  rw [Buffer.length_valid] at hlength
  unfold subpacketEnd
  dsimp only
  split_ifs <;> omega

theorem progress_zdata (hgoes : (r.receiveZdata h).2 = false) : Progress r (r.receiveZdata h).1 := by
  revert hgoes
  unfold receiveZdata
  split
  · intro hgoes
    cases hgoes
  · intro hgoes
    cases hgoes
  · next output crcBuffer rest hdecode =>
    have hpos := subpacketEnd_pos (h := h) hdecode
    dsimp only
    split_ifs with hover
    · intro hgoes
      cases hgoes
    · intro hgoes
      refine .taken ?_
      rw [receiveSubpacket_goes hgoes]
      change r.packetBuffer.n - subpacketEnd h r crcBuffer rest < r.packetBuffer.n
      omega

/-! ### The loop -/

/-- What opening a file leaves alone. -/
structure Opens (r r' : Receiver) : Prop where
  packetBuffer_eq : r'.packetBuffer = r.packetBuffer
  errors_eq : r'.consecutiveErrors = r.consecutiveErrors
  state_eq : r'.state = .zrpos ∨ r'.state = .zcrc

theorem opens_openFile {exist : Bool} (hstate : r.state = .zrpos ∨ r.state = .zcrc)
    (hgoes : (r.openFile h exist).2 = false) : Opens r (r.openFile h exist).1 := by
  revert hgoes
  unfold openFile
  split_ifs
  · intro hgoes
    cases hgoes
  · exact fun _ => ⟨rfl, rfl, hstate⟩
  · exact fun _ => ⟨rfl, rfl, hstate⟩

theorem opens_openNewFile (hgoes : (r.openNewFile h).2 = false) : Opens r (r.openNewFile h).1 := by
  revert hgoes
  unfold openNewFile
  dsimp only
  split_ifs
  · intro hgoes
    cases hgoes
  · intro hgoes
    obtain ⟨hbuffer, herrors, hstate⟩ := opens_openFile (.inl rfl) hgoes
    exact ⟨hbuffer, herrors, hstate⟩

theorem opens_zfile (hgoes : (r.receiveZfile h).2 = false) : Opens r (r.receiveZfile h).1 := by
  revert hgoes
  unfold receiveZfile
  dsimp only
  by_cases hstat : h.statFails r.scanZfile.fileFullname
  · rw [if_pos hstat]
    intro hgoes
    cases hgoes
  · rw [if_neg hstat]
    cases r.scanZfile.disk.lookup r.scanZfile.fileFullname with
    | none =>
      intro hgoes
      obtain ⟨hbuffer, herrors, hstate⟩ := opens_openFile (.inl rfl) hgoes
      exact ⟨hbuffer, herrors, hstate⟩
    | some content =>
      dsimp only
      split_ifs
      · intro hgoes
        obtain ⟨hbuffer, herrors, hstate⟩ := opens_openNewFile hgoes
        exact ⟨hbuffer, herrors, hstate⟩
      · intro hgoes
        obtain ⟨hbuffer, herrors, hstate⟩ := opens_openFile (.inr rfl) hgoes
        exact ⟨hbuffer, herrors, hstate⟩
      · intro hgoes
        obtain ⟨hbuffer, herrors, hstate⟩ := opens_openFile (.inr rfl) hgoes
        exact ⟨hbuffer, herrors, hstate⟩
      · intro hgoes
        obtain ⟨hbuffer, herrors, hstate⟩ := opens_openFile (.inl rfl) hgoes
        exact ⟨hbuffer, herrors, hstate⟩

/-- A round that the loop goes on after has done something. -/
theorem progress_receiveState (hexpired : h.expired = false) (halive : r.crashed = false)
    (hstuck : ¬ r.Stuck) (hgoes : (r.receiveState h).2 = false) : Progress r (r.receiveState h).1 := by
  revert hgoes
  unfold receiveState
  split
  · next hs =>
    intro _
    split_ifs
    · exact .ahead (b := .zchallenge) hs rfl (by decide) le_rfl le_rfl
    · exact .ahead (b := .zrinit) hs rfl (by decide) le_rfl le_rfl
  · next hs => exact fun _ => .ahead (b := .zchallengeWait) hs rfl (by decide) (Nat.zero_le _) le_rfl
  · exact fun hgoes => await_goes hexpired (fun _ => packetBuffer_acceptZchallengeWait)
      (fun _ hgarbled => by cases hgarbled) hgoes
  · next hs =>
    unfold receiveZcrc
    split_ifs
    · intro hgoes
      cases hgoes
    · exact fun _ => .ahead (b := .zcrcWait) hs rfl (by decide) (Nat.zero_le _) le_rfl
  · exact fun hgoes => await_goes hexpired (fun _ => packetBuffer_acceptZcrcWait)
      (fun _ hgarbled => by cases hgarbled) hgoes
  · next hs => exact fun _ => .ahead (b := .zrinitWait) hs rfl (by decide) (Nat.zero_le _) le_rfl
  · exact fun hgoes => await_goes hexpired (fun _ => packetBuffer_acceptZrinitWait)
      (fun _ hgarbled => by cases hgarbled) hgoes
  · next hs => exact fun _ => .ahead (b := .zrposWait) hs rfl (by decide) (Nat.zero_le _) le_rfl
  · next hs =>
    exact progress_zrposWait hexpired hs fun hfront => hstuck ⟨halive, hs, hfront.1, hfront.2.1, hfront.2.2⟩
  · next hs =>
    intro hgoes
    obtain ⟨hbuffer, herrors, hstate⟩ := opens_zfile hgoes
    rcases hstate with hstate | hstate
    · exact .ahead hs hstate (by decide) (by rw [hbuffer]) (by rw [herrors])
    · exact .ahead hs hstate (by decide) (by rw [hbuffer]) (by rw [herrors])
  · next hs =>
    unfold receiveZskip
    split_ifs
    · intro hgoes
      cases hgoes
    · exact fun _ => .ahead (b := .zrinitWait) hs rfl (by decide) (Nat.zero_le _) le_rfl
  · exact progress_zdata
  · intro hgoes
    cases hgoes
  · intro hgoes
    cases hgoes
  · intro hgoes
    cases hgoes
  · intro hgoes
    cases hgoes

theorem valid_fill_fill {b : Buffer} {input : List UInt8} :
    ((b.fill input).fill (input.drop b.room)).valid = (b.fill input).valid := by
  rw [Buffer.valid_fill (b.fill input)]
  have htake : (input.drop b.room).take (b.fill input).room = [] := by
    have hroom : (b.fill input).room = b.room - input.length := by
      have hn : (b.fill input).n = b.n + (input.take b.room).length := rfl
      rw [Buffer.room, hn, List.length_take, Buffer.room]
      omega
    apply List.eq_nil_of_length_eq_zero
    rw [List.length_take, List.length_drop, hroom]
    omega
  rw [htake, List.append_nil]

theorem receiveState_stuck (hr : r.Stuck) : r.receiveState h = (r.taken, false) := by
  have hn : 0 < r.packetBuffer.n := pos_of_front (by rw [hr.code_eq]; decide)
  have hprior : r.taken.priorState = .zrposWait := hr.prior_eq
  rw [receiveState, hr.state_eq]
  dsimp only
  rw [receiveZrposWait, await, if_pos hn, parse_snd, hr.code_eq]
  dsimp only
  rw [parse_invalid hr.code_eq, if_neg (by rw [hprior]; decide)]

/-- Nothing that arrives later changes a buffer that is stuck. -/
theorem stuck_again {input : List UInt8} (hr : (r.fill input).Stuck) :
    ((r.fill input).taken.fill (input.drop r.packetBuffer.room)).Stuck := by
  have hfront : ((r.fill input).taken.fill (input.drop r.packetBuffer.room)).front = (r.fill input).front := by
    have hvalid : (((r.packetBuffer.fill input).discard (r.fill input).front.discard).fill
        (input.drop r.packetBuffer.room)).valid = (r.packetBuffer.fill input).valid := by
      have hsame : (r.packetBuffer.fill input).discard 0 = r.packetBuffer.fill input := by
        simp [Buffer.discard]
      rw [hr.discard_eq, hsame, valid_fill_fill]
    rw [front, front]
    exact congrArg (parsePacket (crc32Tab r.crcTabMade)) hvalid
  exact ⟨hr.alive, hr.state_eq, hr.prior_eq, by rw [hfront]; exact hr.code_eq,
    by rw [hfront]; exact hr.discard_eq⟩

/-- The body of the loop: what is left of the input goes with the receiver. -/
def body (hosts : ℕ → Host) (n : ℕ) (c : Receiver × List UInt8) : (Receiver × List UInt8) × Bool :=
  let round := c.1.receiveRound (hosts n) c.2
  ((round.1, c.2.drop c.1.packetBuffer.room), round.2)

/-- A round of the call finds the buffer stuck. -/
def Jams (c : Receiver × List UInt8) : Prop := (c.1.fill c.2).Stuck

/-- Rounds until the timer is quiet, bytes in the buffer and the input, errors that are left to
count, and the rank of the state. -/
def variant (quiet n : ℕ) (c : Receiver × List UInt8) : ℕ × ℕ × ℕ × ℕ :=
  (quiet - n, c.1.packetBuffer.n + c.2.length, 15 - c.1.consecutiveErrors, rank c.1.state)

def Less : ℕ × ℕ × ℕ × ℕ → ℕ × ℕ × ℕ × ℕ → Prop :=
  Prod.Lex (· < ·) (Prod.Lex (· < ·) (Prod.Lex (· < ·) (· < ·)))

theorem wellFounded_less : WellFounded Less :=
  WellFounded.prod_lex wellFounded_lt (WellFounded.prod_lex wellFounded_lt
    (WellFounded.prod_lex wellFounded_lt wellFounded_lt))

theorem less_of_le {n a e s a' e' s' : ℕ} (ha : a' ≤ a) (he : a' = a → e' ≤ e)
    (hs : a' = a → e' = e → s' < s) : Less (n, a', e', s') (n, a, e, s) := by
  apply Prod.Lex.right
  rcases ha.lt_or_eq with hlt | rfl
  · exact .left _ _ hlt
  apply Prod.Lex.right
  rcases (he rfl).lt_or_eq with hlt | rfl
  · exact .left _ _ hlt
  · exact .right _ (hs rfl rfl)

variable {hosts : ℕ → Host} {input : List UInt8}

theorem body_of_alive {n : ℕ} {c : Receiver × List UInt8} (halive : c.1.crashed = false) :
    body hosts n c = ((((c.1.fill c.2).receiveState (hosts n)).1, c.2.drop c.1.packetBuffer.room),
      ((c.1.fill c.2).receiveState (hosts n)).2) := by
  rw [body, receiveRound, if_neg (by simp [halive])]
  rfl

theorem variant_decreases {quiet n : ℕ} {c : Receiver × List UInt8}
    (hclock : ∀ n, quiet ≤ n → (hosts n).expired = false) (hjam : ¬ Jams c)
    (hgoes : (body hosts n c).2 = false) :
    Less (variant quiet (n + 1) (body hosts n c).1) (variant quiet n c) := by
  by_cases hn : n < quiet
  · exact .left _ _ (by omega)
  have hquiet : quiet - (n + 1) = quiet - n := by omega
  have halive : c.1.crashed = false := by
    by_contra hcrashed
    rw [body, receiveRound, if_pos (by simpa using hcrashed)] at hgoes
    cases hgoes
  rw [body_of_alive halive] at hgoes ⊢
  have hprogress := progress_receiveState (hclock n (by omega)) (r := c.1.fill c.2) halive hjam hgoes
  have hbytes : (c.1.fill c.2).packetBuffer.n + (c.2.drop c.1.packetBuffer.room).length =
      c.1.packetBuffer.n + c.2.length := by
    change c.1.packetBuffer.n + (c.2.take c.1.packetBuffer.room).length + _ = _
    rw [List.length_take, List.length_drop]
    omega
  rw [variant, variant, hquiet, ← hbytes]
  cases hprogress with
  | taken hn' => exact less_of_le (by dsimp only; omega) (by dsimp only; omega) (by dsimp only; omega)
  | counted hn' he =>
    change 15 - _ < 15 - c.1.consecutiveErrors at he
    exact less_of_le (by dsimp only; omega) (fun _ => he.le) (fun _ h => absurd h he.ne)
  | moved hn' he hs =>
    change 15 - _ ≤ 15 - c.1.consecutiveErrors at he
    exact less_of_le (by dsimp only; omega) (fun _ => he) (fun _ _ => hs)

theorem not_returns_of_jams {r : Receiver} {n : ℕ} {c : Receiver × List UInt8}
    (hc : Loops.before (body hosts) (r, input) n = some c) (hjam : Jams c) :
    ¬ ∃ result, Returns (body hosts) (r, input) result := by
  refine not_returns (P := Jams) (fun m t ht => ?_) hc hjam
  rw [body_of_alive ht.alive, receiveState_stuck ht]
  exact ⟨rfl, stuck_again ht⟩

/-- A call of `zmodem_receive` in which the timer does not run out for ever returns exactly when no
round finds the buffer stuck. -/
theorem returns_iff (hclock : ∃ quiet, ∀ n, quiet ≤ n → (hosts n).expired = false) (r : Receiver)
    (input : List UInt8) :
    (∃ result, Returns (body hosts) (r, input) result) ↔
      ∀ n c, Loops.before (body hosts) (r, input) n = some c → ¬ Jams c := by
  obtain ⟨quiet, hquiet⟩ := hclock
  constructor
  · intro hreturns n c hc hjam
    exact not_returns_of_jams hc hjam hreturns
  · intro hjam
    exact exists_returns wellFounded_less (variant quiet) fun n c hc hgoes =>
      variant_decreases hquiet (hjam n c hc) hgoes

/-- A receiver that has asked for the file `f`. -/
def exampleAsking : Receiver := zmodemReceive [exampleHost, exampleHost] [] exampleReceiver

/-- A call that gets no input returns. -/
theorem returns_exampleAsking : ∃ result, Returns (body fun _ => exampleHost) (exampleAsking, []) result := by
  refine (returns_iff ⟨0, fun _ _ => rfl⟩ exampleAsking []).mpr fun n c hc hjam => ?_
  have hfirst : Loops.before (body fun _ => exampleHost) (exampleAsking, []) 0 = some (exampleAsking, []) := rfl
  obtain rfl : n = 0 := Nat.le_zero.mp (last_round hfirst (by decide +kernel) hc)
  obtain rfl := Option.some.inj hc
  exact absurd hjam.code_eq (by decide +kernel)

/-- A ZDATA frame, and behind it a hex header without digits. -/
def badHexFrame : List UInt8 := frameAb ++ [42, 42, 24, 66] ++ List.replicate 16 103

theorem not_returns_badHexFrame :
    ¬ ∃ result, Returns (body fun _ => exampleHost) (exampleAsking, badHexFrame) result := by
  have hfirst : Loops.before (body fun _ => exampleHost) (exampleAsking, badHexFrame) 0 =
      some (exampleAsking, badHexFrame) := rfl
  have hsecond := before_succ (before_succ hfirst (by decide +kernel)) (by decide +kernel)
  apply not_returns_of_jams hsecond
  exact ⟨by decide +kernel, by decide +kernel, by decide +kernel, by decide +kernel, by decide +kernel⟩

end Receiver
end CProgram.Zmodem
