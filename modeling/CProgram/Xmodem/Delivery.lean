import CProgram.Lib.Exchange
import CProgram.Xmodem.Damage
import CProgram.Xmodem.Tail

/-! A sender and a receiver on a perfect line: whole messages arrive in order, and no timer runs out. -/
namespace CProgram.Xmodem
open Sender Exchange

/-- The two parties, and the messages under way to each of them. -/
structure Line where
  sender : Sender
  receiver : Receiver
  toSender : List (List UInt8)
  toReceiver : List (List UInt8)

namespace Line

/-- What a call has put into its output, as one message or byte by byte. -/
def messages (apart : Bool) (output : List UInt8) : List (List UInt8) :=
  if output = [] then [] else if apart then output.map ([·]) else [output]

/-- A call takes the next message, or nothing if there is none. -/
def callSender (c : Line) : Option Line :=
  match c.sender.xmodem false (c.toSender.headD []) [] with
  | .error _ => none
  | .ok (s, output) =>
    some ⟨s, c.receiver, c.toSender.tail, c.toReceiver ++ messages false output⟩

def callReceiver (h : Host) (apart : Bool) (c : Line) : Option Line :=
  match c.receiver.xmodem h (c.toReceiver.headD []) [] with
  | .error _ => none
  | .ok (r, output) => some ⟨c.sender, r, c.toSender ++ messages apart output, c.toReceiver.tail⟩

/-- The parties are called as `turn` says; `apart` says which answers arrive byte by byte. -/
def call (h : Host) (apart : ℕ → Bool) (t : ℕ) (b : Bool) (c : Line) : Option Line :=
  if b then c.callSender else c.callReceiver h (apart t)

end Line

/-- No timer runs out, and every file can be opened. -/
def perfect (garbage : UInt8) (rounds : ℕ) : Host := ⟨false, fun _ => true, garbage, rounds⟩

/-! ### The sender -/

/-- The sender waits for an answer. -/
inductive Sender.Waits (s : Sender) : Prop
  | init (h : s.state = .init)
  | block (h : s.state = .block)
  | lastBlock (h : s.state = .lastBlock)
  | eotAck (h : s.state = .eotAck)
  | complete (h : s.state = .complete)
  | ack1 (h : s.state = .ymodemBlock0Ack1)
  | ack2 (h : s.state = .ymodemBlock0Ack2)

namespace Sender

theorem xmodem_of_xmodemSend {s s' : Sender} {input output : List UInt8} (hstate : s.state ≠ .abort)
    (h : s.xmodemSend false input [] = .ok (s', [], output)) :
    s.xmodem false input [] = .ok (s', output) := by
  rw [xmodem, if_neg hstate, sendAll, h]

theorem Waits.ne_abort {s : Sender} (h : s.Waits) : s.state ≠ .abort := by
  cases h <;> next h => rw [h]; decide

/-- The states in which `xmodem_send` goes straight to its last part. -/
theorem xmodemSend_of_body {s : Sender} {input output : List UInt8} {expired : Bool}
    (hcan : input.head? ≠ some cCan)
    (hstate : s.state ≠ .init ∧ s.state ≠ .ymodemBlock0 ∧ s.state ≠ .ymodemBlock0Ack1 ∧
      s.state ≠ .ymodemBlock0Ack2) :
    s.xmodemSend expired input output = s.sendBody expired input output := by
  rw [xmodemSend, if_neg hcan, if_neg hstate.1, sendFromBlockZero, if_neg hstate.2.1, sendFromAck1,
    if_neg hstate.2.2.1, sendFromAck2, if_neg hstate.2.2.2]

theorem xmodem_idle {s : Sender} (h : s.Waits) (hg : s.flavor.isG = false) :
    s.xmodem false [] [] = .ok (s, []) := by
  have hnot : ¬ (([] : List UInt8) = [cAck] ∨ s.flavor.isG = true) := by simp [hg]
  have hyG : ¬ (s.flavor = .yG ∧ s.filename = none) := by
    rintro ⟨hflavor, -⟩
    rw [hflavor] at hg
    cases hg
  refine xmodem_of_xmodemSend h.ne_abort ?_
  cases h with
  | init h =>
    rw [xmodemSend, if_neg (by simp), if_pos h]
    rfl
  | block h =>
    rw [xmodemSend_of_body (by simp) (by rw [h]; decide), sendBody, h]
    exact if_neg hnot
  | lastBlock h =>
    rw [xmodemSend_of_body (by simp) (by rw [h]; decide), sendBody, h]
    exact if_neg hnot
  | eotAck h =>
    rw [xmodemSend_of_body (by simp) (by rw [h]; decide), sendBody, h]
    rfl
  | complete h => rw [xmodemSend_of_body (by simp) (by rw [h]; decide), sendBody, h]
  | ack1 h =>
    rw [xmodemSend, if_neg (by simp), if_neg (by rw [h]; decide), sendFromBlockZero,
      if_neg (by rw [h]; decide), sendFromAck1, if_pos h, sendAck1, if_neg hyG, if_pos rfl]
    rfl
  | ack2 h =>
    rw [xmodemSend, if_neg (by simp), if_neg (by rw [h]; decide), sendFromBlockZero,
      if_neg (by rw [h]; decide), sendFromAck1, if_neg (by rw [h]; decide), sendFromAck2, if_pos h,
      sendAck2, if_pos rfl]
    rfl

/-- The next block is due. -/
structure Ready (flavor : Flavor) (number : UInt8) (rest : List UInt8) (s : Sender) : Prop where
  flavor_eq : s.flavor = flavor
  state_eq : s.state = .block
  number_eq : s.currentBlockSequenceI = number
  file_eq : s.file = some rest

theorem xmodem_ack {flavor : Flavor} {number : UInt8} {rest : List UInt8} {s : Sender}
    (h : s.Ready flavor number rest) :
    s.xmodem false [cAck] [] =
      .ok (s.clearBlock.constructBlock rest, blockAround flavor number (rest.take (readSize flavor))) := by
  refine xmodem_of_xmodemSend (by rw [h.state_eq]; decide) ?_
  rw [xmodemSend_of_body (by decide) (by rw [h.state_eq]; decide), sendBody, h.state_eq]
  have hblock : (s.clearBlock.constructBlock rest).currentBlock =
      blockAround flavor number (rest.take (readSize flavor)) := by
    rw [← h.flavor_eq, ← h.number_eq]
    rfl
  rw [← hblock, sendBlock, if_pos (.inl rfl), if_neg (by simp), h.file_eq]
  rfl

/-- The first byte of the receiver works as an ACK. -/
theorem xmodem_first {s : Sender} (hstate : s.state = .init) (hy : s.flavor.isYmodem = false)
    (hcan : s.firstByte ≠ cCan) :
    s.xmodem false [s.firstByte] [] = (s.setState .block).xmodem false [cAck] [] := by
  have hinit : s.sendInit false [s.firstByte] [] = .fall (s.setState .block) [cAck] := by
    unfold sendInit
    cases hf : s.flavor <;> rw [hf] at hy <;> first | exact if_pos rfl | cases hy
  have hsend : s.xmodemSend false [s.firstByte] [] = (s.setState .block).xmodemSend false [cAck] [] := by
    rw [xmodemSend, if_neg (by simpa using hcan), if_pos hstate, hinit]
    rfl
  rw [xmodem, xmodem, if_neg (by rw [hstate]; decide), if_neg (by simp [setState]), sendAll, sendAll, hsend]

theorem xmodem_lastAck {s : Sender} (hstate : s.state = .lastBlock) :
    s.xmodem false [cAck] [] = .ok (s.setState .eotAck, [cEot]) := by
  refine xmodem_of_xmodemSend (by rw [hstate]; decide) ?_
  rw [xmodemSend_of_body (by decide) (by rw [hstate]; decide), sendBody, hstate]
  exact if_pos (.inl rfl)

def complete (s : Sender) : Sender := { s with file := none, state := .complete }

theorem xmodem_eotAck {s : Sender} (hstate : s.state = .eotAck) (hfile : s.file ≠ none)
    (hy : s.flavor.isYmodem = false) : s.xmodem false [cAck] [] = .ok (s.complete, []) := by
  refine xmodem_of_xmodemSend (by rw [hstate]; decide) ?_
  rw [xmodemSend_of_body (by decide) (by rw [hstate]; decide), sendBody, hstate]
  have hack : s.sendEotAck false [cAck] [] = .ok (s.complete, [], []) := by
    unfold sendEotAck
    dsimp only
    rw [if_neg (by decide), if_neg hfile, if_neg (by simp [hy])]
    rfl
  exact hack

end Sender

/-! ### The receiver -/

/-- A block for these bytes is a small one. -/
def isSmall (flavor : Flavor) (read : List UInt8) : Bool := flavor.isShort || decide (read.length ≤ 128)

/-- The padded bytes of a block. -/
def blockData (flavor : Flavor) (read : List UInt8) : List UInt8 :=
  padded read (if isSmall flavor read then 128 else 1024)

def blockHeader (flavor : Flavor) (read : List UInt8) : UInt8 :=
  if isSmall flavor read then cSoh else cStx

def checkBytes (flavor : Flavor) (data : List UInt8) : List UInt8 :=
  if flavor.hasChecksum then [checksum data] else crcBytes data

theorem isShort_of_hasChecksum {flavor : Flavor} (h : flavor.hasChecksum = true) :
    flavor.isShort = true := by
  cases flavor <;> first | rfl | cases h

theorem blockAround_eq (flavor : Flavor) (number : UInt8) (read : List UInt8) :
    blockAround flavor number read = layout (blockHeader flavor read) number (blockData flavor read)
      (checkBytes flavor (blockData flavor read)) := by
  unfold blockAround blockHeader blockData checkBytes
  cases hsum : flavor.hasChecksum
  · rw [if_neg Bool.false_ne_true, if_neg Bool.false_ne_true, ← isSmall]
    cases isSmall flavor read <;> rfl
  · rw [isSmall, isShort_of_hasChecksum hsum]
    rfl

theorem fits_block (flavor : Flavor) (read : List UInt8) :
    Fits (blockHeader flavor read) (blockData flavor read) := by
  unfold blockHeader blockData
  cases isSmall flavor read
  · exact .inr ⟨rfl, length_padded ..⟩
  · exact .inl ⟨rfl, length_padded ..⟩

theorem blockHeader_of_isShort {flavor : Flavor} (h : flavor.isShort = true) (read : List UInt8) :
    blockHeader flavor read = cSoh := by
  rw [blockHeader, isSmall, h]
  rfl

theorem length_checkBytes (flavor : Flavor) (data : List UInt8) :
    (checkBytes flavor data).length = if flavor.hasChecksum then 1 else 2 := by
  unfold checkBytes
  split <;> rfl

namespace Receiver

/-- The receiver waits for the next block. -/
structure Ready (flavor : Flavor) (number : UInt8) (content : List UInt8) (r : Receiver) : Prop where
  flavor_eq : r.flavor = flavor
  state_eq : r.state = .block ∨ r.state = .firstBlock
  number_eq : r.currentBlockSequenceI = number
  file_eq : r.file = some content
  block_eq : r.currentBlock = []

theorem xmodem_of_xmodemReceive {r r' : Receiver} {h : Host} {input output : List UInt8}
    (hstate : r.state ≠ .abort) (hreceive : r.xmodemReceive h input [] = .ok (r', [], output)) :
    r.xmodem h input [] = .ok (r', output) := by
  rw [xmodem, if_neg hstate, receiveAll, hreceive]

theorem xmodem_idle {r : Receiver} {h : Host} (hexpired : h.expired = false)
    (hstate : r.state = .block ∨ r.state = .firstBlock ∨ r.state = .complete) :
    r.xmodem h [] [] = .ok (r, []) := by
  refine xmodem_of_xmodemReceive (by rcases hstate with h | h | h <;> rw [h] <;> decide) ?_
  rw [xmodemReceive]
  rcases hstate with h | h | h
  · rw [h]
    simp [receiveNothing, checkTimeout, hexpired]
  · rw [h]
    simp [hexpired]
  · rw [h]

theorem xmodem_init {r : Receiver} (h : Host) (input : List UInt8) (hstate : r.state = .init) :
    r.xmodem h input [] = .ok (r.receiveInit, [r.firstByte]) := by
  refine xmodem_of_xmodemReceive (by rw [hstate]; decide) ?_
  rw [xmodemReceive, hstate]

theorem inBlock_eq {r : Receiver} (h : r.state = .block) : r.inBlock = r := by
  cases r
  cases h
  rfl

/-- Data that arrives is looked at in the state `block`. -/
theorem xmodemReceive_of_ready {flavor : Flavor} {number : UInt8} {content input : List UInt8}
    {r : Receiver} (hr : r.Ready flavor number content) (h : Host) (hinput : input ≠ []) :
    r.xmodemReceive h input [] = r.inBlock.receiveBlock h input [] := by
  rw [xmodemReceive]
  rcases hr.state_eq with hstate | hstate
  · rw [hstate]
    dsimp only
    rw [if_neg hinput, inBlock_eq hstate]
  · rw [hstate]
    dsimp only
    rw [if_neg hinput]

end Receiver

/-- The length of a block that is sent. -/
theorem length_blockAround (flavor : Flavor) (number : UInt8) (read : List UInt8) :
    (blockAround flavor number read).length =
      (if isSmall flavor read then 128 else 1024) + (if flavor.hasChecksum then 4 else 5) := by
  rw [blockAround_eq, length_layout, length_checkBytes, blockData, length_padded]
  split_ifs <;> omega

theorem payload_blockAround (flavor : Flavor) (number : UInt8) (read : List UInt8) :
    payload (blockAround flavor number read) (payloadSize (blockAround flavor number read)) =
      blockData flavor read := by
  rw [blockAround_eq, payloadSize_layout (fits_block flavor read), payload_layout]

theorem byteAt_blockAround (flavor : Flavor) (number : UInt8) (read : List UInt8) :
    byteAt (blockAround flavor number read) 0 = blockHeader flavor read ∧
      byteAt (blockAround flavor number read) 1 = number ∧
      byteAt (blockAround flavor number read) 2 = 0xFF - number := by
  rw [blockAround_eq]
  exact ⟨rfl, rfl, rfl⟩

/-- The CRC bytes or the checksum are those of the payload. -/
theorem checkPasses_of_sent {r : Receiver} {read : List UInt8}
    (hblock : r.currentBlock = blockAround r.flavor r.currentBlockSequenceI read) :
    r.checkPasses = true := by
  have hfits := fits_block r.flavor read
  have hsize := payloadSize_layout hfits r.currentBlockSequenceI (checkBytes r.flavor (blockData r.flavor read))
  have hcrc (h : r.flavor.hasChecksum = false) : crcPasses r.currentBlock (blockData r.flavor read).length = true := by
    rw [crcPasses_iff, hblock, blockAround_eq]
    refine .inl ?_
    rw [crcHighRight_layout hfits, checkBytes, h]
    exact decide_eq_true rfl
  have hshort (h : r.flavor.isShort = true) : (blockData r.flavor read).length = 128 := by
    rw [blockData, length_padded, isSmall, h]
    rfl
  rw [Receiver.checkPasses]
  split
  · next hsum =>
    have hlength := hshort (isShort_of_hasChecksum hsum)
    have hbyte := byteAt_layout_check (blockHeader r.flavor read) r.currentBlockSequenceI
      (blockData r.flavor read) (checkBytes r.flavor (blockData r.flavor read)) hfits.pos 0
    have hpayload := payload_layout (blockHeader r.flavor read) r.currentBlockSequenceI
      (blockData r.flavor read) (checkBytes r.flavor (blockData r.flavor read))
    rw [hlength] at hbyte hpayload
    rw [hblock, blockAround_eq, hpayload, decide_eq_true_eq]
    refine Eq.trans ?_ hbyte.symm
    rw [checkBytes, if_pos hsum]
    rfl
  · next hsum =>
    rw [Bool.not_eq_true] at hsum
    split
    · next hxcrc =>
      rw [← hshort (by rw [hxcrc]; rfl)]
      exact hcrc hsum
    · have hcrc' := hcrc hsum
      rw [← hsize, ← blockAround_eq, ← hblock] at hcrc'
      exact hcrc'

/-- A block of the sender with the expected number is written. -/
theorem verifyBlock_of_sent {r : Receiver} {read : List UInt8}
    (hblock : r.currentBlock = blockAround r.flavor r.currentBlockSequenceI read) :
    r.verifyBlock = (r.writeBlock, true) := by
  obtain ⟨hheader, hnumber, hcomplement⟩ := byteAt_blockAround r.flavor r.currentBlockSequenceI read
  have hlength := length_blockAround r.flavor r.currentBlockSequenceI read
  rw [← hblock] at hheader hnumber hcomplement hlength
  have hsmall (h : r.flavor.isShort = true) : isSmall r.flavor read = true := by
    rw [isSmall, h]
    rfl
  have hsize : r.sizePasses = true := by
    rw [Receiver.sizePasses]
    cases hsum : r.flavor.hasChecksum
    · rw [if_neg Bool.false_ne_true]
      rw [hsum] at hlength
      split
      · next hxcrc =>
        rw [hsmall (by rw [hxcrc]; rfl)] at hlength
        exact decide_eq_true hlength
      · cases hs : isSmall r.flavor read <;> rw [hs] at hlength <;> simp [hlength]
    · rw [hsum, hsmall (isShort_of_hasChecksum hsum)] at hlength
      exact decide_eq_true hlength
  have hheaderPasses : r.headerPasses = true := by
    rw [Receiver.headerPasses, hheader]
    split
    · next h =>
      rw [blockHeader_of_isShort h]
      rfl
    · rw [blockHeader]
      split <;> rfl
  have hsequence := r.sequencePasses_iff.mpr hnumber
  have hcomplementPasses := r.complementPasses_iff.mpr (by rw [hcomplement, hnumber])
  rw [Receiver.verifyBlock, hsize, hheaderPasses, hsequence, hcomplementPasses,
    checkPasses_of_sent hblock, Receiver.isDuplicate_eq_false hsequence]
  rfl

/-- Nothing more is awaited for a block that is there. -/
theorem isWaiting_of_sent {r : Receiver} {read : List UInt8}
    (hblock : r.currentBlock = blockAround r.flavor r.currentBlockSequenceI read) :
    r.isWaiting = false := by
  obtain ⟨hheader, -, -⟩ := byteAt_blockAround r.flavor r.currentBlockSequenceI read
  have hlength := length_blockAround r.flavor r.currentBlockSequenceI read
  rw [← hblock] at hheader hlength
  unfold Receiver.isWaiting
  cases hs : isSmall r.flavor read <;> rw [blockHeader, hs] at hheader <;> rw [hs] at hlength
  · cases hf : r.flavor <;> rw [hf] at hs hlength <;>
      first | cases hs | simp [hheader, hlength, Flavor.hasChecksum, xmodemMaxBlockSize]
  · cases hf : r.flavor <;> rw [hf] at hlength <;>
      simp [hheader, hlength, Flavor.hasChecksum, cSoh, cStx]

namespace Receiver

/-- The receiver behind a block that it has written. -/
def accepted (r : Receiver) (data : List UInt8) : Receiver :=
  { r with
    state := .block
    currentBlock := []
    currentBlockSequenceI := r.currentBlockSequenceI + 1
    currentBlockNumber := r.currentBlockNumber + 1
    file := r.file.map (· ++ data) }

theorem xmodem_block {flavor : Flavor} {number : UInt8} {content : List UInt8} {r : Receiver}
    (hr : r.Ready flavor number content) (hg : flavor.isG = false)
    (hseen : flavor.isYmodem = true → r.block0HasBeenSeen = true) (h : Host) (read : List UInt8) :
    r.xmodem h (blockAround flavor number read) [] = .ok (r.accepted (blockData flavor read), [cAck]) := by
  obtain ⟨rfl, hstate, rfl, hfile, hblock⟩ := hr
  have hlength := length_blockAround r.flavor r.currentBlockSequenceI read
  have hlong : 132 ≤ (blockAround r.flavor r.currentBlockSequenceI read).length ∧
      (blockAround r.flavor r.currentBlockSequenceI read).length ≤ 1029 := by
    rw [hlength]
    split_ifs <;> omega
  have hinput : blockAround r.flavor r.currentBlockSequenceI read ≠ [] := fun h => by
    rw [h] at hlong
    exact absurd hlong.1 (by decide)
  refine xmodem_of_xmodemReceive (by rcases hstate with h | h <;> rw [h] <;> decide) ?_
  rw [xmodemReceive_of_ready ⟨rfl, hstate, rfl, hfile, hblock⟩ h hinput]
  obtain ⟨opened, hopened⟩ : ∃ o, o = r.inBlock.append
      (blockAround r.flavor r.currentBlockSequenceI read) := ⟨_, rfl⟩
  have happend : opened.currentBlock = blockAround opened.flavor opened.currentBlockSequenceI read := by
    rw [hopened]
    exact congrArg (· ++ blockAround r.flavor r.currentBlockSequenceI read) hblock
  have hflavor : opened.flavor = r.flavor := by rw [hopened]; rfl
  have hnumber : opened.currentBlockSequenceI = r.currentBlockSequenceI := by rw [hopened]; rfl
  have hnotEot : opened.currentBlock ≠ [cEot] := fun h => by
    rw [happend, hflavor, hnumber] at h
    rw [h] at hlong
    exact absurd hlong.1 (by decide)
  unfold receiveBlock
  dsimp only
  have hempty : r.inBlock.currentBlock.length = 0 := by rw [inBlock, hblock]; rfl
  have hroom : ¬ xmodemMaxBlockSize < r.inBlock.currentBlock.length +
      (blockAround r.flavor r.currentBlockSequenceI read).length := by
    rw [hempty, xmodemMaxBlockSize]
    omega
  have hplain : ¬ r.inBlock.flavor.isG = true := by
    rw [inBlock, hg]
    decide
  rw [← hopened, if_neg fun h => hroom h.1, if_neg fun h => hplain h.1, if_neg hroom, if_neg hnotEot]
  have hdata : ¬ (opened.flavor.isYmodem = true ∧
      (r.inBlock.currentBlockSequenceI = 0 ∧ r.inBlock.currentBlockNumber = 1) ∧
      ¬ opened.block0HasBeenSeen = true) := by
    rintro ⟨hy, -, hnot⟩
    rw [hopened] at hy hnot
    exact hnot (hseen hy)
  rw [if_neg hdata, receiveData, isWaiting_of_sent happend, verifyBlock_of_sent happend,
    if_neg Bool.false_ne_true]
  have hwritten : opened.writeBlock.clearBlock = r.accepted (blockData r.flavor read) := by
    rw [writeBlock, happend, payload_blockAround, hopened]
    rfl
  rw [← hwritten]
  rfl

end Receiver

/-! ### The bytes of all blocks -/

/-- How many SUBs go out behind a file of `n` bytes. -/
def padding (flavor : Flavor) (n : ℕ) : ℕ :=
  (if flavor.isShort || decide (n % readSize flavor ≤ 128) then 128 else 1024) - n % readSize flavor

/-- A file as its blocks carry it. -/
def image (flavor : Flavor) (file : List UInt8) : List UInt8 :=
  file ++ List.replicate (padding flavor file.length) cSub

theorem takeD_eq_append (l : List UInt8) {n : ℕ} (h : l.length ≤ n) (x : UInt8) :
    l.takeD n x = l ++ List.replicate (n - l.length) x := by
  induction l generalizing n with
  | nil => simp
  | cons y l ih =>
    cases n with
    | zero => simp at h
    | succ n => simpa using ih (Nat.le_of_succ_le_succ h)

theorem readSize_cases (flavor : Flavor) :
    flavor.isShort = true ∧ readSize flavor = 128 ∨ flavor.isShort = false ∧ readSize flavor = 1024 := by
  cases flavor <;> first | exact .inl ⟨rfl, rfl⟩ | exact .inr ⟨rfl, rfl⟩

/-- The last block. -/
theorem image_of_lt {flavor : Flavor} {file : List UInt8} (h : file.length < readSize flavor) :
    image flavor file = blockData flavor file := by
  rw [blockData, padded, image, padding, Nat.mod_eq_of_lt h, ← isSmall, takeD_eq_append]
  cases hs : isSmall flavor file
  · rw [if_neg Bool.false_ne_true]
    rcases readSize_cases flavor with ⟨-, hr⟩ | ⟨-, hr⟩ <;> omega
  · rw [if_pos rfl]
    rcases readSize_cases flavor with ⟨-, hr⟩ | ⟨hshort, hr⟩
    · omega
    · rw [isSmall, hshort, Bool.false_or, decide_eq_true_eq] at hs
      exact hs

/-- A block before the last is full. -/
theorem image_of_le {flavor : Flavor} {file : List UInt8} (h : readSize flavor ≤ file.length) :
    image flavor file =
      blockData flavor (file.take (readSize flavor)) ++ image flavor (file.drop (readSize flavor)) := by
  have hfull : (file.take (readSize flavor)).length = readSize flavor := by
    rw [List.length_take]
    omega
  have hdata : blockData flavor (file.take (readSize flavor)) = file.take (readSize flavor) := by
    have hsize : (if isSmall flavor (file.take (readSize flavor)) then 128 else 1024) = readSize flavor := by
      rw [isSmall, hfull]
      rcases readSize_cases flavor with ⟨hshort, hr⟩ | ⟨hshort, hr⟩ <;> rw [hshort, hr] <;> rfl
    rw [blockData, padded, hsize, List.takeD_eq_take _ (by omega), List.take_of_length_le hfull.le]
  have hpadding : padding flavor (file.drop (readSize flavor)).length = padding flavor file.length := by
    rw [padding, padding, List.length_drop, ← Nat.mod_eq_sub_mod h]
  rw [hdata, image, image, hpadding, ← List.append_assoc, List.take_append_drop]

theorem image_ne_nil (flavor : Flavor) (file : List UInt8) : image flavor file ≠ [] := by
  by_cases h : file.length < readSize flavor
  · rw [image_of_lt h]
    exact List.ne_nil_of_length_pos (fits_block flavor file).pos
  · rw [image_of_le (by omega)]
    exact List.append_ne_nil_of_left_ne_nil
      (List.ne_nil_of_length_pos (fits_block flavor (file.take (readSize flavor))).pos) _

/-! ### The exchange of the blocks -/

namespace Line

theorem messages_singleton (apart : Bool) (byte : UInt8) : messages apart [byte] = [[byte]] := by
  cases apart <;> rfl

theorem messages_of_ne_nil {output : List UInt8} (h : output ≠ []) : messages false output = [output] := by
  rw [messages, if_neg h, if_neg Bool.false_ne_true]

theorem callSender_eq {c : Line} {s : Sender} {output : List UInt8}
    (h : c.sender.xmodem false (c.toSender.headD []) [] = .ok (s, output)) :
    c.callSender = some ⟨s, c.receiver, c.toSender.tail, c.toReceiver ++ messages false output⟩ := by
  rw [callSender, h]

theorem callReceiver_eq {c : Line} {h : Host} {apart : Bool} {r : Receiver} {output : List UInt8}
    (hr : c.receiver.xmodem h (c.toReceiver.headD []) [] = .ok (r, output)) :
    c.callReceiver h apart =
      some ⟨c.sender, r, c.toSender ++ messages apart output, c.toReceiver.tail⟩ := by
  rw [callReceiver, hr]

variable {h : Host} {apart : ℕ → Bool}

theorem waitsFor_sender {c : Line} (hexpired : h.expired = false) (hto : c.toReceiver = [])
    (hstate : c.receiver.state = .block ∨ c.receiver.state = .firstBlock ∨ c.receiver.state = .complete) :
    WaitsFor (call h apart) true c := by
  intro t
  have hidle : c.receiver.xmodem h (c.toReceiver.headD []) [] = .ok (c.receiver, []) := by
    rw [hto]
    exact Receiver.xmodem_idle hexpired hstate
  change c.callReceiver h (apart t) = some c
  rw [callReceiver_eq hidle, messages, if_pos rfl, List.append_nil, hto]
  cases c
  cases hto
  rfl

theorem waitsFor_receiver {c : Line} (hto : c.toSender = []) (hwaits : c.sender.Waits)
    (hg : c.sender.flavor.isG = false) : WaitsFor (call h apart) false c := by
  intro t
  have hidle : c.sender.xmodem false (c.toSender.headD []) [] = .ok (c.sender, []) := by
    rw [hto]
    exact Sender.xmodem_idle hwaits hg
  change c.callSender = some c
  rw [callSender_eq hidle, messages, if_pos rfl, List.append_nil, hto]
  cases c
  cases hto
  rfl

end Line

/-- What the blocks of a file leave alone in the receiver. -/
structure Receiver.Kept (r r' : Receiver) : Prop where
  firstByte : r'.firstByte = r.firstByte
  filename : r'.filename = r.filename
  downloadPath : r'.downloadPath = r.downloadPath
  downloadFileModtime : r'.downloadFileModtime = r.downloadFileModtime
  bytesTotal : r'.bytesTotal = r.bytesTotal
  block0HasBeenSeen : r'.block0HasBeenSeen = r.block0HasBeenSeen
  directory : r'.directory = r.directory

structure Sender.Kept (s s' : Sender) : Prop where
  flavor : s'.flavor = s.flavor
  firstByte : s'.firstByte = s.firstByte
  filename : s'.filename = s.filename
  uploadFileList : s'.uploadFileList = s.uploadFileList

theorem Receiver.Kept.trans {r r' r'' : Receiver} (h : r.Kept r') (h' : r'.Kept r'') : r.Kept r'' :=
  ⟨h'.1.trans h.1, h'.2.trans h.2, h'.3.trans h.3, h'.4.trans h.4, h'.5.trans h.5, h'.6.trans h.6,
    h'.7.trans h.7⟩

theorem Sender.Kept.trans {s s' s'' : Sender} (h : s.Kept s') (h' : s'.Kept s'') : s.Kept s'' :=
  ⟨h'.1.trans h.1, h'.2.trans h.2, h'.3.trans h.3, h'.4.trans h.4⟩

/-- The EOT is under way to a receiver that has written `content`. -/
structure AtEot (flavor : Flavor) (content : List UInt8) (s : Sender) (r : Receiver) (c : Line) : Prop where
  toSender : c.toSender = []
  toReceiver : c.toReceiver = [[cEot]]
  state_eq : c.sender.state = .eotAck
  file_ne : c.sender.file ≠ none
  sender_kept : s.Kept c.sender
  ready : ∃ number, c.receiver.Ready flavor number content
  receiver_kept : r.Kept c.receiver

section Blocks
variable {h : Host} {apart : ℕ → Bool} {flavor : Flavor}

/-- A block goes out, is written, and has its ACK. What the sender finds in its input works on it as
an ACK does on `s`. -/
theorem leads_block {goal : Line → Prop} (hexpired : h.expired = false) (hg : flavor.isG = false)
    {rest content : List UInt8} {number : UInt8} {c : Line} {s : Sender} (hs : s.Ready flavor number rest)
    (hr : c.receiver.Ready flavor number content)
    (hseen : flavor.isYmodem = true → c.receiver.block0HasBeenSeen = true)
    (hack : c.sender.xmodem false (c.toSender.headD []) [] = s.xmodem false [cAck] [])
    (hto : c.toSender.tail = []) (hto' : c.toReceiver = [])
    (hnext : Leads (Line.call h apart) goal ⟨s.clearBlock.constructBlock rest,
      c.receiver.accepted (blockData flavor (rest.take (readSize flavor))), [[cAck]], []⟩) :
    Leads (Line.call h apart) goal c := by
  obtain ⟨s', hs'⟩ : ∃ s', s' = s.clearBlock.constructBlock rest := ⟨_, rfl⟩
  obtain ⟨block, hblock⟩ : ∃ b, b = blockAround flavor number (rest.take (readSize flavor)) := ⟨_, rfl⟩
  rw [← hs'] at hnext
  have hne : block ≠ [] := by
    rw [hblock, blockAround_eq]
    exact List.cons_ne_nil _ _
  have hsend : c.sender.xmodem false (c.toSender.headD []) [] = .ok (s', block) := by
    rw [hack, hs', hblock]
    exact Sender.xmodem_ack hs
  have hwaits : s'.Waits := by
    rw [hs']
    have hstate : (s.clearBlock.constructBlock rest).state =
        if rest.length < readSize s.flavor then .lastBlock else .block := by
      rw [← hs.state_eq]
      rfl
    split at hstate
    · exact .lastBlock hstate
    · exact .block hstate
  have hflavor : s'.flavor.isG = false := by
    rw [hs', ← hg, ← hs.flavor_eq]
    rfl
  have hreceive : c.receiver.xmodem h block [] =
      .ok (c.receiver.accepted (blockData flavor (rest.take (readSize flavor))), [cAck]) := by
    rw [hblock]
    exact Receiver.xmodem_block hr hg hseen h _
  refine .turn true (fun _ => ⟨s', c.receiver, [], [block]⟩)
    (Line.waitsFor_sender hexpired hto' (hr.state_eq.imp_right .inl)) (fun t => ?_) fun _ => ?_
  · change c.callSender = _
    rw [Line.callSender_eq hsend, Line.messages_of_ne_nil hne, hto, hto']
    rfl
  · refine .turn false (fun _ => ⟨s', _, [[cAck]], []⟩) (Line.waitsFor_receiver rfl hwaits hflavor)
      (fun t => ?_) fun _ => hnext
    exact (Line.callReceiver_eq (c := ⟨s', c.receiver, [], [block]⟩) hreceive).trans
      (by rw [Line.messages_singleton]; rfl)

theorem Receiver.kept_accepted (r : Receiver) (data : List UInt8) : r.Kept (r.accepted data) :=
  ⟨rfl, rfl, rfl, rfl, rfl, rfl, rfl⟩

theorem Sender.kept_constructBlock (s : Sender) (file : List UInt8) :
    s.Kept (s.clearBlock.constructBlock file) := ⟨rfl, rfl, rfl, rfl⟩

theorem Receiver.Ready.accepted {number : UInt8} {content : List UInt8} {r : Receiver}
    (hr : r.Ready flavor number content) (data : List UInt8) :
    (r.accepted data).Ready flavor (number + 1) (content ++ data) where
  flavor_eq := hr.flavor_eq
  state_eq := .inl rfl
  number_eq := congrArg (· + 1) hr.number_eq
  file_eq := congrArg (Option.map (· ++ data)) hr.file_eq
  block_eq := rfl

/-- The blocks that are left go out one by one, each with its ACK, and then the EOT. -/
theorem leads_atEot (hexpired : h.expired = false) (hg : flavor.isG = false) (rest : List UInt8)
    {number : UInt8} {content : List UInt8} {c : Line} {s : Sender} (hs : s.Ready flavor number rest)
    (hr : c.receiver.Ready flavor number content)
    (hseen : flavor.isYmodem = true → c.receiver.block0HasBeenSeen = true)
    (hack : c.sender.xmodem false (c.toSender.headD []) [] = s.xmodem false [cAck] [])
    (hto : c.toSender.tail = []) (hto' : c.toReceiver = []) :
    Leads (Line.call h apart) (AtEot flavor (content ++ image flavor rest) s c.receiver) c := by
  induction hn : rest.length using Nat.strong_induction_on generalizing rest number content c s with
  | _ n ih =>
    refine leads_block hexpired hg hs hr hseen hack hto hto' ?_
    have hready := hr.accepted (blockData flavor (rest.take (readSize flavor)))
    have hkept := c.receiver.kept_accepted (blockData flavor (rest.take (readSize flavor)))
    have hkept' := s.kept_constructBlock rest
    obtain ⟨s', hs'⟩ : ∃ s', s' = s.clearBlock.constructBlock rest := ⟨_, rfl⟩
    obtain ⟨r', hr'⟩ : ∃ r, r = c.receiver.accepted (blockData flavor (rest.take (readSize flavor))) :=
      ⟨_, rfl⟩
    have hstate : s'.state = if rest.length < readSize flavor then .lastBlock else .block := by
      rw [hs', ← hs.flavor_eq, ← hs.state_eq]
      rfl
    have hfile : s'.file = some (rest.drop (readSize flavor)) := by
      rw [hs', ← hs.flavor_eq]
      rfl
    have hnumber : s'.currentBlockSequenceI = number + 1 := by
      rw [hs', ← hs.number_eq]
      rfl
    rw [← hr'] at hready hkept ⊢
    rw [← hs'] at hkept' ⊢
    by_cases hlast : rest.length < readSize flavor
    · rw [if_pos hlast] at hstate
      rw [List.take_of_length_le hlast.le, ← image_of_lt hlast] at hready
      refine .turn true (fun _ => ⟨s'.setState .eotAck, r', [], [[cEot]]⟩)
        (Line.waitsFor_sender hexpired rfl (hready.state_eq.imp_right .inl)) (fun t => ?_) fun _ => .here ?_
      · exact (Line.callSender_eq (c := ⟨s', r', [[cAck]], []⟩) (Sender.xmodem_lastAck hstate)).trans rfl
      · exact ⟨rfl, rfl, rfl, by rw [Sender.setState, hfile]; exact Option.some_ne_none _,
          hkept'.trans ⟨rfl, rfl, rfl, rfl⟩, ⟨_, hready⟩, hkept⟩
    · rw [if_neg hlast] at hstate
      have hsize : 0 < readSize flavor := by
        rcases readSize_cases flavor with ⟨-, hr⟩ | ⟨-, hr⟩ <;> omega
      have hnext := ih _ (by rw [← hn, List.length_drop]; omega) (rest.drop (readSize flavor))
        (c := ⟨s', r', [[cAck]], []⟩) ⟨hkept'.flavor.trans hs.flavor_eq, hstate, hnumber, hfile⟩ hready
        (fun hy => hkept.block0HasBeenSeen.trans (hseen hy)) rfl rfl rfl rfl
      rw [List.append_assoc, ← image_of_le (by omega)] at hnext
      refine hnext.trans fun c' hc' => .here ?_
      exact ⟨hc'.toSender, hc'.toReceiver, hc'.state_eq, hc'.file_ne, hkept'.trans hc'.sender_kept,
        hc'.ready, hkept.trans hc'.receiver_kept⟩

end Blocks

/-! ### Xmodem -/

/-- An EOT behind the blocks. -/
theorem Receiver.xmodemReceive_eot {flavor : Flavor} {number : UInt8} {content : List UInt8} {r : Receiver}
    (hr : r.Ready flavor number content) (hg : flavor.isG = false) (h : Host) :
    r.xmodemReceive h [cEot] [] = (r.inBlock.append [cEot]).receiveEot h := by
  rw [xmodemReceive_of_ready hr h (by decide)]
  have hempty : r.inBlock.currentBlock = [] := hr.block_eq
  have hplain : ¬ r.inBlock.flavor.isG = true := by
    rw [inBlock, hr.flavor_eq, hg]
    decide
  have hroom : ¬ xmodemMaxBlockSize < r.inBlock.currentBlock.length + [cEot].length := by
    rw [hempty]
    decide
  have happend : (r.inBlock.append [cEot]).currentBlock = [cEot] := by
    rw [append, hempty]
    rfl
  unfold receiveBlock
  dsimp only
  rw [if_neg fun h => hroom h.1, if_neg fun h => hplain h.1, if_neg hroom, if_pos happend]

/-- The receiver that has cleaned up its file. -/
def Receiver.finished (r : Receiver) (content : List UInt8) : Receiver :=
  (r.inBlock.append [cEot]).clearBlock.finish content

theorem Receiver.xmodem_eot {flavor : Flavor} {number : UInt8} {content : List UInt8} {r : Receiver}
    (hr : r.Ready flavor number content) (hg : flavor.isG = false) (hy : flavor.isYmodem = false)
    (h : Host) :
    r.xmodem h [cEot] [] =
      match Tail.cleanUp h.rounds ⟨content, content.length, h.garbage⟩ with
      | none => .error .running
      | some result => .ok (r.finished result, [cAck]) := by
  have hstate : r.state ≠ .abort := by rcases hr.state_eq with h | h <;> rw [h] <;> decide
  have hfile : (r.inBlock.append [cEot]).file = some content := hr.file_eq
  have hflavor : (r.inBlock.append [cEot]).flavor.isYmodem = false := by
    rw [append, inBlock, hr.flavor_eq, hy]
  have heot : (r.inBlock.append [cEot]).receiveEot h =
      match Tail.cleanUp h.rounds ⟨content, content.length, h.garbage⟩ with
      | none => .error .running
      | some result => .ok (r.finished result, [], [cAck]) := by
    unfold receiveEot
    rw [hfile]
    dsimp only
    rw [hflavor, if_neg Bool.false_ne_true]
    rfl
  rw [xmodem, if_neg hstate, receiveAll, xmodemReceive_eot hr hg h, heot]
  cases Tail.cleanUp h.rounds ⟨content, content.length, h.garbage⟩ <;> rfl

section Xmodem
variable (flavor : Flavor) (file : List UInt8) (s : Sender) (r : Receiver) (upload download : List UInt8)

/-- The two parties that `xmodem_start` sets up, whatever went before. -/
def xmodemLine : Line := ⟨s.xmodemStart flavor upload file, r.xmodemStart flavor download, [], []⟩

/-- Both parties finish under every fair schedule, and the receiver has the file without the SUBs at
its end. -/
def Delivered (garbage : UInt8) : Prop :=
  ∃ rounds, ∀ turn apart, Fair turn → ∃ n c,
    (∀ k, n ≤ k → run (Line.call (perfect garbage rounds) apart) turn
      (xmodemLine flavor file s r upload download) k = some c) ∧
    c.sender.state = .complete ∧ c.receiver.state = .complete ∧
    c.receiver.file = some (Tail.strip file)

variable {flavor file} {h : Host}

/-- The parties are ready for the first block, and the first byte of the receiver works as an ACK. -/
theorem ready_xmodem (hy : flavor.isYmodem = false) :
    ((s.xmodemStart flavor upload file).setState .block).Ready flavor 1 file ∧
      (r.xmodemStart flavor download).receiveInit.Ready flavor 1 [] ∧
      (s.xmodemStart flavor upload file).xmodem false [flavor.firstByte] [] =
        ((s.xmodemStart flavor upload file).setState .block).xmodem false [cAck] [] := by
  have hcan : flavor.firstByte ≠ cCan := by cases flavor <;> decide
  have hstate : (r.xmodemStart flavor download).receiveInit.state = .block ∨
      (r.xmodemStart flavor download).receiveInit.state = .firstBlock := by
    cases flavor <;> first | exact .inl rfl | exact .inr rfl
  refine ⟨⟨rfl, rfl, rfl, rfl⟩, ⟨rfl, hstate, rfl, rfl, rfl⟩, ?_⟩
  exact Sender.xmodem_first (s := s.xmodemStart flavor upload file) rfl hy hcan

/-- The first byte goes out, and what is left is the exchange of the blocks. -/
theorem leads_start {goal : Line → Prop} (apart : ℕ → Bool) (hg : flavor.isG = false)
    (hnext : Leads (Line.call h apart) goal ⟨s.xmodemStart flavor upload file,
      (r.xmodemStart flavor download).receiveInit, [[flavor.firstByte]], []⟩) :
    Leads (Line.call h apart) goal (xmodemLine flavor file s r upload download) := by
  refine .turn false (fun _ => ⟨s.xmodemStart flavor upload file,
    (r.xmodemStart flavor download).receiveInit, [[flavor.firstByte]], []⟩)
    (Line.waitsFor_receiver rfl (.init rfl) hg) (fun t => ?_) fun _ => hnext
  have hcall := Receiver.xmodem_init h [] (show (r.xmodemStart flavor download).state = .init from rfl)
  exact (Line.callReceiver_eq (c := xmodemLine flavor file s r upload download) hcall).trans
    (by rw [Line.messages_singleton]; rfl)

theorem leads_xmodem (apart : ℕ → Bool) (hexpired : h.expired = false) (hg : flavor.isG = false)
    (hy : flavor.isYmodem = false) :
    Leads (Line.call h apart)
      (AtEot flavor (image flavor file) ((s.xmodemStart flavor upload file).setState .block)
        (r.xmodemStart flavor download).receiveInit) (xmodemLine flavor file s r upload download) := by
  obtain ⟨hready, hready', hack⟩ := @ready_xmodem flavor file s r upload download hy
  refine leads_start s r upload download apart hg ?_
  exact leads_atEot hexpired hg file hready hready' (fun h => absurd (hy.symm.trans h) Bool.false_ne_true)
    (c := ⟨s.xmodemStart flavor upload file, (r.xmodemStart flavor download).receiveInit,
      [[flavor.firstByte]], []⟩) hack rfl rfl

/-- What the loop ends with is what the receiver has when both parties are done. -/
theorem finishes_of_cleanUp (garbage : UInt8) (hg : flavor.isG = false) (hy : flavor.isYmodem = false)
    {rounds : ℕ} {result : List UInt8} (hclean : Tail.cleanUp rounds
      ⟨image flavor file, (image flavor file).length, garbage⟩ = some result)
    {turn : ℕ → Bool} (hfair : Fair turn) (apart : ℕ → Bool) :
    ∃ n c, (∀ k, n ≤ k → run (Line.call (perfect garbage rounds) apart) turn
        (xmodemLine flavor file s r upload download) k = some c) ∧
      c.sender.state = .complete ∧ c.receiver.state = .complete ∧ c.receiver.file = some result := by
  have hleads : Leads (Line.call (perfect garbage rounds) apart) _
      (xmodemLine flavor file s r upload download) := leads_xmodem s r upload download apart rfl hg hy
  have hdone : Leads (Line.call (perfect garbage rounds) apart) (fun c => c.toSender = [] ∧
      c.toReceiver = [] ∧ c.sender.state = .complete ∧ c.sender.flavor.isG = false ∧
      c.receiver.state = .complete ∧ c.receiver.file = some result)
      (xmodemLine flavor file s r upload download) := by
    refine hleads.trans fun c hc => ?_
    obtain ⟨number, hready⟩ := hc.ready
    have hflavor : c.sender.flavor = flavor := hc.sender_kept.flavor
    have hreceive : c.receiver.xmodem (perfect garbage rounds) (c.toReceiver.headD []) [] =
        .ok (c.receiver.finished result, [cAck]) := by
      rw [hc.toReceiver, List.headD_cons, Receiver.xmodem_eot hready hg hy]
      change (match Tail.cleanUp rounds ⟨_, _, garbage⟩ with | none => _ | some result => _) = _
      rw [hclean]
    refine .turn false (fun _ => ⟨c.sender, c.receiver.finished result, [[cAck]], []⟩)
      (Line.waitsFor_receiver hc.toSender (.eotAck hc.state_eq) (by rw [hflavor, hg]))
      (fun t => ?_) fun _ => ?_
    · exact (Line.callReceiver_eq hreceive).trans
        (by rw [Line.messages_singleton, hc.toSender, hc.toReceiver]; rfl)
    · refine .turn true (fun _ => ⟨c.sender.complete, c.receiver.finished result, [], []⟩)
        (Line.waitsFor_sender rfl rfl (.inr (.inr rfl))) (fun t => ?_) fun _ => .here ?_
      · exact (Line.callSender_eq (c := ⟨c.sender, c.receiver.finished result, [[cAck]], []⟩)
          (Sender.xmodem_eotAck hc.state_eq hc.file_ne (by rw [hflavor, hy]))).trans rfl
      · exact ⟨rfl, rfl, rfl, by rw [Sender.complete, hflavor, hg], rfl, rfl⟩
  obtain ⟨n, c, -, hrun, hto, hto', hsender, hplain, hreceiver, hfile⟩ := hdone.reached hfair
    (show run (Line.call (perfect garbage rounds) apart) turn
      (xmodemLine flavor file s r upload download) 0 = some _ from rfl)
  refine ⟨n, c, fun k hk => run_of_still (fun t b => ?_) hrun hk, hsender, hreceiver, hfile⟩
  cases b
  · exact Line.waitsFor_sender rfl hto' (.inr (.inr hreceiver)) t
  · exact Line.waitsFor_receiver hto (.complete hsender) hplain t

/-- A loop that does not end: the call of the receiver does not return. -/
theorem hangs_of_cleanUp (garbage : UInt8) (hg : flavor.isG = false) (hy : flavor.isYmodem = false)
    {rounds : ℕ} (hclean : Tail.cleanUp rounds
      ⟨image flavor file, (image flavor file).length, garbage⟩ = none)
    {turn : ℕ → Bool} (hfair : Fair turn) (apart : ℕ → Bool) :
    ∃ n, ∀ k, n ≤ k → run (Line.call (perfect garbage rounds) apart) turn
      (xmodemLine flavor file s r upload download) k = none := by
  have hleads : Leads (Line.call (perfect garbage rounds) apart) _
      (xmodemLine flavor file s r upload download) := leads_xmodem s r upload download apart rfl hg hy
  obtain ⟨n, c, -, hrun, hc⟩ := hleads.reached hfair
    (show run (Line.call (perfect garbage rounds) apart) turn
      (xmodemLine flavor file s r upload download) 0 = some _ from rfl)
  obtain ⟨number, hready⟩ := hc.ready
  have hflavor : c.sender.flavor = flavor := hc.sender_kept.flavor
  have hreceive : c.receiver.xmodem (perfect garbage rounds) (c.toReceiver.headD []) [] =
      .error .running := by
    rw [hc.toReceiver, List.headD_cons, Receiver.xmodem_eot hready hg hy]
    change (match Tail.cleanUp rounds ⟨_, _, garbage⟩ with | none => _ | some result => _) = _
    rw [hclean]
  refine exists_run_none hfair (b := false) (Line.waitsFor_receiver hc.toSender
    (.eotAck hc.state_eq) (by rw [hflavor, hg])) (fun t => ?_) hrun
  change c.callReceiver _ _ = none
  rw [Line.callReceiver, hreceive]

theorem strip_image : Tail.strip (image flavor file) = Tail.strip file :=
  Tail.strip_append_replicate ..

theorem delivered_of_cleans (garbage : UInt8) (hg : flavor.isG = false) (hy : flavor.isYmodem = false)
    (hclean : Tail.Cleans (image flavor file)) : Delivered flavor file s r upload download garbage := by
  obtain ⟨rounds, hrounds⟩ := (Tail.cleanUp_iff (image_ne_nil flavor file) garbage).mpr hclean
  rw [strip_image] at hrounds
  exact ⟨rounds, fun turn apart hfair => finishes_of_cleanUp s r upload download garbage hg hy hrounds hfair apart⟩

theorem not_delivered_of_not_cleans (garbage : UInt8) (hg : flavor.isG = false)
    (hy : flavor.isYmodem = false) (hclean : ¬ Tail.Cleans (image flavor file)) :
    ¬ Delivered flavor file s r upload download garbage := by
  rintro ⟨rounds, hdelivered⟩
  have hnot (rounds : ℕ) : Tail.cleanUp rounds ⟨image flavor file, (image flavor file).length, garbage⟩ ≠
      some (Tail.strip file) := fun h =>
    hclean ((Tail.cleanUp_iff (image_ne_nil flavor file) garbage).mp ⟨rounds, by rw [h, strip_image]⟩)
  obtain ⟨n, c, hrun, -, -, hfile⟩ := hdelivered _ (fun _ => false) fair_alternate
  cases hresult : Tail.cleanUp rounds ⟨image flavor file, (image flavor file).length, garbage⟩ with
  | none =>
    obtain ⟨m, hhang⟩ := hangs_of_cleanUp s r upload download garbage hg hy hresult fair_alternate
      fun _ => false
    have hsome := hrun (max n m) (le_max_left ..)
    rw [hhang (max n m) (le_max_right ..)] at hsome
    cases hsome
  | some result =>
    obtain ⟨m, c', hrun', -, -, hfile'⟩ := finishes_of_cleanUp s r upload download garbage hg hy hresult
      fair_alternate fun _ => false
    have hsame := (hrun (max n m) (le_max_left ..)).symm.trans (hrun' (max n m) (le_max_right ..))
    rw [Option.some_inj] at hsame
    rw [← hsame, hfile, Option.some_inj] at hfile'
    exact hnot rounds (by rw [hresult, hfile'])

/-- A file is delivered, with the SUBs at its end taken off, exactly when the clean-up loop can end
on what its blocks carry. -/
theorem delivered_iff (garbage : UInt8) (hg : flavor.isG = false) (hy : flavor.isYmodem = false) :
    Delivered flavor file s r upload download garbage ↔ Tail.Cleans (image flavor file) :=
  ⟨fun h => by_contra fun hnot =>
    not_delivered_of_not_cleans s r upload download garbage hg hy hnot h,
    delivered_of_cleans s r upload download garbage hg hy⟩

end Xmodem

/-- A letter arrives. -/
theorem delivered_letter : Delivered .xCrc [65] (Sender.fresh .xCrc) (Receiver.fresh .xCrc []) [65] [66] 0 :=
  (delivered_iff (Sender.fresh .xCrc) (Receiver.fresh .xCrc []) [65] [66] 0 rfl rfl).mpr (by
    have hstrip : Tail.strip (image .xCrc [65]) = [65] := strip_image
    have hlength : (image .xCrc [65]).length = 128 := by
      rw [image, List.length_append, List.length_replicate]
      rfl
    refine ⟨by rw [hstrip]; exact List.cons_ne_nil _ _, .inr ?_⟩
    rw [hstrip, hlength, Tail.toInt_of_lt (by decide)]
    decide)

/-- The empty file is sent as a block of SUBs, and the clean-up loop never ends. -/
theorem not_delivered_empty :
    ¬ Delivered .xNormal [] (Sender.fresh .xNormal) (Receiver.fresh .xNormal []) [65] [66] 0 := by
  refine not_delivered_of_not_cleans _ _ _ _ _ rfl rfl fun hclean => hclean.1 ?_
  rw [strip_image]
  rfl

end CProgram.Xmodem
