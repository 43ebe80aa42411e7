import CProgram.Xmodem.Delivery

/-! A line that has lost one ACK and is perfect from then on. The timers may run out. -/
namespace CProgram.Xmodem
open Sender Exchange

namespace Line

/-- A call of a party whose timer may have run out. -/
def timedCall (h : Host) (apart expired : ℕ → Bool) (t : ℕ) (b : Bool) (c : Line) : Option Line :=
  if b then
    match c.sender.xmodem (expired t) (c.toSender.headD []) [] with
    | .error _ => none
    | .ok (s, output) =>
      some ⟨s, c.receiver, c.toSender.tail, c.toReceiver ++ messages false output⟩
  else c.callReceiver { h with expired := expired t } (apart t)

end Line

/-- The two parties before a block: the sender has `rest` to send, the receiver has written `content`. -/
structure InStep (flavor : Flavor) (number : UInt8) (rest content : List UInt8) (s : Sender)
    (r : Receiver) : Prop where
  sender : s.Ready flavor number rest
  receiver : r.Ready flavor number content
  seen : flavor.isYmodem = true → r.block0HasBeenSeen = true
  firstByte_ne : r.firstByte ≠ cAck

/-- The next block is out and written, and its ACK is lost. -/
def lostAck (flavor : Flavor) (rest : List UInt8) (s : Sender) (r : Receiver) : Line :=
  ⟨s.clearBlock.constructBlock rest, r.accepted (blockData flavor (rest.take (readSize flavor))), [], []⟩

/-- The file that `r` had open is there in full. -/
def Receiver.Finished (r : Receiver) (content : List UInt8) (r' : Receiver) : Prop :=
  if r.flavor.isYmodem then
    (r'.directory.lookup r.filename).map Prod.fst =
      some (ftruncate content ((r.bytesTotal.toNat : ℤ).bmod (2 ^ 64)))
  else r'.state = .complete ∧ r'.file = some (Tail.strip content)

/-- There are turns and timeouts under which an ACK goes out, nothing being written before, and the
file is finished later. -/
def Recovers (h : Host) (content : List UInt8) (c : Line) : Prop :=
  ∃ turn apart expired n n' c' c'',
    run (Line.timedCall h apart expired) turn c n = some c' ∧
    [cAck] ∈ c'.toSender ∧ c'.receiver.file = c.receiver.file ∧ n ≤ n' ∧
    run (Line.timedCall h apart expired) turn c n' = some c'' ∧ c.receiver.Finished content c''.receiver

/-! ### The sender repeats its block -/

namespace Sender

/-- Without an ACK the block stays. -/
structure Repeats (block : List UInt8) (s : Sender) : Prop where
  plain : s.flavor.isG = false
  block_eq : s.currentBlock = block
  state_eq : s.state = .block ∨ s.state = .lastBlock ∨ s.state = .abort ∨
    s.state = .purgeInput ∧ (s.priorState = .block ∨ s.priorState = .lastBlock)

variable {block : List UInt8} {s : Sender} {expired : Bool}

theorem Repeats.purge (hs : s.Repeats block) {prior : State} (hprior : prior = .block ∨ prior = .lastBlock) :
    (s.purge prior).Repeats block :=
  ⟨hs.plain, hs.block_eq, .inr (.inr (.inr ⟨rfl, hprior⟩))⟩

theorem Repeats.statsIncrementErrors (hs : s.Repeats block) : s.statsIncrementErrors.Repeats block := by
  refine ⟨hs.plain, hs.block_eq, ?_⟩
  unfold Sender.statsIncrementErrors
  dsimp only
  split
  · exact .inr (.inr (.inl rfl))
  · exact hs.state_eq

theorem Repeats.checkTimeout (hs : s.Repeats block) (hstate : s.state = .block ∨ s.state = .lastBlock)
    (expired : Bool) : (s.checkTimeout expired).Repeats block := by
  unfold Sender.checkTimeout
  split_ifs
  · exact hs
  · exact ⟨hs.plain, hs.block_eq, .inr (.inr (.inl rfl))⟩
  · exact ⟨hs.plain, hs.block_eq, .inr (.inr (.inr ⟨rfl, hstate⟩))⟩

/-- What a round without an ACK leaves. -/
structure Repeated (block input : List UInt8) (sent : Sender × List UInt8 × List UInt8) : Prop where
  repeats : sent.1.Repeats block
  rest : sent.2.1 = [] ∨ sent.2.1 = input ∧ sent.2.2 = []
  output : sent.2.2 = [] ∨ sent.2.2 = block

theorem Repeats.quiet {input : List UInt8} (hs : s.Repeats block) : Repeated block input (s, [], []) :=
  ⟨hs, .inl rfl, .inl rfl⟩

theorem Repeats.sendBlock {input : List UInt8} {sent : Sender × List UInt8 × List UInt8}
    (hs : s.Repeats block) (hack : input ≠ [cAck]) (h : s.sendBlock expired input [] = .ok sent) :
    Repeated block input sent := by
  have hnot : ¬ (input = [cAck] ∨ s.flavor.isG = true) := by simp [hack, hs.plain]
  rw [Sender.sendBlock, if_neg hnot] at h
  have herror := (hs.purge (.inl rfl)).statsIncrementErrors
  split_ifs at h <;> cases h
  · exact herror.quiet
  · refine ⟨⟨?_, ?_, .inr (.inr (.inr ⟨rfl, .inl rfl⟩))⟩, .inl rfl, .inl rfl⟩
    · rw [← hs.plain]
      unfold Sender.purge Sender.checkTimeout
      split_ifs <;> rfl
    · rw [← hs.block_eq]
      unfold Sender.purge Sender.checkTimeout
      split_ifs <;> rfl
  · exact hs.quiet
  · exact herror.quiet

theorem Repeats.sendLastBlock {input : List UInt8} {sent : Sender × List UInt8 × List UInt8}
    (hs : s.Repeats block) (hstate : s.state = .lastBlock) (hack : input ≠ [cAck])
    (h : s.sendLastBlock expired input [] = .ok sent) : Repeated block input sent := by
  have hnot : ¬ (input = [cAck] ∨ s.flavor.isG = true) := by simp [hack, hs.plain]
  rw [Sender.sendLastBlock, if_neg hnot] at h
  have herror := (hs.purge (.inr rfl)).statsIncrementErrors
  split_ifs at h <;> cases h
  · exact herror.quiet
  · exact (hs.checkTimeout (.inr hstate) expired).quiet
  · exact ⟨herror, .inr ⟨rfl, rfl⟩, .inl rfl⟩

theorem Repeats.sendPurge {input : List UInt8} {sent : Sender × List UInt8 × List UInt8}
    (hs : s.Repeats block) (hprior : s.priorState = .block ∨ s.priorState = .lastBlock)
    (h : s.sendPurge input [] = .ok sent) : Repeated block input sent := by
  have hempty : ¬ ([] : List UInt8) ≠ [] := by simp
  rw [Sender.sendPurge, if_pos hprior, if_neg hempty] at h
  split_ifs at h <;> cases h
  · refine ⟨⟨hs.plain, hs.block_eq, ?_⟩, .inl rfl, .inr hs.block_eq⟩
    exact hprior.imp_right .inl
  · exact hs.quiet

theorem Repeats.xmodemSend {input : List UInt8} {sent : Sender × List UInt8 × List UInt8}
    (hs : s.Repeats block) (hack : input ≠ [cAck]) (h : s.xmodemSend expired input [] = .ok sent) :
    Repeated block input sent := by
  by_cases hcan : input.head? = some cCan
  · rw [Sender.xmodemSend, if_pos hcan] at h
    cases h
    exact ⟨⟨hs.plain, hs.block_eq, .inr (.inr (.inl rfl))⟩, .inl rfl, .inl rfl⟩
  · obtain hstate | hstate | hstate | ⟨hstate, hprior⟩ := hs.state_eq <;>
      rw [xmodemSend_of_body hcan (by rw [hstate]; decide), sendBody, hstate] at h
    · exact hs.sendBlock hack h
    · exact hs.sendLastBlock hstate hack h
    · cases h
      exact hs.quiet
    · exact hs.sendPurge hprior h

theorem Repeats.sendAll {input output : List UInt8} {s' : Sender} (hs : s.Repeats block)
    (hack : input ≠ [cAck]) {rounds : ℕ} (h : sendAll expired rounds s input [] = .ok (s', output)) :
    s'.Repeats block ∧ (output = [] ∨ output = block) := by
  induction rounds generalizing s with
  | zero => cases h
  | succ rounds ih =>
    rw [Sender.sendAll] at h
    split at h
    · cases h
    · next hsend =>
      cases h
      have hround := hs.xmodemSend hack hsend
      exact ⟨hround.repeats, hround.output⟩
    · next hrest hsend =>
      have hround := hs.xmodemSend hack hsend
      obtain hnil | ⟨hinput, houtput⟩ := hround.rest
      · exact absurd hnil hrest
      · dsimp only at hinput houtput
        rw [hinput, houtput] at h
        exact ih hround.repeats h

/-- Without an ACK a call puts out the same block again, or nothing. -/
theorem Repeats.xmodem {input output : List UInt8} {s' : Sender} (hs : s.Repeats block)
    (hack : input ≠ [cAck]) (h : s.xmodem expired input [] = .ok (s', output)) :
    s'.Repeats block ∧ (output = [] ∨ output = block) := by
  rw [Sender.xmodem] at h
  split_ifs at h
  · cases h
    exact ⟨hs, .inl rfl⟩
  · exact hs.sendAll hack h

end Sender

/-! ### The receiver refuses the block -/

namespace Receiver

/-- The block `number` is written, and the next one is awaited. -/
structure Past (flavor : Flavor) (number : UInt8) (content : List UInt8) (r : Receiver) : Prop where
  flavor_eq : r.flavor = flavor
  number_eq : r.currentBlockSequenceI = number + 1
  file_eq : r.file = some content
  seen : flavor.isYmodem = true → r.block0HasBeenSeen = true
  firstByte_ne : r.firstByte ≠ cAck
  state_eq : r.state = .abort ∨ r.currentBlock = [] ∧
    (r.state = .block ∨ r.state = .purgeInput ∧ r.priorState = .block)

variable {flavor : Flavor} {number : UInt8} {content : List UInt8} {r : Receiver}

/-- The number is the one before, so the test of the number fails ahead of the one for a duplicate. -/
theorem not_sequencePasses {read : List UInt8} (hnumber : r.currentBlockSequenceI = number + 1)
    (hblock : r.currentBlock = blockAround r.flavor number read) : r.sequencePasses = false := by
  rw [← Bool.not_eq_true, sequencePasses_iff, hblock, (byteAt_blockAround r.flavor number read).2.1, hnumber]
  intro h
  have := congrArg UInt8.toNat h
  rw [UInt8.toNat_add, UInt8.toNat_one] at this
  have := number.toNat_lt
  omega

/-- What a call without the expected block leaves. -/
structure Refused (flavor : Flavor) (number : UInt8) (content : List UInt8)
    (received : Receiver × List UInt8 × List UInt8) : Prop where
  past : received.1.Past flavor number content
  rest : received.2.1 = []
  output : cAck ∉ received.2.2

theorem Past.quiet (hr : r.Past flavor number content) : Refused flavor number content (r, [], []) :=
  ⟨hr, rfl, by simp⟩

theorem Past.of_fields {r' : Receiver} (hr : r.Past flavor number content) (hflavor : r'.flavor = r.flavor)
    (hnumber : r'.currentBlockSequenceI = r.currentBlockSequenceI) (hfile : r'.file = r.file)
    (hseen : r'.block0HasBeenSeen = r.block0HasBeenSeen) (hfirst : r'.firstByte = r.firstByte)
    (hstate : r'.state = .abort ∨ r'.currentBlock = [] ∧
      (r'.state = .block ∨ r'.state = .purgeInput ∧ r'.priorState = .block)) :
    r'.Past flavor number content :=
  ⟨hflavor.trans hr.flavor_eq, hnumber.trans hr.number_eq, hfile.trans hr.file_eq,
    fun h => hseen.trans (hr.seen h), hfirst ▸ hr.firstByte_ne, hstate⟩

theorem Past.receiveNothing (hr : r.Past flavor number content) (hstate : r.state = .block)
    (hblock : r.currentBlock = []) (expired : Bool) :
    (r.receiveNothing expired []).1.Past flavor number content ∧
      cAck ∉ (r.receiveNothing expired []).2 := by
  have hfirst : cAck ∉ [r.firstByte] := by simpa using hr.firstByte_ne.symm
  unfold Receiver.receiveNothing Receiver.checkTimeout
  by_cases hexpired : expired = true
  · rw [hexpired]
    by_cases hmax : r.timeoutMax ≤ r.timeoutCount + 1
    · simp only [Bool.not_true, Bool.false_eq_true, if_false, if_pos hmax]
      have hcan : cAck ∉ [cCan] := by decide
      exact ⟨hr.of_fields rfl rfl rfl rfl rfl (.inl rfl), hcan⟩
    · simp only [Bool.not_true, Bool.false_eq_true, if_false, if_neg hmax]
      rw [if_pos (by simp)]
      refine ⟨?_, hfirst⟩
      dsimp only
      split_ifs
      · exact hr.of_fields rfl rfl rfl rfl rfl (.inr ⟨hblock, .inl hstate⟩)
      · exact hr.of_fields rfl rfl rfl rfl rfl (.inr ⟨hblock, .inr ⟨rfl, hstate⟩⟩)
  · rw [Bool.not_eq_true] at hexpired
    rw [hexpired]
    exact ⟨hr, by simp⟩

theorem receiveData_refused (hwaiting : r.isWaiting = false) (hrefused : r.verifyBlock.2 = false)
    (output : List UInt8) : r.receiveData output =
      if r.statsIncrementErrors.state = .abort then (r.statsIncrementErrors, output)
      else (r.statsIncrementErrors.clearBlock.purge, output) := by
  rw [receiveData, hwaiting, if_neg Bool.false_ne_true]
  dsimp only
  rw [hrefused, if_neg Bool.false_ne_true, verifyBlock_refused hrefused]

theorem Past.receiveBlock (hr : r.Past flavor number content) (hg : flavor.isG = false)
    (hblock : r.currentBlock = []) (h : Host) (read : List UInt8)
    {received : Receiver × List UInt8 × List UInt8}
    (hreceive : r.receiveBlock h (blockAround flavor number read) [] = .ok received) :
    Refused flavor number content received := by
  have hlength := length_blockAround flavor number read
  have hlong : 132 ≤ (blockAround flavor number read).length ∧
      (blockAround flavor number read).length ≤ 1029 := by
    rw [hlength]
    split_ifs <;> omega
  obtain ⟨opened, hopened⟩ : ∃ o, o = r.append (blockAround flavor number read) := ⟨_, rfl⟩
  have happend : opened.currentBlock = blockAround opened.flavor number read := by
    rw [hopened, append, hblock, hr.flavor_eq]
    rfl
  have hnotEot : opened.currentBlock ≠ [cEot] := fun h => by
    rw [happend, show opened.flavor = flavor by rw [hopened]; exact hr.flavor_eq] at h
    rw [h] at hlong
    exact absurd hlong.1 (by decide)
  have hroom : ¬ xmodemMaxBlockSize < r.currentBlock.length + (blockAround flavor number read).length := by
    rw [hblock, xmodemMaxBlockSize, List.length_nil]
    omega
  have hplain : ¬ r.flavor.isG = true := by
    rw [hr.flavor_eq, hg]
    decide
  have hdata : ¬ (opened.flavor.isYmodem = true ∧
      (r.currentBlockSequenceI = 0 ∧ r.currentBlockNumber = 1) ∧ ¬ opened.block0HasBeenSeen = true) := by
    rintro ⟨hy, -, hnot⟩
    rw [hopened] at hy hnot
    exact hnot (hr.seen (by rw [← hr.flavor_eq]; exact hy))
  have hwaiting : opened.isWaiting = false :=
    isWaiting_of_sent (r := { opened with currentBlockSequenceI := number }) happend
  have hrefused : opened.verifyBlock.2 = false := by
    have hsequence := not_sequencePasses (by rw [hopened]; exact hr.number_eq) happend
    unfold verifyBlock
    rw [hsequence]
    split_ifs <;> first | rfl | simp_all
  unfold Receiver.receiveBlock at hreceive
  dsimp only at hreceive
  rw [← hopened, if_neg fun h => hroom h.1, if_neg fun h => hplain h.1, if_neg hroom, if_neg hnotEot,
    if_neg hdata, receiveData_refused hwaiting hrefused] at hreceive
  cases hreceive
  refine ⟨?_, rfl, ?_⟩
  · split_ifs with habort
    · exact hr.of_fields (by rw [hopened]; rfl) (by rw [hopened]; rfl) (by rw [hopened]; rfl)
        (by rw [hopened]; rfl) (by rw [hopened]; rfl) (.inl habort)
    · exact hr.of_fields (by rw [hopened]; rfl) (by rw [hopened]; rfl) (by rw [hopened]; rfl)
        (by rw [hopened]; rfl) (by rw [hopened]; rfl) (.inr ⟨rfl, .inr ⟨rfl, rfl⟩⟩)
  · split_ifs <;> simp

theorem Past.xmodemReceive (hr : r.Past flavor number content) (hg : flavor.isG = false) (h : Host)
    {read input : List UInt8} (hinput : input = [] ∨ input = blockAround flavor number read)
    {received : Receiver × List UInt8 × List UInt8} (hreceive : r.xmodemReceive h input [] = .ok received) :
    Refused flavor number content received := by
  obtain hstate | ⟨hblock, hstate | ⟨hstate, hprior⟩⟩ := hr.state_eq <;>
    rw [Receiver.xmodemReceive, hstate] at hreceive <;> dsimp only at hreceive
  · cases hreceive
    exact hr.quiet
  · split_ifs at hreceive with hnil
    · cases hreceive
      obtain ⟨hpast, houtput⟩ := hr.receiveNothing hstate hblock h.expired
      exact ⟨hpast, rfl, houtput⟩
    · obtain rfl := hinput.resolve_left hnil
      exact hr.receiveBlock hg hblock h read hreceive
  · split_ifs at hreceive <;> cases hreceive
    · have hnak : cAck ∉ [cNak] := by decide
      exact ⟨hr.of_fields rfl rfl rfl rfl rfl (.inr ⟨hblock, .inl hprior⟩), rfl, hnak⟩
    · exact hr.quiet

/-- The block that is written already has no ACK. -/
theorem Past.xmodem (hr : r.Past flavor number content) (hg : flavor.isG = false) (h : Host)
    {read input output : List UInt8} (hinput : input = [] ∨ input = blockAround flavor number read)
    {r' : Receiver} (hcall : r.xmodem h input [] = .ok (r', output)) :
    r'.Past flavor number content ∧ cAck ∉ output := by
  rw [Receiver.xmodem] at hcall
  split_ifs at hcall
  · cases hcall
    exact ⟨hr, by simp⟩
  · rw [Receiver.receiveAll] at hcall
    split at hcall
    · cases hcall
    · next hreceive =>
      cases hcall
      have hround := hr.xmodemReceive hg h hinput hreceive
      exact ⟨hround.past, hround.output⟩
    · next hrest hreceive => exact absurd (hr.xmodemReceive hg h hinput hreceive).rest hrest

end Receiver

/-! ### The exchange after the loss -/

/-- The sender repeats the block, and the receiver refuses it. -/
structure Line.Repeating (flavor : Flavor) (number : UInt8) (read content : List UInt8) (c : Line) :
    Prop where
  sender : c.sender.Repeats (blockAround flavor number read)
  receiver : c.receiver.Past flavor number content
  toSender : [cAck] ∉ c.toSender
  toReceiver : ∀ message ∈ c.toReceiver, message = blockAround flavor number read

namespace Line
variable {flavor : Flavor} {number : UInt8} {read content : List UInt8} {h : Host} {c c' : Line}

theorem mem_messages_ack {apart : Bool} {output : List UInt8} (hmem : [cAck] ∈ messages apart output) :
    cAck ∈ output := by
  unfold messages at hmem
  split_ifs at hmem
  · cases hmem
  · simpa using hmem
  · simp only [List.mem_singleton] at hmem
    rw [← hmem]
    exact List.mem_singleton_self _

theorem headD_mem_or (l : List (List UInt8)) : l.headD [] = [] ∨ l.headD [] ∈ l := by
  cases l <;> simp

/-- Whoever is called, and whether the timer has run out or not. -/
theorem Repeating.timedCall (hg : flavor.isG = false) (hc : c.Repeating flavor number read content)
    {apart expired : ℕ → Bool} {t : ℕ} {b : Bool} (hcall : timedCall h apart expired t b c = some c') :
    c'.Repeating flavor number read content := by
  cases b with
  | true =>
    rw [Line.timedCall, if_pos rfl] at hcall
    have hack : c.toSender.headD [] ≠ [cAck] := fun heq => by
      obtain hnil | hmem := headD_mem_or c.toSender
      · rw [hnil] at heq
        cases heq
      · rw [heq] at hmem
        exact hc.toSender hmem
    split at hcall
    · cases hcall
    · next s output hsend =>
      cases hcall
      obtain ⟨hrepeats, houtput⟩ := hc.sender.xmodem hack hsend
      refine ⟨hrepeats, hc.receiver, fun hmem => hc.toSender (List.mem_of_mem_tail hmem), ?_⟩
      intro message hmem
      obtain hmem | hmem := List.mem_append.mp hmem
      · exact hc.toReceiver message hmem
      · by_cases hnil : output = []
        · rw [hnil] at hmem
          cases hmem
        · rw [messages_of_ne_nil hnil, List.mem_singleton] at hmem
          rw [hmem]
          exact houtput.resolve_left hnil
  | false =>
    rw [Line.timedCall, if_neg Bool.false_ne_true, callReceiver] at hcall
    have hinput : c.toReceiver.headD [] = [] ∨ c.toReceiver.headD [] = blockAround flavor number read :=
      (headD_mem_or c.toReceiver).imp_right (hc.toReceiver _)
    split at hcall
    · cases hcall
    · next r output hreceive =>
      cases hcall
      obtain ⟨hpast, houtput⟩ := hc.receiver.xmodem hg _ hinput hreceive
      refine ⟨hc.sender, hpast, fun hmem => ?_, fun message hmem => ?_⟩
      · obtain hmem | hmem := List.mem_append.mp hmem
        · exact hc.toSender hmem
        · exact houtput (mem_messages_ack hmem)
      · exact hc.toReceiver message (List.mem_of_mem_tail hmem)

theorem Repeating.run (hg : flavor.isG = false) (hc : c.Repeating flavor number read content)
    {apart expired : ℕ → Bool} {turn : ℕ → Bool} {n : ℕ}
    (hrun : run (Line.timedCall h apart expired) turn c n = some c') :
    c'.Repeating flavor number read content := by
  induction n generalizing c' with
  | zero =>
    cases hrun
    exact hc
  | succ n ih =>
    rw [Exchange.run, Option.bind_eq_some_iff] at hrun
    obtain ⟨before, hbefore, hcall⟩ := hrun
    exact (ih hbefore).timedCall hg hcall

end Line

theorem InStep.lostAck_repeating {flavor : Flavor} {number : UInt8} {rest content : List UInt8}
    {s : Sender} {r : Receiver} (hstep : InStep flavor number rest content s r) (hg : flavor.isG = false) :
    (lostAck flavor rest s r).Repeating flavor number (rest.take (readSize flavor))
      (content ++ blockData flavor (rest.take (readSize flavor))) := by
  have hready := hstep.receiver.accepted (blockData flavor (rest.take (readSize flavor)))
  refine ⟨⟨?_, ?_, ?_⟩, ⟨hready.flavor_eq, hready.number_eq, hready.file_eq, hstep.seen,
    hstep.firstByte_ne, .inr ⟨rfl, .inl rfl⟩⟩, by simp [lostAck], by simp [lostAck]⟩
  · rw [← hg, ← hstep.sender.flavor_eq]
    rfl
  · rw [← hstep.sender.flavor_eq, ← hstep.sender.number_eq]
    rfl
  · have hstate : (s.clearBlock.constructBlock rest).state =
        if rest.length < readSize s.flavor then .lastBlock else .block := by
      rw [← hstep.sender.state_eq]
      rfl
    split at hstate
    · exact .inr (.inl hstate)
    · exact .inl hstate

section Blocks
variable {h : Host} {apart : ℕ → Bool} {flavor : Flavor}

/-- On the way to the end of a file each of its blocks is written and has its ACK under way. -/
theorem leads_written (hexpired : h.expired = false) (hg : flavor.isG = false) (count : ℕ)
    {rest content : List UInt8} {number : UInt8} {c : Line} {s : Sender}
    (hstep : InStep flavor number rest content s c.receiver)
    (hack : c.sender.xmodem false (c.toSender.headD []) [] = s.xmodem false [cAck] [])
    (hto : c.toSender.tail = []) (hto' : c.toReceiver = [])
    (hcount : count * readSize flavor ≤ rest.length) :
    Leads (Line.call h apart) (fun c' => ∃ number content s' r',
      InStep flavor number (rest.drop (count * readSize flavor)) content s' r' ∧
      c' = { lostAck flavor (rest.drop (count * readSize flavor)) s' r' with toSender := [[cAck]] }) c := by
  induction count generalizing rest content number c s with
  | zero =>
    refine leads_block hexpired hg hstep.sender hstep.receiver hstep.seen hack hto hto' (.here ?_)
    rw [Nat.zero_mul, List.drop_zero]
    exact ⟨number, content, s, c.receiver, hstep, rfl⟩
  | succ count ih =>
    refine leads_block hexpired hg hstep.sender hstep.receiver hstep.seen hack hto hto' ?_
    rw [Nat.succ_mul] at hcount ⊢
    have hmore : ¬ rest.length < readSize flavor := by omega
    have hkept := s.kept_constructBlock rest
    have hstate : (s.clearBlock.constructBlock rest).state = .block := by
      have hsize : (s.clearBlock.constructBlock rest).state =
          if rest.length < readSize s.flavor then .lastBlock else s.state := rfl
      rw [hsize, hstep.sender.flavor_eq, if_neg hmore, hstep.sender.state_eq]
    have hready : (s.clearBlock.constructBlock rest).Ready flavor (number + 1)
        (rest.drop (readSize flavor)) := by
      refine ⟨hkept.flavor.trans hstep.sender.flavor_eq, hstate, ?_, ?_⟩
      · rw [← hstep.sender.number_eq]
        rfl
      · rw [← hstep.sender.flavor_eq]
        rfl
    have hnext := ih (c := ⟨s.clearBlock.constructBlock rest,
        c.receiver.accepted (blockData flavor (rest.take (readSize flavor))), [[cAck]], []⟩)
      ⟨hready, hstep.receiver.accepted _, hstep.seen, hstep.firstByte_ne⟩ rfl rfl rfl
      (by rw [List.length_drop]; omega)
    rw [List.drop_drop, Nat.add_comm (readSize flavor)] at hnext
    exact hnext

/-- Each block of a file is such a block. -/
theorem leads_xmodem_written (s : Sender) (r : Receiver) (upload download : List UInt8)
    (hexpired : h.expired = false) (hg : flavor.isG = false) (hy : flavor.isYmodem = false) (count : ℕ)
    {file : List UInt8} (hcount : count * readSize flavor ≤ file.length) :
    Leads (Line.call h apart) (fun c' => ∃ number content s' r',
      InStep flavor number (file.drop (count * readSize flavor)) content s' r' ∧
      c' = { lostAck flavor (file.drop (count * readSize flavor)) s' r' with toSender := [[cAck]] })
      (xmodemLine flavor file s r upload download) := by
  obtain ⟨hready, hready', hack⟩ := @ready_xmodem flavor file s r upload download hy
  have hfirst : flavor.firstByte ≠ cAck := by cases flavor <;> decide
  refine leads_start s r upload download apart hg ?_
  exact leads_written hexpired hg count (c := ⟨s.xmodemStart flavor upload file,
      (r.xmodemStart flavor download).receiveInit, [[flavor.firstByte]], []⟩)
    ⟨hready, hready', fun h => absurd (hy.symm.trans h) Bool.false_ne_true, hfirst⟩ hack rfl rfl hcount

end Blocks

/-- Once an ACK is lost, no ACK for that block ever follows. -/
theorem not_recovers {flavor : Flavor} {number : UInt8} {rest content : List UInt8} {s : Sender}
    {r : Receiver} (hstep : InStep flavor number rest content s r) (hg : flavor.isG = false) (h : Host)
    (full : List UInt8) : ¬ Recovers h full (lostAck flavor rest s r) := by
  rintro ⟨turn, apart, expired, n, n', c', c'', hrun, hack, -⟩
  exact ((hstep.lostAck_repeating hg).run hg hrun).toSender hack

/-- The two parties of a file that is one letter. -/
theorem inStep_letter (flavor : Flavor) (hy : flavor.isYmodem = false) :
    InStep flavor 1 [65] [] (((Sender.fresh flavor).xmodemStart flavor [65] [65]).setState .block)
      ((Receiver.fresh flavor []).xmodemStart flavor [66]).receiveInit := by
  obtain ⟨hready, hready', -⟩ :=
    @ready_xmodem flavor [65] (Sender.fresh flavor) (Receiver.fresh flavor []) [65] [66] hy
  refine ⟨hready, hready', fun h => absurd (hy.symm.trans h) Bool.false_ne_true, ?_⟩
  have hfirst : flavor.firstByte ≠ cAck := by cases flavor <;> decide
  exact hfirst

theorem not_recovers_letter : ¬ Recovers (perfect 0 129) (image .x1k [65])
    (lostAck .x1k [65] (((Sender.fresh .x1k).xmodemStart .x1k [65] [65]).setState .block)
      ((Receiver.fresh .x1k []).xmodemStart .x1k [66]).receiveInit) :=
  not_recovers (inStep_letter .x1k rfl) rfl _ _

/-- The ACK of the only block of a file is lost. -/
theorem not_recovers_checksum : ¬ Recovers (perfect 0 129) (image .xNormal [65])
    (lostAck .xNormal [65] (((Sender.fresh .xNormal).xmodemStart .xNormal [65] [65]).setState .block)
      ((Receiver.fresh .xNormal []).xmodemStart .xNormal [66]).receiveInit) := by
  rintro ⟨turn, apart, expired, n, n', c', c'', hrun, hack, -⟩
  exact (((inStep_letter .xNormal rfl).lostAck_repeating rfl).run rfl hrun).toSender hack

end CProgram.Xmodem
