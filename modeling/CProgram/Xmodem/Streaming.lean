import CProgram.Xmodem.Delivery

/-! The flavors that stream: what the receiver makes of the ways to cut a stream into reads. -/
namespace CProgram.Xmodem
open Sender

/-- The blocks from `number` on, and the EOT. -/
def stream (flavor : Flavor) (number : UInt8) : List (List UInt8) → List UInt8
  | [] => [cEot]
  | data :: blocks => blockAround flavor number data ++ stream flavor (number + 1) blocks

/-- Each block carries 128 or 1024 bytes. -/
def ValidBlocks (blocks : List (List UInt8)) : Prop :=
  ∀ data ∈ blocks, data.length = 128 ∨ data.length = 1024

namespace Receiver

/-- One call for each read. -/
def receiveReads (h : Host) (r : Receiver) : List (List UInt8) → Except Fault Receiver
  | [] => .ok r
  | read :: reads =>
    match r.xmodem h read [] with
    | .error fault => .error fault
    | .ok (r, _) => receiveReads h r reads

/-- What `xmodem_receive` is called with while a read is used up. -/
def rounds (h : Host) : ℕ → Receiver → List UInt8 → List (Receiver × List UInt8)
  | 0, _, _ => []
  | count + 1, r, input =>
    (r, input) :: match r.xmodemReceive h input [] with
      | .ok (r, byte :: rest, _) => rounds h count r (byte :: rest)
      | _ => []

def roundsOfReads (h : Host) (r : Receiver) : List (List UInt8) → List (Receiver × List UInt8)
  | [] => []
  | read :: reads =>
    rounds h (read.length + 1) r read ++ match r.xmodem h read [] with
      | .error _ => []
      | .ok (r, _) => roundsOfReads h r reads

/-- The bytes that a whole block has, as far as its first byte is there to tell. -/
def awaited (r : Receiver) : ℕ := if byteAt r.currentBlock 0 = cSoh then 128 + 5 else 1024 + 5

/-- The length that is passed to `memcpy` is not negative, it is there, and it fits behind what
`current_block` holds. -/
def CopyFits (r : Receiver) (input : List UInt8) : Prop :=
  let length : ℤ :=
    if input.length + r.currentBlock.length < r.awaited then input.length
    else r.awaited - r.currentBlock.length
  0 ≤ length ∧ length ≤ input.length ∧ r.currentBlock.length + length ≤ xmodemMaxBlockSize

/-- The receiver when all the blocks are written and the EOT has come. -/
def result (h : Host) (r : Receiver) (blocks : List (List UInt8)) : Except Fault Receiver :=
  (((blocks.foldl accepted r.inBlock).append [cEot]).receiveEot h).map (·.1)

/-- However the stream is cut into reads, the same is received, the assertion holds, and what is
copied fits. -/
structure ChunkIndependent (h : Host) (r : Receiver) (blocks : List (List UInt8)) : Prop where
  same : ∀ reads, reads.flatten = stream r.flavor r.currentBlockSequenceI blocks →
    r.receiveReads h reads = r.result h blocks
  holds : ∀ reads, reads.flatten = stream r.flavor r.currentBlockSequenceI blocks →
    ∀ round ∈ r.roundsOfReads h reads, round.1.state = .block ∨ round.1.state = .firstBlock →
      round.1.currentBlock.length < round.1.awaited ∧ round.1.CopyFits round.2

/-- The receiver of a flavor that streams, which is past any block 0. -/
structure Streams (r : Receiver) : Prop where
  isG : r.flavor.isG = true
  state_eq : r.state = .block ∨ r.state = .firstBlock
  numbers : r.currentBlockSequenceI = r.currentBlockNumber.toUInt8

variable {r : Receiver} {h : Host} {data input : List UInt8} {blocks : List (List UInt8)}

theorem Streams.not_start (hr : r.Streams) : ¬ (r.currentBlockSequenceI = 0 ∧ r.currentBlockNumber = 1) := by
  rintro ⟨hzero, hone⟩
  rw [hr.numbers, hone] at hzero
  exact absurd hzero (by decide)

theorem Streams.accepted (hr : r.Streams) (data : List UInt8) : (r.accepted data).Streams := by
  refine ⟨hr.isG, .inl rfl, ?_⟩
  change r.currentBlockSequenceI + 1 = (r.currentBlockNumber + 1).toUInt8
  rw [hr.numbers, UInt32.toUInt8_add]
  rfl

theorem Streams.append (hr : r.Streams) (bytes : List UInt8) : (r.append bytes).Streams :=
  ⟨hr.isG, hr.state_eq, hr.numbers⟩

theorem Streams.inBlock (hr : r.Streams) : r.inBlock.Streams := ⟨hr.isG, .inl rfl, hr.numbers⟩

theorem Streams.xmodemReceive (hr : r.Streams) (h : Host) (hinput : input ≠ []) :
    r.xmodemReceive h input [] = r.inBlock.receiveStream h input [] := by
  have hblock : r.inBlock.receiveBlock h input [] = r.inBlock.receiveStream h input [] := by
    have hg : r.inBlock.flavor.isG = true := hr.isG
    unfold receiveBlock
    dsimp only
    rw [if_neg fun h => h.2 hg, if_pos ⟨hg, hr.inBlock.not_start⟩]
  rw [Receiver.xmodemReceive]
  obtain hstate | hstate := hr.state_eq <;> rw [hstate] <;> dsimp only <;> rw [if_neg hinput]
  · rw [← hblock, inBlock_eq hstate]
  · exact hblock

/-! ### One round -/

/-- A part of a block is kept. -/
theorem receiveStream_more (hroom : input.length + r.currentBlock.length < r.awaited)
    (heot : r.currentBlock ++ input ≠ [cEot]) :
    r.receiveStream h input [] = .ok (r.append input, [], []) := by
  have hlength : ¬ r.awaited ≤ r.currentBlock.length := by omega
  have hnot : ¬ (r.append input).currentBlock = [cEot] := heot
  unfold receiveStream
  dsimp only
  rw [← awaited, if_neg hlength, if_pos hroom, if_neg hnot]

theorem receiveStream_eot (hblock : r.currentBlock = []) :
    r.receiveStream h [cEot] [] = (r.append [cEot]).receiveEot h := by
  have happend : (r.append [cEot]).currentBlock = [cEot] := by
    rw [append, hblock]
    rfl
  unfold receiveStream
  dsimp only
  rw [happend, hblock]
  rfl

/-- A whole block is written. -/
theorem receiveStream_full {tail : List UInt8}
    (hbytes : r.currentBlock ++ input = blockAround r.flavor r.currentBlockSequenceI data ++ tail)
    (hlength : (blockAround r.flavor r.currentBlockSequenceI data).length = r.awaited)
    (hless : r.currentBlock.length < r.awaited) :
    r.receiveStream h input [] =
      .ok ({ r.accepted (blockData r.flavor data) with state := r.state }, tail, []) := by
  obtain ⟨taken, htaken⟩ : ∃ t, t = input.take (r.awaited - r.currentBlock.length) := ⟨_, rfl⟩
  have htotal := congrArg List.length hbytes
  rw [List.length_append, List.length_append, hlength] at htotal
  have hcurrent : r.currentBlock ++ taken = blockAround r.flavor r.currentBlockSequenceI data := by
    have htake := congrArg (List.take r.awaited) hbytes
    rw [List.take_append, List.take_of_length_le hless.le, ← hlength, List.take_left, hlength] at htake
    rw [htaken]
    exact htake
  have htail : input.drop (r.awaited - r.currentBlock.length) = tail := by
    have hdrop := congrArg (List.drop r.awaited) hbytes
    rw [List.drop_append, List.drop_eq_nil_of_le hless.le, List.nil_append, ← hlength, List.drop_left,
      hlength] at hdrop
    exact hdrop
  have hverify : (r.append taken).verifyBlock = ((r.append taken).writeBlock, true) :=
    verifyBlock_of_sent (r := r.append taken) hcurrent
  unfold receiveStream
  dsimp only
  rw [← awaited, if_neg (by omega), if_neg (by omega), ← htaken, hverify, htail]
  have hwritten : (r.append taken).writeBlock.clearBlock =
      { r.accepted (blockData r.flavor data) with state := r.state } := by
    have hpayload : payload (r.append taken).currentBlock (payloadSize (r.append taken).currentBlock) =
        blockData r.flavor data := by
      rw [append, hcurrent, payload_blockAround]
    rw [writeBlock, hpayload]
    rfl
  rw [hwritten]
  rfl

theorem copyFits_of_lt (hless : r.currentBlock.length < r.awaited) (input : List UInt8) :
    r.CopyFits input := by
  have hmax : r.awaited ≤ xmodemMaxBlockSize := by
    unfold awaited xmodemMaxBlockSize
    split <;> omega
  unfold CopyFits
  dsimp only
  split <;> omega

/-! ### The receiver within a stream -/

/-- The bytes of the block or of the EOT that comes first. -/
def firstLength : List (List UInt8) → ℕ
  | [] => 1
  | data :: _ => data.length + 5

/-- Inside each small block a read ends; `start` is where the first block begins, `cuts` are the
ends of reads. -/
def CutInside (cuts : List ℕ) : ℕ → List (List UInt8) → Prop
  | _, [] => True
  | start, data :: blocks =>
    (data.length = 128 → ∃ cut ∈ cuts, start < cut ∧ cut < start + 133) ∧
      CutInside cuts (start + (data.length + 5)) blocks

/-- `ahead` is what is left of the stream behind a part of its first block that is there. -/
structure Midway (cuts : List ℕ) (start : ℕ) (blocks : List (List UInt8)) (ahead : List UInt8)
    (r : Receiver) : Prop where
  streams : r.Streams
  valid : ValidBlocks blocks
  bytes : r.currentBlock ++ ahead = stream r.flavor r.currentBlockSequenceI blocks
  part : r.currentBlock.length < firstLength blocks
  head : r.currentBlock = [] → CutInside cuts start blocks
  rest : CutInside cuts (start + firstLength blocks) blocks.tail

theorem CutInside.drop_cut {cuts : List ℕ} {cut start : ℕ} (h : CutInside (cut :: cuts) start blocks)
    (hcut : cut ≤ start) : CutInside cuts start blocks := by
  induction blocks generalizing start with
  | nil => trivial
  | cons data blocks ih =>
    refine ⟨fun hsmall => ?_, ih h.2 (by omega)⟩
    obtain ⟨c, hc, hinside⟩ := h.1 hsmall
    obtain rfl | hc := List.mem_cons.mp hc
    · omega
    · exact ⟨c, hc, hinside⟩

theorem Midway.drop_cut {cuts : List ℕ} {cut start : ℕ} {ahead : List UInt8}
    (hr : r.Midway (cut :: cuts) start blocks ahead) (hcut : cut = start + r.currentBlock.length) :
    r.Midway cuts start blocks ahead := by
  have hpart := hr.part
  refine ⟨hr.streams, hr.valid, hr.bytes, hpart, fun hnil => ?_, hr.rest.drop_cut (by omega)⟩
  rw [hnil] at hcut
  exact (hr.head hnil).drop_cut hcut.le

theorem blockData_of_valid {flavor : Flavor} (hg : flavor.isG = true)
    (hdata : data.length = 128 ∨ data.length = 1024) : blockData flavor data = data ∧
      isSmall flavor data = decide (data.length = 128) ∧
      ∀ number, (blockAround flavor number data).length = data.length + 5 := by
  have hsmall : isSmall flavor data = decide (data.length = 128) := by
    have hshort : flavor.isShort = false := by cases flavor <;> first | rfl | cases hg
    rw [isSmall, hshort, Bool.false_or, decide_eq_decide]
    omega
  have hsum : flavor.hasChecksum = false := by cases flavor <;> first | rfl | cases hg
  have hsize : (if isSmall flavor data then 128 else 1024) = data.length := by
    rw [hsmall]
    obtain h | h := hdata <;> rw [h] <;> rfl
  refine ⟨?_, hsmall, fun number => ?_⟩
  · rw [blockData, padded, hsize, List.takeD_eq_take _ le_rfl, List.take_length]
  · rw [length_blockAround, hsize, hsum]
    rfl

theorem byteAt_append {part rest : List UInt8} (hpart : part ≠ []) : byteAt (part ++ rest) 0 = byteAt part 0 := by
  cases part with
  | nil => exact absurd rfl hpart
  | cons byte part => rfl

/-- With a byte of the block there, its length is known. -/
theorem awaited_of_part {ahead : List UInt8} (hg : r.flavor.isG = true)
    (hdata : data.length = 128 ∨ data.length = 1024)
    (hbytes : r.currentBlock ++ ahead = stream r.flavor r.currentBlockSequenceI (data :: blocks))
    (hpart : r.currentBlock ≠ [] ∨ data.length = 1024) : r.awaited = data.length + 5 := by
  obtain ⟨-, hsmall, hlength⟩ := blockData_of_valid hg hdata
  by_cases hnil : r.currentBlock = []
  · rw [awaited, hnil, hpart.resolve_left (not_not.mpr hnil)]
    rfl
  · have hheader := (byteAt_blockAround r.flavor r.currentBlockSequenceI data).1
    have hne : blockAround r.flavor r.currentBlockSequenceI data ≠ [] :=
      List.ne_nil_of_length_pos (by rw [hlength]; omega)
    have hfirst : byteAt r.currentBlock 0 = blockHeader r.flavor data := by
      rw [← @byteAt_append _ ahead hnil, hbytes, stream, byteAt_append hne, hheader]
    rw [awaited, hfirst, blockHeader, hsmall]
    obtain h | h := hdata <;> rw [h] <;> rfl

theorem stream_ne_nil (flavor : Flavor) (number : UInt8) (blocks : List (List UInt8)) :
    stream flavor number blocks ≠ [] := by
  cases blocks with
  | nil => exact List.cons_ne_nil _ _
  | cons data blocks =>
    rw [stream, blockAround_eq]
    exact List.cons_ne_nil _ _

/-- In a stream the assertion holds. -/
theorem Midway.lt_awaited {cuts : List ℕ} {start : ℕ} {ahead : List UInt8}
    (hr : r.Midway cuts start blocks ahead) : r.currentBlock.length < r.awaited := by
  by_cases hnil : r.currentBlock = []
  · rw [awaited, hnil]
    decide
  · have hpart := hr.part
    cases blocks with
    | nil =>
      rw [firstLength, Nat.lt_one_iff, List.length_eq_zero_iff] at hpart
      exact absurd hpart hnil
    | cons data blocks =>
      rw [awaited_of_part hr.streams.isG (hr.valid data List.mem_cons_self) hr.bytes (.inl hnil)]
      exact hpart

theorem result_append (r : Receiver) (h : Host) (bytes data : List UInt8) (blocks : List (List UInt8)) :
    (r.inBlock.append bytes).result h (data :: blocks) = r.result h (data :: blocks) := rfl

theorem firstLength_le (hg : r.flavor.isG = true) (hvalid : ValidBlocks blocks) (number : UInt8) :
    firstLength blocks ≤ (stream r.flavor number blocks).length := by
  cases blocks with
  | nil => exact le_rfl
  | cons data blocks =>
    obtain ⟨-, -, hlength⟩ := blockData_of_valid hg (hvalid data List.mem_cons_self)
    rw [stream, List.length_append, hlength, firstLength]
    omega

/-- A stream does not end before its EOT. -/
theorem Midway.ahead_ne_nil {cuts : List ℕ} {start : ℕ} {ahead : List UInt8}
    (hr : r.Midway cuts start blocks ahead) : ahead ≠ [] := by
  intro hnil
  have hbytes := congrArg List.length hr.bytes
  rw [hnil, List.append_nil] at hbytes
  have hpart := hr.part
  have hle := firstLength_le hr.streams.isG hr.valid r.currentBlockSequenceI
  omega

section Rounds
variable {cuts : List ℕ} {start : ℕ} {future : List UInt8}

theorem Midway.round_nil (hr : r.Midway cuts start [] (input ++ future)) (hinput : input ≠ []) :
    r.currentBlock = [] ∧ input = [cEot] ∧ future = [] := by
  have hnil : r.currentBlock = [] := by
    have hpart := hr.part
    rwa [firstLength, Nat.lt_one_iff, List.length_eq_zero_iff] at hpart
  have hbytes := hr.bytes
  rw [hnil, List.nil_append, stream] at hbytes
  cases input with
  | nil => exact absurd rfl hinput
  | cons byte input =>
    rw [List.cons_append, List.cons.injEq, List.append_eq_nil_iff] at hbytes
    obtain ⟨rfl, rfl, hfuture⟩ := hbytes
    exact ⟨hnil, rfl, hfuture⟩

/-- A round keeps what it is given, or writes a block and leaves what is behind it. -/
theorem Midway.round_cons (hr : r.Midway cuts start (data :: blocks) (input ++ future)) (h : Host)
    (hinput : input ≠ [])
    (hcuts : ∀ cut ∈ cuts, start + r.currentBlock.length + input.length ≤ cut) :
    ∃ r' tail start' blocks', r.xmodemReceive h input [] = .ok (r', tail, []) ∧
      tail.length < input.length ∧ r'.Midway cuts start' blocks' (tail ++ future) ∧
      r'.result h blocks' = r.result h (data :: blocks) ∧
      start' + r'.currentBlock.length + tail.length = start + r.currentBlock.length + input.length := by
  have hdata := hr.valid data List.mem_cons_self
  obtain ⟨hsame, -, hlength⟩ := blockData_of_valid hr.streams.isG hdata
  have hpart := hr.part
  have hpos := List.length_pos_of_ne_nil hinput
  rw [firstLength] at hpart
  rw [hr.streams.xmodemReceive h hinput]
  -- A small block of which nothing is there yet does not come whole.
  have hsmall (hnot : ¬ (r.currentBlock ≠ [] ∨ data.length = 1024)) :
      input.length + r.currentBlock.length < 133 := by
    rw [not_or, not_not] at hnot
    obtain ⟨cut, hcut, hinside⟩ := (hr.head hnot.1).1 (hdata.resolve_right hnot.2)
    have hend := hcuts cut hcut
    rw [hnot.1, List.length_nil] at hend ⊢
    omega
  have hawaited : r.currentBlock ≠ [] ∨ data.length = 1024 → r.awaited = data.length + 5 :=
    awaited_of_part hr.streams.isG hdata hr.bytes
  by_cases hmore : input.length + r.currentBlock.length < data.length + 5
  · have hroom : input.length + r.currentBlock.length < r.awaited := by
      by_cases hknown : r.currentBlock ≠ [] ∨ data.length = 1024
      · rw [hawaited hknown]
        exact hmore
      · have hless := hsmall hknown
        have hleast : 133 ≤ r.awaited := by
          unfold awaited
          split <;> omega
        omega
    have happend : r.inBlock.currentBlock ++ input ≠ [] := List.append_ne_nil_of_right_ne_nil _ hinput
    have heot : r.inBlock.currentBlock ++ input ≠ [cEot] := fun heq => by
      have hbytes := hr.bytes
      rw [← List.append_assoc, show r.currentBlock ++ input = [cEot] from heq, stream, blockAround_eq] at hbytes
      have hheader := (List.cons.inj hbytes).1
      rw [blockHeader] at hheader
      split at hheader <;> exact absurd hheader (by decide)
    have hkept : (r.inBlock.append input).currentBlock.length = r.currentBlock.length + input.length :=
      List.length_append
    refine ⟨r.inBlock.append input, [], start, data :: blocks, receiveStream_more hroom heot, hpos,
      ⟨hr.streams.inBlock.append input, hr.valid, ?_, ?_, fun hnil => absurd hnil happend, hr.rest⟩,
      result_append .., ?_⟩
    · exact (List.append_assoc ..).trans hr.bytes
    · rw [hkept, firstLength]
      omega
    · rw [hkept, List.length_nil]
      omega
  · have hknown : r.currentBlock ≠ [] ∨ data.length = 1024 := by
      by_contra hnot
      have := hsmall hnot
      omega
    -- What is there holds the block, so the rest of it is behind.
    obtain ⟨tail, htail⟩ : ∃ tail, r.currentBlock ++ input =
        blockAround r.flavor r.currentBlockSequenceI data ++ tail := by
      have hbytes := hr.bytes
      rw [← List.append_assoc, stream] at hbytes
      rcases List.append_eq_append_iff.mp hbytes with ⟨more, hblock, -⟩ | ⟨more, hmore, -⟩
      · have hcount := congrArg List.length hblock
        rw [hlength, List.length_append, List.length_append] at hcount
        have hnil : more = [] := List.eq_nil_of_length_eq_zero (by omega)
        exact ⟨[], by rw [hblock, hnil, List.append_nil, List.append_nil]⟩
      · exact ⟨more, hmore⟩
    have hcount := congrArg List.length htail
    rw [List.length_append, List.length_append, hlength] at hcount
    have hreceive : r.inBlock.receiveStream h input [] = .ok (r.accepted data, tail, []) := by
      have hfull := receiveStream_full (r := r.inBlock) (h := h) htail
        ((hlength _).trans (hawaited hknown).symm)
        (by rw [show r.inBlock.awaited = _ from hawaited hknown]; exact hpart)
      rw [hfull, show r.inBlock.flavor = r.flavor from rfl, hsame]
      rfl
    have hahead : tail ++ future = stream r.flavor (r.currentBlockSequenceI + 1) blocks := by
      have hbytes := hr.bytes
      rw [← List.append_assoc, htail, stream, List.append_assoc] at hbytes
      exact List.append_cancel_left hbytes
    have hvalid : ValidBlocks blocks := fun data' hdata' => hr.valid data' (List.mem_cons_of_mem _ hdata')
    have hrest : CutInside cuts (start + (data.length + 5)) blocks := hr.rest
    refine ⟨r.accepted data, tail, start + (data.length + 5), blocks, hreceive, by omega,
      ⟨hr.streams.accepted data, hvalid, hahead, ?_, fun _ => hrest, ?_⟩, rfl, ?_⟩
    · cases blocks with
      | nil => exact Nat.one_pos
      | cons data' blocks => exact Nat.succ_pos _
    · cases blocks with
      | nil => trivial
      | cons data' blocks => exact hrest.2
    · change _ + 0 + _ = _
      omega

theorem receiveEot_rest {r r' : Receiver} {rest output : List UInt8}
    (hreceive : r.receiveEot h = .ok (r', rest, output)) :
    rest = [] ∧ (r'.state = r.state ∨ r'.state = .complete) ∧
      r'.currentBlock = [] := by
  unfold receiveEot at hreceive
  split at hreceive
  · cases hreceive
  · split_ifs at hreceive
    · cases hreceive
      exact ⟨rfl, .inl rfl, rfl⟩
    · split at hreceive <;> cases hreceive
      exact ⟨rfl, .inr rfl, rfl⟩

theorem Midway.round_eot (hr : r.Midway cuts start [] (input ++ future)) (h : Host) (hinput : input ≠ []) :
    r.xmodemReceive h input [] = (r.inBlock.append [cEot]).receiveEot h := by
  obtain ⟨hblock, rfl, -⟩ := hr.round_nil hinput
  rw [hr.streams.xmodemReceive h hinput]
  exact receiveStream_eot hblock

/-- A read that does not bring the EOT leaves the receiver within the stream. -/
theorem Midway.read {count : ℕ} (hr : r.Midway cuts start blocks (input ++ future)) (h : Host)
    (hinput : input ≠ []) (hcuts : ∀ cut ∈ cuts, start + r.currentBlock.length + input.length ≤ cut)
    (hcount : input.length < count) :
    (∀ round ∈ rounds h count r input, round.1.currentBlock.length < round.1.awaited) ∧
      (future = [] ∧ (receiveAll h count r input []).map (·.1) = r.result h blocks ∨
        ∃ r' start' blocks', receiveAll h count r input [] = .ok (r', []) ∧
          r'.Midway cuts start' blocks' future ∧ r'.result h blocks' = r.result h blocks ∧
          start' + r'.currentBlock.length = start + r.currentBlock.length + input.length) := by
  induction count generalizing r input start blocks with
  | zero => omega
  | succ count ih =>
    cases blocks with
    | nil =>
      have hreceive := hr.round_eot h hinput
      obtain ⟨-, -, hfuture⟩ := hr.round_nil hinput
      have hresult : r.result h [] = ((r.inBlock.append [cEot]).receiveEot h).map (·.1) := rfl
      rw [rounds, receiveAll, hreceive, hresult]
      cases heot : (r.inBlock.append [cEot]).receiveEot h with
      | error fault => exact ⟨by simpa using hr.lt_awaited, .inl ⟨hfuture, rfl⟩⟩
      | ok received =>
        obtain ⟨r', rest, output⟩ := received
        obtain ⟨rfl, -⟩ := receiveEot_rest heot
        exact ⟨by simpa using hr.lt_awaited, .inl ⟨hfuture, rfl⟩⟩
    | cons data blocks =>
      obtain ⟨r', tail, start', blocks', hreceive, hless, hr', hresult, hposition⟩ :=
        hr.round_cons h hinput hcuts
      rw [rounds, receiveAll, hreceive]
      cases tail with
      | nil =>
        exact ⟨by simpa using hr.lt_awaited, .inr ⟨r', start', blocks', rfl, hr', hresult, hposition⟩⟩
      | cons byte tail =>
        obtain ⟨hrounds, hdone⟩ := ih hr' (List.cons_ne_nil _ _) (by rw [hposition]; exact hcuts) (by omega)
        refine ⟨?_, ?_⟩
        · intro round hround
          obtain rfl | hround := List.mem_cons.mp hround
          · exact hr.lt_awaited
          · exact hrounds round hround
        · rw [hresult] at hdone
          obtain hdone | ⟨r'', start'', blocks'', hall, hr'', hresult', hposition'⟩ := hdone
          · exact .inl hdone
          · exact .inr ⟨r'', start'', blocks'', hall, hr'', hresult', hposition'.trans hposition⟩

end Rounds

/-! ### All the reads -/

/-- Where the reads end. -/
def cutsAt (position : ℕ) : List (List UInt8) → List ℕ
  | [] => []
  | read :: reads => (position + read.length) :: cutsAt (position + read.length) reads

theorem le_of_mem_cutsAt {position cut : ℕ} {reads : List (List UInt8)} (hcut : cut ∈ cutsAt position reads) :
    position ≤ cut := by
  induction reads generalizing position with
  | nil => cases hcut
  | cons read reads ih =>
    obtain rfl | hcut := List.mem_cons.mp hcut
    · omega
    · have := ih hcut
      omega

theorem rounds_one {round : Receiver × List UInt8} (hround : round ∈ rounds h 1 r input) :
    round = (r, input) := by
  rw [rounds] at hround
  obtain rfl | hround := List.mem_cons.mp hround
  · rfl
  · split at hround <;> cases hround

/-- Reads without a byte change nothing. -/
theorem receiveReads_nil (hexpired : h.expired = false) {reads : List (List UInt8)}
    (hreads : reads.flatten = []) (hblock : r.currentBlock = [])
    (hstate : r.state = .block ∨ r.state = .firstBlock ∨ r.state = .complete) :
    r.receiveReads h reads = .ok r ∧
      ∀ round ∈ r.roundsOfReads h reads, round.1.currentBlock.length < round.1.awaited := by
  induction reads with
  | nil => exact ⟨rfl, by simp [roundsOfReads]⟩
  | cons read reads ih =>
    rw [List.flatten_cons, List.append_eq_nil_iff] at hreads
    obtain ⟨rfl, hreads⟩ := hreads
    obtain ⟨hsame, hrounds⟩ := ih hreads
    rw [receiveReads, roundsOfReads, xmodem_idle hexpired hstate]
    refine ⟨hsame, fun round hmem => ?_⟩
    obtain hmem | hmem := List.mem_append.mp hmem
    · rw [rounds_one hmem, awaited, hblock]
      decide
    · exact hrounds round hmem

theorem foldl_accepted_state (blocks : List (List UInt8)) {r : Receiver} (hstate : r.state = .block) :
    (blocks.foldl accepted r).state = .block := by
  induction blocks generalizing r with
  | nil => exact hstate
  | cons data blocks ih => exact ih rfl

theorem result_ok {r' : Receiver} (hresult : r.result h blocks = .ok r') :
    r'.currentBlock = [] ∧ (r'.state = .block ∨ r'.state = .complete) := by
  rw [result] at hresult
  cases heot : ((blocks.foldl accepted r.inBlock).append [cEot]).receiveEot h with
  | error fault =>
    rw [heot] at hresult
    cases hresult
  | ok received =>
    obtain ⟨r'', rest, output⟩ := received
    rw [heot] at hresult
    cases hresult
    obtain ⟨-, hsame, hblock⟩ := receiveEot_rest heot
    refine ⟨hblock, hsame.imp_left fun hsame => hsame.trans ?_⟩
    exact foldl_accepted_state (r := r.inBlock) blocks rfl

/-- However the stream is cut, if only each small block is cut inside. -/
theorem Midway.reads (hexpired : h.expired = false) {reads : List (List UInt8)} {position start : ℕ}
    (hr : r.Midway (cutsAt position reads) start blocks reads.flatten)
    (hposition : position = start + r.currentBlock.length) :
    r.receiveReads h reads = r.result h blocks ∧
      ∀ round ∈ r.roundsOfReads h reads, round.1.currentBlock.length < round.1.awaited := by
  induction reads generalizing r blocks position start with
  | nil => exact absurd rfl hr.ahead_ne_nil
  | cons read reads ih =>
    rw [cutsAt] at hr
    have habort : r.state ≠ .abort := by
      obtain h | h := hr.streams.state_eq <;> rw [h] <;> decide
    by_cases hnil : read = []
    · subst hnil
      have hstate : r.state = .block ∨ r.state = .firstBlock ∨ r.state = .complete :=
        hr.streams.state_eq.imp_right .inl
      obtain ⟨hsame, hrounds⟩ := ih (hr.drop_cut hposition) hposition
      rw [receiveReads, roundsOfReads, xmodem_idle hexpired hstate]
      refine ⟨hsame, fun round hmem => ?_⟩
      obtain hmem | hmem := List.mem_append.mp hmem
      · rw [rounds_one hmem]
        exact hr.lt_awaited
      · exact hrounds round hmem
    · rw [List.flatten_cons] at hr
      have hcuts : ∀ cut ∈ (position + read.length) :: cutsAt (position + read.length) reads,
          start + r.currentBlock.length + read.length ≤ cut := by
        intro cut hcut
        obtain rfl | hcut := List.mem_cons.mp hcut
        · omega
        · have := le_of_mem_cutsAt hcut
          omega
      obtain ⟨hround, hdone⟩ := hr.read h hnil hcuts (Nat.lt_succ_self _)
      have hcall : r.xmodem h read [] = receiveAll h (read.length + 1) r read [] := by
        rw [Receiver.xmodem, if_neg habort]
      rw [receiveReads, roundsOfReads, hcall]
      obtain ⟨hfuture, hall⟩ | ⟨r', start', blocks', hall, hr', hresult, hstart⟩ := hdone
      · cases hreceived : receiveAll h (read.length + 1) r read [] with
        | error fault =>
          rw [hreceived] at hall
          exact ⟨hall, by simpa using hround⟩
        | ok received =>
          rw [hreceived] at hall
          obtain ⟨hblock, hstate⟩ := result_ok hall.symm
          obtain ⟨hsame, hrounds⟩ := receiveReads_nil hexpired hfuture hblock (hstate.imp_right .inr)
          refine ⟨hsame.trans hall, fun round hmem => ?_⟩
          exact (List.mem_append.mp hmem).elim (hround round) (hrounds round)
      · have hend : position + read.length = start' + r'.currentBlock.length := by omega
        obtain ⟨hsame, hrounds⟩ := ih (hr'.drop_cut hend) hend
        rw [hall]
        refine ⟨hsame.trans hresult, fun round hmem => ?_⟩
        exact (List.mem_append.mp hmem).elim (hround round) (hrounds round)

/-! ### A small block that comes whole -/

/-- The flavor, the numbers and the file are those of a transfer that streams, and no part of a block
is there. -/
structure Opens (r : Receiver) : Prop where
  streams : r.Streams
  block_eq : r.currentBlock = []

theorem opens_xmodemStart (r : Receiver) {flavor : Flavor} (hg : flavor.isG = true)
    (hy : flavor.isYmodem = false) (filename : List UInt8) :
    (r.xmodemStart flavor filename).receiveInit.Opens := by
  have hflavor : flavor = .x1kG := by cases flavor <;> simp_all [Flavor.isG, Flavor.isYmodem]
  subst hflavor
  exact ⟨⟨rfl, .inr rfl, rfl⟩, rfl⟩

/-- The same holds behind a block 0 that has started its file. -/
theorem opens_startFile {r : Receiver} (hg : r.flavor.isG = true) (hstate : r.state = .block)
    (hsequence : r.currentBlockSequenceI = 0) (hnumber : r.currentBlockNumber = 1) (z : BlockZero) :
    (r.startFile z).seenBlockZero.Opens := by
  refine ⟨⟨hg, .inl hstate, ?_⟩, rfl⟩
  change r.currentBlockSequenceI + 1 = r.currentBlockNumber.toUInt8
  rw [hsequence, hnumber]
  rfl

theorem cutInside_of_large {cuts : List ℕ} {start : ℕ} (hlarge : ∀ data ∈ blocks, data.length ≠ 128) :
    CutInside cuts start blocks := by
  induction blocks generalizing start with
  | nil => trivial
  | cons data blocks ih =>
    refine ⟨fun h => absurd h (hlarge data List.mem_cons_self), ih fun data' hdata' => ?_⟩
    exact hlarge data' (List.mem_cons_of_mem _ hdata')

/-- The reads of a stream of which every small block has a cut inside. -/
theorem receiveReads_of_cutInside (hr : r.Opens) (hvalid : ValidBlocks blocks)
    (hexpired : h.expired = false) {reads : List (List UInt8)}
    (hreads : reads.flatten = stream r.flavor r.currentBlockSequenceI blocks)
    (hcuts : CutInside (cutsAt 0 reads) 0 blocks) :
    r.receiveReads h reads = r.result h blocks ∧
      ∀ round ∈ r.roundsOfReads h reads, round.1.currentBlock.length < round.1.awaited := by
  have hpart : r.currentBlock.length < firstLength blocks := by
    rw [hr.block_eq]
    cases blocks with
    | nil => exact Nat.one_pos
    | cons data blocks => exact Nat.succ_pos _
  have hrest : CutInside (cutsAt 0 reads) (0 + firstLength blocks) blocks.tail := by
    cases blocks with
    | nil => trivial
    | cons data blocks => exact hcuts.2
  have hbytes : r.currentBlock ++ reads.flatten = stream r.flavor r.currentBlockSequenceI blocks := by
    rw [hr.block_eq, hreads]
    rfl
  refine Midway.reads hexpired ⟨hr.streams, hvalid, hbytes, hpart, fun _ => hcuts, hrest⟩ ?_
  rw [hr.block_eq]
  rfl

theorem result_ne_assertion (r : Receiver) (h : Host) (blocks : List (List UInt8)) :
    r.result h blocks ≠ .error .assertion := by
  rw [result]
  unfold receiveEot
  split
  · intro heq
    cases heq
  · split_ifs
    · intro heq
      cases heq
    · intro heq
      cases heq
    · split <;> intro heq <;> cases heq

/-- A large block in a read of its own is written. -/
theorem Opens.xmodem_large (hr : r.Opens) (h : Host) (hdata : data.length = 1024) :
    r.xmodem h (blockAround r.flavor r.currentBlockSequenceI data) [] = .ok (r.accepted data, []) ∧
      (r.accepted data).Opens := by
  obtain ⟨hsame, -, hlength⟩ := blockData_of_valid hr.streams.isG (.inr hdata)
  have hne : blockAround r.flavor r.currentBlockSequenceI data ≠ [] :=
    List.ne_nil_of_length_pos (by rw [hlength]; omega)
  have habort : r.state ≠ .abort := by
    obtain h | h := hr.streams.state_eq <;> rw [h] <;> decide
  have hawaited : r.inBlock.awaited = 1029 := by
    rw [awaited, inBlock, hr.block_eq]
    rfl
  have hbytes : r.inBlock.currentBlock ++ blockAround r.flavor r.currentBlockSequenceI data =
      blockAround r.flavor r.currentBlockSequenceI data ++ [] := by
    rw [inBlock, hr.block_eq, List.append_nil]
    rfl
  have hfull := receiveStream_full (r := r.inBlock) (h := h) hbytes
    (by rw [hawaited, inBlock, hlength, hdata]) (by rw [hawaited, inBlock, hr.block_eq]; decide)
  refine ⟨xmodem_of_xmodemReceive habort ?_, hr.streams.accepted data, rfl⟩
  rw [hr.streams.xmodemReceive h hne, hfull, show r.inBlock.flavor = r.flavor from rfl, hsame]
  rfl

/-- A small block in a read of its own is only kept. -/
theorem Opens.xmodem_small (hr : r.Opens) (h : Host) (hdata : data.length = 128) :
    r.xmodem h (blockAround r.flavor r.currentBlockSequenceI data) [] =
      .ok (r.inBlock.append (blockAround r.flavor r.currentBlockSequenceI data), []) := by
  obtain ⟨-, -, hlength⟩ := blockData_of_valid hr.streams.isG (.inl hdata)
  have hne : blockAround r.flavor r.currentBlockSequenceI data ≠ [] :=
    List.ne_nil_of_length_pos (by rw [hlength]; omega)
  have habort : r.state ≠ .abort := by
    obtain h | h := hr.streams.state_eq <;> rw [h] <;> decide
  have hblock : r.inBlock.currentBlock = [] := hr.block_eq
  refine xmodem_of_xmodemReceive habort ?_
  rw [hr.streams.xmodemReceive h hne]
  refine receiveStream_more ?_ ?_
  · rw [awaited, hblock, hlength, hdata]
    decide
  · rw [hblock, List.nil_append]
    intro heq
    have hcount := congrArg List.length heq
    rw [hlength, hdata] at hcount
    exact absurd hcount (by decide)

/-- Then whatever comes next fails the assertion. -/
theorem Opens.xmodem_behind_small (hr : r.Opens) (h : Host) (hdata : data.length = 128)
    (hinput : input ≠ []) :
    (r.inBlock.append (blockAround r.flavor r.currentBlockSequenceI data)).xmodem h input [] =
      .error .assertion := by
  obtain ⟨-, hsmall, hlength⟩ := blockData_of_valid hr.streams.isG (.inl hdata)
  obtain ⟨kept, hkept⟩ : ∃ k, k = r.inBlock.append (blockAround r.flavor r.currentBlockSequenceI data) :=
    ⟨_, rfl⟩
  have hblock : kept.currentBlock = blockAround r.flavor r.currentBlockSequenceI data := by
    rw [hkept, append, inBlock, hr.block_eq]
    rfl
  have hstate : kept.state = .block := by rw [hkept]; rfl
  have hstreams : kept.Streams := by
    rw [hkept]
    exact hr.streams.inBlock.append _
  have hawaited : kept.awaited = 133 := by
    rw [awaited, hblock, (byteAt_blockAround ..).1, blockHeader, hsmall, hdata]
    rfl
  have hassert : kept.receiveStream h input [] = .error .assertion := by
    unfold receiveStream
    dsimp only
    rw [← awaited, hawaited, hblock, hlength, hdata]
    rfl
  rw [← hkept, Receiver.xmodem, if_neg (by rw [hstate]; decide), receiveAll, hstreams.xmodemReceive h hinput,
    inBlock_eq hstate, hassert]

/-- A stream with a small block can be cut so that the assertion fails. -/
theorem Opens.exists_assertion (hr : r.Opens) (h : Host) (hvalid : ValidBlocks blocks)
    (hsmall : ∃ data ∈ blocks, data.length = 128) :
    ∃ reads : List (List UInt8), reads.flatten = stream r.flavor r.currentBlockSequenceI blocks ∧
      r.receiveReads h reads = .error .assertion := by
  induction blocks generalizing r with
  | nil => simp at hsmall
  | cons data blocks ih =>
    obtain hdata | hdata := hvalid data List.mem_cons_self
    · refine ⟨[blockAround r.flavor r.currentBlockSequenceI data,
        stream r.flavor (r.currentBlockSequenceI + 1) blocks], by simp [stream], ?_⟩
      rw [receiveReads, hr.xmodem_small h hdata]
      dsimp only
      rw [receiveReads, hr.xmodem_behind_small h hdata (stream_ne_nil _ _ _)]
    · obtain ⟨hcall, hnext⟩ := hr.xmodem_large h hdata
      have hlater : ∃ data ∈ blocks, data.length = 128 := by
        obtain ⟨data', hmem, hdata'⟩ := hsmall
        obtain rfl | hmem := List.mem_cons.mp hmem
        · omega
        · exact ⟨data', hmem, hdata'⟩
      obtain ⟨reads, hreads, hassert⟩ :=
        ih hnext (fun data' hdata' => hvalid data' (List.mem_cons_of_mem _ hdata')) hlater
      refine ⟨blockAround r.flavor r.currentBlockSequenceI data :: reads, ?_, ?_⟩
      · rw [List.flatten_cons, hreads]
        rfl
      · rw [receiveReads, hcall]
        exact hassert

theorem chunkIndependent_of_large (hr : r.Opens) (hvalid : ValidBlocks blocks)
    (hexpired : h.expired = false) (hlarge : ∀ data ∈ blocks, data.length ≠ 128) :
    r.ChunkIndependent h blocks := by
  have hreceived (reads : List (List UInt8))
      (hreads : reads.flatten = stream r.flavor r.currentBlockSequenceI blocks) :=
    receiveReads_of_cutInside hr hvalid hexpired hreads (cutInside_of_large hlarge)
  refine ⟨fun reads hreads => (hreceived reads hreads).1, fun reads hreads round hround _ => ?_⟩
  have hless := (hreceived reads hreads).2 round hround
  exact ⟨hless, copyFits_of_lt hless _⟩

theorem not_chunkIndependent_of_small (hr : r.Opens) (hvalid : ValidBlocks blocks)
    (hsmall : ∃ data ∈ blocks, data.length = 128) : ¬ r.ChunkIndependent h blocks := by
  intro hindependent
  obtain ⟨reads, hreads, hassert⟩ := hr.exists_assertion h hvalid hsmall
  exact result_ne_assertion r h blocks ((hindependent.same reads hreads).symm.trans hassert)

/-- A stream is received however it is cut exactly when none of its blocks is a small one. -/
theorem chunkIndependent_iff (hr : r.Opens) (hvalid : ValidBlocks blocks) (hexpired : h.expired = false) :
    r.ChunkIndependent h blocks ↔ ∀ data ∈ blocks, data.length ≠ 128 := by
  refine ⟨fun hindependent data hdata hlength => ?_, chunkIndependent_of_large hr hvalid hexpired⟩
  exact not_chunkIndependent_of_small hr hvalid ⟨data, hdata, hlength⟩ hindependent

theorem chunkIndependent_letters :
    ((fresh .x1kG []).xmodemStart .x1kG [66]).receiveInit.ChunkIndependent (perfect 0 3)
      [List.replicate 1024 65] :=
  (chunkIndependent_iff (opens_xmodemStart (fresh .x1kG []) rfl rfl [66])
    (fun data hdata => .inr (by rw [List.mem_singleton.mp hdata, List.length_replicate])) rfl).mpr
    fun data hdata => by
      rw [List.mem_singleton.mp hdata, List.length_replicate]
      decide

/-- One small block and the EOT. -/
theorem not_chunkIndependent_letters :
    ¬ ((fresh .x1kG []).xmodemStart .x1kG [66]).receiveInit.ChunkIndependent (perfect 0 3)
      [List.replicate 128 65] := by
  have hlength : ∀ data ∈ [List.replicate 128 (65 : UInt8)], data.length = 128 := fun data hdata => by
    rw [List.mem_singleton.mp hdata, List.length_replicate]
  refine not_chunkIndependent_of_small (opens_xmodemStart (fresh .x1kG []) rfl rfl [66])
    (fun data hdata => .inl (hlength data hdata)) ?_
  exact ⟨List.replicate 128 65, List.mem_singleton_self _, List.length_replicate⟩

end Receiver
end CProgram.Xmodem
