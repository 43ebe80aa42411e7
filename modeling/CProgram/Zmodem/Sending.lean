import CProgram.Zmodem.Encode

/-! The data that goes out: `send_zdata` behind the answers it has read, with the room that the buffers have. -/
namespace CProgram.Zmodem

/-! ### Writing into a buffer of limited size -/

/-- `encode_byte`, with its assertion; it asks for two places whatever the byte takes. -/
def encodeByteInto (flags : UInt32) (max : ℕ) (out : List UInt8) (ch : UInt8) : Option (List UInt8) :=
  if out.length + 2 ≤ max then some (out ++ encodeByte flags ch) else none

/-- A byte that is written without asking. -/
def writeInto (max : ℕ) (out : List UInt8) (ch : UInt8) : Option (List UInt8) :=
  if out.length < max then some (out ++ [ch]) else none

/-- `encode_zdata_bytes`; nothing comes back where it runs out of the buffer. -/
def encodeZdataInto (tab : List UInt32) (flags : UInt32) (p : Packet) (crcType : UInt8) (max : ℕ) (out : List UInt8) :
    Option (List UInt8) := do
  let out ← (p.data.take p.dataN).foldlM (encodeByteInto flags max) out
  let out ← writeInto max out can
  let out ← writeInto max out crcType
  let out ← (dataCrcBytes tab p crcType).foldlM (encodeByteInto flags max) out
  if crcType = zcrcw then writeInto max out xon else some out

/-- What bytes take when they are escaped. -/
def cost (flags : UInt32) (l : List UInt8) : ℕ := l.length + l.countP fun ch => encodeByteMap flags ch ≠ ch

variable {tab : List UInt32} {flags : UInt32} {max : ℕ} {out l : List UInt8} {ch : UInt8} {p : Packet} {crcType : UInt8}

theorem length_encodeByte : (encodeByte flags ch).length = cost flags [ch] := by
  unfold encodeByte
  by_cases h : encodeByteMap flags ch = ch
  · simp [cost, h]
  · simp [cost, h]

theorem cost_append {l' : List UInt8} : cost flags (l ++ l') = cost flags l + cost flags l' := by
  simp only [cost, List.length_append, List.countP_append]
  omega

theorem cost_cons : cost flags (ch :: l) = cost flags [ch] + cost flags l := cost_append (l := [ch])

theorem length_flatMap_encodeByte : (l.flatMap (encodeByte flags)).length = cost flags l := by
  induction l with
  | nil => rfl
  | cons ch l ih => rw [List.flatMap_cons, List.length_append, length_encodeByte, ih, ← cost_cons]

theorem cost_singleton_le (flags : UInt32) (ch : UInt8) : cost flags [ch] ≤ 2 := by
  by_cases h : encodeByteMap flags ch = ch <;> simp [cost, h]

theorem cost_le (flags : UInt32) (l : List UInt8) : cost flags l ≤ 2 * l.length := by
  have hcount := List.countP_le_length (p := fun ch => decide (encodeByteMap flags ch ≠ ch)) (l := l)
  unfold cost
  omega

theorem cost_dropLast_le (flags : UInt32) (l : List UInt8) : cost flags l.dropLast ≤ cost flags l := by
  have hlength := (List.dropLast_sublist l).length_le
  have hcount := (List.dropLast_sublist l).countP_le (p := fun ch => decide (encodeByteMap flags ch ≠ ch))
  unfold cost
  omega

/-- The bytes fit if there are two places left for the last one. -/
theorem foldlM_encodeByteInto : l.foldlM (encodeByteInto flags max) out =
    if l = [] ∨ out.length + cost flags l.dropLast + 2 ≤ max then some (out ++ l.flatMap (encodeByte flags)) else none := by
  induction l generalizing out with
  | nil => simp
  | cons ch l ih =>
    rw [List.foldlM_cons, encodeByteInto]
    by_cases hroom : out.length + 2 ≤ max
    · rw [if_pos hroom]
      show l.foldlM (encodeByteInto flags max) (out ++ encodeByte flags ch) = _
      rw [ih, List.length_append, length_encodeByte, List.flatMap_cons, List.append_assoc]
      cases l with
      | nil => simp [cost, hroom]
      | cons b l =>
        rw [List.dropLast_cons_of_ne_nil (List.cons_ne_nil b l), cost_cons (l := (b :: l).dropLast)]
        simp only [List.cons_ne_nil, false_or, Nat.add_assoc]
    · rw [if_neg hroom, if_neg]
      · rfl
      · rintro (hnil | hfits)
        · cases hnil
        · omega

/-- Each byte of the subpacket has its place, with the two that the assertion asks for. -/
def Fits (tab : List UInt32) (flags : UInt32) (p : Packet) (crcType : UInt8) (max n : ℕ) : Prop :=
  n + cost flags (p.data.take p.dataN) + cost flags (dataCrcBytes tab p crcType).dropLast + 4 ≤ max ∧
    (crcType = zcrcw → n + cost flags (p.data.take p.dataN) + cost flags (dataCrcBytes tab p crcType) + 3 ≤ max)

theorem length_dataCrcBytes_ite :
    (dataCrcBytes tab p crcType).length = if p.useCrc32 ∧ p.type ≠ .zsinit then 4 else 2 := by
  unfold dataCrcBytes
  split <;> rfl

theorem encodeZdataInto_eq (hfits : Fits tab flags p crcType max out.length) :
    encodeZdataInto tab flags p crcType max out = some (out ++ encodeZdataBytes tab flags p crcType) := by
  have hdrop := cost_dropLast_le flags (p.data.take p.dataN)
  obtain ⟨hroom, hxon⟩ := hfits
  have hcan : (out ++ (p.data.take p.dataN).flatMap (encodeByte flags)).length < max := by
    rw [List.length_append, length_flatMap_encodeByte]
    omega
  have htype : (out ++ (p.data.take p.dataN).flatMap (encodeByte flags) ++ [can]).length < max := by
    rw [List.length_append, List.length_append, length_flatMap_encodeByte, List.length_singleton]
    omega
  rw [encodeZdataInto, foldlM_encodeByteInto, if_pos (Or.inr (by omega))]
  simp only [Option.bind_eq_bind, Option.bind_some, writeInto, if_pos hcan, if_pos htype]
  rw [foldlM_encodeByteInto, if_pos (Or.inr ?_)]
  · simp only [Option.bind_some]
    by_cases hw : crcType = zcrcw
    · rw [if_pos hw, if_pos ?_]
      · simp [encodeZdataBytes, hw]
      · simp only [List.length_append, length_flatMap_encodeByte, List.length_singleton]
        have := hxon hw
        omega
    · rw [if_neg hw]
      simp [encodeZdataBytes, hw]
  · simp only [List.length_append, length_flatMap_encodeByte, List.length_singleton]
    omega

/-- Without the room it runs out of the buffer, or the assertion fails. -/
theorem encodeZdataInto_none (hfits : ¬ Fits tab flags p crcType max out.length) :
    encodeZdataInto tab flags p crcType max out = none := by
  have hcrc : dataCrcBytes tab p crcType ≠ [] := by
    intro hnil
    have hlength : (dataCrcBytes tab p crcType).length = _ := length_dataCrcBytes_ite
    rw [hnil] at hlength
    split at hlength <;> cases hlength
  rw [encodeZdataInto, foldlM_encodeByteInto]
  split
  · simp only [Option.bind_eq_bind, Option.bind_some, writeInto]
    split
    · simp only [Option.bind_some]
      split
      · simp only [Option.bind_some]
        rw [foldlM_encodeByteInto]
        split
        · rename_i hroom
          have hroom' := hroom.resolve_left hcrc
          simp only [List.length_append, length_flatMap_encodeByte, List.length_singleton] at hroom'
          simp only [Option.bind_some]
          by_cases hw : crcType = zcrcw
          · rw [if_pos hw, if_neg]
            simp only [List.length_append, length_flatMap_encodeByte, List.length_singleton]
            intro hxon
            exact hfits ⟨by omega, fun _ => by omega⟩
          · exact absurd ⟨by omega, fun hw' => absurd hw' hw⟩ hfits
        · rfl
      · rfl
    · rfl
  · rfl

/-! ### The sender -/

/-- `ZMODEM_BLOCK_SIZE`. -/
def zmodemBlockSize : ℕ := 1024

/-- `ZMODEM_MAX_BLOCK_SIZE`, the size of `outbound_packet`. -/
def zmodemMaxBlockSize : ℕ := 2 * (zmodemBlockSize + 4 + 1)

/-- What `send_zdata` looks at; `rest` is what is left of the file, and `eof` whether a read has come to its end. -/
structure Sender where
  blockSize : ℕ
  useCrc32 : Bool
  /-- The flags that `encode_byte_map` is set up with. -/
  flags : UInt32
  packet : Packet
  rest : List UInt8
  eof : Bool
  /-- Where the file stands. -/
  ftell : ℕ
  fileSize : ℕ
  filePosition : ℕ
  blocksAckCount : ℤ
  reliableLink : Bool
  waitingForAck : Bool
  ackRequired : Bool
  streamingZdata : Bool
  outboundPacket : List UInt8

namespace Sender
variable (s : Sender)

/-- What `fread` puts into the packet, with the right CRC. -/
def readBlock : Packet := { s.packet with
  useCrc32 := s.useCrc32
  data := s.rest.take s.blockSize ++ s.packet.data.drop (s.rest.take s.blockSize).length
  dataN := (s.rest.take s.blockSize).length }

/-- `last_block`: the read comes short. -/
def lastBlock : Bool := decide (s.readBlock.dataN < s.blockSize ∨ s.readBlock.dataN = 0)

/-- How the subpacket ends. -/
def blockEnd : UInt8 := if s.lastBlock then zcrcw else if s.blocksAckCount - 1 = 0 then zcrcq else zcrcg

/-- The block has been read, and is on its way. -/
def afterBlock : Sender :=
  let s' := { s with
    packet := s.readBlock
    rest := s.rest.drop s.blockSize
    eof := s.eof || decide (s.readBlock.dataN < s.blockSize)
    ftell := s.ftell + s.readBlock.dataN
    filePosition := if s.lastBlock then s.fileSize else s.filePosition + s.blockSize }
  if s.lastBlock then { s' with waitingForAck := true }
  else if s.blocksAckCount - 1 = 0 then
    { s' with
      blocksAckCount := if s.reliableLink then 32 else 4
      waitingForAck := true
      streamingZdata := true }
  else { s' with blocksAckCount := s.blocksAckCount - 1 }

/-- The empty packet of the recovery. -/
def emptyPacket : Packet := { s.packet with useCrc32 := s.useCrc32, dataN := 0 }

/-- There is data to send, or the file is right at its end, and nothing is queued. -/
abbrev MoreData : Prop :=
  (s.eof = false ∨ s.ftell = s.fileSize) ∧ s.outboundPacket = []

/-- `use_spare_packet`: the output has not twice the size of the block left. -/
abbrev UsesSpare (max n : ℕ) : Prop := max - n < 2 * s.blockSize

/-- `send_zdata` once the answers have been read; nothing comes back where it runs out of a buffer. -/
def sendZdata (tab : List UInt32) (max : ℕ) (output : List UInt8) : Option (Sender × List UInt8) :=
  if s.waitingForAck = false ∧ s.ackRequired = false then
    if s.MoreData then
      if s.UsesSpare max output.length then do
        let spare ← encodeZdataInto tab s.flags s.readBlock s.blockEnd zmodemMaxBlockSize s.outboundPacket
        pure ({ s.afterBlock with outboundPacket := spare }, output)
      else do
        let output ← encodeZdataInto tab s.flags s.readBlock s.blockEnd max output
        pure (s.afterBlock, output)
    else some (s, output)
  else if s.ackRequired = true ∧ s.waitingForAck = false then
    if 0 < s.outboundPacket.length ∧ 32 < zmodemMaxBlockSize - s.outboundPacket.length then do
      let spare ← encodeZdataInto tab s.flags s.emptyPacket zcrcw zmodemMaxBlockSize s.outboundPacket
      pure ({ s with packet := s.emptyPacket, outboundPacket := spare, waitingForAck := true }, output)
    else if 32 < max - output.length then do
      let output ← encodeZdataInto tab s.flags s.emptyPacket zcrcw max output
      pure ({ s with packet := s.emptyPacket, waitingForAck := true }, output)
    else some ({ s with packet := { s.packet with dataN := 0 } }, output)
  else some (s, output)

/-- Each subpacket fits in the buffer it goes to, and the buffers hold what they may. -/
def FitsBuffers (tab : List UInt32) (max : ℕ) (output : List UInt8) : Prop :=
  ∃ s' output', s.sendZdata tab max output = some (s', output') ∧ output'.length ≤ max ∧
    s'.outboundPacket.length ≤ zmodemMaxBlockSize

/-- A block that goes to the output directly has the room it needs there. -/
def HasRoom (tab : List UInt32) (max n : ℕ) : Prop :=
  s.waitingForAck = false → s.ackRequired = false → s.MoreData → ¬ s.UsesSpare max n →
    Fits tab s.flags s.readBlock s.blockEnd max n

end Sender

theorem length_encodeZdataBytes : (encodeZdataBytes tab flags p crcType).length =
    cost flags (p.data.take p.dataN) + 2 + cost flags (dataCrcBytes tab p crcType) + if crcType = zcrcw then 1 else 0 := by
  unfold encodeZdataBytes
  simp only [List.length_append, length_flatMap_encodeByte, List.length_cons, List.length_nil]
  split <;> rfl

/-- What fits stays in the buffer. -/
theorem Fits.length_le (h : Fits tab flags p crcType max out.length) :
    (out ++ encodeZdataBytes tab flags p crcType).length ≤ max := by
  have hcrc : cost flags (dataCrcBytes tab p crcType) ≤ cost flags (dataCrcBytes tab p crcType).dropLast + 2 := by
    cases hlast : dataCrcBytes tab p crcType using List.reverseRecOn with
    | nil => exact Nat.zero_le _
    | append_singleton l ch =>
      rw [List.dropLast_concat, cost_append]
      have hone := cost_singleton_le flags ch
      omega
  obtain ⟨hroom, hxon⟩ := h
  rw [List.length_append, length_encodeZdataBytes]
  split
  · rename_i hw
    have hlast := hxon hw
    omega
  · omega

/-- Eleven places are enough for a subpacket without data. -/
theorem fits_empty {n : ℕ} (hdata : p.dataN = 0) (hroom : n + 11 ≤ max) : Fits tab flags p crcType max n := by
  have hcrc : (dataCrcBytes tab p crcType).length ≤ 4 := by
    rw [length_dataCrcBytes_ite]
    split <;> decide
  have hcost := cost_le flags (dataCrcBytes tab p crcType)
  have hdrop := cost_le flags (dataCrcBytes tab p crcType).dropLast
  have hnone : cost flags (p.data.take p.dataN) = 0 := by
    rw [hdata, List.take_zero]
    rfl
  rw [List.length_dropLast] at hdrop
  constructor
  · omega
  · intro _
    omega

namespace Sender
variable {s : Sender} {output : List UInt8} {n : ℕ}

theorem dataN_readBlock_le : s.readBlock.dataN ≤ s.blockSize := by
  simp only [readBlock, List.length_take]
  omega

/-- The queue is large enough for every block: the last one, which has the longer end, is shorter. -/
theorem fits_outboundPacket (hblock : s.blockSize ≤ zmodemBlockSize) :
    Fits tab s.flags s.readBlock s.blockEnd zmodemMaxBlockSize 0 := by
  have hcrc : (dataCrcBytes tab s.readBlock s.blockEnd).length ≤ 4 := by
    rw [length_dataCrcBytes_ite]
    split <;> decide
  have hcost := cost_le s.flags (dataCrcBytes tab s.readBlock s.blockEnd)
  have hdrop := cost_le s.flags (dataCrcBytes tab s.readBlock s.blockEnd).dropLast
  have hdata := cost_le s.flags (s.readBlock.data.take s.readBlock.dataN)
  have hread := dataN_readBlock_le (s := s)
  rw [List.length_dropLast] at hdrop
  rw [List.length_take] at hdata
  unfold zmodemBlockSize at hblock
  unfold Fits zmodemMaxBlockSize zmodemBlockSize
  constructor
  · omega
  · intro hw
    have hlast : s.lastBlock = true := by
      by_contra hlast
      rw [blockEnd, if_neg hlast] at hw
      split at hw <;> cases hw
    rw [lastBlock, decide_eq_true_iff] at hlast
    have hshort : s.readBlock.dataN < 1024 := by omega
    omega

theorem outboundPacket_afterBlock : s.afterBlock.outboundPacket = s.outboundPacket := by
  unfold afterBlock
  dsimp only
  split
  · rfl
  · split <;> rfl

theorem fitsBuffers_of (hblock : s.blockSize ≤ zmodemBlockSize) (hqueue : s.outboundPacket.length ≤ zmodemMaxBlockSize)
    (houtput : output.length ≤ max) (hroom : s.HasRoom tab max output.length) : s.FitsBuffers tab max output := by
  unfold FitsBuffers sendZdata
  by_cases hsends : s.waitingForAck = false ∧ s.ackRequired = false
  · rw [if_pos hsends]
    by_cases hmore : s.MoreData
    · rw [if_pos hmore]
      by_cases hspare : s.UsesSpare max output.length
      · have hfits : Fits tab s.flags s.readBlock s.blockEnd zmodemMaxBlockSize s.outboundPacket.length := by
          rw [hmore.2]
          exact fits_outboundPacket hblock
        rw [if_pos hspare, encodeZdataInto_eq hfits]
        exact ⟨_, _, rfl, houtput, hfits.length_le⟩
      · have hfits := hroom hsends.1 hsends.2 hmore hspare
        rw [if_neg hspare, encodeZdataInto_eq hfits]
        exact ⟨_, _, rfl, hfits.length_le, by rw [outboundPacket_afterBlock]; exact hqueue⟩
    · rw [if_neg hmore]
      exact ⟨s, output, rfl, houtput, hqueue⟩
  · rw [if_neg hsends]
    by_cases hrecovers : s.ackRequired = true ∧ s.waitingForAck = false
    · rw [if_pos hrecovers]
      by_cases hspare : 0 < s.outboundPacket.length ∧ 32 < zmodemMaxBlockSize - s.outboundPacket.length
      · have hfits : Fits tab s.flags s.emptyPacket zcrcw zmodemMaxBlockSize s.outboundPacket.length :=
          fits_empty rfl (by omega)
        rw [if_pos hspare, encodeZdataInto_eq hfits]
        exact ⟨_, _, rfl, houtput, hfits.length_le⟩
      · rw [if_neg hspare]
        by_cases hfree : 32 < max - output.length
        · have hfits : Fits tab s.flags s.emptyPacket zcrcw max output.length := fits_empty rfl (by omega)
          rw [if_pos hfree, encodeZdataInto_eq hfits]
          exact ⟨_, _, rfl, hfits.length_le, hqueue⟩
        · rw [if_neg hfree]
          exact ⟨_, _, rfl, houtput, hqueue⟩
    · rw [if_neg hrecovers]
      exact ⟨s, output, rfl, houtput, hqueue⟩

theorem hasRoom_of (hfits : s.FitsBuffers tab max output) : s.HasRoom tab max output.length := by
  intro hwaiting hrequired hmore hspare
  by_contra hnot
  obtain ⟨s', output', hsend, -⟩ := hfits
  rw [sendZdata, if_pos ⟨hwaiting, hrequired⟩, if_pos hmore, if_neg hspare, encodeZdataInto_none hnot] at hsend
  cases hsend

end Sender

/-- Whatever goes to the queue fits, and so does the packet of a recovery; a block that goes to the output does just when
its escapes, its end and its CRC have the room there, which twice the size of the block is not always. -/
theorem fitsBuffers_iff (tab : List UInt32) (s : Sender) (max : ℕ) (output : List UInt8) :
    zmodemMaxBlockSize = 2058 ∧
      (32 ≤ s.blockSize → s.blockSize ≤ zmodemBlockSize → zmodemMaxBlockSize < max → output.length ≤ max →
        s.outboundPacket.length ≤ zmodemMaxBlockSize →
          (s.FitsBuffers tab max output ↔ s.HasRoom tab max output.length)) := by
  refine ⟨rfl, fun _ hblock _ houtput hqueue => ⟨Sender.hasRoom_of, ?_⟩⟩
  exact Sender.fitsBuffers_of hblock hqueue houtput

/-- A sender with a block of 32 bytes that are all escaped. -/
def Sender.escaping : Sender where
  blockSize := 32
  useCrc32 := false
  flags := 0
  packet := ⟨.zdata, 0, false, 0, 0, [], 0⟩
  rest := List.replicate 40 can
  eof := false
  ftell := 0
  fileSize := 40
  filePosition := 0
  blocksAckCount := 4
  reliableLink := false
  waitingForAck := false
  ackRequired := false
  streamingZdata := false
  outboundPacket := []

/-- With 64 places left in the output, they are all taken by the data. -/
theorem not_fitsBuffers : ¬ ∀ (tab : List UInt32) (s : Sender) (max : ℕ) (output : List UInt8), 32 ≤ s.blockSize →
    s.blockSize ≤ zmodemBlockSize → zmodemMaxBlockSize < max → output.length ≤ max →
      s.outboundPacket.length ≤ zmodemMaxBlockSize → s.FitsBuffers tab max output := by
  intro hall
  have hlength : (List.replicate 1995 (0 : UInt8)).length = 1995 := List.length_replicate
  have hfits := hall [] Sender.escaping 2059 (List.replicate 1995 0) (by decide) (by decide) (by decide)
    (by rw [hlength]; decide) (by decide)
  have hroom := Sender.hasRoom_of hfits rfl rfl (by decide) (by rw [hlength]; decide)
  rw [hlength] at hroom
  have hcost : cost Sender.escaping.flags (Sender.escaping.readBlock.data.take Sender.escaping.readBlock.dataN) = 64 := by
    decide
  have hleft := hroom.1
  rw [hcost] at hleft
  omega

end CProgram.Zmodem
