import CProgram.Zmodem.Crc16
import CProgram.Zmodem.Encode

/-! A data subpacket read back: what `encode_zdata_bytes` appends is what `decode_zdata_bytes`
takes off. -/
namespace CProgram.Zmodem
open Bytes

theorem encodeChar_spec (escapeCtrl escape8bit : Bool) (ch : UInt8) :
    (encodeChar escapeCtrl escape8bit ch = true → ch ||| 0x40 ≠ ch →
      isCrcEscape (ch ||| 0x40) = false ∧ unescape (ch ||| 0x40) = some ch ∧ ch ||| 0x40 ≠ can) ∧
    (encodeChar escapeCtrl escape8bit ch = true → ch ||| 0x40 = ch → ch ≠ can) ∧
    (encodeChar escapeCtrl escape8bit ch = false → ch ≠ can) := by
  revert ch
  cases escapeCtrl <;> cases escape8bit <;> exact forall_byte (by decide +kernel)

/-- A byte that is escaped reads back, and one that is not is no CAN. -/
theorem encodeByteMap_spec (flags : UInt32) (ch : UInt8) :
    (encodeByteMap flags ch ≠ ch → isCrcEscape (encodeByteMap flags ch) = false ∧
      unescape (encodeByteMap flags ch) = some ch ∧ encodeByteMap flags ch ≠ can) ∧
    (encodeByteMap flags ch = ch → ch ≠ can) := by
  obtain ⟨h₁, h₂, h₃⟩ := encodeChar_spec (decide (flags &&& txEscapeCtrl ≠ 0))
    (decide (flags &&& txEscape8bit ≠ 0)) ch
  unfold encodeByteMap
  split_ifs with hc h7 hf
  · exact ⟨fun hne => h₁ hc hne, fun heq => h₂ hc heq⟩
  · subst h7
    decide
  · subst hf
    decide
  · exact ⟨fun hne => absurd rfl hne, fun _ => h₃ (Bool.eq_false_of_not_eq_true hc)⟩

variable {flags : UInt32} {rest : List UInt8} {size : Nat} {d : Decoding}

theorem hasCrcEscape_encodeByte (ch : UInt8) :
    hasCrcEscape (encodeByte flags ch ++ rest) = hasCrcEscape rest := by
  obtain ⟨hne, heq⟩ := encodeByteMap_spec flags ch
  unfold encodeByte
  split_ifs with h
  · simp [hasCrcEscape, (hne h).1]
  · have hch := heq (not_not.mp h)
    cases rest <;> simp [hasCrcEscape, hch]

theorem hasCrcEscape_flatMap (data : List UInt8) :
    hasCrcEscape (data.flatMap (encodeByte flags) ++ rest) = hasCrcEscape rest := by
  induction data with
  | nil => rfl
  | cons ch data ih =>
    rw [List.flatMap_cons, List.append_assoc, hasCrcEscape_encodeByte, ih]

/-- An encoded byte is put where the loop is. -/
theorem decodeLoop_encodeByte (ch : UInt8) :
    decodeLoop size false d (encodeByte flags ch ++ rest) =
      if (d.put ch).crcBuffer.length = size then
        .subpacket (d.put ch).output (d.put ch).crcBuffer rest
      else decodeLoop size false (d.put ch) rest := by
  obtain ⟨hne, heq⟩ := encodeByteMap_spec flags ch
  unfold encodeByte
  split_ifs with h hsize hsize
  · obtain ⟨h₁, h₂, -⟩ := hne h
    simp [decodeLoop, h₁, h₂, hsize]
  · obtain ⟨h₁, h₂, -⟩ := hne h
    simp [decodeLoop, h₁, h₂, hsize]
  · simp [decodeLoop, heq (not_not.mp h), hsize]
  · simp [decodeLoop, heq (not_not.mp h), hsize]

/-- The payload is collected in front of the CRC escape. -/
theorem decodeLoop_payload (data : List UInt8) (hsize : 0 < size) : ∀ output : List UInt8,
    decodeLoop size false ⟨output, []⟩ (data.flatMap (encodeByte flags) ++ rest) =
      decodeLoop size false ⟨output ++ data, []⟩ rest := by
  induction data with
  | nil => simp
  | cons ch data ih =>
    intro output
    have hput : (⟨output, []⟩ : Decoding).put ch = ⟨output ++ [ch], []⟩ := rfl
    have hne : ([] : List UInt8).length ≠ size := fun h => by
      rw [← h] at hsize
      cases hsize
    rw [List.flatMap_cons, List.append_assoc, decodeLoop_encodeByte, hput, if_neg hne, ih]
    simp

/-- Bytes behind the CRC escape that do not fill the CRC buffer. -/
theorem decodeLoop_partial (output : List UInt8) (crc : List UInt8) :
    ∀ crcBuffer : List UInt8, crcBuffer ≠ [] → crcBuffer.length + crc.length < size →
      decodeLoop size false ⟨output, crcBuffer⟩ (crc.flatMap (encodeByte flags) ++ rest) =
        decodeLoop size false ⟨output, crcBuffer ++ crc⟩ rest := by
  induction crc with
  | nil => simp
  | cons ch crc ih =>
    intro crcBuffer hbuffer hlen
    have hput : (⟨output, crcBuffer⟩ : Decoding).put ch = ⟨output, crcBuffer ++ [ch]⟩ :=
      if_neg hbuffer
    have hlen' : (crcBuffer ++ [ch]).length + crc.length < size := by
      simp only [List.length_append, List.length_cons, List.length_nil] at hlen ⊢
      omega
    have hne : (crcBuffer ++ [ch]).length ≠ size := by omega
    rw [List.flatMap_cons, List.append_assoc, decodeLoop_encodeByte, hput, if_neg hne,
      ih (crcBuffer ++ [ch]) (by simp) hlen']
    simp

/-- The last byte of the CRC ends the subpacket. -/
theorem decodeLoop_crc (output : List UInt8) {crcBuffer crc : List UInt8} (hbuffer : crcBuffer ≠ [])
    (hcrc : crc ≠ []) (hlength : crcBuffer.length + crc.length = size) :
    decodeLoop size false ⟨output, crcBuffer⟩ (crc.flatMap (encodeByte flags) ++ rest) =
      .subpacket output (crcBuffer ++ crc) rest := by
  obtain ⟨front, last, rfl⟩ := List.eq_nil_or_concat crc |>.resolve_left hcrc
  rw [List.concat_eq_append] at hlength ⊢
  rw [List.length_append, List.length_singleton] at hlength
  have hput : (⟨output, crcBuffer ++ front⟩ : Decoding).put last =
      ⟨output, crcBuffer ++ front ++ [last]⟩ := if_neg (by simp [hbuffer])
  rw [List.flatMap_append, List.append_assoc, decodeLoop_partial _ _ _ hbuffer (by omega),
    List.flatMap_singleton, decodeLoop_encodeByte, hput, if_pos (by simp; omega),
    List.append_assoc]

/-- The CRC escape is the first byte of the CRC buffer. -/
theorem decodeLoop_escape (output : List UInt8) {crcType : UInt8} (hcrc : isCrcEscape crcType = true) :
    decodeLoop size false ⟨output, []⟩ (can :: crcType :: rest) =
      decodeLoop size false ⟨output, [crcType]⟩ rest := by
  rw [decodeLoop, if_pos rfl, decodeLoop, if_pos hcrc]
  rfl

theorem xor_ones (x : UInt32) : x ^^^ 0xffffffff = ~~~x := by
  have h : (0xffffffff : UInt32) = -1 := rfl
  rw [h, UInt32.xor_neg_one]

/-- The inversion of the sender undoes the one of `compute_crc32`. -/
theorem not_computeCrc32_byte (tab : List UInt32) (crc : UInt32) (ch : UInt8) :
    ~~~(computeCrc32 tab crc [ch]) = crc32Byte tab crc ch := by
  rw [computeCrc32, xor_ones, UInt32.not_not]
  rfl

theorem dataCrc32_eq (tab : List UInt32) (data : List UInt8) (crcType : UInt8) :
    dataCrc32 tab data crcType = computeCrc32 tab crc32Preset (data ++ [crcType]) := by
  unfold dataCrc32
  simp only [not_computeCrc32_byte]
  rw [computeCrc32, xor_ones, List.foldl_append]
  rfl

theorem dataCrc16_eq (data : List UInt8) (crcType : UInt8) :
    dataCrc16 data crcType = computeCrc16 0 (data ++ [crcType]) := by
  refine mask_inj ?_
  rw [low16_foldl, low16_foldl, low16_computeCrc16, bits, bits, bits, List.flatMap_append,
    Crc.feed_append]

theorem toNat_bigEndian_step (n : UInt32) (ch : UInt8) (hn : n.toNat < 2 ^ 24) :
    ((n <<< 8) ||| ch.toUInt32).toNat = n.toNat * 256 + ch.toNat := by
  have hshift : (n <<< 8).toNat = n.toNat * 256 := by
    rw [UInt32.toNat_shiftLeft]
    have h : (8 : UInt32).toNat % 32 = 8 := rfl
    rw [h, Nat.shiftLeft_eq]
    omega
  have hch := ch.toNat_lt
  rw [UInt32.toNat_or, hshift, UInt8.toNat_toUInt32]
  have hor := Nat.shiftLeft_add_eq_or_of_lt (i := 8) (by omega : ch.toNat < 2 ^ 8) n.toNat
  rw [Nat.shiftLeft_eq] at hor
  exact hor.symm

theorem toNat_bigEndian_four (a b c d : UInt8) :
    (bigEndian [a, b, c, d]).toNat =
      ((a.toNat * 256 + b.toNat) * 256 + c.toNat) * 256 + d.toNat := by
  have ha := a.toNat_lt
  have hb := b.toNat_lt
  have hc := c.toNat_lt
  have hfirst : (((0 : UInt32) <<< 8) ||| a.toUInt32).toNat = a.toNat :=
    (toNat_bigEndian_step 0 a (by decide)).trans (Nat.zero_add _)
  simp only [bigEndian, List.foldl_cons, List.foldl_nil]
  have h₂ := toNat_bigEndian_step _ b (by rw [hfirst]; omega)
  have h₃ := toNat_bigEndian_step _ c (by rw [h₂, hfirst]; omega)
  have h₄ := toNat_bigEndian_step _ d (by rw [h₃, h₂, hfirst]; omega)
  rw [h₄, h₃, h₂, hfirst]

theorem toNat_bigEndian_two (a b : UInt8) :
    (bigEndian [a, b]).toNat = a.toNat * 256 + b.toNat := by
  have h := toNat_bigEndian_four 0 0 a b
  simpa [bigEndian] using h

theorem toNat_byte (x : UInt32) (k : UInt32) (hk : k.toNat < 32) :
    (x >>> k).toUInt8.toNat = x.toNat / 2 ^ k.toNat % 256 := by
  rw [UInt32.toNat_toUInt8, UInt32.toNat_shiftRight, Nat.mod_eq_of_lt hk, Nat.shiftRight_eq_div_pow]

theorem bigEndian_reverse (x : UInt32) : bigEndian (littleEndianBytes x).reverse = x := by
  have hx := x.toNat_lt
  apply UInt32.toNat.inj
  have h := toNat_bigEndian_four (x >>> 24).toUInt8 (x >>> 16).toUInt8 (x >>> 8).toUInt8 x.toUInt8
  rw [toNat_byte x 24 (by decide), toNat_byte x 16 (by decide), toNat_byte x 8 (by decide),
    UInt32.toNat_toUInt8] at h
  have h24 : (24 : UInt32).toNat = 24 := rfl
  have h16 : (16 : UInt32).toNat = 16 := rfl
  have h8 : (8 : UInt32).toNat = 8 := rfl
  rw [h24, h16, h8] at h
  refine h.trans ?_
  omega

theorem littleEndian_littleEndianBytes (x : UInt32) : littleEndian (littleEndianBytes x) = x :=
  bigEndian_reverse x

theorem bigEndian_bigEndianBytes16 (x : UInt32) : bigEndian (bigEndianBytes16 x) = x &&& 0xFFFF := by
  apply UInt32.toNat.inj
  rw [bigEndianBytes16, toNat_bigEndian_two, toNat_byte x 8 (by decide), UInt32.toNat_toUInt8,
    toNat_mask]
  have h8 : (8 : UInt32).toNat = 8 := rfl
  rw [h8]
  omega

theorem computeCrc16_mask (crc : UInt32) (data : List UInt8) :
    computeCrc16 crc data &&& 0xFFFF = computeCrc16 crc data := by
  rw [computeCrc16, UInt32.and_assoc]
  rfl

/-- What stands behind the CRC of a subpacket. -/
def trailer (crcType : UInt8) : List UInt8 := if crcType = zcrcw then [xon] else []

theorem length_dataCrcBytes (tab : List UInt32) {p : Packet}
    (htype : p.useCrc32 = true → p.type ≠ .zsinit) (crcType : UInt8) :
    (dataCrcBytes tab p crcType).length + 1 = if p.useCrc32 then 5 else 3 := by
  unfold dataCrcBytes
  cases hcase : p.useCrc32 with
  | true => simp [htype hcase, littleEndianBytes]
  | false => simp [bigEndianBytes16]

/-- A subpacket reads back as its payload, its CRC escape and its CRC. -/
theorem decode_encode (tab : List UInt32) (flags : UInt32) {p : Packet}
    (htype : p.useCrc32 = true → p.type ≠ .zsinit) {crcType : UInt8} (hcrc : isCrcEscape crcType = true) (rest : List UInt8) :
    decodeZdataBytes p.useCrc32 (encodeZdataBytes tab flags p crcType ++ rest) =
      .subpacket (p.data.take p.dataN) (crcType :: dataCrcBytes tab p crcType)
        (trailer crcType ++ rest) := by
  have hlength := length_dataCrcBytes tab htype crcType
  have hsplit : encodeZdataBytes tab flags p crcType ++ rest =
      (p.data.take p.dataN).flatMap (encodeByte flags) ++ (can :: crcType ::
        ((dataCrcBytes tab p crcType).flatMap (encodeByte flags) ++ (trailer crcType ++ rest))) := by
    simp [encodeZdataBytes, trailer, List.append_assoc]
  have hscan : hasCrcEscape (encodeZdataBytes tab flags p crcType ++ rest) = true := by
    rw [hsplit, hasCrcEscape_flatMap]
    simp [hasCrcEscape, hcrc]
  have hsize : 0 < if p.useCrc32 then 5 else 3 := by split_ifs <;> decide
  rw [decodeZdataBytes, if_pos hscan, hsplit, decodeLoop_payload _ hsize]
  rw [decodeLoop_escape _ hcrc]
  refine decodeLoop_crc _ (by simp) (fun hnil => ?_) ?_
  · rw [hnil] at hlength
    split_ifs at hlength <;> cases hlength
  · rw [← hlength, List.length_singleton, Nat.add_comm]

namespace Receiver
variable {h : Host} {r : Receiver}

/-- The frame that a subpacket belongs to, and what has been sent. -/
structure SameFrame (r r' : Receiver) : Prop where
  priorState : r'.priorState = r.priorState
  type : r'.packet.type = r.packet.type
  sent : r'.sent = r.sent

/-- The CRC that `receive_zdata` computes is the one that was sent. -/
theorem receiveSubpacket_encode {p : Packet} (htype : p.useCrc32 = true → p.type ≠ .zsinit)
    {crcType : UInt8} (hcrc : isCrcEscape crcType = true) (hmode : r.packet.useCrc32 = p.useCrc32)
    (hcrc16 : r.packet.crc16 = 0) (hlength : r.packet.dataN ≤ r.packet.data.length)
    (hdata : r.packet.data.take r.packet.dataN = p.data.take p.dataN) :
    ∃ r' : Receiver, r.receiveSubpacket (crcType :: dataCrcBytes (crc32Tab r.crcTabMade) p crcType) =
        r'.acceptSubpacket crcType ∧ r'.packetBuffer = r.packetBuffer ∧ SameFrame r r' ∧
      r'.packet.data.take r'.packet.dataN = p.data.take p.dataN := by
  have htake (l : List UInt8) :
      ((r.packet.data.take r.packet.dataN ++ [crcType]) ++ l).take r.packet.dataN =
        p.data.take p.dataN := by
    rw [List.append_assoc, List.take_left' (List.length_take_of_le hlength), hdata]
  have hescape : ¬ (!isCrcEscape crcType) = true := by simp [hcrc]
  unfold receiveSubpacket
  simp only [List.headD_cons, List.drop_succ_cons, List.drop_zero]
  rw [if_neg hescape]
  cases hcase : p.useCrc32 with
  | true =>
    have hbytes : dataCrcBytes (crc32Tab r.crcTabMade) p crcType = littleEndianBytes
        (dataCrc32 (crc32Tab r.crcTabMade) (p.data.take p.dataN) crcType) :=
      if_pos ⟨hcase, htype hcase⟩
    rw [if_pos (hmode.trans hcase), hbytes, littleEndian_littleEndianBytes, dataCrc32_eq, hdata,
      if_pos rfl]
    exact ⟨_, rfl, rfl, ⟨rfl, rfl, rfl⟩, by simpa [hdata] using htake _⟩
  | false =>
    have hbytes : dataCrcBytes (crc32Tab r.crcTabMade) p crcType = bigEndianBytes16
        (dataCrc16 (p.data.take p.dataN) crcType) :=
      if_neg fun hc => by
        rw [hcase] at hc
        cases hc.1
    rw [if_neg (by rw [hmode, hcase]; decide), hbytes, bigEndian_bigEndianBytes16, dataCrc16_eq,
      computeCrc16_mask, hcrc16, hdata, if_pos rfl]
    exact ⟨_, rfl, rfl, ⟨rfl, rfl, rfl⟩, by simpa [hdata] using htake _⟩

/-- The subpacket ends in front of what follows it, its XON included. -/
theorem subpacketEnd_encode {front rest : List UInt8} {crcType : UInt8} (crc : List UInt8)
    (hvalid : r.packetBuffer.valid = front ++ (trailer crcType ++ rest)) :
    subpacketEnd h r (crcType :: crc) (trailer crcType ++ rest) =
      front.length + (trailer crcType).length := by
  have hn : r.packetBuffer.n = front.length + ((trailer crcType).length + rest.length) := by
    rw [← r.packetBuffer.length_valid, hvalid, List.length_append, List.length_append]
  have hstart : r.packetBuffer.n - (trailer crcType ++ rest).length = front.length := by
    rw [hn, List.length_append]
    omega
  unfold subpacketEnd
  simp only [List.headD_cons, hstart]
  by_cases hw : crcType = zcrcw
  · have htrailer : trailer crcType = [xon] := if_pos hw
    rw [htrailer] at hn hvalid
    rw [if_pos, htrailer]
    · rfl
    · refine ⟨hw, ?_⟩
      rw [r.packetBuffer.getD_bytes (by rw [hn, List.length_singleton]; omega), hvalid]
      simp
  · have htrailer : trailer crcType = [] := if_neg hw
    rw [if_neg (fun hc => hw hc.1), htrailer]
    rfl

/-- `receive_zdata` on a subpacket that was encoded under its CRC: the payload is accepted, and what
stood behind the subpacket is left. -/
theorem receiveZdata_encode {p : Packet} (htype : p.useCrc32 = true → p.type ≠ .zsinit)
    {crcType : UInt8} (hcrc : isCrcEscape crcType = true) (hmode : r.packet.useCrc32 = p.useCrc32)
    (hdataN : r.packet.dataN = 0) (hcrc16 : r.packet.crc16 = 0) {flags : UInt32}
    {rest : List UInt8} (hvalid : r.packetBuffer.valid =
      encodeZdataBytes (crc32Tab r.crcTabMade) flags p crcType ++ rest) :
    ∃ r' : Receiver, r.receiveZdata h = r'.acceptSubpacket crcType ∧ SameFrame r r' ∧
      r'.packetBuffer.valid = rest ∧ r'.packet.data.take r'.packet.dataN = p.data.take p.dataN := by
  set crc := dataCrcBytes (crc32Tab r.crcTabMade) p crcType with hcrcBytes
  set front := (p.data.take p.dataN).flatMap (encodeByte flags) ++ [can, crcType] ++
    crc.flatMap (encodeByte flags) with hfront
  have hsplit : r.packetBuffer.valid = front ++ (trailer crcType ++ rest) := by
    rw [hvalid, ← List.append_assoc]
    rfl
  have hdecode : decodeZdataBytes r.packet.useCrc32 r.packetBuffer.valid =
      .subpacket (p.data.take p.dataN) (crcType :: crc) (trailer crcType ++ rest) := by
    rw [hmode, hvalid]
    exact decode_encode _ _ htype hcrc _
  have hend := subpacketEnd_encode (h := h) crc hsplit
  have hn : front.length + (trailer crcType).length ≤ r.packetBuffer.n := by
    rw [← r.packetBuffer.length_valid, hsplit, ← List.append_assoc, ← List.length_append]
    exact (List.prefix_append _ _).length_le
  unfold receiveZdata
  rw [hdecode]
  simp only
  rw [hend, if_neg (Nat.not_lt.mpr hn), hdataN]
  obtain ⟨r', hr', hbuffer, hframe, hdata⟩ := receiveSubpacket_encode (r := { r with
      packet := { r.packet with
        data := r.packet.data.takeD 0 0 ++ p.data.take p.dataN
        dataN := (p.data.take p.dataN).length }
      packetBuffer := r.packetBuffer.discard (front.length + (trailer crcType).length) })
    htype hcrc hmode hcrc16 (by simp) (by simp)
  refine ⟨r', hr', ⟨hframe.1, hframe.2, hframe.3⟩, ?_, hdata⟩
  rw [hbuffer, Buffer.valid_discard, hsplit, ← List.append_assoc, ← List.length_append]
  exact List.drop_left

end Receiver

/-- Every data subpacket reads back: `decode_zdata_bytes` gives its payload, its CRC escape and its
CRC and stops in front of what follows, and `receive_zdata` finds the CRC right, drops the XON behind
ZCRCW with the subpacket and keeps what is behind it. -/
theorem dataFrame_roundTrip (h : Host) (r : Receiver) (p : Packet) (flags : UInt32) (crcType : UInt8)
    (rest : List UInt8) (htype : p.type = .zfile ∨ p.type = .zdata)
    (hcrc : isCrcEscape crcType = true) (hmode : r.packet.useCrc32 = p.useCrc32) :
    (∀ tab : List UInt32,
      decodeZdataBytes p.useCrc32 (encodeZdataBytes tab flags p crcType ++ rest) =
        .subpacket (p.data.take p.dataN) (crcType :: dataCrcBytes tab p crcType)
          (trailer crcType ++ rest)) ∧
    (r.packet.dataN = 0 → r.packet.crc16 = 0 → r.packetBuffer.valid =
        encodeZdataBytes (crc32Tab r.crcTabMade) flags p crcType ++ rest →
      ∃ r' : Receiver, r.receiveZdata h = r'.acceptSubpacket crcType ∧
        r'.packetBuffer.valid = rest ∧
        r'.packet.data.take r'.packet.dataN = p.data.take p.dataN) := by
  have htype' : p.type ≠ .zsinit := by
    rcases htype with ht | ht <;>
      · rw [ht]
        decide
  refine ⟨fun tab => decode_encode tab flags (fun _ => htype') hcrc rest,
    fun hdataN hcrc16 hvalid => ?_⟩
  obtain ⟨r', hr', -, hrest, hdata⟩ := Receiver.receiveZdata_encode (h := h) (fun _ => htype') hcrc
    hmode hdataN hcrc16 hvalid
  exact ⟨r', hr', hrest, hdata⟩

/-- A packet with two bytes, one of them escaped. -/
def examplePacket : Packet := ⟨.zdata, 0, false, 0, 0, [24, 97], 2⟩

/-- A receiver with the subpacket of this packet and a byte behind it. -/
def frameReceiver : Receiver :=
  { Receiver.exampleReceiver with
    packetBuffer := Buffer.empty.fill (encodeZdataBytes (crc32Tab false) 0 examplePacket zcrcw ++ [1]) }

theorem dataFrame_roundTrip_two :
    ∃ r' : Receiver, frameReceiver.receiveZdata Receiver.exampleHost = r'.acceptSubpacket zcrcw ∧
      r'.packetBuffer.valid = [1] ∧ r'.packet.data.take r'.packet.dataN = [24, 97] :=
  (dataFrame_roundTrip Receiver.exampleHost frameReceiver examplePacket 0 zcrcw [1] (.inr rfl) rfl
    rfl).2 rfl rfl (by decide +kernel)

end CProgram.Zmodem
