import CProgram.Zmodem.DataFrame

/-! A header read back: what `build_packet` writes is what `parse_packet` finds. -/
namespace CProgram.Zmodem
open Bytes

theorem toBitVec_byte (x : UInt32) :
    x.toUInt8.toUInt32.toBitVec = (x.toBitVec.setWidth 8).setWidth 32 := rfl

/-- The byte swap reads the bytes in the other order. -/
theorem bigToLittleEndian_eq (x : UInt32) :
    bigToLittleEndian x = bigEndian (littleEndianBytes x) := by
  apply UInt32.toBitVec_inj.mp
  refine BitVec.eq_of_getLsbD_eq fun i hi => ?_
  simp only [bigToLittleEndian, bigEndian, littleEndianBytes, List.foldl_cons, List.foldl_nil,
    UInt32.toBitVec_or, UInt32.toBitVec_and, UInt32.toBitVec_shiftLeft, UInt32.toBitVec_shiftRight,
    toBitVec_byte]
  interval_cases i <;> simp

theorem bigToLittleEndian_involutive (x : UInt32) :
    bigToLittleEndian (bigToLittleEndian x) = x := by
  apply UInt32.toBitVec_inj.mp
  refine BitVec.eq_of_getLsbD_eq fun i hi => ?_
  simp only [bigToLittleEndian, UInt32.toBitVec_or, UInt32.toBitVec_and, UInt32.toBitVec_shiftLeft,
    UInt32.toBitVec_shiftRight]
  interval_cases i <;> simp

theorem packetType_number (type : PacketType) : packetType type.number = some type := by
  cases type <;> rfl

theorem dehexify_byte (ch : UInt8) : (do
    let high ← hexDigit (hexDigits.getD ((ch &&& 0xF0) >>> 4).toNat 0)
    let low ← hexDigit (hexDigits.getD (ch &&& 0x0F).toNat 0)
    return (high <<< 4) ||| low) = some ch := by
  revert ch
  exact forall_byte (by decide +kernel)

theorem dehexifyString_hexifyString (data : List UInt8) :
    dehexifyString (hexifyString data) = some data := by
  induction data with
  | nil => rfl
  | cons ch data ih =>
    have hbyte := dehexify_byte ch
    have hcons : hexifyString (ch :: data) =
        hexDigits.getD ((ch &&& 0xF0) >>> 4).toNat 0 :: hexDigits.getD (ch &&& 0x0F).toNat 0 ::
          hexifyString data := rfl
    rw [hcons, dehexifyString, ih]
    cases hhigh : hexDigit (hexDigits.getD ((ch &&& 0xF0) >>> 4).toNat 0) with
    | none =>
      rw [hhigh] at hbyte
      cases hbyte
    | some high =>
      cases hlow : hexDigit (hexDigits.getD (ch &&& 0x0F).toNat 0) with
      | none =>
        rw [hhigh, hlow] at hbyte
        cases hbyte
      | some low =>
        rw [hhigh, hlow] at hbyte
        have heq : (high <<< 4) ||| low = ch := Option.some.inj hbyte
        simp [heq]

theorem length_hexifyString (data : List UInt8) : (hexifyString data).length = 2 * data.length := by
  induction data with
  | nil => rfl
  | cons ch data ih =>
    rw [hexifyString, List.flatMap_cons, List.length_append, ← hexifyString, ih, List.length_cons]
    simp
    omega

theorem hexifyString_append (x y : List UInt8) :
    hexifyString (x ++ y) = hexifyString x ++ hexifyString y := List.flatMap_append

/-- The bytes of a binary header are collected as they were. -/
theorem headerBytes_encode (flags : UInt32) (data rest : List UInt8) : ∀ bytes : List UInt8,
    headerBytes data.length false bytes (data.flatMap (encodeByte flags) ++ rest) =
      .done (bytes ++ data) rest := by
  induction data with
  | nil => simp [headerBytes]
  | cons ch data ih =>
    intro bytes
    obtain ⟨hne, heq⟩ := encodeByteMap_spec flags ch
    have hstep : headerBytes (ch :: data).length false bytes
        (encodeByte flags ch ++ (data.flatMap (encodeByte flags) ++ rest)) =
        headerBytes data.length false (bytes ++ [ch]) (data.flatMap (encodeByte flags) ++ rest) := by
      unfold encodeByte
      split_ifs with h
      · obtain ⟨-, h₂, h₃⟩ := hne h
        simp [headerBytes, h₂, h₃]
      · simp [headerBytes, heq (not_not.mp h)]
    rw [List.flatMap_cons, List.append_assoc, hstep, ih]
    simp

theorem length_le_flatMap_encodeByte (flags : UInt32) (data : List UInt8) :
    data.length ≤ (data.flatMap (encodeByte flags)).length := by
  induction data with
  | nil => exact Nat.le_refl _
  | cons ch data ih =>
    have hone : 1 ≤ (encodeByte flags ch).length := by
      unfold encodeByte
      split_ifs <;> simp
    rw [List.flatMap_cons, List.length_append, List.length_cons]
    omega

theorem length_headerOf (type : PacketType) (argument : UInt32) :
    (headerOf type argument).length = 5 := by
  unfold headerOf
  split_ifs <;> rfl

/-- The argument that the peer reads. -/
def readArgument (type : PacketType) (argument : UInt32) : UInt32 :=
  if type = .zsinit then bigToLittleEndian argument else argument

theorem argument_headerOf (type : PacketType) (argument : UInt32) :
    (if type.flipped then bigToLittleEndian (bigEndian ((headerOf type argument).drop 1))
      else bigEndian ((headerOf type argument).drop 1)) = readArgument type argument := by
  have hlow : bigEndian (littleEndianBytes argument) = bigToLittleEndian argument :=
    (bigToLittleEndian_eq argument).symm
  have hhigh := bigEndian_reverse argument
  cases type <;>
    simp [headerOf, PacketType.lowFirst, PacketType.flipped, readArgument, hlow, hhigh,
      bigToLittleEndian_involutive]

/-- A packet with the type, the argument and the CRC mode that were sent. -/
structure Reads (type : PacketType) (argument : UInt32) (useCrc32 : Bool) (p : Packet) : Prop where
  type_eq : p.type = type
  argument_eq : p.argument = readArgument type argument
  mode_eq : p.useCrc32 = useCrc32
  empty : p.dataN = 0
  crc16 : type.hasData = true → p.crc16 = 0

theorem finishHeader_headerOf (tab : List UInt32) (pad stop : Nat) (type : PacketType)
    (argument : UInt32) (useCrc32 : Bool) {check : UInt32}
    (hcheck : check = if useCrc32 then computeCrc32 tab crc32Preset (headerOf type argument)
      else computeCrc16 0 (headerOf type argument)) :
    ∃ p, finishHeader tab pad stop ⟨headerOf type argument, check, useCrc32⟩ = ⟨.ok, stop, p⟩ ∧
      Reads type argument useCrc32 p := by
  have htype : packetType ((headerOf type argument).headD 0) = some type := packetType_number type
  unfold finishHeader
  simp only [htype, argument_headerOf, ← hcheck]
  rw [if_neg (fun hne => hne rfl)]
  cases hdata : type.hasData with
  | true => exact ⟨_, rfl, rfl, rfl, rfl, rfl, fun _ => rfl⟩
  | false =>
    cases useCrc32 with
    | true => exact ⟨_, rfl, rfl, rfl, rfl, rfl, fun _ => rfl⟩
    | false => exact ⟨_, rfl, rfl, rfl, rfl, rfl, fun h => by rw [hdata] at h; cases h⟩

theorem xon_iff (type : PacketType) :
    (type.number = 8 ∨ type.number = 3) ↔ (type = .zfin ∨ type = .zack) := by
  cases type <;> decide

/-- A hex header behind its `B`. -/
theorem parseHex_headerOf (tab : List UInt32) (size pad : Nat) (type : PacketType)
    (argument : UInt32) (rest : List UInt8) {tail : List UInt8}
    (htail : tail = [13, 0x8A] ++ if type = .zfin ∨ type = .zack then [] else [xon])
    (hsize : 14 + tail.length + rest.length ≤ size) :
    ∃ p, parseHex tab size pad (hexifyString (headerOf type argument) ++
        hexifyString (bigEndianBytes16 (computeCrc16 0 (headerOf type argument))) ++ tail ++ rest) =
        ⟨.ok, size - rest.length, p⟩ ∧ Reads type argument false p := by
  set header := headerOf type argument with hheader
  set crc := bigEndianBytes16 (computeCrc16 0 header) with hcrc
  have hdigits : (hexifyString header ++ hexifyString crc).length = 14 := by
    rw [List.length_append, length_hexifyString, length_hexifyString, length_headerOf]
    rfl
  have htake : (hexifyString header ++ hexifyString crc ++ tail ++ rest).take 14 =
      hexifyString (header ++ crc) := by
    rw [List.append_assoc, hexifyString_append, List.take_left' hdigits]
  have hlength : (hexifyString header ++ hexifyString crc ++ tail ++ rest).length =
      14 + tail.length + rest.length := by
    rw [List.length_append, List.length_append, hdigits]
  have htaillength : tail.length = if type = .zfin ∨ type = .zack then 2 else 3 := by
    rw [htail]
    split_ifs <;> rfl
  have hfive : (header ++ crc).take 5 = header := List.take_left' (length_headerOf type argument)
  have htwo : (header ++ crc).drop 5 = crc := List.drop_left' (length_headerOf type argument)
  have hhead : (header ++ crc).headD 0 = type.number := rfl
  have hcheck : bigEndian crc = if false = true then computeCrc32 tab crc32Preset header
      else computeCrc16 0 header := by
    rw [hcrc, bigEndian_bigEndianBytes16, computeCrc16_mask]
    rfl
  unfold parseHex
  rw [htake, dehexifyString_hexifyString, hlength]
  simp only [hfive, htwo, hhead]
  by_cases hplain : type = .zfin ∨ type = .zack
  · rw [if_pos hplain] at htaillength
    rw [if_neg (by omega), if_pos ((xon_iff type).mpr hplain), htaillength]
    obtain ⟨p, hp, hr⟩ := finishHeader_headerOf tab pad (size - (14 + 2 + rest.length - 16)) type
      argument false hcheck
    refine ⟨p, hp.trans ?_, hr⟩
    rw [show size - (14 + 2 + rest.length - 16) = size - rest.length by omega]
  · rw [if_neg hplain] at htaillength
    rw [if_neg (by omega), if_neg (fun hc => hplain ((xon_iff type).mp hc)), if_neg (by omega),
      htaillength]
    obtain ⟨p, hp, hr⟩ := finishHeader_headerOf tab pad (size - (14 + 3 + rest.length - 16) + 1) type
      argument false hcheck
    refine ⟨p, hp.trans ?_, hr⟩
    rw [show size - (14 + 3 + rest.length - 16) + 1 = size - rest.length by omega]

/-- A binary header behind its `A` or `C`. -/
theorem parseBinary_headerOf (tab : List UInt32) (size pad n : Nat) (flags : UInt32)
    (type : PacketType) (argument : UInt32) (useCrc32 : Bool) (bad : ParsePacket)
    (rest : List UInt8) {crc : List UInt8} (hn : crc.length = n)
    (hcrc : (if useCrc32 then littleEndian crc else bigEndian crc) =
      if useCrc32 then computeCrc32 tab crc32Preset (headerOf type argument)
      else computeCrc16 0 (headerOf type argument)) :
    ∃ p, parseBinary tab size pad n useCrc32 bad
        ((headerOf type argument ++ crc).flatMap (encodeByte flags) ++ rest) =
        ⟨.ok, size - rest.length, p⟩ ∧ Reads type argument useCrc32 p := by
  have hlength : (headerOf type argument ++ crc).length = n + 5 := by
    rw [List.length_append, length_headerOf, hn, Nat.add_comm]
  have hlong := length_le_flatMap_encodeByte flags (headerOf type argument ++ crc)
  have hbytes := headerBytes_encode flags (headerOf type argument ++ crc) rest []
  rw [hlength, List.nil_append] at hbytes
  have hfive : (headerOf type argument ++ crc).take 5 = headerOf type argument :=
    List.take_left' (length_headerOf type argument)
  have hbehind : (headerOf type argument ++ crc).drop 5 = crc :=
    List.drop_left' (length_headerOf type argument)
  unfold parseBinary
  rw [if_neg (by rw [List.length_append]; omega), hbytes]
  simp only [hfive, hbehind]
  exact finishHeader_headerOf tab pad _ type argument useCrc32 hcrc

theorem parsePacket_hex (tab : List UInt32) (input : List UInt8) :
    parsePacket tab ([zpad, zpad, can, 66] ++ input) = parseHex tab (input.length + 4) 0 input := by
  simp [parsePacket, zpad, can]

theorem parsePacket_crc16 (tab : List UInt32) (input : List UInt8) :
    parsePacket tab ([zpad, can, 65] ++ input) =
      parseBinary tab (input.length + 3) 0 2 false .invalid input := by
  simp [parsePacket, zpad, can]

theorem parsePacket_crc32 (tab : List UInt32) (input : List UInt8) :
    parsePacket tab ([zpad, can, 67] ++ input) =
      parseBinary tab (input.length + 3) 0 4 true .nodata input := by
  simp [parsePacket, zpad, can]

/-- A header reads back, with the bytes of its argument in the order of the peer. -/
theorem parsePacket_buildPacket (tab : List UInt32) (c : Link) (type : PacketType)
    (argument : UInt32) (rest : List UInt8) :
    ∃ p, parsePacket tab (c.buildPacket tab type argument ++ rest) =
        ⟨.ok, (c.buildPacket tab type argument).length, p⟩ ∧
      Reads type argument (!c.doHex type && c.useCrc32) p := by
  set header := headerOf type argument with hheader
  cases hhex : c.doHex type with
  | true =>
    obtain ⟨tail, htail⟩ : ∃ tail : List UInt8,
        tail = [13, 0x8A] ++ if type = .zfin ∨ type = .zack then [] else [xon] := ⟨_, rfl⟩
    obtain ⟨body, hbody⟩ : ∃ body, body =
      hexifyString header ++ hexifyString (bigEndianBytes16 (computeCrc16 0 header)) ++ tail := ⟨_, rfl⟩
    have hbuild : c.buildPacket tab type argument = [zpad, zpad, can, 66] ++ body := by
      rw [Link.buildPacket]
      simp only [hhex, if_true]
      simp [hbody, htail, hheader, List.append_assoc]
    have hlength : body.length = 14 + tail.length := by
      rw [hbody, List.length_append, List.length_append, length_hexifyString, length_hexifyString,
        length_headerOf]
      rfl
    have hsize : 14 + tail.length + rest.length ≤ (body ++ rest).length + 4 := by
      rw [List.length_append]
      omega
    obtain ⟨p, hp, hr⟩ := parseHex_headerOf tab _ 0 type argument rest htail hsize
    rw [← hheader, ← hbody] at hp
    refine ⟨p, ?_, hr⟩
    rw [hbuild, List.append_assoc, parsePacket_hex, hp, List.length_append, List.length_append]
    congr 1
    simp
    omega
  | false =>
    have hbuild : c.buildPacket tab type argument = [zpad, can, if c.useCrc32 then 67 else 65] ++
        (header ++ c.headerCrcBytes tab header).flatMap (encodeByte (c.headerFlags type)) := by
      rw [Link.buildPacket]
      simp only [hhex]
      rfl
    cases hmode : c.useCrc32 with
    | true =>
      have hbytes : c.headerCrcBytes tab header = littleEndianBytes (computeCrc32 tab crc32Preset header) :=
        if_pos hmode
      rw [hmode, hbytes] at hbuild
      obtain ⟨p, hp, hr⟩ := parseBinary_headerOf tab
        (((header ++ littleEndianBytes (computeCrc32 tab crc32Preset header)).flatMap
          (encodeByte (c.headerFlags type)) ++ rest).length + 3) 0 4 (c.headerFlags type) type argument
        true .nodata rest rfl (littleEndian_littleEndianBytes _)
      refine ⟨p, ?_, hr⟩
      rw [hbuild, List.append_assoc]
      refine (parsePacket_crc32 tab _).trans (hp.trans ?_)
      rw [List.length_append, List.length_append]
      congr 1
      simp
      omega
    | false =>
      have hbytes : c.headerCrcBytes tab header = bigEndianBytes16 (computeCrc16 0 header) :=
        if_neg (by rw [hmode]; decide)
      rw [hmode, hbytes] at hbuild
      have hcheck : bigEndian (bigEndianBytes16 (computeCrc16 0 header)) = computeCrc16 0 header := by
        rw [bigEndian_bigEndianBytes16, computeCrc16_mask]
      obtain ⟨p, hp, hr⟩ := parseBinary_headerOf tab
        (((header ++ bigEndianBytes16 (computeCrc16 0 header)).flatMap
          (encodeByte (c.headerFlags type)) ++ rest).length + 3) 0 2 (c.headerFlags type) type argument
        false .invalid rest rfl hcheck
      refine ⟨p, ?_, hr⟩
      rw [hbuild, List.append_assoc]
      refine (parsePacket_crc16 tab _).trans (hp.trans ?_)
      rw [List.length_append, List.length_append]
      congr 1
      simp
      omega

/-- A header that is read with the type and the argument that went out. -/
def HeaderReads (tab : List UInt32) (c : Link) (type : PacketType) (argument : UInt32) : Prop :=
  ∃ p, parsePacket tab (c.buildPacket tab type argument) =
      ⟨.ok, (c.buildPacket tab type argument).length, p⟩ ∧ p.type = type ∧ p.argument = argument

/-- A receiver that has read the header of a ZSINIT and has its subpacket in the buffer. -/
structure AwaitsSinit (made : Bool) (c : Link) (r : Receiver) : Prop where
  state : r.state = .zdata
  priorState : r.priorState = .zrinitWait
  table : r.crcTabMade = made
  packet : ∃ argument, Reads .zsinit argument (!c.doHex .zsinit && c.useCrc32) r.packet
  buffer : r.packetBuffer.valid = c.sinitSubpacket (crc32Tab made)

/-- The subpacket of a ZSINIT is answered by a ZACK. -/
def SinitAccepted (made : Bool) (c : Link) : Prop :=
  ∀ (h : Host) (r : Receiver), AwaitsSinit made c r →
    (r.receiveZdata h).1.state = .zrinitWait ∧ (r.receiveZdata h).1.sent = r.sent ++ [(.zack, 0)]

theorem headerReads_iff (tab : List UInt32) (c : Link) (type : PacketType) (argument : UInt32) :
    HeaderReads tab c type argument ↔
      (type = .zsinit → bigToLittleEndian argument = argument) := by
  obtain ⟨p, hp, hr⟩ := parsePacket_buildPacket tab c type argument []
  rw [List.append_nil] at hp
  have hread : readArgument type argument = argument ↔
      (type = .zsinit → bigToLittleEndian argument = argument) := by
    unfold readArgument
    split_ifs with hs <;> simp [hs]
  rw [← hread]
  refine ⟨?_, fun h => ⟨p, hp, hr.type_eq, hr.argument_eq.trans h⟩⟩
  rintro ⟨q, hq, -, ha⟩
  have hpq : p = q := congrArg Parsed.packet (hp.symm.trans hq)
  rw [← hr.argument_eq, hpq, ha]

/-- A ZSINIT is a binary header exactly when it goes out in CRC-32. -/
theorem doHex_zsinit (c : Link) : (!c.doHex .zsinit && c.useCrc32) = (c.sending && c.useCrc32) := by
  cases hs : c.sending <;> cases hu : c.useCrc32 <;> simp [Link.doHex, hs, hu]

/-- With the short CRC the subpacket is accepted. -/
theorem sinitAccepted (made : Bool) {c : Link} (hmode : (c.sending && c.useCrc32) = false) :
    SinitAccepted made c := by
  intro h r hr
  obtain ⟨argument, hp⟩ := hr.packet
  rw [doHex_zsinit, hmode] at hp
  have hvalid : r.packetBuffer.valid = encodeZdataBytes (crc32Tab r.crcTabMade) c.flags
      ⟨.zsinit, 0, false, 0, 0, [0], 1⟩ zcrcw ++ [] := by
    rw [hr.buffer, hr.table, List.append_nil]
    rfl
  obtain ⟨r', hzdata, hframe, -, -⟩ := Receiver.receiveZdata_encode (h := h)
    (p := ⟨.zsinit, 0, false, 0, 0, [0], 1⟩) (fun hc => by cases hc) rfl hp.mode_eq hp.empty
    (hp.crc16 rfl) hvalid
  have hprior : r'.priorState = .zrinitWait := hframe.priorState.trans hr.priorState
  have htype : r'.packet.type = .zsinit := hframe.type.trans hp.type_eq
  have hnext : r'.acceptSubpacket zcrcw =
      (({ r' with state := .zrinitWait }).buildPacket .zack 0, true) := by
    rw [Receiver.acceptSubpacket, if_neg (by rw [hprior]; decide), Receiver.nextState,
      if_pos hprior, htype]
  rw [hzdata, hnext]
  exact ⟨rfl, congrArg (· ++ [(PacketType.zack, (0 : UInt32))]) hframe.sent⟩

/-- The subpacket of a ZSINIT: a zero byte, and a CRC-16 whatever the header announced. -/
theorem sinitSubpacket_eq (tab : List UInt32) (c : Link) :
    c.sinitSubpacket tab = [0].flatMap (encodeByte c.flags) ++ (can :: zcrcw ::
      ((bigEndianBytes16 (dataCrc16 [0] zcrcw)).flatMap (encodeByte c.flags) ++ [xon])) := by
  have hcrc : dataCrcBytes tab ⟨.zsinit, 0, false, 0, 0, [0], 1⟩ zcrcw =
      bigEndianBytes16 (dataCrc16 [0] zcrcw) := if_neg fun hc => by cases hc.1
  rw [Link.sinitSubpacket, encodeZdataBytes, hcrc]
  simp

/-- With a long CRC announced the subpacket does not come to its end. -/
theorem decode_sinitSubpacket (tab : List UInt32) (c : Link) :
    decodeZdataBytes true (c.sinitSubpacket tab) = .incomplete := by
  have hscan : hasCrcEscape (c.sinitSubpacket tab) = true := by
    rw [sinitSubpacket_eq, hasCrcEscape_flatMap]
    simp [hasCrcEscape, isCrcEscape]
  rw [decodeZdataBytes, if_pos hscan, sinitSubpacket_eq, if_pos rfl,
    decodeLoop_payload _ (by decide), decodeLoop_escape _ rfl, decodeLoop_partial _ _ _ (by simp)
      (by decide)]
  rfl

theorem length_sinitSubpacket_le (tab : List UInt32) (c : Link) :
    (c.sinitSubpacket tab).length ≤ 9 := by
  have hbyte (ch : UInt8) : (encodeByte c.flags ch).length ≤ 2 := by
    unfold encodeByte
    split_ifs <;> simp
  have hzero := hbyte 0
  rw [sinitSubpacket_eq, bigEndianBytes16]
  have hhigh := hbyte ((dataCrc16 [0] zcrcw) >>> 8).toUInt8
  have hlow := hbyte (dataCrc16 [0] zcrcw).toUInt8
  simp only [List.flatMap_cons, List.flatMap_nil, List.length_append, List.length_cons,
    List.length_nil]
  omega

/-- A receiver that awaits the subpacket of a ZSINIT. -/
def sinitReceiver (made : Bool) (c : Link) : Receiver :=
  { Receiver.exampleReceiver with
    state := .zdata
    crcTabMade := made
    packet := ⟨.zsinit, 0, !c.doHex .zsinit && c.useCrc32, 0, crc32Preset, [], 0⟩
    packetBuffer := Buffer.empty.fill (c.sinitSubpacket (crc32Tab made)) }

theorem awaitsSinit_sinitReceiver (made : Bool) (c : Link) :
    AwaitsSinit made c (sinitReceiver made c) where
  state := rfl
  priorState := rfl
  table := rfl
  packet := ⟨0, rfl, rfl, rfl, rfl, fun _ => rfl⟩
  buffer := by
    have hlength := length_sinitSubpacket_le (crc32Tab made) c
    have hroom : Buffer.empty.room = packetBufferSize := rfl
    have hsize : packetBufferSize = 2058 := rfl
    change (Buffer.empty.fill _).valid = _
    rw [Buffer.valid_fill, hroom, List.take_of_length_le (by omega)]
    rfl

/-- In CRC-32 the receiver goes on waiting. -/
theorem not_sinitAccepted (made : Bool) {c : Link} (hmode : (c.sending && c.useCrc32) = true) :
    ¬ SinitAccepted made c := by
  intro h
  have hr := awaitsSinit_sinitReceiver made c
  obtain ⟨-, hsent⟩ := h Receiver.exampleHost (sinitReceiver made c) hr
  obtain ⟨argument, hp⟩ := hr.packet
  rw [doHex_zsinit, hmode] at hp
  have hidle : ((sinitReceiver made c).receiveZdata Receiver.exampleHost).1.sent =
      (sinitReceiver made c).sent := by
    rw [Receiver.receiveZdata, hp.mode_eq, hr.buffer, decode_sinitSubpacket]
  rw [hidle] at hsent
  have hlength := congrArg List.length hsent
  simp at hlength

/-- A header reads back with its type and its argument, and the subpacket of a ZSINIT is accepted,
exactly when it is no ZSINIT or one whose argument is the same in both orders and that does not go
out in CRC-32. -/
theorem headerRoundTrips_iff (made : Bool) (c : Link) (type : PacketType) (argument : UInt32) :
    (HeaderReads (crc32Tab made) c type argument ∧ (type = .zsinit → SinitAccepted made c)) ↔
      (type = .zsinit →
        bigToLittleEndian argument = argument ∧ ¬ (c.sending = true ∧ c.useCrc32 = true)) := by
  have hmode : ¬ (c.sending = true ∧ c.useCrc32 = true) ↔ (c.sending && c.useCrc32) = false := by
    cases c.sending <;> cases c.useCrc32 <;> simp
  rw [headerReads_iff, hmode]
  constructor
  · rintro ⟨hargument, hsubpacket⟩ hs
    refine ⟨hargument hs, ?_⟩
    by_contra hlong
    exact not_sinitAccepted made (Bool.eq_true_of_not_eq_false hlong) (hsubpacket hs)
  · intro h
    exact ⟨fun hs => (h hs).1, fun hs => sinitAccepted made (h hs).2⟩

/-- The ZSINIT that `send_zsinit` builds, with the bit for control characters as its argument. -/
theorem not_headerReads_zsinit :
    ¬ HeaderReads (crc32Tab false) ⟨false, 0, true⟩ .zsinit txEscapeCtrl := by
  rw [headerReads_iff]
  decide

end CProgram.Zmodem
