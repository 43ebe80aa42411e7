import CProgram.Kermit.DataField
import CProgram.Kermit.PacketSize
import CProgram.Kermit.FrameParse

/-! From `encode_output_packet` of one side to `decode_input_bytes` of the other, for the packets
that carry no file data. -/
namespace CProgram.Kermit
open Bytes

namespace EncodeContext
variable {c : EncodeContext}

/-- Without prefix handling every character is copied as long as there is room. -/
theorem loop_raw (hr : c.raw = true) (input : List UInt8) (e : Encoder) (hcrlf : e.crlf = false)
    (hcount : e.repeatCount = 0) :
    ∃ taken, taken <+: input ∧ c.finish (c.loop input e).1 = e.out ++ taken ∧
      (c.loop input e).1.taken = e.taken + taken.length := by
  induction input generalizing e with
  | nil =>
    refine ⟨[], List.nil_prefix, ?_, ?_⟩
    · rw [loop_nil e (.inl hcrlf)]
      simp [finish, hcrlf, hcount]
    · rw [loop_nil e (.inl hcrlf)]
      simp
  | cons ch rest ih =>
    by_cases hroom : c.room e = true
    · rw [loop_take e ch rest hroom hcrlf]
      have htake : c.take e ch = { e with out := e.out ++ [ch], taken := e.taken + 1 } := by
        simp [EncodeContext.take, EncodeContext.accept, hr]
      obtain ⟨taken, hpre, hout, htaken⟩ := ih (c.take e ch) (by simp [htake, hcrlf])
        (by simp [htake, hcount])
      refine ⟨ch :: taken, by simpa using hpre, ?_, ?_⟩
      · rw [hout, htake]
        simp
      · rw [htaken, htake]
        simp only [List.length_cons]
        omega
    · refine ⟨[], List.nil_prefix, ?_, ?_⟩
      · simp [EncodeContext.loop, hroom, finish, hcrlf, hcount]
      · simp [EncodeContext.loop, hroom]

theorem bytes_raw (hr : c.raw = true) (input : List UInt8) :
    (encodeDataField c input).bytes = input.take (encodeDataField c input).outstanding := by
  obtain ⟨taken, hpre, hout, htaken⟩ := loop_raw hr input .init rfl rfl
  have h0 : Encoder.init.out = [] ∧ Encoder.init.taken = 0 := ⟨rfl, rfl⟩
  rw [h0.1, List.nil_append] at hout
  rw [h0.2, Nat.zero_add] at htaken
  simp only [encodeDataField, hout, htaken]
  exact List.prefix_iff_eq_take.mp hpre

end EncodeContext

theorem encodeDataField_nil (c : EncodeContext) : (encodeDataField c []).bytes = [] := by
  have hinit : c.finish .init = [] := by simp [EncodeContext.finish, Encoder.init]
  rw [encodeDataField, EncodeContext.loop_nil .init (.inl rfl), hinit]

theorem DecodeContext.decode_raw {c : DecodeContext} (hr : c.raw = true) (l : List UInt8) :
    decodeDataField c l = some l := by
  have hloop (l : List UInt8) (d : Decoder) (hd : d.doOutputCh = false) :
      ∃ d', c.loop l d = some d' ∧ (c.settle d').out = d.out ++ l := by
    induction l generalizing d with
    | nil => exact ⟨d, rfl, by simp [DecodeContext.settle, hd]⟩
    | cons ch rest ih =>
      have hstep : c.step (c.settle d) ch = some { d with out := d.out ++ [ch] } := by
        simp [DecodeContext.settle, hd, DecodeContext.step, hr]
      obtain ⟨d', hd', hout⟩ := ih { d with out := d.out ++ [ch] } hd
      exact ⟨d', by rw [DecodeContext.loop_cons ch rest d _ hstep, hd'], by simpa using hout⟩
  obtain ⟨d', hd', hout⟩ := hloop l .init rfl
  rw [decodeDataField, hd', Option.map_some, hout]
  rfl

/-- The parser at the other end of a link: the same session, and QCTL as this side announced it. -/
structure ParseContext.Peers (c : ParseContext) (l : Link) : Prop where
  session : c.session = l.session
  qctl : c.remoteQctl = l.session.qctl
  checkType : c.checkType = l.checkType
  sevenBitOnly : c.sevenBitOnly = l.sevenBitOnly

/-- The packets without file data. -/
def controlTypes : List PacketType :=
  [.kack, .knak, .kfile, .kattributes, .keof, .kbreak, .kerror]

/-- What `decode_input_bytes` hands on: one good packet of this type, number and payload, with all
but the EOL of its bytes consumed. -/
def Delivered (c : ParseContext) (convertText : Bool) (a : Attributes) (input : Nat → UInt8)
    (n size : Nat) (type : PacketType) (seq : UInt8) (payload : List UInt8) : Prop :=
  ∃ data, (c.decodeInputBytes input n).outcome = .packet (some type) seq data ∧
    c.parsedOk convertText a (some type) data = true ∧
    processedData (some type) data = payload ∧ (c.decodeInputBytes input n).discard + 1 = size

/-- The payload fits, and neither side treats it as something else. After `j` doublings of its
payload buffer the receiver can store it, terminated if need be. -/
structure Carried (l : Link) (c : ParseContext) (convertText : Bool) (a : Attributes) (j : Nat)
    (p : OutputPacket) : Prop where
  whole : (encodeDataField (l.fieldContext p.type) p.data).outstanding = p.data.length
  maxl : (l.encodeOutputPacket p p.data).packetLength ≤ l.session.maxl.toNat
  run : l.session.rept ≠ 32 ∨ NoLongRun p.data
  text : l.textMode = true → ∀ ch ∈ p.data, ch ≠ cr ∧ ch ≠ lf
  -- the ACK to the Send-Init is laid out differently, and the 64th packet is taken for it
  ack : p.type = .kack → l.sequenceNumber ≠ 0 ∧
    (l.sequenceNumber % 64 = 0 → (l.encodeOutputPacket p p.data).field = p.data)
  nak : p.type = .knak → p.data = [] ∧ c.parsedOk convertText a (some .knak) [] = true
  attributes : p.type = .kattributes → (processAttributes convertText p.data a).1 = true
  stored : terminated (some p.type) = true → ¬ ∃ i, p.data.length = blockSize * 2 ^ j * 2 ^ i
  message : p.type = .kerror → messageFits p.data = true

section Session
variable {o : Options} {data : List UInt8} {s : SessionParameters} {l : Link} {c : ParseContext}
  {convertText : Bool} {a : Attributes} {j : Nat} {p : OutputPacket}

theorem longPacket_control (ht : p.type ∈ controlTypes) : l.longPacket p.type = false := by
  have hne : p.type ≠ .kdata := by
    rintro h
    rw [h] at ht
    exact absurd ht (by decide)
  simp [Link.longPacket, hne]

theorem outputCheckType_control (ht : p.type ∈ controlTypes)
    (hack : p.type = .kack → l.sequenceNumber ≠ 0) :
    l.outputCheckType p.type = if p.type = .knak then 1 else l.checkType := by
  unfold Link.outputCheckType
  cases htype : p.type <;> simp_all [controlTypes]

/-- What the data field decodes to at the other end. -/
theorem decode_field (hs : negotiated o data = some s) (hl : l.Runs s) (hc : c.Peers l)
    (ht : p.type ∈ controlTypes) (hp : Carried l c convertText a j p) :
    decodeDataField (c.fieldContext (some p.type) (UInt8.ofNat (l.sequenceNumber % 64)))
      (l.encodeOutputPacket p p.data).field = some p.data := by
  set dc := c.fieldContext (some p.type) (UInt8.ofNat (l.sequenceNumber % 64)) with hdc
  have hzero : UInt8.ofNat (l.sequenceNumber % 64) = 0 ↔ l.sequenceNumber % 64 = 0 := by
    rw [← UInt8.toNat_inj, UInt8.toNat_ofNat', Nat.mod_eq_of_lt (by omega)]
    rfl
  have hne : p.type ≠ .kdata ∧ p.type ≠ .ksinit := by
    constructor <;> rintro h <;> rw [h] at ht <;> exact absurd ht (by decide)
  have hstrip : dc.stripCr = false := by simp [hdc, ParseContext.fieldContext, hne.1]
  have hlegal : dc.prefixes.Legal := by
    have := negotiated_legal hs
    simpa [hdc, ParseContext.fieldContext, hc.session, hc.qctl, hl.session,
      SessionParameters.prefixes] using this
  have hct := negotiated_checkType hs
  by_cases hraw : (l.fieldContext p.type).raw = true
  · -- Attributes; an ACK with sequence number 0 is not among the packets here
    have htype : p.type = .kattributes := by
      cases htype : p.type <;> simp_all [Link.fieldContext, controlTypes]
      exact absurd hraw (hp.ack htype).1
    have hdraw : dc.raw = true := by simp [hdc, ParseContext.fieldContext, htype]
    rw [DecodeContext.decode_raw hdraw, Link.encodeOutputPacket]
    simp only
    rw [EncodeContext.bytes_raw hraw, hp.whole, List.take_length]
  · by_cases hdraw : dc.raw = true
    · have hack : p.type = .kack ∧ l.sequenceNumber % 64 = 0 := by
        have hattr : p.type ≠ .kattributes := by
          intro h
          exact hraw (by simp [Link.fieldContext, h])
        simp only [hdc, ParseContext.fieldContext, Bool.or_eq_true, decide_eq_true_eq, hzero,
          Option.some.injEq, hattr, hne.2, or_false] at hdraw
        exact ⟨hdraw.2, hdraw.1⟩
      rw [DecodeContext.decode_raw hdraw, (hp.ack hack.1).2 hack.2]
    · have hround := EncodeContext.decode_encodeDataField (c := l.fieldContext p.type)
        (by simp [hdc, Link.fieldContext, ParseContext.fieldContext, hc.session, hc.qctl])
        hlegal (by simpa using hraw) (by simpa using hdraw) hstrip
        (by simp only [Link.fieldContext, hl.checkType]; omega) p.data hp.text
        (by simpa [hdc, ParseContext.fieldContext, hc.session] using hp.run)
      rw [Link.encodeOutputPacket]
      simpa [hp.whole] using hround

theorem fits_control (hs : negotiated o data = some s) (hl : l.Runs s) (hc : c.Peers l)
    (ht : p.type ∈ controlTypes) (hseq : p.seq = l.sequenceNumber % 64)
    (hp : Carried l c convertText a j p) : (l.encodeOutputPacket p p.data).Fits c := by
  have hct := negotiated_checkType hs
  have hinit : p.type ≠ .ksinit := by
    rintro h
    rw [h] at ht
    exact absurd ht (by decide)
  have hlong : (l.encodeOutputPacket p p.data).longPacket = false := longPacket_control ht
  have hcheck : (l.encodeOutputPacket p p.data).checkType =
      if p.type = .knak then 1 else negotiatedCheckType s := by
    rw [← hl.checkType]
    exact outputCheckType_control ht fun h => (hp.ack h).1
  refine ⟨?_, ?_, ?_, fun _ => by rw [hc.session]; exact hp.maxl, by simp [hlong]⟩
  · rw [Link.encodeOutputPacket, hseq, UInt8.le_iff_toNat_le, UInt8.toNat_ofNat']
    have : (63 : UInt8).toNat = 63 := rfl
    omega
  · rw [hcheck]
    split <;> omega
  · rw [hcheck, hlong]
    by_cases hnak : p.type = .knak
    · have hfield : (l.encodeOutputPacket p p.data).field = [] := by
        rw [(hp.nak hnak).1]
        exact encodeDataField_nil _
      have htype : (l.encodeOutputPacket p p.data).type = .knak := hnak
      simp [ParseContext.inputCheckType, Frame.packetLength, hfield, hlong, hcheck, hnak, htype,
        checkTypeLength]
    · have htype : (l.encodeOutputPacket p p.data).type = p.type := rfl
      rw [if_neg hnak, htype, ← hl.checkType, ← hc.checkType]
      cases h : p.type <;> simp_all [ParseContext.inputCheckType]

/-- The payload of a File-Header loses its upper case when it has no lower case; all others
arrive as they are. -/
def receivedPayload (p : OutputPacket) : List UInt8 :=
  if p.type = .kfile then lowerFileName p.data else p.data

theorem parsedOk_control (ht : p.type ∈ controlTypes) (hp : Carried l c convertText a j p) :
    c.parsedOk convertText a (some p.type) p.data = true := by
  cases h : p.type with
  | knak =>
    rw [(hp.nak h).1]
    exact (hp.nak h).2
  | kattributes => exact hp.attributes h
  | _ => first | rfl | (rw [h] at ht; exact absurd ht (by decide))

/-- A packet without file data arrives as one good packet, with its number modulo 64. -/
theorem delivered_control (hs : negotiated o data = some s) (hl : l.Runs s) (hc : c.Peers l)
    (ht : p.type ∈ controlTypes) (hseq : p.seq = l.sequenceNumber % 64)
    (hp : Carried l c convertText a j p) (input : Nat → UInt8) (n : Nat) (hn : n < 2 ^ 32)
    (hbytes : slice input 0 (l.frameBytes (l.encodeOutputPacket p p.data)).length =
      l.frameBytes (l.encodeOutputPacket p p.data))
    (hin : (l.frameBytes (l.encodeOutputPacket p p.data)).length ≤ n) :
    Delivered c convertText a input n (l.frameBytes (l.encodeOutputPacket p p.data)).length
      p.type (UInt8.ofNat (l.sequenceNumber % 64)) (receivedPayload p) := by
  set f := l.encodeOutputPacket p p.data with hf
  have hframe : l.frameBytes f = c.session.mark :: (f.wire c.sevenBitOnly ++ [l.session.eol]) := by
    rw [Link.frameBytes, Frame.bytes_eq, hc.session, hc.sevenBitOnly]
  rw [hframe] at hbytes hin ⊢
  obtain ⟨hmark, hrest⟩ := slice_head hbytes
  obtain ⟨hwire, -⟩ := slice_split hrest
  simp only [List.length_cons, List.length_append, List.length_nil] at hin ⊢
  have hfind : findMark c.session.mark input n = some 0 := by
    have hrange : List.range n = 0 :: (List.range (n - 1)).map Nat.succ := by
      rw [← List.range_succ_eq_map]
      congr 1
      omega
    simp [findMark, hrange, hmark]
  have hseq' : f.seq = UInt8.ofNat (l.sequenceNumber % 64) := by
    rw [hf, Link.encodeOutputPacket, hseq]
  have hdata : decodeDataField (c.fieldContext (some f.type) f.seq) f.field = some p.data := by
    rw [hseq']
    exact decode_field hs hl hc ht hp
  have hfits : f.Fits c := fits_control hs hl hc ht hseq hp
  have hparse := ParseContext.decodeInputBytes_frame hfits hfind hwire (by omega) hn hdata
  have htype : f.type = p.type := rfl
  refine ⟨p.data, ?_, parsedOk_control ht hp, ?_, ?_⟩
  · rw [hparse, hseq', htype]
  · simp [processedData, receivedPayload]
  · rw [hparse]
    simp only
    omega

end Session

/-- A link and the parser at its other end, after the Send-Init with payload `p% @-#Y3~`. -/
def exampleSession : SessionParameters :=
  negotiateSendInit (setDefaultSessionParameters ⟨false, false, false⟩)
    (sendInitParameters [112, 37, 32, 64, 45, 35, 89, 51, 126])
    (setDefaultSessionParameters ⟨false, false, false⟩)

def exampleLink (sequenceNumber : Nat) : Link :=
  ⟨exampleSession, 3, sequenceNumber, false, false⟩

def exampleParser : ParseContext := ⟨exampleSession, 35, 3, false, false, .kmRF, false⟩

/-- The File-Header of a file called `A` arrives as `a`. -/
theorem not_delivered_upperCase : ¬ Delivered exampleParser false ⟨0, 0, false, false, .warn⟩
    (fun i => ((exampleLink 1).frameBytes ((exampleLink 1).encodeOutputPacket
      ⟨.kfile, 1, [65]⟩ [65])).getD i 0) 9 9 .kfile 1 [65] := by
  rintro ⟨data, hout, -, hpayload, -⟩
  have hdata : data = [65] := by
    have h : (exampleParser.decodeInputBytes (fun i => ((exampleLink 1).frameBytes
        ((exampleLink 1).encodeOutputPacket ⟨.kfile, 1, [65]⟩ [65])).getD i 0) 9).outcome =
        .packet (some .kfile) 1 [65] := by decide
    rw [h] at hout
    cases hout
    rfl
  rw [hdata] at hpayload
  revert hpayload
  decide

/-- The 66th packet of a session, the Error packet `no`, arrives as it was sent. -/
theorem delivered_error : Delivered exampleParser false ⟨0, 0, false, false, .warn⟩
    (fun i => ((exampleLink 65).frameBytes ((exampleLink 65).encodeOutputPacket
      ⟨.kerror, 1, [110, 111]⟩ [110, 111])).getD i 0) 10 10 .kerror 1 [110, 111] := by
  have hcarried : Carried (exampleLink 65) exampleParser false ⟨0, 0, false, false, .warn⟩ 0
      ⟨.kerror, 1, [110, 111]⟩ := by
    refine ⟨by decide, by decide, .inl (by decide), by decide, by decide,
      by decide, by decide, fun _ => ?_, fun _ => by decide⟩
    rintro ⟨i, hi⟩
    have hpos := Nat.two_pow_pos i
    simp [blockSize] at hi
    omega
  exact @delivered_control ⟨false, false, false⟩ [112, 37, 32, 64, 45, 35, 89, 51, 126]
    exampleSession (exampleLink 65) exampleParser false _ 0 ⟨.kerror, 1, [110, 111]⟩ rfl
    ⟨rfl, by decide⟩ ⟨rfl, rfl, rfl, rfl⟩ (by decide) rfl hcarried _ 10 (by decide)
    (by decide +kernel) (by decide)

end CProgram.Kermit
