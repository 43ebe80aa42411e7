import CProgram.Kermit.ParseBounds

/-! A packet that `encode_output_packet` laid out is found again by `decode_input_bytes`, wherever
in the buffer it stands and whatever follows it. -/
namespace CProgram.Kermit
open Bytes

theorem slice_append (input : Nat → UInt8) (start a b : Nat) :
    slice input start (a + b) = slice input start a ++ slice input (start + a) b := by
  induction a generalizing start with
  | zero => simp [slice]
  | succ a ih =>
    rw [Nat.add_right_comm, slice, slice, ih, List.cons_append, Nat.add_right_comm start 1 a,
      Nat.add_assoc]

/-- The parts of what a slice holds lie one behind the other. -/
theorem slice_split {input : Nat → UInt8} {start : Nat} {xs ys : List UInt8}
    (h : slice input start (xs ++ ys).length = xs ++ ys) :
    slice input start xs.length = xs ∧ slice input (start + xs.length) ys.length = ys := by
  rw [List.length_append, slice_append] at h
  exact List.append_inj h (by simp [length_slice])

theorem slice_head {input : Nat → UInt8} {start : Nat} {x : UInt8} {xs : List UInt8}
    (h : slice input start (x :: xs).length = x :: xs) :
    input start = x ∧ slice input (start + 1) xs.length = xs := by
  simpa [slice] using h

theorem slice_get {input : Nat → UInt8} {start : Nat} {xs : List UInt8}
    (h : slice input start xs.length = xs) (i : Nat) (b : UInt8) (hb : xs[i]? = some b) :
    input (start + i) = b := by
  induction xs generalizing start i with
  | nil => simp at hb
  | cons x xs ih =>
    obtain ⟨hx, hxs⟩ := slice_head h
    cases i with
    | zero => simpa [hx] using hb
    | succ i =>
      rw [Nat.add_succ, ← Nat.succ_add]
      exact ih hxs i (by simpa using hb)

namespace Frame

/-- From LEN to the last character of the check. -/
def wire (sevenBitOnly : Bool) (f : Frame) : List UInt8 :=
  f.header ++ f.field ++ checkBytes sevenBitOnly f.checkType (f.header ++ f.field)

theorem bytes_eq (sevenBitOnly : Bool) (mark eol : UInt8) (f : Frame) :
    f.bytes sevenBitOnly mark eol = mark :: (f.wire sevenBitOnly ++ [eol]) := by
  simp [bytes, wire]

theorem length_wire {f : Frame} (h : f.checkType = 1 ∨ f.checkType = 2 ∨ f.checkType = 3)
    (sevenBitOnly : Bool) : (f.wire sevenBitOnly).length =
      f.header.length + f.field.length + checkTypeLength f.checkType := by
  rw [wire, List.length_append, List.length_append, length_checkBytes (by omega)]

/-- A frame that a parser with the given parameters does not turn down for its header. -/
structure Fits (f : Frame) (c : ParseContext) : Prop where
  seq : f.seq ≤ 63
  checkType : f.checkType = 1 ∨ f.checkType = 2 ∨ f.checkType = 3
  sameCheck : c.inputCheckType (some f.type) (if f.longPacket then 0 else f.packetLength) =
    f.checkType
  normal : f.longPacket = false → f.packetLength ≤ c.session.maxl.toNat
  -- LENX counts three characters of check, whatever the check type is
  long : f.longPacket = true → c.session.longPackets = true ∧ f.checkType = 3 ∧
    f.field.length + 3 ≤ c.session.maxlx ∧ f.field.length + 3 < 256 * 95

end Frame

namespace ParseContext
variable {c : ParseContext} {f : Frame} {input : Nat → UInt8} {n m : Nat}

/-- The check and the data field of a frame, once its header has been read. -/
theorem parseBody_frame {b : Body} (hb : b.mark = m) (hstart : b.start = m + 1 + f.header.length)
    (hrest : b.rest = f.field.length + checkTypeLength f.checkType) (htype : b.type = some f.type)
    (hseq : b.seq = f.seq) (hcheck : c.checkTypeOf b = f.checkType)
    (hct : f.checkType = 1 ∨ f.checkType = 2 ∨ f.checkType = 3) (hsmall : b.rest < 2 ^ 32)
    (hwire : slice input (m + 1) (f.wire c.sevenBitOnly).length = f.wire c.sevenBitOnly)
    {data : List UInt8}
    (hdata : decodeDataField (c.fieldContext (some f.type) f.seq) f.field = some data) :
    c.parseBody input n b = ⟨.packet (some f.type) f.seq data,
      m + 1 + (f.wire c.sevenBitOnly).length, m + 1 + (f.wire c.sevenBitOnly).length⟩ := by
  have hlen : (checkBytes c.sevenBitOnly f.checkType (f.header ++ f.field)).length =
      checkTypeLength f.checkType := length_checkBytes (by omega) _
  obtain ⟨hbody, hgiven⟩ := slice_split hwire
  obtain ⟨-, hfield⟩ := slice_split hbody
  have hcl : c.checkLength b = checkTypeLength f.checkType := by rw [checkLength, hcheck]
  have hcs : c.checkStart b = m + 1 + (f.header ++ f.field).length := by
    rw [checkStart, hcl, hstart, hrest, List.length_append]
    omega
  have hdl : c.dataLength b = f.field.length := by
    rw [dataLength, hcl, sub32_of_le (by omega) hsmall, hrest]
    omega
  have hpass : c.checkPasses input b = true := by
    rw [checkPasses, hcheck, hcs, hb, Nat.add_sub_cancel_left, hbody]
    exact checkOk_checkBytes hct _ _ fun i ch hch => slice_get hgiven i ch hch
  have hdf : c.dataField input b = f.field := by rw [dataField, hdl, hstart, hfield]
  simp only [parseBody, hpass, Bool.not_true, Bool.false_eq_true, if_false, htype, hseq, hdf, hdata,
    hdl, hstart, hrest, Frame.wire, List.length_append, hlen]
  simp
  omega

/-- The header of a normal frame. -/
theorem parseHeader_normal (hf : f.Fits c) (hlong : f.longPacket = false)
    (hwire : slice input (m + 1) (f.wire c.sevenBitOnly).length = f.wire c.sevenBitOnly)
    (hn : m + 1 + (f.wire c.sevenBitOnly).length ≤ n) (hn' : n < 2 ^ 32) :
    c.parseHeader input n m =
      .ok ⟨m, m + 4, f.packetLength - 2, f.packetLength, some f.type, f.seq⟩ := by
  have hcl : 1 ≤ checkTypeLength f.checkType := by
    rcases hf.checkType with h | h | h <;> simp [h, checkTypeLength]
  have hmax := hf.normal hlong
  have hlt := c.session.maxl.toNat_lt
  have hpl : f.packetLength = f.field.length + 2 + checkTypeLength f.checkType := by
    simp [Frame.packetLength, hlong]
  have hlen : (f.wire c.sevenBitOnly).length = f.packetLength + 1 := by
    simp [Frame.length_wire hf.checkType, Frame.length_header, hlong, hpl]
    omega
  have hheader : f.header = [tochar (UInt8.ofNat f.packetLength), tochar f.seq, f.type.char] := by
    simp [Frame.header, hlong]
  have hw := hwire
  rw [Frame.wire, hheader, List.append_assoc, List.cons_append] at hw
  obtain ⟨h1, hw⟩ := slice_head hw
  obtain ⟨h2, hw⟩ := slice_head hw
  obtain ⟨h3, hw⟩ := slice_head hw
  have hlenv : (unchar (input (m + 1))).toNat = f.packetLength := by
    rw [h1, unchar_tochar, UInt8.toNat_ofNat', Nat.mod_eq_of_lt (by omega)]
  have hseqv : unchar (input (m + 2)) = f.seq := by rw [h2, unchar_tochar]
  have htypev : packetType (input (m + 3)) = some f.type := by
    rw [show m + 3 = m + 1 + 1 + 1 from rfl, h3, packetType_char]
  have hneed : ¬ sub32 n (m + 2) < bytesNeeded f.packetLength := by
    rw [sub32_of_le (by omega) hn', bytesNeeded, if_neg (by omega)]
    omega
  have hseq63 : ¬ 63 < f.seq := by simpa using hf.seq
  simp only [parseHeader, hlenv, hseqv, htypev, hneed, hseq63, if_false]
  rw [if_neg (by omega), if_neg (by omega), if_neg (by omega), if_neg (by omega)]

/-- The header of a long frame. -/
theorem parseHeader_long (hf : f.Fits c) (hlong : f.longPacket = true)
    (hwire : slice input (m + 1) (f.wire c.sevenBitOnly).length = f.wire c.sevenBitOnly)
    (hn : m + 1 + (f.wire c.sevenBitOnly).length ≤ n) (hn' : n < 2 ^ 32) :
    c.parseHeader input n m =
      .ok ⟨m, m + 7, f.field.length + 3, 0, some f.type, f.seq⟩ := by
  obtain ⟨hses, hct, hmaxlx, hmax⟩ := hf.long hlong
  have hlen : (f.wire c.sevenBitOnly).length = f.field.length + 9 := by
    simp [Frame.length_wire hf.checkType, Frame.length_header, hlong, hct, checkTypeLength]
    omega
  have hw := hwire
  simp only [Frame.wire, Frame.header, hlong, if_true, List.cons_append, List.nil_append] at hw
  obtain ⟨h1, hw⟩ := slice_head hw
  obtain ⟨h2, hw⟩ := slice_head hw
  obtain ⟨h3, hw⟩ := slice_head hw
  obtain ⟨h4, hw⟩ := slice_head hw
  obtain ⟨h5, hw⟩ := slice_head hw
  obtain ⟨h6, hw⟩ := slice_head hw
  have hfive : slice input (m + 1) 5 =
      [tochar 0, tochar f.seq, f.type.char, tochar f.lenx.1, tochar f.lenx.2] := by
    simp [slice, h1, h2, h3, h4, h5]
  have hlenx : (unchar (input (m + 4))).toNat * 95 + (unchar (input (m + 5))).toNat =
      f.field.length + 3 := by
    rw [show m + 4 = m + 1 + 1 + 1 + 1 from rfl, show m + 5 = m + 1 + 1 + 1 + 1 + 1 from rfl, h4, h5,
      unchar_tochar, unchar_tochar, Frame.lenx, UInt8.toNat_ofNat', UInt8.toNat_ofNat']
    omega
  have hlenv : (unchar (input (m + 1))).toNat = 0 := by rw [h1, unchar_tochar]; rfl
  have hseqv : unchar (input (m + 2)) = f.seq := by rw [h2, unchar_tochar]
  have htypev : packetType (input (m + 3)) = some f.type := by
    rw [show m + 3 = m + 1 + 1 + 1 from rfl, h3, packetType_char]
  have hcheckv : unchar (input (m + 6)) = Frame.hcheck
      [tochar 0, tochar f.seq, f.type.char, tochar f.lenx.1, tochar f.lenx.2] := by
    rw [show m + 6 = m + 1 + 1 + 1 + 1 + 1 + 1 from rfl, h6, unchar_tochar]
  have hseq63 : ¬ 63 < f.seq := by simpa using hf.seq
  have hneed : ¬ sub32 n (m + 2) < bytesNeeded 0 := by
    rw [sub32_of_le (by omega) hn', bytesNeeded, if_pos rfl]
    omega
  have hrest : ¬ sub32 n (m + 7) < f.field.length + 3 := by
    rw [sub32_of_le (by omega) hn']
    omega
  have hmaxlx' : ¬ c.session.maxlx < f.field.length + 3 := by omega
  simp [parseHeader, parseLong, hlenv, hses, hneed, hseqv, hseq63, htypev, hlenx, hmaxlx', hfive,
    hcheckv, hrest]

/-- `decode_input_bytes` takes a frame out of the buffer, all but its EOL. -/
theorem decodeInputBytes_frame (hf : f.Fits c) (hmark : findMark c.session.mark input n = some m)
    (hwire : slice input (m + 1) (f.wire c.sevenBitOnly).length = f.wire c.sevenBitOnly)
    (hn : m + 1 + (f.wire c.sevenBitOnly).length ≤ n) (hn' : n < 2 ^ 32) {data : List UInt8}
    (hdata : decodeDataField (c.fieldContext (some f.type) f.seq) f.field = some data) :
    c.decodeInputBytes input n = ⟨.packet (some f.type) f.seq data,
      m + 1 + (f.wire c.sevenBitOnly).length, m + 1 + (f.wire c.sevenBitOnly).length⟩ := by
  have hcl : 1 ≤ checkTypeLength f.checkType := by
    rcases hf.checkType with h | h | h <;> simp [h, checkTypeLength]
  have hlen := Frame.length_wire hf.checkType c.sevenBitOnly
  have hheader := Frame.length_header f
  have h5 : ¬ n < 5 := by
    split at hheader <;> omega
  simp only [decodeInputBytes, findPacket, h5, if_false, hmark]
  cases hlong : f.longPacket with
  | false =>
    rw [hlong] at hheader
    have hmaxl := hf.normal hlong
    have hpl : f.packetLength = f.field.length + 2 + checkTypeLength f.checkType := by
      simp [Frame.packetLength, hlong]
    rw [parseHeader_normal hf hlong hwire hn hn']
    refine parseBody_frame rfl ?_ ?_ rfl rfl ?_ hf.checkType ?_ hwire hdata
    · simp only [hheader]
      simp
    · simp only [hpl]
      omega
    · simpa [hlong, checkTypeOf] using hf.sameCheck
    · simp only
      omega
  | true =>
    rw [hlong, if_pos rfl] at hheader
    obtain ⟨-, hct, -, -⟩ := hf.long hlong
    rw [parseHeader_long hf hlong hwire hn hn']
    refine parseBody_frame rfl ?_ ?_ rfl rfl ?_ hf.checkType ?_ hwire hdata
    · simp only [hheader]
    · simp [hct, checkTypeLength]
    · simpa [hlong, checkTypeOf] using hf.sameCheck
    · simp only
      omega

end ParseContext
end CProgram.Kermit
