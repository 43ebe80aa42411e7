import CProgram.Kermit.Payload

/-! Which contents of the receive buffer make `decode_input_bytes` leave its buffers. -/
namespace CProgram.Kermit
open Bytes

theorem findMark_lt {mark : UInt8} {input : Nat → UInt8} {n m : Nat}
    (h : findMark mark input n = some m) : m < n := by
  have hm := List.mem_of_find?_eq_some h
  simpa using hm

theorem length_slice (input : Nat → UInt8) (start n : Nat) : (slice input start n).length = n := by
  induction n generalizing start with
  | zero => rfl
  | succ n ih => simp [slice, ih]

theorem DecodeContext.reads_le (c : DecodeContext) (l : List UInt8) (d : Decoder) :
    c.reads l d ≤ l.length := by
  induction l generalizing d with
  | nil => exact Nat.zero_le _
  | cons ch rest ih =>
    simp only [DecodeContext.reads, List.length_cons]
    cases h : c.step (c.settle d) ch with
    | none => simp
    | some d' =>
      have := ih d'
      simp only
      omega

namespace ParseContext
variable {c : ParseContext} {input : Nat → UInt8} {n m : Nat}

theorem parseLong_error {type : Option PacketType} {seq : UInt8} {r : Parsed}
    (h : c.parseLong input n m type seq = .error r) :
    m + 2 ≤ r.readEnd ∧ r.readEnd ≤ m + 7 ∧ (r.discard = n ∨ r.discard = m) := by
  unfold parseLong at h
  dsimp only at h
  split_ifs at h <;> cases h <;> simp

theorem parseLong_ok {type : Option PacketType} {seq : UInt8} {b : Body}
    (h : c.parseLong input n m type seq = .ok b) :
    b.start = m + 7 ∧ b.rest ≤ sub32 n (m + 7) := by
  unfold parseLong at h
  dsimp only at h
  split_ifs at h with h1 h2 h3
  cases h
  exact ⟨rfl, by simpa using h3⟩

theorem parseHeader_error {r : Parsed} (hn : n < 2 ^ 32) (hm : m < n)
    (h : c.parseHeader input n m = .error r) :
    m + 2 ≤ r.readEnd ∧ r.discard ≤ n ∧ (m + 1 < n → r.readEnd ≤ n) := by
  have hneed (len : Nat) (h1 : ¬ (len = 1 ∨ len = 2)) : 3 ≤ bytesNeeded len := by
    unfold bytesNeeded
    split <;> omega
  unfold parseHeader at h
  dsimp only at h
  split_ifs at h with h1 h2 h3 h4 h5 h6
  · cases h
    exact ⟨le_rfl, le_rfl, fun hmn => hmn⟩
  · cases h
    exact ⟨le_rfl, le_rfl, fun hmn => hmn⟩
  · cases h
    exact ⟨le_rfl, le_rfl, fun hmn => hmn⟩
  · cases h
    exact ⟨le_rfl, hm.le, fun hmn => hmn⟩
  · cases h
    have := hneed _ h2
    refine ⟨Nat.le_succ _, le_rfl, fun hmn => ?_⟩
    rw [sub32_of_le (by omega) hn] at h4
    simp only
    omega
  · obtain ⟨hlow, hhigh, hdiscard⟩ := parseLong_error h
    refine ⟨hlow, by omega, fun hmn => ?_⟩
    rw [sub32_of_le (by omega) hn, bytesNeeded, if_pos h6] at h4
    omega

theorem parseHeader_ok {b : Body} (hn : n < 2 ^ 32) (h : c.parseHeader input n m = .ok b) :
    m + 4 ≤ b.start ∧ (m + 1 < n → b.start + b.rest ≤ n) := by
  unfold parseHeader at h
  dsimp only at h
  split_ifs at h with h1 h2 h3 h4 h5 h6
  · obtain ⟨hstart, hrest⟩ := parseLong_ok h
    refine ⟨by omega, fun hmn => ?_⟩
    rw [sub32_of_le (by omega) hn, bytesNeeded, if_pos h6] at h4
    rw [sub32_of_le (by omega) hn] at hrest
    omega
  · cases h
    refine ⟨le_rfl, fun hmn => ?_⟩
    rw [sub32_of_le (by omega) hn, bytesNeeded, if_neg h6] at h4
    simp only
    omega

/-- What `findPacket` finds lies inside the buffer, unless it started from a MARK in its last
byte. -/
theorem findPacket_spec (hn : n < 2 ^ 32) :
    (∀ r, c.findPacket input n = .error r → r.discard ≤ n ∧
      (r.readEnd ≤ n ↔ (5 ≤ n → ∀ m, findMark c.session.mark input n = some m → m + 1 < n))) ∧
    ∀ b, c.findPacket input n = .ok b → 5 ≤ n ∧ ∃ m, findMark c.session.mark input n = some m ∧
      m + 4 ≤ b.start ∧ (m + 1 < n → b.start + b.rest ≤ n) := by
  unfold findPacket
  by_cases h5 : n < 5
  · simp only [h5, if_true]
    refine ⟨fun r hr => ?_, fun b hb => by cases hb⟩
    cases hr
    exact ⟨Nat.zero_le _, by simp; omega⟩
  · simp only [h5, if_false]
    cases hm : findMark c.session.mark input n with
    | none =>
      refine ⟨fun r hr => ?_, fun b hb => by cases hb⟩
      cases hr
      simp
    | some m =>
      have hlt := findMark_lt hm
      refine ⟨fun r hr => ?_, fun b hb => ⟨by omega, m, rfl, parseHeader_ok hn hb⟩⟩
      obtain ⟨hlow, hdiscard, hhigh⟩ := parseHeader_error hn hlt hr
      refine ⟨hdiscard, fun hr _ m' hm' => ?_, fun hmark => hhigh (hmark (by omega) m rfl)⟩
      cases hm'
      omega

end ParseContext

/-- A call of `decode_input_bytes` keeps to its buffers: it reads only the valid bytes, stores
the payload and its terminating NUL inside the payload buffer and the text of an Error packet
inside the buffer for messages, and does not discard more than there is. -/
structure InBounds (c : ParseContext) (dataMax : Nat) (input : Nat → UInt8) (n : Nat) :
    Prop where
  reads : (c.decodeInputBytes input n).readEnd ≤ n
  discard : (c.decodeInputBytes input n).discard ≤ n
  stores : ∀ type seq data, (c.decodeInputBytes input n).outcome = .packet type seq data →
    ∀ k < data.length, k < growMax dataMax (k + 1)
  terminator : ∀ type seq data, (c.decodeInputBytes input n).outcome = .packet type seq data →
    terminated type = true → data.length < growMax dataMax data.length
  message : ∀ seq data, (c.decodeInputBytes input n).outcome = .packet (some .kerror) seq data →
    messageFits data = true

/-- What the bytes have to be like. Behind the first MARK there is another byte; a packet that
passes its check is at least as long as the check, or has two QBIN in a row early enough; the
payload of a File-Header, Attributes or Error packet does not fill the payload buffer to its last
byte; and the text of an Error packet is short and asks for no argument. -/
structure WellFramed (c : ParseContext) (dataMax : Nat) (input : Nat → UInt8) (n : Nat) :
    Prop where
  mark : 5 ≤ n → ∀ m, findMark c.session.mark input n = some m → m + 1 < n
  length : ∀ b, c.findPacket input n = .ok b → c.checkPasses input b = true →
    c.checkLength b ≤ b.rest ∨
      (decodeDataField (c.fieldContext b.type b.seq) (c.dataField input b) = none ∧
        b.start + (c.fieldContext b.type b.seq).reads (c.dataField input b) .init ≤ n)
  terminator : ∀ b data, c.findPacket input n = .ok b → c.checkPasses input b = true →
    decodeDataField (c.fieldContext b.type b.seq) (c.dataField input b) = some data →
    terminated b.type = true → ¬ ∃ i, data.length = dataMax * 2 ^ i
  message : ∀ b data, c.findPacket input n = .ok b → c.checkPasses input b = true →
    decodeDataField (c.fieldContext b.type b.seq) (c.dataField input b) = some data →
    b.type = some .kerror → messageFits data = true

namespace ParseContext
variable {c : ParseContext} {input : Nat → UInt8} {n dataMax : Nat}

theorem findPacket_error_outcome {r : Parsed} (h : c.findPacket input n = .error r)
    (type : Option PacketType) (seq : UInt8) (data : List UInt8) :
    r.outcome ≠ .packet type seq data := by
  have hlong {m : Nat} {t : Option PacketType} {s : UInt8}
      (h : c.parseLong input n m t s = .error r) : r.outcome ≠ .packet type seq data := by
    unfold parseLong at h
    dsimp only at h
    split_ifs at h <;> cases h <;> simp
  unfold findPacket at h
  split_ifs at h
  · cases h
    simp
  · split at h
    · cases h
      simp
    · unfold parseHeader at h
      dsimp only at h
      split_ifs at h
      all_goals first | exact hlong h | (cases h; simp)

theorem outcome_packet_iff {type : Option PacketType} {seq : UInt8} {data : List UInt8} :
    (c.decodeInputBytes input n).outcome = .packet type seq data ↔
      ∃ b, c.findPacket input n = .ok b ∧ c.checkPasses input b = true ∧
        decodeDataField (c.fieldContext b.type b.seq) (c.dataField input b) = some data ∧
        b.type = type ∧ b.seq = seq := by
  unfold decodeInputBytes
  cases hf : c.findPacket input n with
  | error r => simpa using findPacket_error_outcome hf type seq data
  | ok b =>
    simp only [parseBody, Except.ok.injEq, exists_eq_left']
    cases hc : c.checkPasses input b with
    | false => simp
    | true =>
      simp only [Bool.not_true, Bool.false_eq_true, if_false, true_and]
      cases hd : decodeDataField (c.fieldContext b.type b.seq) (c.dataField input b) with
      | none => simp
      | some d => simp; tauto

theorem checkLength_le (hct : c.checkType = 1 ∨ c.checkType = 2 ∨ c.checkType = 3) (b : Body) :
    c.checkLength b ≤ 3 := by
  have h3 : c.checkTypeOf b ≤ 3 := by
    unfold checkTypeOf inputCheckType
    split
    · decide
    · split_ifs <;> omega
    · omega
  unfold checkLength checkTypeLength
  split_ifs <;> omega

/-- A field whose length wrapped is read past the end of any buffer. -/
theorem dataLength_of_lt (hct : c.checkType = 1 ∨ c.checkType = 2 ∨ c.checkType = 3) {b : Body}
    (h : b.rest < c.checkLength b) : 2 ^ 32 - 3 ≤ c.dataLength b := by
  have := checkLength_le hct b
  rw [dataLength, sub32_of_lt h]
  omega

theorem dataLength_of_le {b : Body} (h : c.checkLength b ≤ b.rest) (hr : b.rest < 2 ^ 32) :
    c.dataLength b = b.rest - c.checkLength b := sub32_of_le h hr

/-- The indexes a complete packet makes the parser read. -/
theorem parseBody_reads (hct : c.checkType = 1 ∨ c.checkType = 2 ∨ c.checkType = 3)
    (hn : n < 2 ^ 32) {b : Body} (h4 : 4 ≤ b.start) (hb : b.start + b.rest ≤ n) :
    (c.parseBody input n b).readEnd ≤ n ↔ (c.checkPasses input b = true →
      c.checkLength b ≤ b.rest ∨
        (decodeDataField (c.fieldContext b.type b.seq) (c.dataField input b) = none ∧
          b.start + (c.fieldContext b.type b.seq).reads (c.dataField input b) .init ≤ n)) := by
  unfold parseBody
  cases hc : c.checkPasses input b with
  | false => simpa using hb
  | true =>
    simp only [Bool.not_true, Bool.false_eq_true, if_false, forall_const]
    have hreads := (c.fieldContext b.type b.seq).reads_le (c.dataField input b) .init
    rw [dataField, length_slice] at hreads
    by_cases hle : c.checkLength b ≤ b.rest
    · have hlen := dataLength_of_le hle (by omega)
      cases hd : decodeDataField (c.fieldContext b.type b.seq) (c.dataField input b) with
      | none => simp only [hle, true_or, iff_true, dataField]; omega
      | some data => simp only [hle, true_or, iff_true]; omega
    · have hlen := dataLength_of_lt hct (show b.rest < c.checkLength b by omega)
      cases hd : decodeDataField (c.fieldContext b.type b.seq) (c.dataField input b) with
      | none => simp only [hle, false_or, true_and]; omega
      | some data => simp [hle]; omega

theorem parseBody_discard {b : Body} (hb : b.start + b.rest ≤ n) :
    (c.parseBody input n b).discard ≤ n := by
  unfold parseBody
  split_ifs
  · exact le_rfl
  · split
    · exact le_rfl
    · exact hb

variable (hct : c.checkType = 1 ∨ c.checkType = 2 ∨ c.checkType = 3) (hn : n < 2 ^ 32)
include hct hn

/-- The reads stay inside exactly when the first two conditions hold. -/
theorem reads_iff : (c.decodeInputBytes input n).readEnd ≤ n ↔
    (5 ≤ n → ∀ m, findMark c.session.mark input n = some m → m + 1 < n) ∧
    ∀ b, c.findPacket input n = .ok b → c.checkPasses input b = true →
      c.checkLength b ≤ b.rest ∨
        (decodeDataField (c.fieldContext b.type b.seq) (c.dataField input b) = none ∧
          b.start + (c.fieldContext b.type b.seq).reads (c.dataField input b) .init ≤ n) := by
  obtain ⟨herr, hok⟩ := @findPacket_spec c input n hn
  unfold decodeInputBytes
  cases hf : c.findPacket input n with
  | error r => simpa using (herr r hf).2
  | ok b =>
    obtain ⟨h5, m, hm, h4, hin⟩ := hok b hf
    simp only [Except.ok.injEq, forall_eq']
    by_cases hmn : m + 1 < n
    · have hmark : 5 ≤ n → ∀ m, findMark c.session.mark input n = some m → m + 1 < n := by
        intro _ m' hm'
        rw [hm] at hm'
        cases hm'
        exact hmn
      rw [parseBody_reads hct hn (by omega) (hin hmn)]
      exact ⟨fun h => ⟨hmark, h⟩, fun h => h.2⟩
    · have hread : b.start ≤ (c.parseBody input n b).readEnd := by
        unfold parseBody
        split_ifs
        · simp
        · split <;> simp only <;> omega
      exact ⟨fun h => by omega, fun h => absurd (h.1 h5 m hm) hmn⟩

/-- A call keeps to its buffers exactly on well-framed contents. -/
theorem inBounds_iff (j : Nat) :
    InBounds c (blockSize * 2 ^ j) input n ↔ WellFramed c (blockSize * 2 ^ j) input n := by
  have hpos : 0 < blockSize * 2 ^ j := Nat.mul_pos (by decide) (Nat.two_pow_pos j)
  have hfits (k : Nat) : k < growMax (blockSize * 2 ^ j) k ↔
      ¬ ∃ i, k = blockSize * 2 ^ j * 2 ^ i := by
    have hle : k ≤ growMax (blockSize * 2 ^ j) k := by
      obtain ⟨i, hg, hk, -⟩ := growMax_spec _ hpos k
      omega
    rw [← growMax_eq_self _ hpos]
    omega
  constructor
  · intro h
    obtain ⟨hmark, hlength⟩ := (reads_iff hct hn).mp h.reads
    refine ⟨hmark, hlength, fun b data hf hc hd ht => ?_, fun b data hf hc hd ht => ?_⟩
    · exact (hfits _).mp (h.terminator b.type b.seq data
        (outcome_packet_iff.mpr ⟨b, hf, hc, hd, rfl, rfl⟩) ht)
    · exact h.message b.seq data (outcome_packet_iff.mpr ⟨b, hf, hc, hd, ht, rfl⟩)
  · intro h
    refine ⟨(reads_iff hct hn).mpr ⟨h.mark, h.length⟩, ?_, fun _ _ _ _ k _ => lt_growMax _ hpos k,
      fun type seq data ho ht => ?_, fun seq data ho => ?_⟩
    · obtain ⟨herr, hok⟩ := @findPacket_spec c input n hn
      unfold decodeInputBytes
      cases hf : c.findPacket input n with
      | error r => exact (herr r hf).1
      | ok b =>
        obtain ⟨h5, m, hm, -, hin⟩ := hok b hf
        exact parseBody_discard (hin (h.mark h5 m hm))
    · obtain ⟨b, hf, hc, hd, rfl, rfl⟩ := outcome_packet_iff.mp ho
      exact (hfits _).mpr (h.terminator b data hf hc hd ht)
    · obtain ⟨b, hf, hc, hd, hte, rfl⟩ := outcome_packet_iff.mp ho
      exact h.message b data hf hc hd hte

end ParseContext
/-- The parser of a session with the default parameters. -/
def defaultContext : ParseContext :=
  ⟨setDefaultSessionParameters ⟨false, false, false⟩, 35, 1, false, false, .kmR, false⟩

/-- A MARK in the last of five bytes: the parser goes on to the byte behind them. -/
theorem not_inBounds_lastMark :
    ¬ InBounds defaultContext blockSize (fun i => [13, 13, 13, 13, 1].getD i 0) 5 := by
  intro h
  have hreads := h.reads
  revert hreads
  decide

/-- The five bytes of a NAK are read as they should be. -/
theorem inBounds_nak :
    InBounds defaultContext (blockSize * 2 ^ 0) (fun i => [1, 35, 32, 78, 51].getD i 0) 5 := by
  refine (ParseContext.inBounds_iff (.inl rfl) (by decide) 0).mpr ?_
  have hmark : findMark defaultContext.session.mark (fun i => [1, 35, 32, 78, 51].getD i 0) 5 =
      some 0 := by decide
  have hfind : defaultContext.findPacket (fun i => [1, 35, 32, 78, 51].getD i 0) 5 =
      .ok ⟨0, 4, 1, 3, some .knak, 0⟩ := by rfl
  constructor
  · intro _ m hm
    rw [hmark] at hm
    cases hm
    decide
  · intro b hb _
    rw [hfind] at hb
    cases hb
    exact .inl (by decide)
  · intro b data hb _ _ ht
    rw [hfind] at hb
    cases hb
    cases ht
  · intro b data hb _ _ ht
    rw [hfind] at hb
    cases hb
    cases ht

end CProgram.Kermit
