import CProgram.Kermit.Codec

/-! The data fields of a whole file: what each packet of a negotiated session decodes to, and
for which files a session without repeat prefix decodes them at all. -/
namespace CProgram.Kermit
open Bytes

/-- The session after the exchange of a Send-Init with payload `data`. -/
def negotiated (o : Options) (data : List UInt8) : Option SessionParameters :=
  (processSendInit data).map fun remote =>
    negotiateSendInit (setDefaultSessionParameters o) remote (setDefaultSessionParameters o)

/-- REPT and QBIN of the session. Both sides quote with `#`: QCTL is never negotiated. -/
def SessionParameters.prefixes (s : SessionParameters) : Prefixes := ⟨s.rept, s.qbin, s.qctl⟩

/-- What `encode_data_field` consults for a File-Data packet of the session. -/
def dataContext (s : SessionParameters) (textMode : Bool) : EncodeContext where
  prefixes := s.prefixes
  checkType := negotiatedCheckType s
  raw := false
  textMode := textMode
  dataMax := if s.longPackets then sub32 s.maxlx 9 else s.maxl.toNat
  maxl := s.maxl.toNat

/-- What `decode_data_field` of the peer consults for it. -/
def peerContext (s : SessionParameters) : DecodeContext := ⟨s.prefixes, false, false⟩

/-- The first `n` data packets of a file, each one starting where the last one ended. -/
def dataPackets (c : EncodeContext) : Nat → List UInt8 → List Encoded
  | 0, _ => []
  | n + 1, file =>
    encodeDataField c file :: dataPackets c n (file.drop (encodeDataField c file).outstanding)

/-- Every binary packet decodes to the bytes it stands for, and the packets up to the end of
the file to the whole of it. -/
structure RoundTrips (s : SessionParameters) (file : List UInt8) : Prop where
  packet : ∀ p, decodeDataField (peerContext s)
      (encodeDataField (dataContext s false) (file.drop p)).bytes =
    some ((file.drop p).take (encodeDataField (dataContext s false) (file.drop p)).outstanding)
  whole : ∀ n last, (dataPackets (dataContext s false) n file).getLast? = some last →
    last.eof = true →
    ((dataPackets (dataContext s false) n file).mapM
      (fun e => decodeDataField (peerContext s) e.bytes)).map List.flatten = some file

theorem negotiateQbin_legal (o : Options) (rem : UInt8) :
    let loc := setDefaultSessionParameters o
    let q := negotiateQbin loc.qbin rem loc.qbin loc.qctl
    q = 32 ∨ (validPrefix q = true ∧ q ≠ loc.qctl) := by
  cases h : o.sevenBitOnly
  all_goals
    simp only [setDefaultSessionParameters, h]
    revert rem
    apply forall_byte; decide +kernel

theorem negotiateRept_legal (o : Options) (rem qbin : UInt8) :
    let loc := setDefaultSessionParameters o
    let r := negotiateRept loc.rept rem loc.qctl qbin
    r = 32 ∨ (validPrefix r = true ∧ r ≠ loc.qctl ∧ r ≠ qbin) := by
  simp only [setDefaultSessionParameters, negotiateRept]
  by_cases h : rem = 35 ∨ rem = qbin
  · simp [h]
  · by_cases hr : (126 : UInt8) = rem
    · subst hr
      simp only [h, if_false, if_true]
      push Not at h
      exact .inr ⟨by decide, h.1, h.2⟩
    · simp [h, hr]

variable {o : Options} {data : List UInt8} {s : SessionParameters}

theorem negotiated_legal (h : negotiated o data = some s) : s.prefixes.Legal := by
  simp only [negotiated, Option.map_eq_some_iff] at h
  obtain ⟨remote, -, rfl⟩ := h
  have hq : validPrefix 35 = true := by decide
  exact ⟨hq, negotiateQbin_legal o remote.qbin, negotiateRept_legal o remote.rept _⟩

theorem negotiated_qctl (h : negotiated o data = some s) : s.qctl = 35 := by
  simp only [negotiated, Option.map_eq_some_iff] at h
  obtain ⟨remote, -, rfl⟩ := h
  rfl

theorem negotiated_checkType (h : negotiated o data = some s) :
    negotiatedCheckType s = 1 ∨ negotiatedCheckType s = 3 := by
  simp only [negotiated, Option.map_eq_some_iff] at h
  obtain ⟨remote, -, rfl⟩ := h
  by_cases hc : (51 : UInt8) = remote.chkt
  · right
    simp [negotiatedCheckType, negotiateSendInit, setDefaultSessionParameters, ← hc]
  · left
    simp [negotiatedCheckType, negotiateSendInit, setDefaultSessionParameters, hc]

/-- MAXLX of the session is the one of the defaults: it is not negotiated. -/
theorem negotiated_maxlx (h : negotiated o data = some s) : s.maxlx = 1024 := by
  simp only [negotiated, Option.map_eq_some_iff] at h
  obtain ⟨remote, -, rfl⟩ := h
  rfl

namespace EncodeContext
variable {c : EncodeContext}

theorem out_prefix_accept (e : Encoder) (ch : UInt8) : e.out <+: (c.accept e ch).out := by
  have hcount (e : Encoder) (ch : UInt8) : e.out <+: (c.count e ch).out := by
    unfold EncodeContext.count
    dsimp only
    split_ifs <;> simp
  unfold accept
  split_ifs
  · simp
  · exact List.prefix_rfl
  · exact hcount { e with crlf := false } lf
  · exact hcount { e with crlf := true } cr
  · exact hcount e ch

theorem taken_accept (e : Encoder) (ch : UInt8) : (c.accept e ch).taken = e.taken := by
  unfold accept EncodeContext.count
  dsimp only
  split_ifs <;> simp

theorem loop_grows (input : List UInt8) (e : Encoder) :
    e.out <+: (c.loop input e).1.out ∧ e.taken ≤ (c.loop input e).1.taken := by
  induction input generalizing e with
  | nil =>
    simp only [loop]
    split_ifs
    · exact ⟨out_prefix_accept e lf, (taken_accept e lf).ge⟩
    · exact ⟨List.prefix_rfl, le_rfl⟩
    · exact ⟨List.prefix_rfl, le_rfl⟩
  | cons ch rest ih =>
    have htake (e : Encoder) : e.out <+: (c.take e ch).out ∧ e.taken ≤ (c.take e ch).taken := by
      refine ⟨out_prefix_accept { e with taken := e.taken + 1 } ch, ?_⟩
      simp [EncodeContext.take, taken_accept]
    simp only [loop]
    split_ifs
    · have h := ih (c.take (c.accept e lf) ch)
      have h1 := htake (c.accept e lf)
      have h2 := out_prefix_accept (c := c) e lf
      have h3 := taken_accept (c := c) e lf
      exact ⟨h2.trans (h1.1.trans h.1), by omega⟩
    · exact ⟨out_prefix_accept e lf, (taken_accept e lf).ge⟩
    · have h := ih (c.take e ch)
      exact ⟨(htake e).1.trans h.1, (htake e).2.trans h.2⟩
    · exact ⟨List.prefix_rfl, le_rfl⟩

theorem out_prefix_finish (e : Encoder) : e.out <+: c.finish e := by
  simp [finish, List.append_assoc]

/-- A binary packet that ends with its input has taken all of it. -/
theorem loop_eof (ht : c.textMode = false) (input : List UInt8) (e : Encoder)
    (hc : e.crlf = false) (h : (c.loop input e).2 = true) :
    (c.loop input e).1.taken = e.taken + input.length := by
  have hcrlf (e : Encoder) (ch : UInt8) (h : e.crlf = false) : (c.take e ch).crlf = false := by
    unfold EncodeContext.take accept EncodeContext.count
    simp only [ht, Bool.false_eq_true, false_and, if_false]
    split_ifs <;> simp [h]
  induction input generalizing e with
  | nil =>
    simp only [loop, hc, Bool.false_eq_true, if_false] at h ⊢
    split_ifs <;> simp
  | cons ch rest ih =>
    simp only [loop, hc, Bool.false_eq_true, if_false] at h ⊢
    split_ifs at h ⊢
    rw [ih _ (hcrlf e ch hc) h]
    simp [EncodeContext.take, taken_accept]
    omega

/-- Inside a run that has not been encoded yet: the packet will begin with it. -/
theorem loop_run (hr : c.raw = false) (ht : c.textMode = false) (h0 : c.room .init = true)
    (b : UInt8) (input : List UInt8) (m : Nat) (hm : 4 ≤ m) (hm' : m ≤ 94) :
    ∃ n, 4 ≤ n ∧ n ≤ 94 ∧
      encodeOneByte c.prefixes c.checkType b n <+:
        c.finish (c.loop input ⟨[], b, m, false, false, m⟩).1 ∧
      4 ≤ (c.loop input ⟨[], b, m, false, false, m⟩).1.taken := by
  have hroom (m : Nat) : c.room ⟨[], b, m, false, false, m⟩ = true := h0
  induction input generalizing m with
  | nil =>
    refine ⟨m, hm, hm', ?_, by simp [loop, hroom, hm]⟩
    simp [loop, hroom, finish, show 0 < m by omega]
  | cons ch rest ih =>
    simp only [loop, hroom, if_true, Bool.false_eq_true, if_false]
    simp only [EncodeContext.take, accept, hr, ht, Bool.false_eq_true, if_false, false_and,
      EncodeContext.count]
    by_cases hrun : b = ch ∧ m < 94
    · simp only [hrun, and_self, if_true]
      obtain ⟨n, h1, h2, h3, h4⟩ := ih (m + 1) (by omega) (by omega)
      rw [hrun.1] at h3 h4
      exact ⟨n, h1, h2, h3, h4⟩
    · simp only [hrun, if_false]
      have hg := loop_grows (c := c) rest
        ⟨[] ++ encodeOneByte c.prefixes c.checkType b m, ch, 1, false, false, m + 1⟩
      exact ⟨m, hm, hm', hg.1.trans (out_prefix_finish _), by
        have := hg.2
        simp only at this ⊢
        omega⟩

end EncodeContext

namespace DecodeContext
variable {c : DecodeContext}

theorem step_grows (d d' : Decoder) (ch : UInt8) (h : c.step (c.settle d) ch = some d') :
    (c.settle d).out <+: (c.settle d').out := by
  have hemit (d : Decoder) (ch : UInt8) : d.out <+: c.emit d ch := by
    unfold emit
    split_ifs <;> simp
  have hsettle (d : Decoder) : d.out <+: (c.settle d).out := by
    unfold settle
    split_ifs
    · exact hemit d d.outputCh
    · exact List.prefix_rfl
  refine List.IsPrefix.trans ?_ (hsettle d')
  unfold step at h
  split_ifs at h <;> simp only [Option.some.injEq] at h <;> subst h
  all_goals first | exact List.prefix_rfl | exact hemit _ _ | simp

theorem loop_grows (input : List UInt8) (d d' : Decoder) (h : c.loop input d = some d') :
    (c.settle d).out <+: (c.settle d').out := by
  induction input generalizing d with
  | nil =>
    cases h
    exact List.prefix_rfl
  | cons ch rest ih =>
    simp only [loop] at h
    split at h
    · cases h
    · next d₁ h₁ => exact (step_grows d d₁ ch h₁).trans (ih d₁ h)

/-- A counted run means something else to a decoder without repeat prefix. -/
theorem not_run_of_decode (hl : c.prefixes.Legal) (hr : c.raw = false) (hs : c.stripCr = false)
    (h35 : c.prefixes.qctl = 35) (hrept : c.prefixes.rept = 32) (ct : Nat) (b : UInt8) (n : Nat)
    (hn : 4 ≤ n) (hn' : n ≤ 94) (tail out : List UInt8)
    (h : decodeDataField c (encodeOneByte c.prefixes ct b n ++ tail) = some out) :
    ¬ List.replicate 4 b <+: out := by
  have h32 : c.prefixes.quoted 32 = false := hl.quoted_of_not_valid (by decide)
  simp only [decodeDataField, Option.map_eq_some_iff] at h
  obtain ⟨d, hd, rfl⟩ := h
  have hfirst := step_plain hr hs 32 h32 false false 1 0 []
  simp only [encodeOneByte, show 3 < n by omega, true_or, if_true, hrept, List.cons_append] at hd
  rw [loop_cons _ _ .init _ hfirst] at hd
  simp only [Bool.false_eq_true, false_and, if_false, List.nil_append, List.replicate_one] at hd
  intro hrun
  by_cases hb : b = 32
  · subst hb
    -- the count comes out as a character of its own, or turns the next one into 0xA0
    have hcount : tochar (UInt8.ofNat n) ≠ 32 ∧ tochar (UInt8.ofNat n) ≠ 35 := by
      interval_cases n <;> decide
    have hsecond : ∃ x rest d₁, x ≠ 32 ∧ c.settle d₁ = d₁ ∧ d₁.out = [32, x] ∧
        c.loop rest d₁ = some d := by
      by_cases hq : c.prefixes.quoted (tochar (UInt8.ofNat n)) = true
      · have hbin : c.prefixes.qbin ≠ 32 ∧ tochar (UInt8.ofNat n) = c.prefixes.qbin := by
          simpa [Prefixes.quoted, hrept, h35, hcount.2] using hq
        have honce : encodeOnce c.prefixes 32 = [32] := by
          have h7 : (32 : UInt8) &&& 0x7F = 32 := by decide
          have h8 : (32 : UInt8) &&& 0x80 = 0 := by decide
          simp [encodeOnce, Prefixes.needQbin, h7, h8, h32, isControl]
        rw [hbin.2, loop_cons _ _ _ _ (step_qbin hl hr hbin.1 1 0 [32]), honce,
          List.singleton_append, loop_cons _ _ _ _ (step_plain hr hs 32 h32 false true 1 0 [32])]
          at hd
        exact ⟨_, _, _, by decide, rfl, rfl, hd⟩
      · have hq' : c.prefixes.quoted (tochar (UInt8.ofNat n)) = false := by simpa using hq
        rw [loop_cons _ _ _ _ (step_plain hr hs _ hq' false false 1 0 [32])] at hd
        exact ⟨_, _, _, hcount.1, rfl, by simp, hd⟩
    obtain ⟨x, rest, d₁, hx, hset, hout, hloop⟩ := hsecond
    have hgrow := loop_grows rest d₁ d hloop
    rw [hset, hout] at hgrow
    obtain ⟨t₁, h₁⟩ := hgrow
    obtain ⟨t₂, h₂⟩ := hrun
    rw [← h₁] at h₂
    simp [List.replicate_succ] at h₂
    exact hx h₂.1.symm
  · have hgrow := loop_grows _ _ d hd
    obtain ⟨t₁, h₁⟩ := hgrow
    obtain ⟨t₂, h₂⟩ := hrun
    rw [← h₁] at h₂
    simp [List.replicate_succ] at h₂
    exact hb h₂.1

end DecodeContext

theorem room_init (c : EncodeContext) (ht : c.textMode = false) :
    c.room .init = decide (sub32 c.dataMax 5 ≠ 0) := by
  simp [EncodeContext.room, Encoder.init, ht, Nat.pos_iff_ne_zero]

variable (h : negotiated o data = some s)
include h

theorem room_dataContext :
    (dataContext s false).room .init = true ↔ ¬ (s.longPackets = false ∧ s.maxl = 5) := by
  rw [room_init _ rfl, decide_eq_true_iff, not_iff_not]
  have hl := s.maxl.toNat_lt
  cases hlong : s.longPackets with
  | true =>
    have h5 : sub32 (sub32 1024 9) 5 ≠ 0 := by decide
    simp [dataContext, hlong, negotiated_maxlx h, h5]
  | false =>
    have h5 : s.maxl = 5 ↔ s.maxl.toNat = 5 := by rw [← UInt8.toNat_inj]; rfl
    simp only [dataContext, hlong, Bool.false_eq_true, if_false, true_and, h5, sub32]
    omega

theorem encodeDataField_noRoom (hno : s.longPackets = false ∧ s.maxl = 5) (input : List UInt8) :
    encodeDataField (dataContext s false) input = ⟨[], 0, false⟩ := by
  have hroom : (dataContext s false).room .init = false := by
    by_contra hc
    exact (room_dataContext h).mp (by simpa using hc) hno
  have hloop : (dataContext s false).loop input .init = (.init, false) := by
    cases input <;> simp [EncodeContext.loop, hroom]
  rw [encodeDataField, hloop]
  rfl

theorem packet_of_cond {file : List UInt8}
    (hc : s.rept ≠ 32 ∨ (s.longPackets = false ∧ s.maxl = 5) ∨ NoLongRun file) (p : Nat) :
    decodeDataField (peerContext s) (encodeDataField (dataContext s false) (file.drop p)).bytes =
      some ((file.drop p).take (encodeDataField (dataContext s false) (file.drop p)).outstanding)
    := by
  by_cases hno : s.longPackets = false ∧ s.maxl = 5
  · rw [encodeDataField_noRoom h hno]
    rfl
  · refine EncodeContext.decode_encodeDataField rfl (negotiated_legal h) rfl rfl rfl ?_ _
      (by simp [dataContext]) ?_
    · have := negotiated_checkType h
      simp only [dataContext]
      omega
    · refine hc.imp_right fun hc b hb => ?_
      exact (hc.resolve_left hno) b (hb.trans (List.drop_suffix p file).isInfix)

theorem noLongRun_of_packet {file : List UInt8} (hrept : s.rept = 32)
    (hroom : ¬ (s.longPackets = false ∧ s.maxl = 5))
    (hp : ∀ p, decodeDataField (peerContext s)
      (encodeDataField (dataContext s false) (file.drop p)).bytes =
      some ((file.drop p).take (encodeDataField (dataContext s false) (file.drop p)).outstanding)) :
    NoLongRun file := by
  rintro b ⟨pre, post, hfile⟩
  have h0 := (room_dataContext h).mpr hroom
  have hroom (m : Nat) (f : Bool) (x : UInt8) (k : Nat) :
      (dataContext s false).room ⟨[], x, m, f, false, k⟩ = true := h0
  -- the packet that starts with the run
  have hdrop : file.drop pre.length = b :: b :: b :: b :: post := by
    rw [← hfile, List.append_assoc, List.drop_left]
    rfl
  obtain ⟨n, hn, hn', ⟨tail, htail⟩, htaken⟩ :=
    EncodeContext.loop_run (c := dataContext s false) rfl rfl h0 b post 4 le_rfl (by omega)
  have hloop : (dataContext s false).loop (file.drop pre.length) .init =
      (dataContext s false).loop post ⟨[], b, 4, false, false, 4⟩ := by
    have htake (e : Encoder) (he : e.crlf = false) :
        (dataContext s false).take e b = (dataContext s false).count
          { e with taken := e.taken + 1 } b := by
      simp [EncodeContext.take, EncodeContext.accept, dataContext]
    rw [hdrop]
    simp [EncodeContext.loop, Encoder.init, hroom, htake, EncodeContext.count]
  have hdec := hp pre.length
  simp only [encodeDataField, hloop, ← htail] at hdec
  refine DecodeContext.not_run_of_decode (c := peerContext s) (negotiated_legal h) rfl rfl
    (negotiated_qctl h) hrept _ b n hn hn' tail _ hdec ?_
  rw [hdrop]
  obtain ⟨k, hk⟩ := Nat.exists_eq_add_of_le htaken
  rw [hk, Nat.add_comm 4 k]
  simp [List.replicate_succ]

omit h in
theorem dataPackets_whole (n : Nat) (file : List UInt8) (last : Encoded)
    (hp : ∀ p, decodeDataField (peerContext s)
      (encodeDataField (dataContext s false) (file.drop p)).bytes =
      some ((file.drop p).take (encodeDataField (dataContext s false) (file.drop p)).outstanding))
    (hlast : (dataPackets (dataContext s false) n file).getLast? = some last)
    (heof : last.eof = true) :
    ((dataPackets (dataContext s false) n file).mapM
      (fun e => decodeDataField (peerContext s) e.bytes)).map List.flatten = some file := by
  induction n generalizing file with
  | zero => simp [dataPackets] at hlast
  | succ n ih =>
    have hfirst := hp 0
    rw [List.drop_zero] at hfirst
    set e := encodeDataField (dataContext s false) file with he
    simp only [dataPackets, ← he] at hlast ⊢
    cases n with
    | zero =>
      simp only [dataPackets, List.getLast?_singleton, Option.some.injEq] at hlast
      have htaken : e.outstanding = file.length := by
        subst hlast
        simpa [he, encodeDataField, Encoder.init] using
          EncodeContext.loop_eof (c := dataContext s false) rfl file .init rfl heof
      simp [dataPackets, hfirst, htaken]
    | succ n =>
      have hrest := ih (file.drop e.outstanding)
        (fun p => by simpa [List.drop_drop] using hp (e.outstanding + p))
        (by simpa [dataPackets, List.getLast?_cons_cons] using hlast)
      simp only [Option.map_eq_some_iff] at hrest ⊢
      obtain ⟨pieces, hmap, hflat⟩ := hrest
      refine ⟨file.take e.outstanding :: pieces, ?_, ?_⟩
      · simp [List.mapM_cons, hfirst, hmap]
      · rw [List.flatten_cons, hflat, List.take_append_drop]

/-- Binary data packets decode to their file exactly when the repeat prefix was agreed on, no
packet has room for a byte, or no byte stands four times in a row: `encode_one_byte` counts
such a run whether or not REPT is there. -/
theorem roundTrips_iff (file : List UInt8) :
    RoundTrips s file ↔
      s.rept ≠ 32 ∨ (s.longPackets = false ∧ s.maxl = 5) ∨ NoLongRun file := by
  constructor
  · intro hr
    by_cases hrept : s.rept = 32
    · by_cases hroom : s.longPackets = false ∧ s.maxl = 5
      · exact .inr (.inl hroom)
      · exact .inr (.inr (noLongRun_of_packet h hrept hroom hr.packet))
    · exact .inl hrept
  · intro hc
    exact ⟨packet_of_cond h hc, fun n last hlast heof =>
      dataPackets_whole n file last (packet_of_cond h hc) hlast heof⟩

omit h in
/-- With a peer that leaves out REPT, the file `aaaa` arrives as ` $a`. -/
theorem not_roundTrips_run : ∃ s,
    negotiated ⟨false, false, false⟩ [112, 37, 32, 64, 45, 35, 89, 51] = some s ∧
    ¬ RoundTrips s [97, 97, 97, 97] := by
  refine ⟨_, rfl, fun hr => ?_⟩
  have hpacket := hr.packet 0
  revert hpacket
  decide

omit h in
/-- With REPT on both sides the same file does arrive. -/
theorem roundTrips_run : ∃ s,
    negotiated ⟨false, false, false⟩ [112, 37, 32, 64, 45, 35, 89, 51, 126] = some s ∧
    RoundTrips s [97, 97, 97, 97] :=
  ⟨_, rfl, (@roundTrips_iff ⟨false, false, false⟩ [112, 37, 32, 64, 45, 35, 89, 51, 126] _ rfl
    [97, 97, 97, 97]).mpr (.inl (by decide))⟩

end CProgram.Kermit
