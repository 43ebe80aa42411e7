import CProgram.Kermit.Decode

/-! What `encode_data_field` puts into a packet, `decode_data_field` takes out of it: the three
prefixes undo each other for every legal choice of their characters. -/
namespace CProgram.Kermit
open Bytes

/-- Prefix characters that a negotiation may choose: printable, and no two alike. -/
structure Prefixes.Legal (p : Prefixes) : Prop where
  qctl : validPrefix p.qctl = true
  qbin : p.qbin = 32 ∨ (validPrefix p.qbin = true ∧ p.qbin ≠ p.qctl)
  rept : p.rept = 32 ∨ (validPrefix p.rept = true ∧ p.rept ≠ p.qctl ∧ p.rept ≠ p.qbin)

/-- What the prefixes do to a byte, checked over all of them at once. -/
theorem byte_cases : ∀ b : UInt8,
    (validPrefix b = true → b ≠ 32 ∧ b &&& 0x80 = 0 ∧ b &&& 0x7F = b ∧ isControl (ctl b &&& 0x7F) = false) ∧
    (b &&& 0x80 ≠ 0 → (b &&& 0x7F) ||| 0x80 = b) ∧ ctl b &&& 0x7F = ctl (b &&& 0x7F) &&& 0x7F ∧
    (isControl (b &&& 0x7F) = true → validPrefix (ctl b) = false ∧ ctl b ≠ 32) := by
  apply forall_byte; decide +kernel

theorem validPrefix_clean (b : UInt8) (h : validPrefix b = true) :
    b ≠ 32 ∧ b &&& 0x80 = 0 ∧ b &&& 0x7F = b ∧ isControl (ctl b &&& 0x7F) = false :=
  (byte_cases b).1 h

theorem high_low (b : UInt8) (h : b &&& 0x80 ≠ 0) : (b &&& 0x7F) ||| 0x80 = b :=
  (byte_cases b).2.1 h

theorem low_low (b : UInt8) : b &&& 0x7F &&& 0x7F = b &&& 0x7F := by
  rw [UInt8.and_assoc, UInt8.and_self]

theorem ctl_low (b : UInt8) : ctl b &&& 0x7F = ctl (b &&& 0x7F) &&& 0x7F :=
  (byte_cases b).2.2.1

theorem ctl_ctl (b : UInt8) : ctl (ctl b) = b := by
  rw [ctl, ctl, UInt8.xor_assoc, UInt8.xor_self, UInt8.xor_zero]

theorem ctl_control (b : UInt8) (h : isControl (b &&& 0x7F) = true) :
    validPrefix (ctl b) = false ∧ ctl b ≠ 32 :=
  (byte_cases b).2.2.2 h

namespace Prefixes.Legal
variable {p : Prefixes}

theorem valid_of_quoted (h : p.Legal) {q : UInt8} (hq : p.quoted q = true) :
    validPrefix q = true := by
  simp only [Prefixes.quoted, Bool.or_eq_true, Bool.and_eq_true, decide_eq_true_eq] at hq
  rcases hq with (⟨h1, rfl⟩ | ⟨h1, rfl⟩) | rfl
  · exact (h.rept.resolve_left h1).1
  · exact (h.qbin.resolve_left h1).1
  · exact h.qctl

theorem quoted_of_not_valid (h : p.Legal) {q : UInt8} (hq : validPrefix q = false) :
    p.quoted q = false := by
  by_contra hc
  have hv := h.valid_of_quoted (by simpa using hc)
  simp [hq] at hv

end Prefixes.Legal

namespace DecodeContext
variable {c : DecodeContext}

/-- Between two characters: no prefix is open, `out` is decoded, `n` counts the next one. -/
def Ready (c : DecodeContext) (d : Decoder) (n : Nat) (out : List UInt8) : Prop :=
  ∃ x, c.settle d = ⟨false, false, false, n, x, false, out⟩

theorem loop_cons (ch : UInt8) (rest : List UInt8) (d d' : Decoder)
    (h : c.step (c.settle d) ch = some d') : c.loop (ch :: rest) d = c.loop rest d' := by
  simp [loop, h]

@[simp] theorem settle_mk (a b r : Bool) (n : Nat) (x : UInt8) (out : List UInt8) :
    c.settle ⟨a, b, r, n, x, false, out⟩ = ⟨a, b, r, n, x, false, out⟩ := rfl

theorem settle_pending (hs : c.stripCr = false) (n : Nat) (x : UInt8) (out : List UInt8) :
    c.settle ⟨false, false, false, n, x, true, out⟩ =
      ⟨false, false, false, 1, x, false, out ++ List.replicate n x⟩ := by
  simp [settle, emit, hs]

variable (hl : c.prefixes.Legal) (hr : c.raw = false) (hs : c.stripCr = false)

include hl hr in
theorem step_qctl (b : Bool) (n : Nat) (x : UInt8) (out : List UInt8) :
    c.step ⟨false, b, false, n, x, false, out⟩ c.prefixes.qctl =
      some ⟨true, b, false, n, x, false, out⟩ := by
  have h : ¬ (c.prefixes.rept ≠ 32 ∧ c.prefixes.qctl = c.prefixes.rept) := by
    rintro ⟨h1, h2⟩
    rcases hl.rept with h | ⟨-, h, -⟩
    · exact h1 h
    · exact h h2.symm
  simp [step, hr, h]

include hl hr in
theorem step_qbin (hq : c.prefixes.qbin ≠ 32) (n : Nat) (x : UInt8) (out : List UInt8) :
    c.step ⟨false, false, false, n, x, false, out⟩ c.prefixes.qbin =
      some ⟨false, true, false, n, x, false, out⟩ := by
  have hqc : c.prefixes.qbin ≠ c.prefixes.qctl := (hl.qbin.resolve_left hq).2
  have h : ¬ (c.prefixes.rept ≠ 32 ∧ c.prefixes.qbin = c.prefixes.rept) := by
    rintro ⟨h1, h2⟩
    rcases hl.rept with h | ⟨-, -, h⟩
    · exact h1 h
    · exact h h2.symm
  simp [step, hr, h, hqc, hq]

/-- A prefix character behind QCTL stands for itself, with the 8th bit if QBIN was there. -/
theorem step_quoted (hr : c.raw = false) (q : UInt8) (hq : c.prefixes.quoted q = true)
    (b : Bool) (n : Nat) (x : UInt8) (out : List UInt8) :
    c.step ⟨true, b, false, n, x, false, out⟩ q =
      some ⟨false, false, false, n, if b then q ||| 0x80 else q, true, out⟩ := by
  simp only [Prefixes.quoted, Bool.or_eq_true, Bool.and_eq_true, decide_eq_true_eq] at hq
  by_cases h1 : c.prefixes.rept ≠ 32 ∧ q = c.prefixes.rept
  · cases b <;> simp [step, hr, h1]
  · by_cases h2 : q = c.prefixes.qctl
    · cases b <;> simp [step, hr, h2]
      all_goals grind
    · have h3 : c.prefixes.qbin ≠ 32 ∧ q = c.prefixes.qbin := by tauto
      cases b <;> simp [step, hr, h3]
      all_goals grind

/-- Any other character ends the sequence. -/
theorem step_plain (hr : c.raw = false) (hs : c.stripCr = false) (ch : UInt8)
    (hq : c.prefixes.quoted ch = false) (a b : Bool) (n : Nat) (x : UInt8)
    (out : List UInt8) :
    c.step ⟨a, b, false, n, x, false, out⟩ ch =
      some ⟨false, false, false, 1, x, false, out ++ List.replicate n
        (let ch := if a ∧ isControl (ctl ch &&& 0x7F) then ctl ch else ch
         if b then ch ||| 0x80 else ch)⟩ := by
  simp only [Prefixes.quoted, Bool.or_eq_false_iff, Bool.and_eq_false_iff,
    decide_eq_false_iff_not] at hq
  have h1 : ¬ (c.prefixes.rept ≠ 32 ∧ ch = c.prefixes.rept) := by tauto
  have h2 : ¬ (c.prefixes.qbin ≠ 32 ∧ ch = c.prefixes.qbin) := by tauto
  simp [step, hr, h1, h2, hq.2, emit, hs]

include hl hr hs in
theorem loop_encodeOnce (ch : UInt8) (rest : List UInt8) (d : Decoder) (n : Nat)
    (out : List UInt8) (hd : Ready c d n out) :
    ∃ d', c.loop (encodeOnce c.prefixes ch ++ rest) d = c.loop rest d' ∧
      Ready c d' 1 (out ++ List.replicate n ch) := by
  obtain ⟨x, hd⟩ := hd
  -- the opening QBIN
  have hbin : ∃ d₁, c.settle d₁ = ⟨false, c.prefixes.needQbin ch, false, n, x, false, out⟩ ∧
      ∀ l, c.loop ((if c.prefixes.needQbin ch then [c.prefixes.qbin] else []) ++ l) d
        = c.loop l d₁ := by
    cases hA : c.prefixes.needQbin ch with
    | false => exact ⟨d, hd, fun l => rfl⟩
    | true =>
      have hq : c.prefixes.qbin ≠ 32 := by
        simp [Prefixes.needQbin] at hA
        exact hA.1
      refine ⟨⟨false, true, false, n, x, false, out⟩, rfl, fun l => ?_⟩
      exact loop_cons _ _ _ _ (by rw [hd]; exact step_qbin hl hr hq n x out)
  obtain ⟨d₁, hd₁, hbin⟩ := hbin
  -- then QCTL
  set b := c.prefixes.needQbin ch with hb
  set a := c.prefixes.quoted (ch &&& 0x7F) || isControl (ch &&& 0x7F) with ha
  have hctl : ∃ d₂, c.settle d₂ = ⟨a, b, false, n, x, false, out⟩ ∧
      ∀ l, c.loop ((if a then [c.prefixes.qctl] else []) ++ l) d₁ = c.loop l d₂ := by
    cases hA : a with
    | false => exact ⟨d₁, hd₁, fun l => rfl⟩
    | true =>
      refine ⟨⟨true, b, false, n, x, false, out⟩, rfl, fun l => ?_⟩
      exact loop_cons _ _ _ _ (by rw [hd₁]; exact step_qctl hl hr b n x out)
  obtain ⟨d₂, hd₂, hctl⟩ := hctl
  -- then the character itself
  set o := if b then ch &&& 0x7F else ch with ho
  have hback : (if b then o ||| 0x80 else o) = ch := by
    cases hbv : b with
    | false => simp [ho, hbv]
    | true =>
      have : ch &&& 0x80 ≠ 0 := by
        simp [hb, Prefixes.needQbin] at hbv
        exact hbv.2
      simpa [ho, hbv] using high_low ch this
  have hlast : ∃ d₃, c.step (c.settle d₂)
      (if !c.prefixes.quoted (ch &&& 0x7F) && isControl (ch &&& 0x7F) then ctl o else o) =
        some d₃ ∧ Ready c d₃ 1 (out ++ List.replicate n ch) := by
    rw [hd₂]
    have hlow : o &&& 0x7F = ch &&& 0x7F := by
      cases hbv : b <;> simp [ho, hbv, low_low]
    cases hQ : c.prefixes.quoted (ch &&& 0x7F) with
    | true =>
      have haT : a = true := by simp [ha, hQ]
      simp only [haT, Bool.not_true, Bool.false_and, Bool.false_eq_true, if_false]
      by_cases ho7 : o = ch &&& 0x7F
      · refine ⟨_, step_quoted hr o (by rw [ho7]; exact hQ) b n x out, ch, ?_⟩
        rw [hback, settle_pending hs]
      · -- an 8-bit character on a line without QBIN: QCTL stands before it all the same
        have hbF : b = false := by
          cases hbv : b with
          | false => rfl
          | true => simp [ho, hbv] at ho7
        have hoc : o = ch := by simp [ho, hbF]
        have hv := validPrefix_clean _ (hl.valid_of_quoted hQ)
        refine ⟨_, step_plain hr hs o (hl.quoted_of_not_valid ?_) true b n x out, x, ?_⟩
        · rw [hoc] at ho7 ⊢
          by_contra hc
          exact ho7 (validPrefix_clean ch (by simpa using hc)).2.2.1.symm
        · have hno : isControl (ctl ch &&& 0x7F) = false := by rw [ctl_low]; exact hv.2.2.2
          simp [hno, hbF, hoc]
    | false =>
      cases hK : isControl (ch &&& 0x7F) with
      | true =>
        have haT : a = true := by simp [ha, hK]
        simp only [haT, Bool.not_false, Bool.true_and, if_true]
        have hK' : isControl (o &&& 0x7F) = true := by rw [hlow]; exact hK
        have hv := ctl_control o hK'
        refine ⟨_, step_plain hr hs _ (hl.quoted_of_not_valid hv.1) true b n x out, x, ?_⟩
        simp [ctl_ctl, hK', hback]
      | false =>
        have haF : a = false := by simp [ha, hQ, hK]
        simp only [haF, Bool.and_false, Bool.false_eq_true, if_false]
        refine ⟨_, step_plain hr hs o ?_ false b n x out, x, ?_⟩
        · by_cases ho7 : o = ch &&& 0x7F
          · rw [ho7]; exact hQ
          · refine hl.quoted_of_not_valid ?_
            by_contra hc
            have := (validPrefix_clean o (by simpa using hc)).2.2.1
            rw [hlow] at this
            exact ho7 this.symm
        · simp [hback]
  obtain ⟨d₃, hstep, hready⟩ := hlast
  refine ⟨d₃, ?_, hready⟩
  simp only [encodeOnce, List.append_assoc]
  rw [hbin, hctl]
  exact loop_cons _ _ _ _ hstep

include hr in
/-- The repeat prefix and its count, whichever character the count happens to be. -/
theorem loop_repeat (hp : c.prefixes.rept ≠ 32) (n : Nat) (hn : n ≤ 94) (rest : List UInt8)
    (d : Decoder) (m : Nat) (out : List UInt8) (hd : Ready c d m out) :
    ∃ d', c.loop (c.prefixes.rept :: tochar (UInt8.ofNat n) :: rest) d = c.loop rest d' ∧
      Ready c d' n out := by
  obtain ⟨x, hd⟩ := hd
  have h1 : c.step (c.settle d) c.prefixes.rept = some ⟨false, false, true, m, x, false, out⟩ := by
    simp [hd, step, hr, hp]
  have hcount : (unchar (tochar (UInt8.ofNat n))).toNat = n := by
    rw [unchar_tochar, UInt8.toNat_ofNat']
    omega
  have h2 : c.step (c.settle ⟨false, false, true, m, x, false, out⟩) (tochar (UInt8.ofNat n)) =
      some ⟨false, false, false, n, x, false, out⟩ := by
    by_cases he : tochar (UInt8.ofNat n) = c.prefixes.rept
    · rw [he] at hcount ⊢
      simp [step, hr, hp, hcount]
    · simp [step, hr, he]
      omega
  exact ⟨_, by rw [loop_cons _ _ _ _ h1, loop_cons _ _ _ _ h2], x, rfl⟩

include hl hr hs in
theorem loop_encodeOneByte (ct : Nat) (hct : ct ≠ 12) (ch : UInt8) (n : Nat) (hn : n ≤ 94)
    (hp : c.prefixes.rept ≠ 32 ∨ n ≤ 3) (rest : List UInt8) (d : Decoder) (out : List UInt8)
    (hd : Ready c d 1 out) :
    ∃ d', c.loop (encodeOneByte c.prefixes ct ch n ++ rest) d = c.loop rest d' ∧
      Ready c d' 1 (out ++ List.replicate n ch) := by
  unfold encodeOneByte
  by_cases h3 : 3 < n
  · have hrept := hp.resolve_right (by omega)
    obtain ⟨d₁, h1, hd₁⟩ := loop_repeat hr hrept n hn (encodeOnce c.prefixes ch ++ rest) d 1 out hd
    obtain ⟨d₂, h2, hd₂⟩ := loop_encodeOnce hl hr hs ch rest d₁ n out hd₁
    refine ⟨d₂, ?_, hd₂⟩
    simp only [h3, true_or, if_true, List.cons_append]
    rw [h1, h2]
  · simp only [h3, hct, false_and, or_self, if_false]
    clear hp hn h3
    induction n generalizing d out with
    | zero => exact ⟨d, by simp, by simpa using hd⟩
    | succ n ih =>
      obtain ⟨d₁, h1, hd₁⟩ := loop_encodeOnce hl hr hs ch
        ((List.replicate n (encodeOnce c.prefixes ch)).flatten ++ rest) d 1 out hd
      obtain ⟨d₂, h2, hd₂⟩ := ih d₁ _ hd₁
      refine ⟨d₂, ?_, ?_⟩
      · rw [List.replicate_succ, List.flatten_cons, List.append_assoc, h1, h2]
      · simpa [List.replicate_succ, List.append_assoc] using hd₂

/-- Whatever follows, decoding `bytes` from the start leaves `out` decoded. -/
def Decodes (c : DecodeContext) (bytes out : List UInt8) : Prop :=
  ∀ rest, ∃ d, c.loop (bytes ++ rest) .init = c.loop rest d ∧ Ready c d 1 out

theorem decodes_nil : Decodes c [] [] := fun _ => ⟨.init, rfl, 0, rfl⟩

include hl hr hs in
theorem Decodes.append {bytes out : List UInt8} (h : Decodes c bytes out) (ct : Nat)
    (hct : ct ≠ 12) (ch : UInt8) (n : Nat) (hn : n ≤ 94) (hp : c.prefixes.rept ≠ 32 ∨ n ≤ 3) :
    Decodes c (bytes ++ encodeOneByte c.prefixes ct ch n) (out ++ List.replicate n ch) := by
  intro rest
  obtain ⟨d, h1, hd⟩ := h (encodeOneByte c.prefixes ct ch n ++ rest)
  obtain ⟨d', h2, hd'⟩ := loop_encodeOneByte hl hr hs ct hct ch n hn hp rest d out hd
  exact ⟨d', by rw [List.append_assoc, h1, h2], hd'⟩

theorem Decodes.decodeDataField {bytes out : List UInt8} (h : Decodes c bytes out) :
    decodeDataField c bytes = some out := by
  obtain ⟨d, h1, x, hd⟩ := h []
  simp only [List.append_nil] at h1
  simp [Kermit.decodeDataField, h1, loop, hd]

end DecodeContext

/-- No byte stands four times in a row. -/
def NoLongRun (l : List UInt8) : Prop := ∀ b, ¬ List.replicate 4 b <:+: l

namespace EncodeContext
variable {c : EncodeContext} {dc : DecodeContext}

theorem NoLongRun.count_le {l : List UInt8} (h : NoLongRun l) (pre : List UInt8) (b : UInt8)
    (n : Nat) (hl : pre ++ List.replicate n b <:+: l) : n ≤ 3 := by
  by_contra hc
  refine h b (List.IsInfix.trans ⟨pre ++ List.replicate (n - 4) b, [], ?_⟩ hl)
  rw [List.append_nil, List.append_assoc, List.replicate_append_replicate]
  congr 2
  omega

/-- The encoder has taken `done`: all but the current run of it is encoded. -/
structure Holds (c : EncodeContext) (dc : DecodeContext) (e : Encoder) (done : List UInt8) :
    Prop where
  taken : e.taken = done.length
  split : ∃ pre, done = pre ++ List.replicate e.repeatCount e.lastCh ∧ dc.Decodes e.out pre
  count : e.repeatCount ≤ 94
  fresh : e.first = true → e.repeatCount = 0
  crlf : e.crlf = false

theorem holds_init : Holds c dc .init [] :=
  ⟨rfl, ⟨[], rfl, DecodeContext.decodes_nil⟩, by simp [Encoder.init], fun _ => rfl, rfl⟩

variable (hp : c.prefixes = dc.prefixes) (hl : dc.prefixes.Legal) (hr : c.raw = false)
  (hdr : dc.raw = false) (hs : dc.stripCr = false) (hct : c.checkType ≠ 12)

include hp hl hr hdr hs hct in
theorem Holds.take {e : Encoder} {done : List UInt8} (h : Holds c dc e done) (ch : UInt8)
    (ht : c.textMode = true → ch ≠ cr ∧ ch ≠ lf)
    (hrun : dc.prefixes.rept ≠ 32 ∨ NoLongRun done) : Holds c dc (c.take e ch) (done ++ [ch]) := by
  obtain ⟨htaken, ⟨pre, hdone, hpre⟩, hcount, hfresh, hcrlf⟩ := h
  have h3 : dc.prefixes.rept ≠ 32 ∨ e.repeatCount ≤ 3 :=
    hrun.imp_right fun hno => NoLongRun.count_le hno pre e.lastCh _ (by rw [← hdone])
  have hcr : ¬ (c.textMode = true ∧ ch = cr) := fun hc => (ht hc.1).1 hc.2
  have hlf : ¬ (c.textMode = true ∧ ch = lf) := fun hc => (ht hc.1).2 hc.2
  unfold EncodeContext.take accept
  simp only [hr, hcr, hlf, Bool.false_eq_true, if_false]
  unfold EncodeContext.count
  by_cases hf : e.first = true
  · have h0 := hfresh hf
    simp only [hf, if_true, true_and, Nat.zero_lt_succ, zero_add]
    refine ⟨by simp [htaken], ⟨pre, ?_, hpre⟩, by simp, by simp, hcrlf⟩
    simp [hdone, h0]
  · simp only [hf, Bool.false_eq_true, if_false]
    by_cases hrun : e.lastCh = ch ∧ e.repeatCount < 94
    · simp only [hrun, and_self, if_true]
      refine ⟨by simp [htaken], ⟨pre, ?_, hpre⟩, by simp; omega, by simp, hcrlf⟩
      simp [hdone, hrun.1, List.replicate_succ']
    · simp only [hrun, if_false]
      refine ⟨by simp [htaken], ⟨done, by simp, ?_⟩, by simp, by simp, hcrlf⟩
      have := hpre.append hl hdr hs c.checkType hct e.lastCh e.repeatCount hcount h3
      rw [hp, hdone]
      exact this

include hp hl hr hdr hs hct in
theorem Holds.loop {e : Encoder} {done : List UInt8} (h : Holds c dc e done)
    (input : List UInt8) (ht : c.textMode = true → ∀ ch ∈ input, ch ≠ cr ∧ ch ≠ lf)
    (hrun : dc.prefixes.rept ≠ 32 ∨ NoLongRun (done ++ input)) :
    ∃ taken, taken <+: input ∧ Holds c dc (c.loop input e).1 (done ++ taken) := by
  induction input generalizing e done with
  | nil =>
    refine ⟨[], List.nil_prefix, ?_⟩
    simp only [EncodeContext.loop, h.crlf, Bool.false_eq_true, if_false, List.append_nil]
    split <;> exact h
  | cons ch rest ih =>
    simp only [EncodeContext.loop, h.crlf, Bool.false_eq_true, if_false]
    split
    · have hdone : dc.prefixes.rept ≠ 32 ∨ NoLongRun done :=
        hrun.imp_right fun hno b hb => hno b (hb.trans (List.infix_append' [] done _))
      have h1 := h.take hp hl hr hdr hs hct ch (fun htext => ht htext ch (by simp)) hdone
      obtain ⟨taken, htk, hfin⟩ := ih h1
        (fun htext x hx => ht htext x (List.mem_cons_of_mem ch hx)) (by simpa using hrun)
      exact ⟨ch :: taken, by simpa using htk, by simpa using hfin⟩
    · exact ⟨[], List.nil_prefix, by simpa using h⟩

include hp hl hr hdr hs hct in
/-- A data field decodes to the bytes it stands for, if text mode leaves them as they are. -/
theorem decode_encodeDataField (input : List UInt8)
    (ht : c.textMode = true → ∀ ch ∈ input, ch ≠ cr ∧ ch ≠ lf)
    (hrun : dc.prefixes.rept ≠ 32 ∨ NoLongRun input) :
    decodeDataField dc (encodeDataField c input).bytes =
      some (input.take (encodeDataField c input).outstanding) := by
  obtain ⟨taken, hpre, ⟨htaken, ⟨pre, hdone, hdec⟩, hcount, hfresh, hcrlf⟩⟩ :=
    (holds_init : Holds c dc .init []).loop hp hl hr hdr hs hct input ht (by simpa using hrun)
  simp only [List.nil_append] at htaken hdone
  have h3 : dc.prefixes.rept ≠ 32 ∨ (c.loop input .init).1.repeatCount ≤ 3 :=
    hrun.imp_right fun hno => NoLongRun.count_le hno pre _ _ (hdone ▸ hpre.isInfix)
  have hfin : dc.Decodes (c.finish (c.loop input .init).1) taken := by
    unfold finish
    simp only [hcrlf, Bool.false_eq_true, and_false, if_false, List.append_nil]
    split
    · rw [hp, hdone]
      exact hdec.append hl hdr hs c.checkType hct _ _ hcount h3
    · have h0 : (c.loop input .init).1.repeatCount = 0 := by omega
      rw [hdone, h0]
      simpa using hdec
  simp only [encodeDataField, htaken]
  rw [hfin.decodeDataField, ← List.prefix_iff_eq_take.mp hpre]

end EncodeContext
end CProgram.Kermit
