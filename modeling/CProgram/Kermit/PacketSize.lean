import CProgram.Kermit.DataField
import CProgram.Kermit.Packet

/-! How large a File-Data packet can get: bounds on the data field from the pattern of prefixes
at its end, and the sessions in which no packet exceeds the limits of the peer. -/
namespace CProgram.Kermit
open Bytes

/-- The longest encoding of one character, and of a run of three. -/
def Prefixes.charMax (p : Prefixes) : Nat := if p.qbin = 32 then 2 else 3

theorem length_encodeOnce_le (p : Prefixes) (ch : UInt8) :
    (encodeOnce p ch).length ≤ p.charMax := by
  have hbin : p.needQbin ch = true → p.qbin ≠ 32 := by
    intro h
    simp only [Prefixes.needQbin, Bool.and_eq_true, decide_eq_true_eq] at h
    exact h.1
  unfold encodeOnce Prefixes.charMax
  by_cases hq : p.qbin = 32
  · have hno : p.needQbin ch = false := by
      by_contra hc
      exact hbin (by simpa using hc) hq
    simp only [hno, hq, Bool.false_eq_true, if_false, if_true]
    split <;> simp
  · simp only [hq, if_false]
    split <;> split <;> simp

theorem encodeOneByte_one (p : Prefixes) {ct : Nat} (hct : ct ≠ 12) (ch : UInt8) :
    encodeOneByte p ct ch 1 = encodeOnce p ch := by
  simp [encodeOneByte, hct]

theorem length_encodeOneByte_le (p : Prefixes) {ct : Nat} (hct : ct ≠ 12) (ch : UInt8) (n : Nat) :
    (encodeOneByte p ct ch n).length ≤ 3 * p.charMax := by
  have h1 := length_encodeOnce_le p ch
  have h2 : 2 ≤ p.charMax := by
    unfold Prefixes.charMax
    split <;> omega
  unfold encodeOneByte
  by_cases h3 : 3 < n
  · simp only [h3, true_or, if_true, List.length_cons]
    omega
  · simp only [h3, hct, false_and, or_self, if_false, List.length_flatten, List.map_replicate,
      List.sum_replicate, smul_eq_mul]
    calc n * (encodeOnce p ch).length ≤ 3 * p.charMax := Nat.mul_le_mul (by omega) h1

/-- A control character takes two characters, on every line. -/
theorem length_encodeOnce_control (p : Prefixes) (ch : UInt8)
    (h8 : ch &&& 0x80 = 0) (hc : isControl (ch &&& 0x7F) = true) :
    (encodeOnce p ch).length = 2 := by
  simp [encodeOnce, Prefixes.needQbin, h8, hc]

theorem length_encodeOnce_high {p : Prefixes} (hq : p.qbin ≠ 32) (ch : UInt8)
    (h8 : ch &&& 0x80 ≠ 0) (hc : isControl (ch &&& 0x7F) = true) :
    (encodeOnce p ch).length = 3 := by
  simp [encodeOnce, Prefixes.needQbin, h8, hc, hq]

namespace EncodeContext
variable {c : EncodeContext} {lim : Nat}

/-- The state between two turns of the loop when characters are taken only below `lim`: a run
longer than one is still pending in front of the limit. -/
structure Bounded (c : EncodeContext) (lim : Nat) (e : Encoder) : Prop where
  plain : e.crlf = false → e.out.length ≤ lim - 1 ∨
    (e.repeatCount ≤ 1 ∧ e.out.length ≤ lim - 1 + 3 * c.prefixes.charMax)
  pending : e.crlf = true → c.textMode = true ∧ e.first = false ∧ e.lastCh = cr ∧
    e.repeatCount = 1 ∧ e.out.length ≤ lim - 1 + 3 * c.prefixes.charMax
  last : e.crlf = false → e.first = false → c.textMode = true → e.lastCh ≠ cr

theorem bounded_init : Bounded c lim .init :=
  ⟨fun _ => .inl (Nat.zero_le _), by simp [Encoder.init], by simp [Encoder.init]⟩

variable (hct : c.checkType ≠ 12) (hraw : c.raw = false)
  (hroom : ∀ e, c.room e = true → e.out.length < lim)

theorem length_cr : (encodeOnce c.prefixes cr).length = 2 :=
  length_encodeOnce_control _ cr (by decide) (by decide)

theorem length_lf : (encodeOnce c.prefixes lf).length = 2 :=
  length_encodeOnce_control _ lf (by decide) (by decide)

include hct in
/-- Counting a character that is not the CR of a new line. -/
theorem bounded_count {e : Encoder} (hout : e.out.length ≤ lim - 1)
    (hcrlf : e.crlf = false) (ch : UInt8) (hch : c.textMode = true → ch ≠ cr) :
    Bounded c lim (c.count e ch) := by
  have henc := length_encodeOneByte_le c.prefixes hct e.lastCh e.repeatCount
  unfold EncodeContext.count
  by_cases hf : e.first = true
  · simp only [hf, if_true, true_and, Nat.zero_lt_succ, zero_add]
    exact ⟨fun _ => .inl hout, by simp [hcrlf], fun _ _ => hch⟩
  · simp only [hf, Bool.false_eq_true, if_false]
    by_cases hrun : e.lastCh = ch ∧ e.repeatCount < 94
    · simp only [hrun, and_self, if_true]
      exact ⟨fun _ => .inl hout, by simp [hcrlf], fun _ _ => hch⟩
    · simp only [hrun, if_false]
      refine ⟨fun _ => .inr ⟨le_rfl, ?_⟩, by simp [hcrlf], fun _ _ => hch⟩
      simp only [List.length_append]
      omega

include hct in
theorem Bounded.countCr {e : Encoder} (h : Bounded c lim e) (hout : e.out.length ≤ lim - 1)
    (hcrlf : e.crlf = false) (ht : c.textMode = true) :
    Bounded c lim (c.count { e with crlf := true } cr) := by
  have henc := length_encodeOneByte_le c.prefixes hct e.lastCh e.repeatCount
  unfold EncodeContext.count
  by_cases hf : e.first = true
  · simp only [hf, if_true, true_and, Nat.zero_lt_succ, zero_add]
    exact ⟨by simp, fun _ => ⟨ht, rfl, rfl, rfl, by simp only; omega⟩, by simp⟩
  · have hcr : e.lastCh ≠ cr := h.last hcrlf (by simpa using hf) ht
    simp only [hf, Bool.false_eq_true, if_false, hcr, false_and]
    refine ⟨by simp, fun _ => ⟨ht, by simp, rfl, rfl, ?_⟩, by simp⟩
    simp only [List.length_append]
    omega

include hct in
theorem Bounded.countLf {e : Encoder} (h : Bounded c lim e) (hout : e.out.length ≤ lim - 1)
    (hcrlf : e.crlf = true) : Bounded c lim (c.count { e with crlf := false } lf) := by
  obtain ⟨ht, hf, hlast, hcount, -⟩ := h.pending hcrlf
  have hne : (cr = lf) = False := by simp [cr, lf]
  unfold EncodeContext.count
  simp only [hf, hlast, hcount, hne, Bool.false_eq_true, if_false, false_and,
    encodeOneByte_one _ hct]
  refine ⟨fun _ => .inr ⟨le_rfl, ?_⟩, by simp, fun _ _ _ => by simp [cr, lf]⟩
  have h2 := length_cr (c := c)
  simp only [List.length_append, Prefixes.charMax]
  split <;> omega

include hct hraw in
theorem Bounded.accept {e : Encoder} (h : Bounded c lim e) (hout : e.out.length ≤ lim - 1)
    (ch : UInt8) (hch : e.crlf = true → ch = lf) : Bounded c lim (c.accept e ch) := by
  unfold EncodeContext.accept
  simp only [hraw, Bool.false_eq_true, if_false]
  by_cases hcrlf : e.crlf = true
  · have ht := (h.pending hcrlf).1
    have hlf : lf ≠ cr := by decide
    simp only [hch hcrlf, ht, hcrlf, hlf, and_true, and_false, if_true, if_false]
    exact h.countLf hct hout hcrlf
  · have hcrlf' : e.crlf = false := by simpa using hcrlf
    by_cases h1 : c.textMode = true ∧ ch = cr
    · simp only [h1, and_self, if_true]
      exact h
    · by_cases h2 : c.textMode = true ∧ ch = lf
      · have hlf : lf ≠ cr := by decide
        simp only [h2, hcrlf', hlf, and_true, and_false, if_true, if_false, Bool.false_eq_true]
        exact h.countCr hct hout hcrlf' h2.1
      · simp only [h1, h2, if_false]
        exact bounded_count hct hout hcrlf' ch fun ht hcr => h1 ⟨ht, hcr⟩

theorem bounded_taken {e : Encoder} (h : Bounded c lim e) (n : Nat) :
    Bounded c lim { e with taken := n } :=
  ⟨h.plain, h.pending, h.last⟩

theorem crlf_accept_lf {e : Encoder} (hraw : c.raw = false) (h : Bounded c lim e)
    (hcrlf : e.crlf = true) : (c.accept e lf).crlf = false := by
  have ht := (h.pending hcrlf).1
  have hlf : lf ≠ cr := by decide
  unfold EncodeContext.accept EncodeContext.count
  simp only [hraw, ht, hcrlf, hlf, and_true, and_false, if_true, if_false, Bool.false_eq_true]
  split_ifs <;> rfl

include hct hraw hroom in
theorem Bounded.loop {e : Encoder} (h : Bounded c lim e) (input : List UInt8) :
    Bounded c lim (c.loop input e).1 := by
  have hbelow (e : Encoder) (hr : c.room e = true) : e.out.length ≤ lim - 1 := by
    have := hroom e hr
    omega
  induction input generalizing e with
  | nil =>
    simp only [EncodeContext.loop]
    split_ifs with hr hcrlf
    · exact h.accept hct hraw (hbelow e hr) lf fun _ => rfl
    · exact h
    · exact h
  | cons ch rest ih =>
    have htake (e : Encoder) (h : Bounded c lim e) (hr : c.room e = true)
        (hcrlf : e.crlf = false) : Bounded c lim (c.take e ch) :=
      (bounded_taken h (e.taken + 1)).accept hct hraw (hbelow e hr) ch (by simp [hcrlf])
    simp only [EncodeContext.loop]
    split_ifs with hr hcrlf hr'
    · have h1 := h.accept hct hraw (hbelow e hr) lf fun _ => rfl
      exact ih (htake _ h1 hr' (crlf_accept_lf hraw h hcrlf))
    · exact h.accept hct hraw (hbelow e hr) lf fun _ => rfl
    · exact ih (htake e h hr (by simpa using hcrlf))
    · exact h

include hct in
theorem Bounded.length_finish {e : Encoder} (h : Bounded c lim e) :
    (c.finish e).length ≤
      lim - 1 + 3 * c.prefixes.charMax + (if c.textMode then 4 else c.prefixes.charMax) := by
  have henc := length_encodeOneByte_le c.prefixes hct e.lastCh e.repeatCount
  have hmax : c.prefixes.charMax ≤ if c.textMode = true then 4 else c.prefixes.charMax := by
    unfold Prefixes.charMax
    split_ifs <;> omega
  unfold finish
  by_cases hcrlf : e.crlf = true
  · obtain ⟨ht, -, hlast, hcount, hout⟩ := h.pending hcrlf
    have h1 := length_cr (c := c)
    have h2 := length_lf (c := c)
    simp only [ht, hcrlf, hlast, hcount, and_self, if_true, Nat.zero_lt_one,
      encodeOneByte_one _ hct, List.length_append]
    omega
  · simp only [hcrlf, Bool.false_eq_true, and_false, if_false, List.append_nil,
      List.length_append]
    rcases h.plain (by simpa using hcrlf) with hout | ⟨hcount, hout⟩
    · split
      · omega
      · simp only [List.length_nil]
        omega
    · split
      · have h1 : e.repeatCount = 1 := by omega
        have h2 := length_encodeOnce_le c.prefixes e.lastCh
        rw [h1, encodeOneByte_one _ hct]
        omega
      · simp only [List.length_nil]
        omega

include hct hraw hroom in
/-- The last room test comes before a run of three, a character and a LF at the most. -/
theorem length_encodeDataField_le (input : List UInt8) :
    (encodeDataField c input).bytes.length ≤
      lim - 1 + 3 * c.prefixes.charMax + (if c.textMode then 4 else c.prefixes.charMax) :=
  (bounded_init.loop hct hraw hroom input).length_finish hct

end EncodeContext

def letter (b : Bool) : UInt8 := if b then 65 else 66

/-- Letters that no session quotes, and no run among them. -/
def alternating : Bool → Nat → List UInt8
  | _, 0 => []
  | b, n + 1 => letter b :: alternating (!b) n

theorem encodeOnce_letter {p : Prefixes} (hl : p.Legal) (b : Bool) :
    encodeOnce p (letter b) = [letter b] := by
  have h7 : letter b &&& 0x7F = letter b := by cases b <;> decide
  have h8 : letter b &&& 0x80 = 0 := by cases b <;> decide
  have hq : p.quoted (letter b) = false := hl.quoted_of_not_valid (by cases b <;> decide)
  have hc : isControl (letter b) = false := by cases b <;> decide
  simp [encodeOnce, Prefixes.needQbin, h7, h8, hq, hc]

namespace EncodeContext
variable {c : EncodeContext} (hl : c.prefixes.Legal) (hct : c.checkType ≠ 12)
  (hraw : c.raw = false)

theorem loop_take (e : Encoder) (ch : UInt8) (rest : List UInt8) (hr : c.room e = true)
    (hc : e.crlf = false) : c.loop (ch :: rest) e = c.loop rest (c.take e ch) := by
  simp [EncodeContext.loop, hr, hc]

theorem loop_nil (e : Encoder) (h : e.crlf = false ∨ c.room e = false) : (c.loop [] e).1 = e := by
  rcases h with hc | hr
  · simp only [EncodeContext.loop, hc, Bool.false_eq_true, if_false]
    split_ifs <;> rfl
  · simp [EncodeContext.loop, hr]

include hraw in
theorem take_first (y : UInt8) (hy : c.textMode = true → y ≠ cr ∧ y ≠ lf) :
    c.take .init y = ⟨[], y, 1, false, false, 1⟩ := by
  have h1 : ¬ (c.textMode = true ∧ y = cr) := fun h => (hy h.1).1 h.2
  have h2 : ¬ (c.textMode = true ∧ y = lf) := fun h => (hy h.1).2 h.2
  simp [EncodeContext.take, EncodeContext.accept, EncodeContext.count, hraw, h1, h2, Encoder.init]

include hraw in
theorem take_same (y : UInt8) (hy : c.textMode = true → y ≠ cr ∧ y ≠ lf) (out : List UInt8)
    (k t : Nat) (hk : k < 94) :
    c.take ⟨out, y, k, false, false, t⟩ y = ⟨out, y, k + 1, false, false, t + 1⟩ := by
  have h1 : ¬ (c.textMode = true ∧ y = cr) := fun h => (hy h.1).1 h.2
  have h2 : ¬ (c.textMode = true ∧ y = lf) := fun h => (hy h.1).2 h.2
  simp [EncodeContext.take, EncodeContext.accept, EncodeContext.count, hraw, h1, h2, hk]

include hraw in
theorem take_new (x y : UInt8) (hxy : x ≠ y) (hy : c.textMode = true → y ≠ cr ∧ y ≠ lf)
    (out : List UInt8) (k t : Nat) :
    c.take ⟨out, x, k, false, false, t⟩ y =
      ⟨out ++ encodeOneByte c.prefixes c.checkType x k, y, 1, false, false, t + 1⟩ := by
  have h1 : ¬ (c.textMode = true ∧ y = cr) := fun h => (hy h.1).1 h.2
  have h2 : ¬ (c.textMode = true ∧ y = lf) := fun h => (hy h.1).2 h.2
  simp [EncodeContext.take, EncodeContext.accept, EncodeContext.count, hraw, h1, h2, hxy]

include hraw in
theorem take_newline (ht : c.textMode = true) (x : UInt8) (hx : x ≠ cr) (out : List UInt8)
    (k t : Nat) :
    c.take ⟨out, x, k, false, false, t⟩ lf =
      ⟨out ++ encodeOneByte c.prefixes c.checkType x k, cr, 1, false, true, t + 1⟩ := by
  have hlf : lf ≠ cr := by decide
  simp [EncodeContext.take, EncodeContext.accept, EncodeContext.count, hraw, ht, hx, hlf]

include hl hct hraw in
theorem loop_alternating (n : Nat) (hroom : ∀ e : Encoder, e.out.length ≤ n → c.room e = true)
    (m : Nat) (b : Bool) (y : UInt8) (hb : ∀ b, letter b ≠ y)
    (hy : c.textMode = true → y ≠ cr ∧ y ≠ lf) (rest out : List UInt8) (t : Nat)
    (hn : out.length + m < n) :
    ∃ out', out'.length = out.length + m + 1 ∧
      c.loop (alternating (!b) m ++ y :: rest) ⟨out, letter b, 1, false, false, t⟩ =
        c.loop rest ⟨out', y, 1, false, false, t + m + 1⟩ := by
  have hone (b : Bool) :
      encodeOneByte c.prefixes c.checkType (letter b) 1 = [letter b] := by
    rw [encodeOneByte_one _ hct, encodeOnce_letter hl]
  induction m generalizing b out t with
  | zero =>
    have hr := hroom ⟨out, letter b, 1, false, false, t⟩ (by simp only; omega)
    refine ⟨out ++ [letter b], by simp, ?_⟩
    rw [alternating, List.nil_append, loop_take _ _ _ hr rfl, take_new hraw _ _ (hb b) hy, hone]
  | succ m ih =>
    have hr := hroom ⟨out, letter b, 1, false, false, t⟩ (by simp only; omega)
    have hne : letter b ≠ letter (!b) := by cases b <;> decide
    have hletter : c.textMode = true → letter (!b) ≠ cr ∧ letter (!b) ≠ lf := by
      intro _
      cases b <;> decide
    obtain ⟨out', hlen, hloop⟩ := ih (!b) (out ++ [letter b]) (t + 1)
      (by simp only [List.length_append, List.length_singleton]; omega)
    refine ⟨out', ?_, ?_⟩
    · rw [hlen, List.length_append, List.length_singleton]
      omega
    · rw [alternating, List.cons_append, loop_take _ _ _ hr rfl, take_new hraw _ _ hne hletter,
        hone, hloop, show t + (m + 1) + 1 = t + 1 + m + 1 by omega]

include hl hct hraw in
/-- From the start of a file: `n` letters are out and the first `y` is pending. -/
theorem loop_alternating_init (n : Nat)
    (hroom : ∀ e : Encoder, e.out.length ≤ n → c.room e = true) (y : UInt8)
    (hb : ∀ b, letter b ≠ y) (hy : c.textMode = true → y ≠ cr ∧ y ≠ lf) (rest : List UInt8) :
    ∃ out', out'.length = n ∧ c.loop (alternating true n ++ y :: rest) .init =
      c.loop rest ⟨out', y, 1, false, false, n + 1⟩ := by
  have hr := hroom .init (Nat.zero_le _)
  cases n with
  | zero =>
    refine ⟨[], rfl, ?_⟩
    rw [alternating, List.nil_append, loop_take _ _ _ hr rfl, take_first hraw y hy]
  | succ n =>
    have hletter : c.textMode = true → letter true ≠ cr ∧ letter true ≠ lf := by
      intro _
      decide
    obtain ⟨out', hlen, hloop⟩ :=
      loop_alternating hl hct hraw (n + 1) hroom n true y hb hy rest [] 1 (by simp)
    refine ⟨out', by simpa using hlen, ?_⟩
    rw [alternating, List.cons_append, loop_take _ _ _ hr rfl, take_first hraw _ hletter, hloop,
      show 1 + n + 1 = n + 1 + 1 by omega]

include hl hct hraw in
/-- A packet that gets to its last room test with three `y` pending. -/
theorem loop_three (n : Nat) (hroom : ∀ e : Encoder, e.out.length ≤ n → c.room e = true)
    (y : UInt8) (hb : ∀ b, letter b ≠ y) (hy : c.textMode = true → y ≠ cr ∧ y ≠ lf) (z : UInt8) :
    ∃ out', out'.length = n ∧ c.loop (alternating true n ++ [y, y, y, z]) .init =
      c.loop [] (c.take ⟨out', y, 3, false, false, n + 3⟩ z) := by
  obtain ⟨out', hlen, hloop⟩ := loop_alternating_init hl hct hraw n hroom y hb hy [y, y, z]
  have hr (k t : Nat) : c.room ⟨out', y, k, false, false, t⟩ = true :=
    hroom _ (by simp only; omega)
  refine ⟨out', hlen, ?_⟩
  rw [hloop, loop_take _ _ _ (hr _ _) rfl, take_same hraw y hy _ _ _ (by omega),
    loop_take _ _ _ (hr _ _) rfl, take_same hraw y hy _ _ _ (by omega),
    loop_take _ _ _ (hr _ _) rfl]

include hct in
theorem length_three (y : UInt8) : (encodeOneByte c.prefixes c.checkType y 3).length =
    3 * (encodeOnce c.prefixes y).length := by
  simp [encodeOneByte, hct, List.replicate_succ]
  omega

include hl hct hraw in
theorem length_binary (ht : c.textMode = false) (n : Nat)
    (hroom : ∀ e : Encoder, e.out.length ≤ n → c.room e = true) (y z : UInt8) (hyz : y ≠ z)
    (hb : ∀ b, letter b ≠ y) :
    (encodeDataField c (alternating true n ++ [y, y, y, z])).bytes.length =
      n + 3 * (encodeOnce c.prefixes y).length + (encodeOnce c.prefixes z).length := by
  obtain ⟨out', hlen, hloop⟩ := loop_three hl hct hraw n hroom y hb (by simp [ht]) z
  rw [take_new hraw y z hyz (by simp [ht])] at hloop
  simp only [encodeDataField, hloop]
  rw [loop_nil _ (.inl rfl)]
  simp [finish, ht, encodeOneByte_one _ hct, length_three hct, hlen]
  omega

include hl hct hraw in
/-- The same in text mode, where a new line comes last. -/
theorem length_text (ht : c.textMode = true) (n : Nat)
    (hroom : ∀ e : Encoder, e.out.length ≤ n → c.room e = true)
    (hfull : ∀ e : Encoder, n < e.out.length → c.room e = false) (y : UInt8)
    (hb : ∀ b, letter b ≠ y) (hy : y ≠ cr ∧ y ≠ lf) (hpos : 0 < (encodeOnce c.prefixes y).length) :
    (encodeDataField c (alternating true n ++ [y, y, y, lf])).bytes.length =
      n + 3 * (encodeOnce c.prefixes y).length + 4 := by
  obtain ⟨out', hlen, hloop⟩ := loop_three hl hct hraw n hroom y hb (fun _ => hy) lf
  rw [take_newline hraw ht y hy.1] at hloop
  simp only [encodeDataField, hloop]
  rw [loop_nil _ (.inr (hfull _ (by simp [length_three hct, hlen]; omega)))]
  simp [finish, ht, encodeOneByte_one _ hct, length_three hct, length_cr, length_lf, hlen]
  omega

end EncodeContext
/-- `free_space_needed` of `kermit()`. -/
def freeSpaceNeeded (s remote : SessionParameters) : Nat :=
  (if s.longPackets then s.maxlx else s.maxl.toNat) + (remote.npad.toNat + 10)

/-- LENX1 * 95 + LENX2, as `decode_input_bytes` reads them. -/
def lenxValue (packet : List UInt8) : Nat :=
  (unchar (packet.getD 4 0)).toNat * 95 + (unchar (packet.getD 5 0)).toNat

/-- The packet keeps to what the peer said, a receiver with the same session does not turn it
down for its length, and it fits with its padding into the space reserved for it. -/
structure WithinLimits (s remote : SessionParameters) (packet : List UInt8) : Prop where
  len : s.longPackets = false → (unchar (packet.getD 1 0)).toNat ≤ s.maxl.toNat
  lenx : s.longPackets = true → lenxValue packet ≤ remote.maxlx
  accepted : s.longPackets = true → lenxValue packet ≤ s.maxlx
  space : remote.npad.toNat + packet.length ≤ freeSpaceNeeded s remote

/-- The link of the session once the Send-Init is answered. -/
structure Link.Runs (l : Link) (s : SessionParameters) : Prop where
  session : l.session = s
  checkType : l.checkType = negotiatedCheckType s

/-- A File-Data packet with the file from position `p` on. -/
def Link.dataPacket (l : Link) (seq : Nat) (file : List UInt8) (p : Nat) : Frame :=
  l.encodeOutputPacket ⟨.kdata, seq, []⟩ (file.drop p)

/-- Every File-Data packet of every file, in text and in binary mode. -/
def AllWithinLimits (s remote : SessionParameters) : Prop :=
  ∀ l : Link, l.Runs s → ∀ (seq : Nat) (file : List UInt8) (p : Nat),
    WithinLimits s remote (l.frameBytes (l.dataPacket seq file p))

/-- Long packets to a peer with a large enough MAXLX, or packets that never hold a byte. -/
def SizeCondition (s remote : SessionParameters) : Prop :=
  if s.longPackets then
    if s.maxl < 7 then s.qbin = 32 ∧ 1022 ≤ remote.maxlx
    else (if s.qbin = 32 then 1020 else 1024) ≤ remote.maxlx
  else s.maxl = 5

instance (s remote : SessionParameters) : Decidable (SizeCondition s remote) := by
  unfold SizeCondition
  infer_instance

variable {o : Options} {data : List UInt8} {s remote : SessionParameters}

section Session
variable (hp : processSendInit data = some remote)
  (hs : s = negotiateSendInit (setDefaultSessionParameters o) remote
    (setDefaultSessionParameters o))
include hp hs

theorem negotiated_of_processSendInit : negotiated o data = some s := by
  simp [negotiated, hp, hs]

omit hp in
theorem maxl_le : s.maxl.toNat ≤ 80 := by
  have h80 : (setDefaultSessionParameters o).maxl.toNat = 80 := rfl
  subst hs
  simp only [negotiateSendInit]
  split
  · exact h80.le
  · next h =>
    rw [UInt8.lt_iff_toNat_lt] at h
    omega

variable {l : Link} (hl : l.Runs s)
include hl

theorem dataContext_spec : (l.fieldContext .kdata).prefixes.Legal ∧
    (l.fieldContext .kdata).checkType ≠ 12 ∧ (l.fieldContext .kdata).raw = false := by
  have hn := negotiated_of_processSendInit hp hs
  have hct := negotiated_checkType hn
  have hlegal := negotiated_legal hn
  refine ⟨?_, ?_, rfl⟩
  · simpa [Link.fieldContext, hl.session, SessionParameters.prefixes] using hlegal
  · simp only [Link.fieldContext, hl.checkType]
    omega

/-- The room tests of a File-Data packet, in numbers. -/
theorem room_iff (e : Encoder) : (l.fieldContext .kdata).room e = true ↔
    e.out.length < (if s.longPackets then 1010 else sub32 s.maxl.toNat 5) ∧
      (l.textMode = true → e.out.length < sub32 s.maxl.toNat 7) := by
  have hmax := negotiated_maxlx (negotiated_of_processSendInit hp hs)
  have h1010 : sub32 (sub32 1024 9) 5 = 1010 := by decide
  cases hlong : s.longPackets <;> cases ht : l.textMode <;>
    simp [EncodeContext.room, Link.fieldContext, Link.longPacket, hl.session, hlong, ht, hmax,
      h1010]

theorem dataPacket_checkType (seq : Nat) (file : List UInt8) (p : Nat) :
    (l.dataPacket seq file p).checkType = 1 ∨ (l.dataPacket seq file p).checkType = 3 := by
  have hct := negotiated_checkType (negotiated_of_processSendInit hp hs)
  simpa [Link.dataPacket, Link.encodeOutputPacket, Link.outputCheckType, hl.checkType] using hct

/-- What the limits mean for the data field of a normal packet. -/
theorem within_normal (hlong : s.longPackets = false) (seq : Nat) (file : List UInt8) (p : Nat) :
    let f := l.dataPacket seq file p
    WithinLimits s remote (l.frameBytes f) ↔
      (f.field.length + 2 + f.checkType) % 256 ≤ s.maxl.toNat ∧
        f.field.length + f.checkType ≤ s.maxl.toNat + 5 := by
  intro f
  have hct : f.checkType = 1 ∨ f.checkType = 3 := dataPacket_checkType hp hs hl seq file p
  have hf : f.longPacket = false := by
    simp [f, Link.dataPacket, Link.encodeOutputPacket, Link.longPacket, hl.session, hlong]
  have hcl : checkTypeLength f.checkType = f.checkType := by
    rcases hct with h | h <;> simp [h, checkTypeLength]
  have hpl : f.packetLength = f.field.length + 2 + f.checkType := by
    simp [Frame.packetLength, hf, hcl]
  have hbytes : (l.frameBytes f).length = f.field.length + 5 + f.checkType := by
    rw [Link.frameBytes, Frame.length_bytes (by tauto), hpl]
    omega
  have hlen : (unchar ((l.frameBytes f).getD 1 0)).toNat =
      (f.field.length + 2 + f.checkType) % 256 := by
    simp [Link.frameBytes, Frame.bytes, Frame.header, hf, hpl, UInt8.toNat_ofNat']
  constructor
  · intro h
    have h1 := h.len hlong
    have h2 := h.space
    simp only [freeSpaceNeeded, hlong, Bool.false_eq_true, if_false] at h2
    omega
  · rintro ⟨h1, h2⟩
    refine ⟨fun _ => by omega, by simp [hlong], by simp [hlong], ?_⟩
    simp only [freeSpaceNeeded, hlong, Bool.false_eq_true, if_false]
    omega

/-- What they mean for the data field of a long packet. -/
theorem within_long (hlong : s.longPackets = true) (seq : Nat) (file : List UInt8) (p : Nat)
    (hmax : (l.dataPacket seq file p).field.length ≤ 1022) :
    WithinLimits s remote (l.frameBytes (l.dataPacket seq file p)) ↔
      (l.dataPacket seq file p).field.length + 3 ≤ remote.maxlx ∧
        (l.dataPacket seq file p).field.length + 3 ≤ 1024 := by
  set f := l.dataPacket seq file p
  have hct : f.checkType = 1 ∨ f.checkType = 3 := dataPacket_checkType hp hs hl seq file p
  have hs1024 := negotiated_maxlx (negotiated_of_processSendInit hp hs)
  have hf : f.longPacket = true := by
    simp [f, Link.dataPacket, Link.encodeOutputPacket, Link.longPacket, hl.session, hlong]
  have hcl : checkTypeLength f.checkType = f.checkType := by
    rcases hct with h | h <;> simp [h, checkTypeLength]
  have hbytes : (l.frameBytes f).length = f.field.length + 8 + f.checkType := by
    rw [Link.frameBytes, Frame.length_bytes (by tauto)]
    simp [Frame.packetLength, hf, hcl]
    omega
  have hlenx : lenxValue (l.frameBytes f) = f.field.length + 3 := by
    simp [lenxValue, Link.frameBytes, Frame.bytes, Frame.header, Frame.lenx, hf,
      UInt8.toNat_ofNat']
    omega
  constructor
  · intro h
    have h1 := h.lenx hlong
    have h2 := h.accepted hlong
    omega
  · rintro ⟨h1, h2⟩
    refine ⟨by simp [hlong], fun _ => by omega, fun _ => by omega, ?_⟩
    simp only [freeSpaceNeeded, hlong, if_true]
    omega

/-- A character whose encoding is as long as any, and a second one. -/
def longChar (s : SessionParameters) (b : Bool) : UInt8 :=
  if s.qbin = 32 then (if b then 1 else 2) else (if b then 0x81 else 0x82)

omit hp hs in
theorem length_longChar (b : Bool) :
    (encodeOnce (l.fieldContext .kdata).prefixes (longChar s b)).length =
      (l.fieldContext .kdata).prefixes.charMax := by
  have hqbin : (l.fieldContext .kdata).prefixes.qbin = s.qbin := by
    simp [Link.fieldContext, hl.session]
  unfold longChar Prefixes.charMax
  by_cases hq : s.qbin = 32
  · simp only [hq, hqbin, if_true]
    cases b <;> exact length_encodeOnce_control _ _ (by decide) (by decide)
  · simp only [hq, hqbin, if_false]
    cases b <;> exact length_encodeOnce_high (by rw [hqbin]; exact hq) _ (by decide) (by decide)

omit hp hs hl in
theorem longChar_plain (b c : Bool) : letter b ≠ longChar s c ∧ longChar s c ≠ cr ∧
    longChar s c ≠ lf ∧ longChar s true ≠ longChar s false := by
  unfold longChar
  by_cases hq : s.qbin = 32
  · simp only [hq, if_true]
    revert b c
    decide
  · simp only [hq, if_false]
    revert b c
    decide

/-- A packet of a binary file that goes over its last room test as far as it can. -/
theorem exists_binary (ht : l.textMode = false) (n : Nat)
    (hn : n < if s.longPackets then 1010 else sub32 s.maxl.toNat 5) (seq : Nat) :
    ∃ file, (l.dataPacket seq file 0).field.length =
      n + 4 * (l.fieldContext .kdata).prefixes.charMax := by
  obtain ⟨hlegal, hct, hraw⟩ := dataContext_spec hp hs hl
  have hplain := longChar_plain (s := s)
  refine ⟨_, (EncodeContext.length_binary hlegal hct hraw ht n (fun e he => ?_)
    (longChar s true) (longChar s false) (hplain true true).2.2.2
    (fun b => (hplain b true).1)).trans ?_⟩
  · rw [room_iff hp hs hl]
    exact ⟨by omega, by simp [ht]⟩
  · rw [length_longChar hl, length_longChar hl]
    omega

/-- A long packet of a text file does the same when MAXL is so small that its test wraps. -/
theorem exists_text (ht : l.textMode = true) (hlong : s.longPackets = true)
    (hmaxl : s.maxl.toNat < 7) (n : Nat) (hn : n = 1009) (seq : Nat) :
    ∃ file, (l.dataPacket seq file 0).field.length =
      n + 3 * (l.fieldContext .kdata).prefixes.charMax + 4 := by
  obtain ⟨hlegal, hct, hraw⟩ := dataContext_spec hp hs hl
  have hplain := longChar_plain (s := s)
  have hlen := length_longChar hl true
  have hpos : 0 < (l.fieldContext .kdata).prefixes.charMax := by
    unfold Prefixes.charMax
    split <;> omega
  have hroom (e : Encoder) :
      (l.fieldContext .kdata).room e = true ↔ e.out.length < 1010 ∧
        e.out.length < 2 ^ 32 + s.maxl.toNat - 7 := by
    rw [room_iff hp hs hl, sub32_of_lt hmaxl]
    simp only [hlong, ht, if_true, forall_const]
    omega
  refine ⟨_, (EncodeContext.length_text hlegal hct hraw ht n (fun e he => ?_) (fun e he => ?_)
    (longChar s true) (fun b => (hplain b true).1) ⟨(hplain true true).2.1, ?_⟩ ?_).trans ?_⟩
  · rw [hroom]
    omega
  · by_contra hc
    have := (hroom e).mp (by simpa using hc)
    omega
  · exact (hplain true true).2.2.1
  · omega
  · rw [hlen]

omit hl in
theorem sizeCondition_of_all (hall : AllWithinLimits s remote) : SizeCondition s remote := by
  have hcharMax (l : Link) (hl : l.Runs s) : (l.fieldContext .kdata).prefixes.charMax =
      if s.qbin = 32 then 2 else 3 := by
    simp [Prefixes.charMax, Link.fieldContext, hl.session]
  have hmaxl := maxl_le hs
  unfold SizeCondition
  by_cases hlong : s.longPackets = true
  · simp only [hlong, if_true]
    by_cases h7 : s.maxl < 7
    · let l : Link := ⟨s, negotiatedCheckType s, 1, false, true⟩
      have hl : l.Runs s := ⟨rfl, rfl⟩
      have h7' : s.maxl.toNat < 7 := by simpa [UInt8.lt_iff_toNat_lt] using h7
      obtain ⟨file, hfile⟩ := exists_text hp hs hl rfl hlong h7' 1009 rfl 2
      rw [hcharMax l hl] at hfile
      have hw := (within_long hp hs hl hlong 2 file 0 (by rw [hfile]; split <;> omega)).mp
        (hall l hl 2 file 0)
      simp only [h7, if_true]
      split at hfile
      · next hq => exact ⟨hq, by omega⟩
      · omega
    · let l : Link := ⟨s, negotiatedCheckType s, 1, false, false⟩
      have hl : l.Runs s := ⟨rfl, rfl⟩
      obtain ⟨file, hfile⟩ := exists_binary hp hs hl rfl 1009 (by simp [hlong]) 2
      rw [hcharMax l hl] at hfile
      have hw := (within_long hp hs hl hlong 2 file 0 (by rw [hfile]; split <;> omega)).mp
        (hall l hl 2 file 0)
      simp only [h7, if_false]
      split at hfile <;> split <;> omega
  · have hlong' : s.longPackets = false := by simpa using hlong
    simp only [hlong', Bool.false_eq_true, if_false]
    let l : Link := ⟨s, negotiatedCheckType s, 1, false, false⟩
    have hl : l.Runs s := ⟨rfl, rfl⟩
    -- the room left for letters in front of the last run
    by_contra h5
    have h5' : s.maxl.toNat ≠ 5 := fun hc => h5 (UInt8.toNat_inj.mp hc)
    obtain ⟨n, hn, hbig⟩ : ∃ n, n < sub32 s.maxl.toNat 5 ∧ s.maxl.toNat ≤ n + 6 ∧ n ≤ 100 := by
      by_cases hlt : s.maxl.toNat < 5
      · exact ⟨100, by rw [sub32_of_lt hlt]; omega, by omega⟩
      · exact ⟨s.maxl.toNat - 6, by rw [sub32_of_le (by omega) (by omega)]; omega, by omega⟩
    obtain ⟨file, hfile⟩ := exists_binary hp hs hl rfl n (by simpa [hlong'] using hn) 2
    rw [hcharMax l hl] at hfile
    have hw := (within_normal hp hs hl hlong' 2 file 0).mp (hall l hl 2 file 0)
    have hct := dataPacket_checkType hp hs hl 2 file 0
    split at hfile <;> omega

omit hl in
theorem all_of_sizeCondition (hc : SizeCondition s remote) : AllWithinLimits s remote := by
  intro l hl seq file p
  have hcharMax : (l.fieldContext .kdata).prefixes.charMax = if s.qbin = 32 then 2 else 3 := by
    simp [Prefixes.charMax, Link.fieldContext, hl.session]
  obtain ⟨hlegal, hct, hraw⟩ := dataContext_spec hp hs hl
  have hmaxl := maxl_le hs
  have hbound (lim : Nat)
      (hlim : ∀ e, (l.fieldContext .kdata).room e = true → e.out.length < lim) :
      (l.dataPacket seq file p).field.length ≤
        lim - 1 + 3 * (l.fieldContext .kdata).prefixes.charMax +
          (if l.textMode then 4 else (l.fieldContext .kdata).prefixes.charMax) :=
    EncodeContext.length_encodeDataField_le hct hraw hlim (file.drop p)
  rw [hcharMax] at hbound
  unfold SizeCondition at hc
  by_cases hlong : s.longPackets = true
  · simp only [hlong, if_true] at hc
    have h1010 := hbound 1010 fun e he => by
      have := ((room_iff hp hs hl e).mp he).1
      simpa [hlong] using this
    have hwithin (h : (l.dataPacket seq file p).field.length ≤ 1021)
        (h' : (l.dataPacket seq file p).field.length + 3 ≤ remote.maxlx) :=
      (within_long hp hs hl hlong seq file p (by omega)).mpr ⟨h', by omega⟩
    by_cases h7 : s.maxl < 7
    · simp only [h7, if_true] at hc
      simp only [hc.1, if_true] at h1010
      apply hwithin <;> split at h1010 <;> omega
    · simp only [h7, if_false] at hc
      have h7' : 7 ≤ s.maxl.toNat := by simpa [UInt8.lt_iff_toNat_lt] using h7
      by_cases ht : l.textMode = true
      · have htext := hbound (s.maxl.toNat - 7) fun e he => by
          have := ((room_iff hp hs hl e).mp he).2 ht
          rwa [sub32_of_le h7' (by omega)] at this
        simp only [ht, if_true] at htext
        apply hwithin <;> split at htext <;> split at hc <;> omega
      · simp only [ht, Bool.false_eq_true, if_false] at h1010
        apply hwithin <;> split at h1010 <;> split at hc <;> simp_all <;> omega
  · have hlong' : s.longPackets = false := by simpa using hlong
    simp only [hlong', Bool.false_eq_true, if_false] at hc
    have h5 : sub32 s.maxl.toNat 5 = 0 := by
      rw [hc]
      decide
    have hnone (e : Encoder) : (l.fieldContext .kdata).room e = false := by
      by_contra hr
      have := ((room_iff hp hs hl e).mp (by simpa using hr)).1
      simp [hlong', h5] at this
    have hloop (input : List UInt8) : (l.fieldContext .kdata).loop input .init = (.init, false) := by
      cases input <;> simp [EncodeContext.loop, hnone]
    have hfield : (l.dataPacket seq file p).field.length = 0 := by
      have hempty : (l.fieldContext .kdata).finish .init = [] := by
        simp [EncodeContext.finish, Encoder.init]
      simp only [Link.dataPacket, Link.encodeOutputPacket, encodeDataField, hloop, hempty,
        List.length_nil]
    have hct' := dataPacket_checkType hp hs hl seq file p
    have hmax5 : s.maxl.toNat = 5 := by rw [hc]; rfl
    refine (within_normal hp hs hl hlong' seq file p).mpr ?_
    rw [hfield, hmax5]
    omega

omit hl in
/-- No File-Data packet of the session is too large exactly when long packets were agreed on
with a peer whose MAXLX leaves room for the run, the character and the new line that the encoder
appends behind its last test, or when packets are too small to hold a byte. -/
theorem allWithinLimits_iff : AllWithinLimits s remote ↔ SizeCondition s remote :=
  ⟨sizeCondition_of_all hp hs, all_of_sizeCondition hp hs⟩

end Session

/-- A normal packet of 80 letters and more says LEN = 81 to a peer with MAXL = 80. -/
theorem not_withinLimits_letters : ∃ remote s,
    processSendInit [112, 37, 32, 64, 45, 35, 89, 51, 126] = some remote ∧
    negotiated ⟨false, false, false⟩ [112, 37, 32, 64, 45, 35, 89, 51, 126] = some s ∧
    ¬ WithinLimits s remote (Link.frameBytes ⟨s, negotiatedCheckType s, 2, false, false⟩
      (Link.dataPacket ⟨s, negotiatedCheckType s, 2, false, false⟩ 2 (alternating true 100) 0)) := by
  refine ⟨_, _, rfl, rfl, fun h => ?_⟩
  have hlen := h.len rfl
  revert hlen
  decide +kernel

/-- With long packets, and a peer that takes 1024 bytes on an 8-bit line, no packet is too large. -/
theorem allWithinLimits_long : ∃ remote s,
    processSendInit [112, 37, 32, 64, 45, 35, 89, 51, 126, 62, 62, 42, 106] = some remote ∧
    negotiated ⟨false, true, false⟩ [112, 37, 32, 64, 45, 35, 89, 51, 126, 62, 62, 42, 106] =
      some s ∧
    AllWithinLimits s remote :=
  ⟨_, _, rfl, rfl, (@allWithinLimits_iff ⟨false, true, false⟩
    [112, 37, 32, 64, 45, 35, 89, 51, 126, 62, 62, 42, 106] _ _ rfl rfl).mpr (by decide)⟩

end CProgram.Kermit
