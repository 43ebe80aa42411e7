import CProgram.Hydra.Coding

/-! A packet comes through the line: the receiver undoes the escapes of the line byte by byte, passing
over whatever the options have it strip, and then the encoding. -/
namespace CProgram.Hydra
open Bytes
variable {opts : Dword} {base : ℕ} {r : Rx}

/-- What a line may do to the bytes sent: characters that are stripped come in between, and where the
high bit does not count it may change. -/
inductive Noisy (opts : Dword) : List UInt8 → List UInt8 → Prop
  | nil : Noisy opts [] []
  | insert {sent line : List UInt8} (c : UInt8) (hc : stripped opts c = true) (h : Noisy opts sent line) :
      Noisy opts sent (c :: line)
  | byte {sent line : List UInt8} (a b : UInt8) (hab : narrowed opts a = narrowed opts b)
      (h : Noisy opts sent line) : Noisy opts (a :: sent) (b :: line)

theorem Noisy.append {front back line : List UInt8} (h : Noisy opts (front ++ back) line) :
    ∃ line₁ line₂, line = line₁ ++ line₂ ∧ Noisy opts front line₁ ∧ Noisy opts back line₂ := by
  generalize hall : front ++ back = sent at h
  induction h generalizing front with
  | nil =>
    obtain ⟨rfl, rfl⟩ := List.append_eq_nil_iff.mp hall
    exact ⟨[], [], rfl, .nil, .nil⟩
  | insert c hc h ih =>
    obtain ⟨line₁, line₂, rfl, hfront, hback⟩ := ih hall
    exact ⟨c :: line₁, line₂, rfl, .insert c hc hfront, hback⟩
  | byte a b hab h ih =>
    cases front with
    | nil =>
      rw [List.nil_append] at hall
      subst hall
      exact ⟨[], _, rfl, .nil, .byte a b hab h⟩
    | cons x front =>
      rw [List.cons_append] at hall
      obtain ⟨rfl, hrest⟩ := List.cons.inj hall
      obtain ⟨line₁, line₂, rfl, hfront, hback⟩ := ih hrest
      exact ⟨b :: line₁, line₂, rfl, .byte x b hab hfront, hback⟩

/-! ### Bytes that pass -/

/-- A byte that the receiver sees as it was sent. -/
structure Passes (opts : Dword) (a : UInt8) : Prop where
  narrow : narrowed opts a = a
  kept : stripped opts a = false

theorem stripped_narrowed {a b : UInt8} (h : narrowed opts a = narrowed opts b) :
    stripped opts a = stripped opts b := by
  rw [stripped, stripped, h]

/-- A byte that the receiver handles, through the noise in front of it. -/
theorem rxChars_byte (base : ℕ) (r : Rx) {a : UInt8} {sent line : List UInt8} (ha : Passes opts a)
    (h : Noisy opts (a :: sent) line) :
    ∃ line', Noisy opts sent line' ∧
      (match rxChar base opts a r with
        | (r', some code) => rxChars base opts line r = (r', some code, line')
        | (r', none) => rxChars base opts line r = rxChars base opts line' r') := by
  generalize hall : a :: sent = full at h
  induction h with
  | nil => cases hall
  | @insert sent' line' c hc h ih =>
    obtain ⟨later, hlater, hread⟩ := ih hall
    have hskip : rxChars base opts (c :: line') r = rxChars base opts line' r := by
      rw [rxChars, rxChar, if_pos hc]
    exact ⟨later, hlater, by rw [hskip]; exact hread⟩
  | @byte sent' line' a' b hab h ih =>
    obtain ⟨rfl, rfl⟩ := List.cons.inj hall
    have hsame : rxChar base opts b r = rxChar base opts a r := by
      rw [rxChar, rxChar, stripped_narrowed hab.symm, hab]
    have hstep : rxChars base opts (b :: line') r =
        match rxChar base opts a r with
        | (r', some code) => (r', some code, line')
        | (r', none) => rxChars base opts line' r' :=
      congrArg (fun step : Rx × Option ℤ => match step with
        | (r', some code) => (r', some code, line')
        | (r', none) => rxChars base opts line' r') hsame
    refine ⟨line', h, ?_⟩
    rw [hstep]
    cases rxChar base opts a r with
    | mk r' result => cases result <;> rfl

/-! ### The content of a packet -/

/-- Content bytes as they go over the line, each as it is or behind an escape. -/
inductive Carried (opts : Dword) : List UInt8 → List UInt8 → Prop
  | nil : Carried opts [] []
  | plain {bytes sent : List UInt8} (c : UInt8) (hc : Passes opts c) (hdle : c ≠ hDle)
      (h : Carried opts bytes sent) : Carried opts (c :: bytes) (c :: sent)
  | escaped {bytes sent : List UInt8} (c : UInt8) (hc : Passes opts (c ^^^ 0x40))
      (hletter : c ^^^ 0x40 ≠ hDle ∧ c ^^^ 0x40 ∉ [hchrPktend, hchrBinpkt, hchrHexpkt, hchrAscpkt, hchrUuepkt])
      (h : Carried opts bytes sent) : Carried opts (c :: bytes) (hDle :: (c ^^^ 0x40) :: sent)

theorem Carried.append {bytes bytes' sent sent' : List UInt8} (h : Carried opts bytes sent)
    (h' : Carried opts bytes' sent') : Carried opts (bytes ++ bytes') (sent ++ sent') := by
  induction h with
  | nil => exact h'
  | plain c hc hdle h ih => exact .plain c hc hdle ih
  | escaped c hc hletter h ih => exact .escaped c hc hletter ih

theorem passes_hDle : Passes opts hDle := by
  have hnarrow : narrowed opts hDle = hDle := by
    unfold narrowed
    split <;> rfl
  refine ⟨hnarrow, ?_⟩
  have hcontrol : control opts hDle = hDle := by
    unfold control
    split <;> rfl
  rw [stripped, hnarrow, hcontrol]
  rfl

theorem seven_bits : ∀ c : UInt8, c < 128 → c &&& 0x7f = c ∧ c ^^^ 0x40 < 128 ∧
    (32 ≤ c → c < 127 → c ≠ xon ∧ c ≠ xoff ∧ ¬ c < 32 ∧ c ≠ 127) :=
  forall_byte (P := fun c => c < 128 → c &&& 0x7f = c ∧ c ^^^ 0x40 < 128 ∧
    (32 ≤ c → c < 127 → c ≠ xon ∧ c ≠ xoff ∧ ¬ c < 32 ∧ c ≠ 127)) (by decide +kernel)

/-- A letter, digit or sign above the control characters is never stripped. -/
theorem passes_of_range {c : UInt8} (hlow : 32 ≤ c) (hhigh : c < 127) : Passes opts c := by
  obtain ⟨hand, -, hsigns⟩ := seven_bits c (UInt8.lt_trans hhigh (by decide))
  obtain ⟨hxon, hxoff, hctl, hdel⟩ := hsigns hlow hhigh
  have hnarrow : narrowed opts c = c := by
    unfold narrowed
    split
    · exact hand
    · rfl
  have hcontrol : control opts c = c := by
    unfold control
    split
    · exact hand
    · rfl
  refine ⟨hnarrow, ?_⟩
  rw [stripped, hnarrow, hcontrol]
  simp [hxon, hxoff, hctl, hdel]

def wrote (r : Rx) (k : ℕ) (bytes : List UInt8) : Rx :=
  { r with buf := fun i => if k ≤ i then (bytes[i - k]?).getD (r.buf i) else r.buf i
           ptr := some (k + bytes.length) }

theorem wrote_nil (r : Rx) {k : ℕ} (hk : r.ptr = some k) : wrote r k [] = r := by
  cases r
  simp only at hk
  subst hk
  simp [wrote]

theorem store_wrote {k : ℕ} {c : UInt8} {bytes : List UInt8} (hk : r.ptr = some k) (hroom : k < hMaxpktlen) :
    wrote (store c r) (k + 1) bytes = wrote r k (c :: bytes) := by
  have hstore : store c r =
      { r with buf := fun i => if i = k then c else r.buf i, ptr := some (k + 1) } := by
    rw [store, hk]
    simp only [if_pos hroom]
  have hbuf : (wrote (store c r) (k + 1) bytes).buf = (wrote r k (c :: bytes)).buf := by
    rw [hstore]
    funext i
    rcases Nat.lt_trichotomy i k with hlt | heq | hgt
    · simp only [wrote]
      rw [if_neg (by omega), if_neg (by omega), if_neg (by omega)]
    · subst heq
      simp [wrote]
    · obtain ⟨j, rfl⟩ : ∃ j, i = k + 1 + j := ⟨i - (k + 1), by omega⟩
      simp only [wrote]
      rw [if_pos (show k + 1 ≤ k + 1 + j by omega), if_neg (show ¬ k + 1 + j = k by omega),
        if_pos (show k ≤ k + 1 + j by omega), show k + 1 + j - (k + 1) = j by omega,
        show k + 1 + j - k = j + 1 by omega, List.getElem?_cons_succ]
  have hptr : (wrote (store c r) (k + 1) bytes).ptr = (wrote r k (c :: bytes)).ptr := by
    simp only [wrote, List.length_cons]
    congr 1
    omega
  have hrest (a b : Rx) (h₁ : a.buf = b.buf) (h₂ : a.ptr = b.ptr) (h₃ : a.rxdle = b.rxdle)
      (h₄ : a.rxpktformat = b.rxpktformat) (h₅ : a.rxpktlen = b.rxpktlen) : a = b := by
    cases a
    cases b
    simp only at h₁ h₂ h₃ h₄ h₅
    subst h₁ h₂ h₃ h₄ h₅
    rfl
  exact hrest _ _ hbuf hptr (by rw [hstore]; rfl) (by rw [hstore]; rfl) (by rw [hstore]; rfl)

theorem store_frame {k : ℕ} {c : UInt8} (hk : r.ptr = some k) (hroom : k < hMaxpktlen) :
    (store c r).ptr = some (k + 1) ∧ (store c r).rxdle = r.rxdle := by
  rw [store, hk]
  simp only [if_pos hroom, and_self]

/-- The content is stored from the pointer on. -/
theorem rxChars_carried (base : ℕ) (r : Rx) {bytes sent later line : List UInt8} (h : Carried opts bytes sent) {k : ℕ}
    (hk : r.ptr = some k) (hdle : r.rxdle = 0) (hroom : k + bytes.length ≤ hMaxpktlen)
    (hline : Noisy opts (sent ++ later) line) :
    ∃ line', Noisy opts later line' ∧
      rxChars base opts line r = rxChars base opts line' (wrote r k bytes) := by
  induction h generalizing r k line with
  | nil =>
    rw [List.nil_append] at hline
    exact ⟨line, hline, by rw [wrote_nil r hk]⟩
  | @plain bytes sent c hc hnot h ih =>
    rw [List.length_cons] at hroom
    obtain ⟨line₁, hline₁, hread⟩ := rxChars_byte base r hc hline
    have hchar : rxChar base opts c r = (store c r, none) := by
      rw [rxChar, if_neg (by rw [hc.kept]; decide), hc.narrow, hdle]
      simp [hnot]
    rw [hchar] at hread
    obtain ⟨hptr, hstill⟩ := store_frame (c := c) hk (by omega)
    obtain ⟨line₂, hline₂, hread₂⟩ := ih _ hptr (hstill.trans hdle) (by omega) hline₁
    exact ⟨line₂, hline₂, by rw [hread, hread₂, store_wrote hk (by omega)]⟩
  | @escaped bytes sent c hc hletter h ih =>
    rw [List.length_cons] at hroom
    obtain ⟨line₁, hline₁, hread⟩ := rxChars_byte base r passes_hDle hline
    have hfirst : rxChar base opts hDle r = ({ r with rxdle := 1 }, none) := by
      rw [rxChar, if_neg (by rw [passes_hDle.kept]; decide), passes_hDle.narrow, hdle]
      simp
    rw [hfirst] at hread
    obtain ⟨line₂, hline₂, hread₂⟩ := rxChars_byte base { r with rxdle := 1 } hc hline₁
    have hback : (c ^^^ 0x40) ^^^ 0x40 = c := by
      rw [UInt8.xor_assoc]
      simp
    have hsecond : rxChar base opts (c ^^^ 0x40) { r with rxdle := 1 } = (store c r, none) := by
      obtain ⟨hne, hmem⟩ := hletter
      simp only [List.mem_cons, List.not_mem_nil, or_false, not_or] at hmem
      rw [rxChar, if_neg (by rw [hc.kept]; decide), hc.narrow]
      simp only [true_or, if_true, if_neg hne, if_neg hmem.1, hback,
        show (0 : ℕ) < 1 from Nat.one_pos]
      rw [if_neg (by simp [hmem.2])]
      have hstore : { store c { r with rxdle := 1 } with rxdle := 0 } = store c r := by
        rw [store, store, hk]
        simp only [if_pos (show k < hMaxpktlen by omega)]
        rw [← hdle]
      rw [hstore]
    rw [hsecond] at hread₂
    obtain ⟨hptr, hstill⟩ := store_frame (c := c) hk (by omega)
    obtain ⟨line₃, hline₃, hread₃⟩ := ih _ hptr (hstill.trans hdle) (by omega) hline₂
    exact ⟨line₃, hline₃, by rw [hread, hread₂, hread₃, store_wrote hk (by omega)]⟩

/-! ### What the encodings put on the line -/

/-- The tests of `put_binbyte` and of the stripping, by the options that count. -/
def binEscapes (highctl xonxoff telenet ctlchrs : Bool) (c : UInt8) : Bool :=
  let n := if highctl then c &&& 0x7f else c
  n = hDle || (xonxoff && (n = xon || n = xoff)) || telenet && n = 13 ||
    (ctlchrs && (decide (n < 32) || n = 127))

def strips (highctl xonxoff ctlchrs : Bool) (c : UInt8) : Bool :=
  let n := if highctl then c &&& 0x7f else c
  n ≠ hDle && ((xonxoff && (n = xon || n = xoff)) || (ctlchrs && (decide (n < 32) || n = 127)))

theorem binEscapes_mono {highctl xonxoff telenet ctlchrs : Bool} {c : UInt8}
    (h : binEscapes highctl xonxoff telenet ctlchrs c = true) : binEscapes highctl true true true c = true := by
  simp only [binEscapes, Bool.or_eq_true, Bool.and_eq_true, true_and] at h ⊢
  obtain ((hdle | hxon) | htelenet) | hctl := h
  · exact Or.inl (Or.inl (Or.inl hdle))
  · exact Or.inl (Or.inl (Or.inr hxon.2))
  · exact Or.inl (Or.inr htelenet.2)
  · exact Or.inr hctl.2

theorem strips_mono {highctl xonxoff ctlchrs : Bool} {c : UInt8} (h : strips highctl true true c = false) :
    strips highctl xonxoff ctlchrs c = false := by
  cases hstrips : strips highctl xonxoff ctlchrs c with
  | false => rfl
  | true =>
    rw [← h]
    simp only [strips, Bool.or_eq_true, Bool.and_eq_true] at hstrips ⊢
    apply Eq.symm
    simp only [Bool.or_eq_true, Bool.and_eq_true, Bool.true_and]
    exact ⟨hstrips.1, hstrips.2.imp And.right And.right⟩

/-- What is escaped with all the options on. -/
theorem escaped_facts : ∀ highctl : Bool, ∀ i : Fin 256,
    binEscapes highctl true true true (UInt8.ofNat i) = true →
      strips highctl true true (UInt8.ofNat i ^^^ 0x40) = false ∧ UInt8.ofNat i ^^^ 0x40 ≠ hDle ∧
        UInt8.ofNat i ^^^ 0x40 ∉ [hchrPktend, hchrBinpkt, hchrHexpkt, hchrAscpkt, hchrUuepkt] := by
  decide +kernel

theorem plain_facts {highctl xonxoff telenet ctlchrs : Bool} {c : UInt8}
    (h : binEscapes highctl xonxoff telenet ctlchrs c = false) :
    strips highctl xonxoff ctlchrs c = false ∧ c ≠ hDle := by
  simp only [binEscapes, Bool.or_eq_false_iff] at h
  obtain ⟨⟨⟨hdle, hxon⟩, -⟩, hctl⟩ := h
  constructor
  · simp only [strips, hxon, hctl, Bool.or_false, Bool.and_false]
  · intro heq
    subst heq
    cases highctl <;> cases hdle

theorem binEscapes_facts (highctl xonxoff telenet ctlchrs : Bool) (i : Fin 256) :
    (binEscapes highctl xonxoff telenet ctlchrs (UInt8.ofNat i) = false →
      strips highctl xonxoff ctlchrs (UInt8.ofNat i) = false ∧ UInt8.ofNat i ≠ hDle) ∧
    (binEscapes highctl xonxoff telenet ctlchrs (UInt8.ofNat i) = true →
      strips highctl xonxoff ctlchrs (UInt8.ofNat i ^^^ 0x40) = false ∧
        UInt8.ofNat i ^^^ 0x40 ≠ hDle ∧
          UInt8.ofNat i ^^^ 0x40 ∉ [hchrPktend, hchrBinpkt, hchrHexpkt, hchrAscpkt, hchrUuepkt]) := by
  constructor
  · exact plain_facts
  · intro h
    obtain ⟨hstrips, hrest⟩ := escaped_facts highctl i (binEscapes_mono h)
    exact ⟨strips_mono hstrips, hrest⟩

theorem escapes_eq (txlastc c : UInt8) : escapes opts txlastc c =
    binEscapes (has opts hoptHighctl) (has opts hoptXonxoff) (has opts hoptTelenet && txlastc = 64)
      (has opts hoptCtlchrs) c := by
  unfold escapes binEscapes control
  cases has opts hoptTelenet <;> by_cases hlast : txlastc = 64 <;> simp [hlast]

theorem stripped_eq {c : UInt8} (h : narrowed opts c = c) : stripped opts c =
    strips (has opts hoptHighctl) (has opts hoptXonxoff) (has opts hoptCtlchrs) c := by
  unfold stripped strips control
  rw [h]

theorem narrowed_of {c : UInt8} (h : has opts hoptHighbit = true → c < 128) : narrowed opts c = c := by
  unfold narrowed
  split
  · next hbit => exact (seven_bits c (h hbit)).1
  · rfl

theorem xor_lt {c : UInt8} (h : c < 128) : c ^^^ 0x40 < 128 := (seven_bits c h).2.1

theorem carried_putBin (txlastc : UInt8) (bytes : List UInt8)
    (hbytes : has opts hoptHighbit = true → ∀ b ∈ bytes, b < 128) :
    Carried opts bytes (putBin opts txlastc bytes) := by
  induction bytes generalizing txlastc with
  | nil => exact .nil
  | cons c bytes ih =>
    have hc : has opts hoptHighbit = true → c < 128 := fun h => hbytes h c List.mem_cons_self
    have hrest := ih (control opts c) fun h b hb => hbytes h b (List.mem_cons_of_mem _ hb)
    have hfacts := binEscapes_facts (has opts hoptHighctl) (has opts hoptXonxoff)
      (has opts hoptTelenet && txlastc = 64) (has opts hoptCtlchrs) ⟨c.toNat, c.toNat_lt⟩
    simp only [UInt8.ofNat_toNat] at hfacts
    rw [putBin, escapes_eq]
    split
    · next hesc =>
      obtain ⟨hkept, hletter⟩ := hfacts.2 hesc
      have hnarrow : narrowed opts (c ^^^ 0x40) = c ^^^ 0x40 := narrowed_of fun h => xor_lt (hc h)
      exact .escaped c ⟨hnarrow, (stripped_eq hnarrow).trans hkept⟩ hletter hrest
    · next hesc =>
      obtain ⟨hkept, hdle⟩ := hfacts.1 (by simpa using hesc)
      have hnarrow : narrowed opts c = c := narrowed_of hc
      exact .plain c ⟨hnarrow, (stripped_eq hnarrow).trans hkept⟩ hdle hrest

/-- Printable text goes out as it is. -/
theorem carried_text (text : List UInt8) (h : ∀ c ∈ text, 32 ≤ c ∧ c < 127) : Carried opts text text := by
  induction text with
  | nil => exact .nil
  | cons c text ih =>
    obtain ⟨hlow, hhigh⟩ := h c List.mem_cons_self
    have hne : c ≠ hDle := by
      intro heq
      rw [heq] at hlow
      exact absurd hlow (by decide)
    exact .plain c (passes_of_range hlow hhigh) hne (ih fun x hx => h x (List.mem_cons_of_mem _ hx))

theorem carried_putHex (c : UInt8) : Carried opts (hexText c) (putHex c) := by
  have hdigit : ∀ c : UInt8, ((32 : UInt8) ≤ hexdigit ((c >>> 4) &&& 0x0f) ∧
      hexdigit ((c >>> 4) &&& 0x0f) < (127 : UInt8)) ∧
      (32 : UInt8) ≤ hexdigit (c &&& 0x0f) ∧ hexdigit (c &&& 0x0f) < (127 : UInt8) :=
    forall_byte (P := fun c => ((32 : UInt8) ≤ hexdigit ((c >>> 4) &&& 0x0f) ∧
      hexdigit ((c >>> 4) &&& 0x0f) < (127 : UInt8)) ∧
      (32 : UInt8) ≤ hexdigit (c &&& 0x0f) ∧ hexdigit (c &&& 0x0f) < (127 : UInt8)) (by decide +kernel)
  have hctl : ∀ c : UInt8, (c < 32 ∨ c = 127) → (32 ≤ c ^^^ 0x40 ∧ c ^^^ 0x40 < 127) ∧
      (c ^^^ 0x40 ≠ hDle ∧
        c ^^^ 0x40 ∉ [hchrPktend, hchrBinpkt, hchrHexpkt, hchrAscpkt, hchrUuepkt]) ∧ c ≠ 92 :=
    forall_byte (P := fun c => (c < 32 ∨ c = 127) → (32 ≤ c ^^^ 0x40 ∧ c ^^^ 0x40 < 127) ∧
      (c ^^^ 0x40 ≠ hDle ∧
        c ^^^ 0x40 ∉ [hchrPktend, hchrBinpkt, hchrHexpkt, hchrAscpkt, hchrUuepkt]) ∧ c ≠ 92)
      (by decide +kernel)
  have hother : ∀ c : UInt8, ¬ (c &&& 0x80 ≠ 0) → ¬ (c < 32 ∨ c = 127) → 32 ≤ c ∧ c < 127 :=
    forall_byte (P := fun c => ¬ (c &&& 0x80 ≠ 0) → ¬ (c < 32 ∨ c = 127) → 32 ≤ c ∧ c < 127)
      (by decide +kernel)
  unfold hexText putHex
  split
  · apply carried_text
    intro x hx
    simp only [List.mem_cons, List.not_mem_nil, or_false] at hx
    rcases hx with rfl | rfl | rfl
    · decide
    · exact (hdigit c).1
    · exact (hdigit c).2
  · next hlow =>
    by_cases hspecial : c < 32 ∨ c = 127
    · obtain ⟨hrange, hletter, hne⟩ := hctl c hspecial
      rw [if_pos hspecial, if_neg hne]
      exact .escaped c (passes_of_range hrange.1 hrange.2) hletter .nil
    · rw [if_neg hspecial]
      have hrange := hother c hlow hspecial
      split
      · apply carried_text
        intro x hx
        simp only [List.mem_cons, List.not_mem_nil, or_false, or_self] at hx
        rw [hx]
        decide
      · apply carried_text
        intro x hx
        rw [List.mem_singleton.mp hx]
        exact hrange

theorem carried_flatMap (bytes : List UInt8) : Carried opts (bytes.flatMap hexText) (bytes.flatMap putHex) := by
  induction bytes with
  | nil => exact .nil
  | cons c bytes ih => exact (carried_putHex c).append ih

theorem uuenc_range (n : ℕ) : 32 ≤ uuenc n ∧ uuenc n < 127 := by
  have hall : ∀ i : Fin 64, 32 ≤ UInt8.ofNat (i + 33) ∧ UInt8.ofNat (i + 33) < 127 := by decide
  have hlt : n &&& 0x3f < 64 := Nat.lt_of_le_of_lt Nat.and_le_right (by decide)
  exact hall ⟨n &&& 0x3f, hlt⟩

theorem putUue_range (stale : UInt8) (bytes : List UInt8) : ∀ c ∈ putUue stale bytes, 32 ≤ c ∧ c < 127 := by
  induction bytes using putUue.induct with
  | case1 a b c rest ih =>
    intro x hx
    simp only [putUue, List.mem_cons] at hx
    rcases hx with rfl | rfl | rfl | rfl | hx
    · exact uuenc_range _
    · exact uuenc_range _
    · exact uuenc_range _
    · exact uuenc_range _
    · exact ih x hx
  | case2 a b =>
    intro x hx
    simp only [putUue, List.mem_cons, List.not_mem_nil, or_false] at hx
    rcases hx with rfl | rfl | rfl
    · exact uuenc_range _
    · exact uuenc_range _
    · exact uuenc_range _
  | case3 a =>
    intro x hx
    simp only [putUue, List.mem_cons, List.not_mem_nil, or_false] at hx
    rcases hx with rfl | rfl
    · exact uuenc_range _
    · exact uuenc_range _
  | case4 =>
    intro x hx
    cases hx

/-! ### Whole packets -/

/-- What the receiver has in its buffer when the end of the packet comes. -/
def carriedContent (stale format : UInt8) (data : List UInt8) : List UInt8 :=
  if format = hchrHexpkt then data.flatMap hexText
  else if format = hchrBinpkt then data
  else if format = hchrAscpkt then ascGroups 0 0 data
  else putUue stale data

theorem txFormat_cases (opts : Dword) (type : UInt8) :
    txFormat opts type = hchrHexpkt ∨ (txFormat opts type = hchrBinpkt ∧ has opts hoptHighbit = false) ∨
      txFormat opts type = hchrAscpkt ∨ txFormat opts type = hchrUuepkt := by
  unfold txFormat
  split_ifs with htype hbit
  · exact Or.inl rfl
  · exact Or.inr (Or.inr (Or.inr rfl))
  · exact Or.inr (Or.inr (Or.inl rfl))
  · exact Or.inl rfl
  · exact Or.inr (Or.inl ⟨rfl, by simpa using hbit⟩)

section
variable (stale : UInt8) (data : List UInt8)

theorem carriedContent_hex : carriedContent stale hchrHexpkt data = data.flatMap hexText := by
  rw [carriedContent, if_pos rfl]

theorem carriedContent_bin : carriedContent stale hchrBinpkt data = data := by
  rw [carriedContent, if_neg (by decide), if_pos rfl]

theorem carriedContent_asc : carriedContent stale hchrAscpkt data = ascGroups 0 0 data := by
  rw [carriedContent, if_neg (by decide), if_neg (by decide), if_pos rfl]

theorem carriedContent_uue : carriedContent stale hchrUuepkt data = putUue stale data := by
  rw [carriedContent, if_neg (by decide), if_neg (by decide), if_neg (by decide)]

theorem encoded_hex : encoded opts stale hchrHexpkt data = data.flatMap putHex := by
  rw [encoded, if_pos rfl]

theorem encoded_bin : encoded opts stale hchrBinpkt data = putBin opts 0 data := by
  rw [encoded, if_neg (by decide), if_pos rfl]

theorem encoded_asc : encoded opts stale hchrAscpkt data = putBin opts 0 (ascGroups 0 0 data) := by
  rw [encoded, if_neg (by decide), if_neg (by decide), if_pos rfl]

theorem encoded_uue : encoded opts stale hchrUuepkt data = putUue stale data := by
  rw [encoded, if_neg (by decide), if_neg (by decide), if_neg (by decide)]

end

theorem carried_encoded (stale type : UInt8) (data : List UInt8) :
    Carried opts (carriedContent stale (txFormat opts type) data)
      (encoded opts stale (txFormat opts type) data) := by
  rcases txFormat_cases opts type with h | ⟨h, hbit⟩ | h | h
  · rw [h, carriedContent_hex, encoded_hex]
    exact carried_flatMap data
  · rw [h, carriedContent_bin, encoded_bin]
    exact carried_putBin 0 data fun hhigh => absurd (hbit.symm.trans hhigh) (by decide)
  · rw [h, carriedContent_asc, encoded_asc]
    have hgroups := (ascGroups_facts data (by decide : 0 < 7) (by decide : 0 < 2 ^ 0)).2.2
    exact carried_putBin 0 _ fun _ => hgroups
  · rw [h, carriedContent_uue, encoded_uue]
    exact carried_text _ (putUue_range stale data)

theorem length_flatMap_hexText (data : List UInt8) : (data.flatMap hexText).length ≤ 3 * data.length := by
  induction data with
  | nil => simp
  | cons c data ih =>
    have hc := (length_hexText c).2
    rw [List.flatMap_cons, List.length_append, List.length_cons]
    omega

theorem length_putUue (stale : UInt8) (data : List UInt8) : (putUue stale data).length ≤ 3 * data.length := by
  induction data using putUue.induct with
  | case1 a b c rest ih =>
    simp only [putUue, List.length_cons]
    omega
  | case2 a b => simp [putUue]
  | case3 a => simp [putUue]
  | case4 => simp [putUue]

/-- No encoding takes more than three bytes of the buffer for one. -/
theorem length_carriedContent (stale format : UInt8) (data : List UInt8) :
    (carriedContent stale format data).length ≤ 3 * data.length := by
  unfold carriedContent
  split_ifs
  · exact length_flatMap_hexText data
  · omega
  · have hlen := (ascGroups_facts data (by decide : 0 < 7) (by decide : 0 < 2 ^ 0)).2.1
    omega
  · exact length_putUue stale data

theorem length_lowFirst {w : ℕ} (crc : BitVec w) (n : ℕ) : (lowFirst crc n).length = n := by
  induction n generalizing crc with
  | zero => rfl
  | succ n ih => rw [lowFirst, List.length_cons, ih]

theorem framed_eq (opts : Dword) (payload : List UInt8) (type : UInt8) :
    ∃ crc, framed opts payload type = payload ++ (type :: crc) ∧
      crc.length = if wide opts (txFormat opts type) then 4 else 2 := by
  unfold framed
  split
  · refine ⟨lowFirst (~~~(crc32block (payload ++ [type]))) 4, ?_, length_lowFirst _ _⟩
    simp
  · refine ⟨lowFirst (~~~(crc16block (payload ++ [type]))) 2, ?_, length_lowFirst _ _⟩
    simp

theorem content_wrote (bytes : List UInt8) : content base (wrote r 0 bytes) = bytes := by
  have hspan : span base (wrote r 0 bytes) = bytes.length := by simp [span, wrote]
  rw [content, hspan]
  apply List.ext_getElem
  · simp
  · intro i h₁ h₂
    simp [wrote, h₂]

/-- The decoder of the format gives the packet back. -/
theorem decode_wrote (base : ℕ) (stale type : UInt8) (data : List UInt8) (hformat : r.rxpktformat = txFormat opts type) :
    ∃ p, decode base (wrote r 0 (carriedContent stale (txFormat opts type) data)) = (some data, p) := by
  have hspan (bytes : List UInt8) : span base (wrote r 0 bytes) = bytes.length := by simp [span, wrote]
  have hfmt (bytes : List UInt8) : (wrote r 0 bytes).rxpktformat = txFormat opts type := hformat
  rw [decode]
  simp only [hfmt, content_wrote, hspan]
  rcases txFormat_cases opts type with h | ⟨h, -⟩ | h | h
  · rw [h, if_neg (by decide), if_pos rfl]
    rw [carriedContent_hex]
    have hmem (i : ℕ) (hi : i < (data.flatMap hexText).length) :
        (wrote r 0 (data.flatMap hexText)).buf (0 + i) = (data.flatMap hexText)[i] := by
      simp only [wrote, Nat.zero_add, Nat.zero_le, if_true, Nat.sub_zero]
      rw [List.getElem?_eq_getElem hi, Option.getD_some]
    have hloop := hexLoop_hexText data [] hmem (le_refl _)
    rw [Nat.zero_add, List.nil_append] at hloop
    rw [hloop]
    simp [wrote]
  · rw [h, if_pos rfl]
    rw [carriedContent_bin]
    exact ⟨_, rfl⟩
  · rw [h, if_neg (by decide), if_neg (by decide), if_pos rfl]
    rw [carriedContent_asc, ascLoop_ascGroups]
    exact ⟨_, rfl⟩
  · rw [h, if_neg (by decide), if_neg (by decide), if_neg (by decide), if_pos rfl]
    rw [carriedContent_uue, uueLoop_putUue]
    exact ⟨_, rfl⟩

/-- The receiver has the packet: its length, and its bytes at the front of the buffer. -/
def Received (r : Rx) (payload : List UInt8) : Prop :=
  r.rxpktlen = payload.length ∧ (List.range payload.length).map r.buf = payload

theorem pktEnd_framed {payload : List UInt8} {type : UInt8} {p : Option ℕ}
    (hdecode : decode base r = (some (framed opts payload type), p))
    (hformat : r.rxpktformat = txFormat opts type) :
    ∃ r', pktEnd base opts r = (r', some (type.toNat : ℤ)) ∧ Received r' payload := by
  obtain ⟨crc, hframed, hcrc⟩ := framed_eq opts payload type
  have hlen : (framed opts payload type).length = payload.length + 1 + crc.length := by
    rw [hframed]
    simp
    omega
  have htype : overwrite r.buf (framed opts payload type) payload.length = type := by
    rw [overwrite, hframed]
    simp
  have hbytes : (List.range payload.length).map (overwrite r.buf (framed opts payload type)) = payload := by
    apply List.ext_getElem
    · simp
    · intro i h₁ h₂
      rw [List.getElem_map, List.getElem_range, overwrite, hframed, List.getElem?_append_left h₂,
        List.getElem?_eq_getElem h₂, Option.getD_some]
  rw [pktEnd, hdecode]
  simp only [hformat]
  by_cases hwide : wide opts (txFormat opts type) = true
  · rw [if_pos hwide] at hcrc
    have hpayload : (framed opts payload type).length - 4 - 1 = payload.length := by omega
    have hgood : crc32test (crc32block (framed opts payload type)) = true := by
      rw [framed]
      simp only [hwide, if_true]
      exact crc32test_framed _
    rw [if_pos hwide, if_neg (by omega), hgood, if_pos rfl, hpayload, htype]
    exact ⟨_, rfl, rfl, hbytes⟩
  · rw [if_neg hwide] at hcrc
    have hpayload : (framed opts payload type).length - 2 - 1 = payload.length := by omega
    have hgood : crc16test (crc16block (framed opts payload type)) = true := by
      rw [framed]
      simp only [hwide]
      exact crc16test_framed _
    rw [if_neg hwide, if_neg (by omega), hgood, if_pos rfl, hpayload, htype]
    exact ⟨_, rfl, rfl, hbytes⟩

theorem passes_format (opts : Dword) (type : UInt8) : Passes opts (txFormat opts type) ∧ txFormat opts type ≠ hDle ∧
    txFormat opts type ≠ hchrPktend := by
  rcases txFormat_cases opts type with h | ⟨h, -⟩ | h | h <;> rw [h] <;>
    exact ⟨passes_of_range (by decide) (by decide), by decide, by decide⟩

/-- The head of a packet opens the buffer, whatever was going on before. -/
theorem rxChars_head (base : ℕ) {type : UInt8} {later line : List UInt8} (hdle : r.rxdle < 4)
    (h : Noisy opts (hDle :: txFormat opts type :: later) line) :
    ∃ line', Noisy opts later line' ∧ rxChars base opts line r = rxChars base opts line'
      { r with rxpktformat := txFormat opts type, ptr := some 0, rxdle := 0 } := by
  obtain ⟨hpass, hne, hnot⟩ := passes_format opts type
  obtain ⟨line₁, hline₁, hread₁⟩ := rxChars_byte base r passes_hDle h
  have hfirst : rxChar base opts hDle r = ({ r with rxdle := r.rxdle + 1 }, none) := by
    rw [rxChar, if_neg (by rw [passes_hDle.kept]; decide), passes_hDle.narrow]
    simp only [or_true, if_true]
    rw [if_neg (by omega)]
  rw [hfirst] at hread₁
  obtain ⟨line₂, hline₂, hread₂⟩ :=
    rxChars_byte base { r with rxdle := r.rxdle + 1 } hpass hline₁
  have hsecond : rxChar base opts (txFormat opts type) { r with rxdle := r.rxdle + 1 } =
      ({ r with rxpktformat := txFormat opts type, ptr := some 0, rxdle := 0 }, none) := by
    have hletter : txFormat opts type = hchrBinpkt ∨ txFormat opts type = hchrHexpkt ∨
        txFormat opts type = hchrAscpkt ∨ txFormat opts type = hchrUuepkt := by
      rcases txFormat_cases opts type with h | ⟨h, -⟩ | h | h
      · exact Or.inr (Or.inl h)
      · exact Or.inl h
      · exact Or.inr (Or.inr (Or.inl h))
      · exact Or.inr (Or.inr (Or.inr h))
    rw [rxChar, if_neg (by rw [hpass.kept]; decide), hpass.narrow]
    simp only [Nat.succ_pos, true_or, if_true, if_neg hne, if_neg hnot, if_pos hletter]
  rw [hsecond] at hread₂
  exact ⟨line₂, hline₂, by rw [hread₁, hread₂]⟩

/-- The end of a packet hands it over. -/
theorem rxChars_end {later line : List UInt8} {code : ℤ} {r' : Rx} (hdle : r.rxdle = 0)
    (h : Noisy opts (hDle :: hchrPktend :: later) line)
    (hend : pktEnd base opts { r with rxdle := 1 } = (r', some code)) :
    ∃ line', Noisy opts later line' ∧ rxChars base opts line r = (r', some code, line') := by
  have hpass : Passes opts hchrPktend := passes_of_range (by decide) (by decide)
  obtain ⟨line₁, hline₁, hread₁⟩ := rxChars_byte base r passes_hDle h
  have hfirst : rxChar base opts hDle r = ({ r with rxdle := 1 }, none) := by
    rw [rxChar, if_neg (by rw [passes_hDle.kept]; decide), passes_hDle.narrow, hdle]
    simp
  rw [hfirst] at hread₁
  obtain ⟨line₂, hline₂, hread₂⟩ :=
    rxChars_byte base { r with rxdle := 1 } hpass hline₁
  have hsecond : rxChar base opts hchrPktend { r with rxdle := 1 } = (r', some code) := by
    rw [rxChar, if_neg (by rw [hpass.kept]; decide), hpass.narrow, ← hend]
    simp only [Nat.one_pos, true_or, if_true]
    rw [if_neg (by decide)]
  rw [hsecond] at hread₂
  exact ⟨line₂, hline₂, by rw [hread₁, hread₂]⟩

/-- Every packet comes through every line that does no more than the options of both sides allow for,
from any state of the receiver in which fewer than four escapes stand open: `rxpkt` returns its type
with its payload, and leaves what comes behind the packet. -/
theorem rxpkt_txpkt (opts : Dword) (base : ℕ) (stale type : UInt8) (payload line : List UInt8) (r : Rx)
    (hlength : payload.length ≤ hMaxblklen + 8) (hdle : r.rxdle < 4)
    (hline : Noisy opts (txpkt opts stale payload type) line) :
    ∃ r' rest, rxChars base opts line r = (r', some (type.toNat : ℤ), rest) ∧ Received r' payload := by
  let data := framed opts payload type
  obtain ⟨crc, hframed, hcrc⟩ := framed_eq opts payload type
  have hroom : (carriedContent stale (txFormat opts type) data).length ≤ hMaxpktlen := by
    have hcontent := length_carriedContent stale (txFormat opts type) data
    have hdata : data.length ≤ hMaxblklen + 8 + 5 := by
      change (framed opts payload type).length ≤ _
      rw [hframed, List.length_append, List.length_cons, hcrc]
      split <;> omega
    have hmax : hMaxpktlen = (hMaxblklen + 8 + 5) * 3 := rfl
    omega
  unfold txpkt at hline
  simp only [List.cons_append, List.nil_append] at hline
  obtain ⟨line₁, hline₁, hread₁⟩ := rxChars_head base hdle hline
  let opened : Rx := { r with rxpktformat := txFormat opts type, ptr := some 0, rxdle := 0 }
  obtain ⟨line₂, hline₂, hread₂⟩ := rxChars_carried base opened
    (carried_encoded stale type data) rfl rfl (by rw [Nat.zero_add]; exact hroom) hline₁
  let full := wrote opened 0 (carriedContent stale (txFormat opts type) data)
  obtain ⟨p, hdecode⟩ := decode_wrote base stale type data (show ({ opened with rxdle := 1 } : Rx).rxpktformat = _ from rfl)
  obtain ⟨r', hend, hreceived⟩ := pktEnd_framed (r := { full with rxdle := 1 }) hdecode rfl
  obtain ⟨rest, -, hread₃⟩ := rxChars_end (show full.rxdle = 0 from rfl) hline₂ hend
  exact ⟨r', rest, by rw [hread₁, hread₂, hread₃], hreceived⟩

/-- A DATA packet with a control character on a line that throws in an XOFF. -/
theorem rxpkt_txpkt_data : ∃ r' rest, rxChars 4096 hoptXonxoff (xoff :: txpkt hoptXonxoff 0 [xon, 7] hpktData)
    ⟨fun _ => 0, none, 1, 0, 0⟩ = (r', some 70, rest) ∧ Received r' [xon, 7] := by
  have hsame (sent : List UInt8) : Noisy hoptXonxoff sent sent := by
    induction sent with
    | nil => exact .nil
    | cons c sent ih => exact .byte c c rfl ih
  exact rxpkt_txpkt hoptXonxoff 4096 0 hpktData [xon, 7] _ ⟨fun _ => 0, none, 1, 0, 0⟩ (by decide)
    (by decide) (.insert xoff (by decide) (hsame _))

end CProgram.Hydra
