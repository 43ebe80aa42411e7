import CProgram.Qodem.Keyboard
import CProgram.Terminal.Utf8Decode

/-! `utf8_decode` accepts the characters of UTF-8 and nothing else, and reads back what `utf8_encode` writes. -/
namespace CProgram.Terminal.Utf8Decode
open CProgram.Bytes
variable {σ : ℕ} {acc acc' cp cp' : UInt32} {b b₁ b₂ b₃ b₄ : UInt8} {bytes : List UInt8}

/-- The lead bytes; the others end a character or are rejected. -/
def LeadOnly (b : UInt8) : Prop :=
  next 0 b = 0 ∨ next 0 b = 1 ∨ next 0 b = 2 ∧ 0xC2 ≤ b.toNat ∧ b.toNat < 0xE0 ∨
    (next 0 b = 4 ∧ b = 0xE0 ∨ next 0 b = 5 ∧ b = 0xED ∨ next 0 b = 3 ∧ 0xE0 < b.toNat ∧ b.toNat < 0xF0 ∧ b ≠ 0xED) ∨
    (next 0 b = 6 ∧ b = 0xF0 ∨ next 0 b = 8 ∧ b = 0xF4 ∨ next 0 b = 7 ∧ 0xF0 < b.toNat ∧ b.toNat < 0xF4)

instance : Decidable (LeadOnly b) := inferInstanceAs (Decidable (_ ∨ _))

theorem leadOnly (b : UInt8) : LeadOnly b := by
  unfold LeadOnly
  simp only [next_eq]
  revert b
  apply forall_byte
  decide +kernel

/-- What continues a character, and where it leads. -/
def ContinuesOnly (b : UInt8) : Prop :=
  (next 2 b = 0 ∨ next 2 b = 1) ∧ (next 3 b = 2 ∨ next 3 b = 1) ∧ (next 7 b = 3 ∨ next 7 b = 1) ∧
    (next 4 b = 2 ∧ 0xA0 ≤ b.toNat ∨ next 4 b = 1) ∧ (next 5 b = 2 ∧ b.toNat < 0xA0 ∨ next 5 b = 1) ∧
    (next 6 b = 3 ∧ 0x90 ≤ b.toNat ∨ next 6 b = 1) ∧ (next 8 b = 3 ∧ b.toNat < 0x90 ∨ next 8 b = 1)

instance : Decidable (ContinuesOnly b) := inferInstanceAs (Decidable (_ ∧ _))

theorem continuesOnly (b : UInt8) : ContinuesOnly b := by
  unfold ContinuesOnly
  simp only [next_eq]
  revert b
  apply forall_byte
  decide +kernel

/-- No bytes are read as two characters. -/
theorem reads_unique (h : Reads σ acc bytes cp) (h' : Reads σ acc bytes cp') : cp = cp' := by
  induction bytes generalizing σ acc with
  | nil => exact h.elim
  | cons b bytes ih =>
    cases bytes with
    | nil => exact h.2.symm.trans h'.2
    | cons b' bytes => exact ih h.2 h'.2

/-! ### The last bytes -/

theorem continues (hσ : σ < 9) (h0 : σ ≠ 0) (h1 : next σ b ≠ 1) : 0x80 ≤ b.toNat ∧ b.toNat < 0xC0 := by
  obtain ⟨hlo, hhi⟩ := continuation hσ h0 h1
  exact ⟨UInt8.le_iff_toNat_le.mp hlo, UInt8.lt_iff_toNat_lt.mp hhi⟩

/-- Where every way on is rejected but one, the first byte takes that one. -/
theorem reads_onward {k : ℕ} {P : UInt8 → Prop} (hσ : σ < 9) (h0 : σ ≠ 0) (hk : k ≠ 0) (hk1 : k ≠ 1)
    (honly : ∀ b, next σ b = k ∧ P b ∨ next σ b = 1) (h : Reads σ acc bytes cp) :
    ∃ b rest acc', bytes = b :: rest ∧ (0x80 ≤ b.toNat ∧ b.toNat < 0xC0) ∧ P b ∧ Reads k acc' rest cp := by
  cases bytes with
  | nil => exact h.elim
  | cons b rest =>
    cases rest with
    | nil =>
      have hzero : next σ b = 0 := h.1
      rcases honly b with ⟨hb, -⟩ | hb
      · exact absurd (hb.symm.trans hzero) hk
      · omega
    | cons b' rest =>
      obtain ⟨-, hrest⟩ := h
      rcases honly b with ⟨hb, hP⟩ | hb
      · exact ⟨b, b' :: rest, gather σ acc b, rfl, continues hσ h0 (by omega), hP, hb ▸ hrest⟩
      · rw [hb] at hrest
        exact (not_reads_reject hrest).elim

theorem reads_last (h : Reads 2 acc bytes cp) : ∃ b, bytes = [b] ∧ 0x80 ≤ b.toNat ∧ b.toNat < 0xC0 := by
  cases bytes with
  | nil => exact h.elim
  | cons b rest =>
    cases rest with
    | nil => exact ⟨b, rfl, continues (σ := 2) (by decide) (by decide) (by have hzero : next 2 b = 0 := h.1; omega)⟩
    | cons b' rest =>
      obtain ⟨hnext, hrest⟩ := h
      rcases (continuesOnly b).1 with hb | hb
      · exact absurd hb hnext
      · rw [hb] at hrest
        exact (not_reads_reject hrest).elim

theorem reads_last_two (h : Reads 3 acc bytes cp) :
    ∃ b b', bytes = [b, b'] ∧ (0x80 ≤ b.toNat ∧ b.toNat < 0xC0) ∧ 0x80 ≤ b'.toNat ∧ b'.toNat < 0xC0 := by
  obtain ⟨b, rest, acc', rfl, hb, -, hrest⟩ := reads_onward (P := fun _ => True) (by decide) (by decide) (by decide)
    (by decide) (fun b => (continuesOnly b).2.1.imp_left fun hb => ⟨hb, trivial⟩) h
  obtain ⟨b', rfl, hb'⟩ := reads_last hrest
  exact ⟨b, b', rfl, hb, hb'⟩

/-! ### The characters -/

/-- The bytes of a character, by their number. -/
inductive Spelled : List UInt8 → ℕ → Prop where
  | one {b : UInt8} : b.toNat < 0x80 → Spelled [b] b.toNat
  | two {b₁ b₂ : UInt8} : 0xC2 ≤ b₁.toNat ∧ b₁.toNat < 0xE0 → 0x80 ≤ b₂.toNat ∧ b₂.toNat < 0xC0 →
      Spelled [b₁, b₂] ((b₁.toNat - 0xC0) * 64 + (b₂.toNat - 0x80))
  | three {b₁ b₂ b₃ : UInt8} : 0xE0 ≤ b₁.toNat ∧ b₁.toNat < 0xF0 → 0x80 ≤ b₂.toNat ∧ b₂.toNat < 0xC0 →
      0x80 ≤ b₃.toNat ∧ b₃.toNat < 0xC0 → (b₁ = 0xE0 → 0xA0 ≤ b₂.toNat) → (b₁ = 0xED → b₂.toNat < 0xA0) →
      Spelled [b₁, b₂, b₃] (((b₁.toNat - 0xE0) * 64 + (b₂.toNat - 0x80)) * 64 + (b₃.toNat - 0x80))
  | four {b₁ b₂ b₃ b₄ : UInt8} : 0xF0 ≤ b₁.toNat ∧ b₁.toNat < 0xF5 → 0x80 ≤ b₂.toNat ∧ b₂.toNat < 0xC0 →
      0x80 ≤ b₃.toNat ∧ b₃.toNat < 0xC0 → 0x80 ≤ b₄.toNat ∧ b₄.toNat < 0xC0 →
      (b₁ = 0xF0 → 0x90 ≤ b₂.toNat) → (b₁ = 0xF4 → b₂.toNat < 0x90) →
      Spelled [b₁, b₂, b₃, b₄]
        ((((b₁.toNat - 0xF0) * 64 + (b₂.toNat - 0x80)) * 64 + (b₃.toNat - 0x80)) * 64 + (b₄.toNat - 0x80))

theorem spelled_three {P : UInt8 → Prop} (hσ : σ < 9) (h0 : σ ≠ 0) (hb : 0xE0 ≤ b.toNat ∧ b.toNat < 0xF0)
    (honly : ∀ c, next σ c = 2 ∧ P c ∨ next σ c = 1) (hlong : ∀ c, P c → b = 0xE0 → 0xA0 ≤ c.toNat)
    (hsurrogate : ∀ c, P c → b = 0xED → c.toNat < 0xA0) (h : Reads σ acc bytes cp) : ∃ n, Spelled (b :: bytes) n := by
  obtain ⟨c, rest, acc', rfl, hc, hP, hlast⟩ := reads_onward hσ h0 (by decide) (by decide) honly h
  obtain ⟨d, rfl, hd⟩ := reads_last hlast
  exact ⟨_, .three hb hc hd (hlong c hP) (hsurrogate c hP)⟩

theorem spelled_four {P : UInt8 → Prop} (hσ : σ < 9) (h0 : σ ≠ 0) (hb : 0xF0 ≤ b.toNat ∧ b.toNat < 0xF5)
    (honly : ∀ c, next σ c = 3 ∧ P c ∨ next σ c = 1) (hlong : ∀ c, P c → b = 0xF0 → 0x90 ≤ c.toNat)
    (hbeyond : ∀ c, P c → b = 0xF4 → c.toNat < 0x90) (h : Reads σ acc bytes cp) : ∃ n, Spelled (b :: bytes) n := by
  obtain ⟨c, rest, acc', rfl, hc, hP, hlast⟩ := reads_onward hσ h0 (by decide) (by decide) honly h
  obtain ⟨d, d', rfl, hd, hd'⟩ := reads_last_two hlast
  exact ⟨_, .four hb hc hd hd' (hlong c hP) (hbeyond c hP)⟩

theorem spelled_of_reads (h : Reads 0 acc bytes cp) : ∃ n, Spelled bytes n := by
  cases bytes with
  | nil => exact h.elim
  | cons b rest =>
    cases rest with
    | nil => exact ⟨_, .one (UInt8.lt_iff_toNat_lt.mp (next_zero_iff.mp h.1))⟩
    | cons b' rest =>
      obtain ⟨hnext, hrest⟩ := h
      rcases leadOnly b with hb | hb | ⟨hb, hlead⟩ | hb | hb
      · exact absurd hb hnext
      · rw [hb] at hrest
        exact (not_reads_reject hrest).elim
      · rw [hb] at hrest
        obtain ⟨c, heq, hc⟩ := reads_last hrest
        rw [heq]
        exact ⟨_, .two hlead hc⟩
      · rcases hb with ⟨hb, hE0⟩ | ⟨hb, hED⟩ | ⟨hb, hlo, hhi, hne⟩
        · rw [hb] at hrest
          have hlead : b.toNat = 0xE0 := congrArg UInt8.toNat hE0
          exact spelled_three (σ := 4) (by decide) (by decide) (by omega) (fun c => (continuesOnly c).2.2.2.1)
            (fun c hc _ => hc) (fun c _ h => absurd (hE0.symm.trans h) (by decide)) hrest
        · rw [hb] at hrest
          have hlead : b.toNat = 0xED := congrArg UInt8.toNat hED
          exact spelled_three (σ := 5) (by decide) (by decide) (by omega) (fun c => (continuesOnly c).2.2.2.2.1)
            (fun c _ h => absurd (hED.symm.trans h) (by decide)) (fun c hc _ => hc) hrest
        · rw [hb] at hrest
          have hlead (h : b = 0xE0) : b.toNat = 0xE0 := congrArg UInt8.toNat h
          exact spelled_three (σ := 3) (P := fun _ => True) (by decide) (by decide) (by omega)
            (fun c => (continuesOnly c).2.1.imp_left fun hc => ⟨hc, trivial⟩)
            (fun c _ h => by have := hlead h; omega) (fun c _ h => absurd h hne) hrest
      · rcases hb with ⟨hb, hF0⟩ | ⟨hb, hF4⟩ | ⟨hb, hlo, hhi⟩
        · rw [hb] at hrest
          have hlead : b.toNat = 0xF0 := congrArg UInt8.toNat hF0
          exact spelled_four (σ := 6) (by decide) (by decide) (by omega) (fun c => (continuesOnly c).2.2.2.2.2.1)
            (fun c hc _ => hc) (fun c _ h => absurd (hF0.symm.trans h) (by decide)) hrest
        · rw [hb] at hrest
          have hlead : b.toNat = 0xF4 := congrArg UInt8.toNat hF4
          exact spelled_four (σ := 8) (by decide) (by decide) (by omega) (fun c => (continuesOnly c).2.2.2.2.2.2)
            (fun c _ h => absurd (hF4.symm.trans h) (by decide)) (fun c hc _ => hc) hrest
        · rw [hb] at hrest
          have hF0 (h : b = 0xF0) : b.toNat = 0xF0 := congrArg UInt8.toNat h
          have hF4 (h : b = 0xF4) : b.toNat = 0xF4 := congrArg UInt8.toNat h
          exact spelled_four (σ := 7) (P := fun _ => True) (by decide) (by decide) (by omega)
            (fun c => (continuesOnly c).2.2.1.imp_left fun hc => ⟨hc, trivial⟩)
            (fun c _ h => by have := hF0 h; omega) (fun c _ h => by have := hF4 h; omega) hrest

theorem Spelled.isValidChar {n : ℕ} (h : Spelled bytes n) : n.isValidChar := by
  cases h with
  | one hb => exact Or.inl (by omega)
  | two hb hc => exact Or.inl (by omega)
  | @three b₁ b₂ b₃ hb hc hd hlong hsurrogate =>
    have hED : b₁.toNat = 0xED → b₂.toNat < 0xA0 := fun h => hsurrogate (UInt8.toNat_inj.mp h)
    rcases Nat.lt_or_ge 0xED b₁.toNat with hlate | hearly
    · exact Or.inr ⟨by omega, by omega⟩
    · exact Or.inl (by omega)
  | @four b₁ b₂ b₃ b₄ hb hc hd he hlong hbeyond =>
    have hF0 : b₁.toNat = 0xF0 → 0x90 ≤ b₂.toNat := fun h => hlong (UInt8.toNat_inj.mp h)
    have hF4 : b₁.toNat = 0xF4 → b₂.toNat < 0x90 := fun h => hbeyond (UInt8.toNat_inj.mp h)
    exact Or.inr ⟨by omega, by omega⟩

/-- Every character is encoded by its number. -/
theorem utf8Encode_char (c : Char) : Qodem.Keyboard.utf8Encode c.val.toNat = String.utf8EncodeChar c := by
  have hvalid : c.val.toNat < 0xD800 ∨ (0xDFFF < c.val.toNat ∧ c.val.toNat < 0x110000) := c.valid
  have hlast : c.val.toNat ≤ 0x10FFFF := by omega
  rw [Qodem.Keyboard.utf8Encode, if_pos hlast, String.utf8EncodeChar]
  simp only [Nat.add_comm]

/-- What is spelled is the encoding of its number. -/
theorem Spelled.encode {n : ℕ} (h : Spelled bytes n) : bytes = Qodem.Keyboard.utf8Encode n := by
  rw [Qodem.Keyboard.utf8Encode]
  cases h with
  | one hb => rw [if_pos (by omega), UInt8.ofNat_toNat]
  | @two b₁ b₂ hb hc =>
    rw [if_neg (by omega), if_pos (by omega)]
    simp only [List.cons.injEq, and_true, ← UInt8.toNat_inj, UInt8.toNat_ofNat']
    omega
  | @three b₁ b₂ b₃ hb hc hd hlong hsurrogate =>
    have hE0 : b₁.toNat = 0xE0 → 0xA0 ≤ b₂.toNat := fun h => hlong (UInt8.toNat_inj.mp h)
    rw [if_neg (by omega), if_neg (by omega), if_pos (by omega)]
    simp only [List.cons.injEq, and_true, ← UInt8.toNat_inj, UInt8.toNat_ofNat']
    omega
  | @four b₁ b₂ b₃ b₄ hb hc hd he hlong hbeyond =>
    have hF0 : b₁.toNat = 0xF0 → 0x90 ≤ b₂.toNat := fun h => hlong (UInt8.toNat_inj.mp h)
    have hF4 : b₁.toNat = 0xF4 → b₂.toNat < 0x90 := fun h => hbeyond (UInt8.toNat_inj.mp h)
    rw [if_neg (by omega), if_neg (by omega), if_neg (by omega), if_pos (by omega)]
    simp only [List.cons.injEq, and_true, ← UInt8.toNat_inj, UInt8.toNat_ofNat']
    omega

theorem exists_char (h : Reads 0 acc bytes cp) : ∃ c : Char, bytes = String.utf8EncodeChar c ∧ cp = c.val := by
  obtain ⟨n, hn⟩ := spelled_of_reads h
  have hc : (Char.ofNatAux n hn.isValidChar).val.toNat = n := rfl
  have hbytes : bytes = String.utf8EncodeChar (Char.ofNatAux n hn.isValidChar) := by
    rw [← utf8Encode_char, hc]
    exact hn.encode
  refine ⟨_, hbytes, ?_⟩
  rw [hbytes] at h
  exact reads_unique h (reads_encode _)

/-- No two numbers up to the last code point are encoded alike. -/
theorem utf8Encode_injective {m n : ℕ} (hm : m ≤ 0x10FFFF)
    (h : Qodem.Keyboard.utf8Encode n = Qodem.Keyboard.utf8Encode m) :
    n = m := by
  unfold Qodem.Keyboard.utf8Encode at h
  split_ifs at h <;>
    simp only [List.cons.injEq, and_true, ← UInt8.toNat_inj, UInt8.toNat_ofNat', reduceCtorEq, and_false] at h <;> omega

/-- The terminal accepts the characters of UTF-8 and nothing else, each as itself; and of what is encoded it reads back
the numbers of characters, and no surrogate. -/
theorem accepts_utf8 (acc : UInt32) (bytes : List UInt8) (cp : UInt32) (n : ℕ) :
    (Reads 0 acc bytes cp ↔ ∃ c : Char, bytes = String.utf8EncodeChar c ∧ cp = c.val) ∧
      (Reads 0 acc (Qodem.Keyboard.utf8Encode n) cp ↔ n.isValidChar ∧ cp.toNat = n) := by
  refine ⟨⟨exists_char, fun h => ?_⟩, fun h => ?_, fun h => ?_⟩
  · obtain ⟨c, rfl, rfl⟩ := h
    exact reads_encode c
  · obtain ⟨c, hbytes, rfl⟩ := exists_char h
    rw [← utf8Encode_char] at hbytes
    have hvalid : c.val.toNat < 0xD800 ∨ (0xDFFF < c.val.toNat ∧ c.val.toNat < 0x110000) := c.valid
    have hn : n = c.val.toNat := utf8Encode_injective (by omega) hbytes
    exact ⟨hn ▸ c.valid, hn.symm⟩
  · obtain ⟨hn, hcp⟩ := h
    have hcode : cp = (Char.ofNatAux n hn).val := UInt32.toNat_inj.mp hcp
    have hbytes : Qodem.Keyboard.utf8Encode n = String.utf8EncodeChar (Char.ofNatAux n hn) :=
      utf8Encode_char (Char.ofNatAux n hn)
    rw [hcode, hbytes]
    exact reads_encode _

end CProgram.Terminal.Utf8Decode
