import CProgram.Lib.Utf8
import CProgram.Terminal.Vt100

/-! What `utf8_decode` does to its state and to the character it gathers, and that it reads every
character off its bytes. State 0 accepts, state 1 rejects. -/
namespace CProgram.Terminal.Utf8Decode
open CProgram.Bytes
variable {σ : ℕ} {acc cp : UInt32} {b : UInt8} {bytes : List UInt8}

def next (σ : ℕ) (b : UInt8) : ℕ := utf8d.getD (256 + σ * 16 + utf8d.getD b.toNat 0) 0

def gather (σ : ℕ) (acc : UInt32) (b : UInt8) : UInt32 :=
  if σ ≠ 0 then (b &&& 0x3F).toUInt32 ||| (acc <<< 6)
  else (0xFF >>> UInt32.ofNat (utf8d.getD b.toNat 0)) &&& b.toUInt32

/-- The bytes are accepted, for the first time after the last of them, as this character. -/
def Reads : ℕ → UInt32 → List UInt8 → UInt32 → Prop
  | _, _, [], _ => False
  | σ, acc, [b], cp => next σ b = 0 ∧ gather σ acc b = cp
  | σ, acc, b :: bytes, cp => next σ b ≠ 0 ∧ Reads (next σ b) (gather σ acc b) bytes cp

/-- Something at the front of the bytes is accepted. -/
def Completes : ℕ → List UInt8 → Prop
  | _, [] => False
  | σ, b :: bytes => next σ b = 0 ∨ Completes (next σ b) bytes

/-- The bytes are rejected, for the first time after the last of them, and never accepted. -/
def Rejected : ℕ → List UInt8 → Prop
  | _, [] => False
  | σ, b :: bytes => if next σ b = 1 then bytes = [] else next σ b ≠ 0 ∧ Rejected (next σ b) bytes

/-! ### The table -/

/-- One byte in one state: the table has nine states, and only continuation bytes continue. -/
def TableEntry (σ : ℕ) (b : UInt8) : Prop :=
  next σ b < 9 ∧ (σ = 1 → next σ b = 1) ∧ (σ ≠ 0 ∧ σ ≠ 1 → next σ b ≠ σ) ∧
    (σ ≠ 0 ∧ next σ b ≠ 1 → 0x80 ≤ b ∧ b < 0xC0) ∧ (σ = 0 ∧ 0x80 ≤ b ∧ b < 0xC0 → next σ b = 1) ∧
    (σ = 0 → (next σ b = 0 ↔ b < 0x80))

instance : Decidable (TableEntry σ b) := inferInstanceAs (Decidable (_ ∧ _))

/-- The type of a byte: 0 for a 7-bit one, and 1, 7 or 9 for a continuation byte. -/
def TypeEntry (b : UInt8) (type : ℕ) : Prop :=
  type < 12 ∧ (type = 0 ↔ b < 0x80) ∧ (type = 1 ∨ type = 7 ∨ type = 9 ↔ 0x80 ≤ b ∧ b < 0xC0)

instance {type : ℕ} : Decidable (TypeEntry b type) := inferInstanceAs (Decidable (_ ∧ _))

/-- The type of a byte by its range. -/
def byteType (n : ℕ) : ℕ :=
  if n < 0x80 then 0 else if n < 0x90 then 1 else if n < 0xA0 then 9 else if n < 0xC0 then 7
  else if n < 0xC2 then 8 else if n < 0xE0 then 2 else if n = 0xE0 then 10 else if n = 0xED then 4
  else if n < 0xF0 then 3 else if n = 0xF0 then 11 else if n < 0xF4 then 6 else if n = 0xF4 then 5 else 8

/-- The first half of the table in one pass. -/
theorem types_eq : utf8d.take 256 = (List.range 256).map byteType := by decide +kernel

theorem type_eq (b : UInt8) : utf8d.getD b.toNat 0 = byteType b.toNat := by
  have hlt : b.toNat < 256 := b.toNat_lt
  rw [List.getD_eq_getElem?_getD, ← List.getElem?_take_of_lt hlt, types_eq, List.getElem?_map,
    List.getElem?_range hlt]
  rfl

/-- The second half, state by state. -/
def nextStates : List ℕ :=
  [0, 1, 2, 3, 5, 8, 7, 1, 1, 1, 4, 6, 1, 1, 1, 1,
   1, 1, 1, 1, 1, 1, 1, 1, 1, 1, 1, 1, 1, 1, 1, 1,
   1, 0, 1, 1, 1, 1, 1, 0, 1, 0, 1, 1, 1, 1, 1, 1,
   1, 2, 1, 1, 1, 1, 1, 2, 1, 2, 1, 1, 1, 1, 1, 1,
   1, 1, 1, 1, 1, 1, 1, 2, 1, 1, 1, 1, 1, 1, 1, 1,
   1, 2, 1, 1, 1, 1, 1, 1, 1, 2, 1, 1, 1, 1, 1, 1,
   1, 1, 1, 1, 1, 1, 1, 3, 1, 3, 1, 1, 1, 1, 1, 1,
   1, 3, 1, 1, 1, 1, 1, 3, 1, 3, 1, 1, 1, 1, 1, 1,
   1, 3, 1, 1, 1, 1, 1, 1, 1, 1, 1, 1, 1, 1, 1, 1]

theorem nextStates_eq : utf8d.drop 256 = nextStates := by decide +kernel

theorem next_eq (σ : ℕ) (b : UInt8) : next σ b = nextStates.getD (σ * 16 + byteType b.toNat) 0 := by
  rw [next, type_eq, ← nextStates_eq, List.getD_eq_getElem?_getD, List.getD_eq_getElem?_getD,
    List.getElem?_drop, Nat.add_assoc]

theorem typeEntry : TypeEntry b (utf8d.getD b.toNat 0) := by
  rw [type_eq]
  revert b
  apply forall_byte
  decide +kernel

/-- The second half of the table. -/
theorem stateEntry : ∀ σ : Fin 9, ∀ type : Fin 12, ∀ n, n = utf8d.getD (256 + σ * 16 + type) 0 →
    n < 9 ∧ (σ.val = 1 → n = 1) ∧ (σ.val ≠ 0 ∧ σ.val ≠ 1 → n ≠ σ) ∧
      (σ.val ≠ 0 ∧ n ≠ 1 → type.val = 1 ∨ type.val = 7 ∨ type.val = 9) ∧
      (σ.val = 0 ∧ (type.val = 1 ∨ type.val = 7 ∨ type.val = 9) → n = 1) ∧
      (σ.val = 0 → (n = 0 ↔ type.val = 0)) := by
  simp only [forall_eq, Nat.add_assoc]
  have hdrop (k : ℕ) : utf8d.getD (256 + k) 0 = nextStates.getD k 0 := by
    rw [← nextStates_eq, List.getD_eq_getElem?_getD, List.getD_eq_getElem?_getD, List.getElem?_drop]
  simp only [hdrop]
  decide +kernel

theorem tableEntry (h : σ < 9) : TableEntry σ b := by
  obtain ⟨hlt, hascii, hcontinuation⟩ := typeEntry (b := b)
  have hstate := stateEntry ⟨σ, h⟩ ⟨_, hlt⟩ (next σ b) rfl
  dsimp only at hstate
  rw [hcontinuation, hascii] at hstate
  exact hstate

theorem next_lt (h : σ < 9) : next σ b < 9 := (tableEntry h).1

@[simp] theorem next_reject : next 1 b = 1 := (tableEntry (by omega)).2.1 rfl

theorem next_ne (h : σ < 9) (h0 : σ ≠ 0) (h1 : σ ≠ 1) : next σ b ≠ σ := (tableEntry h).2.2.1 ⟨h0, h1⟩

/-- Only a continuation byte continues. -/
theorem continuation (h : σ < 9) (h0 : σ ≠ 0) (h1 : next σ b ≠ 1) : 0x80 ≤ b ∧ b < 0xC0 :=
  (tableEntry h).2.2.2.1 ⟨h0, h1⟩

theorem next_continuation (hlo : 0x80 ≤ b) (hhi : b < 0xC0) : next 0 b = 1 :=
  (tableEntry (by omega)).2.2.2.2.1 ⟨rfl, hlo, hhi⟩

theorem next_zero_iff : next 0 b = 0 ↔ b < 0x80 := (tableEntry (by omega)).2.2.2.2.2 rfl

theorem not_completes_reject : ¬ Completes 1 bytes := by
  induction bytes with
  | nil => exact id
  | cons b bytes ih =>
    intro h
    rw [Completes, next_reject] at h
    exact h.elim (by omega) ih

/-! ### Reading a row of bytes -/

@[simp] theorem reads_nil : Reads σ acc [] cp ↔ False := Iff.rfl

theorem reads_singleton : Reads σ acc [b] cp ↔ next σ b = 0 ∧ gather σ acc b = cp := Iff.rfl

theorem reads_cons {b' : UInt8} : Reads σ acc (b :: b' :: bytes) cp ↔
    next σ b ≠ 0 ∧ Reads (next σ b) (gather σ acc b) (b' :: bytes) cp := Iff.rfl

theorem not_reads_reject : ¬ Reads 1 acc bytes cp := by
  induction bytes generalizing acc with
  | nil => exact id
  | cons b bytes ih =>
    cases bytes with
    | nil => simp [reads_singleton]
    | cons b' bytes =>
      intro h
      have hrest := (reads_cons.mp h).2
      rw [next_reject] at hrest
      exact ih hrest

theorem completes_append {rest : List UInt8} (h : Completes σ bytes) : Completes σ (bytes ++ rest) := by
  induction bytes generalizing σ with
  | nil => exact h.elim
  | cons b bytes ih => exact h.imp id ih

/-- After its first byte a character has continuation bytes only. -/
theorem continuation_of_reads (hσ : σ < 9) (h0 : σ ≠ 0) (h : Reads σ acc bytes cp) (hb : b ∈ bytes) :
    0x80 ≤ b ∧ b < 0xC0 := by
  induction bytes generalizing σ acc with
  | nil => simp at hb
  | cons c bytes ih =>
    cases bytes with
    | nil =>
      obtain rfl := List.mem_singleton.mp hb
      exact continuation hσ h0 (by have hzero := h.1; omega)
    | cons c' bytes =>
      obtain ⟨hnext, hrest⟩ := reads_cons.mp h
      have hc : next σ c ≠ 1 := by
        intro hone
        rw [hone] at hrest
        exact not_reads_reject hrest
      rcases List.mem_cons.mp hb with rfl | hb
      · exact continuation hσ h0 hc
      · exact ih (next_lt hσ) hnext hrest hb

/-! ### Every character is read off its bytes -/

theorem gather_continuation (hσ : σ ≠ 0) (hlo : 0x80 ≤ b.toNat) (hhi : b.toNat < 0xC0)
    (hacc : acc.toNat < 2 ^ 26) : (gather σ acc b).toNat = acc.toNat * 64 + (b.toNat - 0x80) := by
  have hbits : b.toNat &&& 0x3F = b.toNat - 0x80 := by
    rw [show (0x3F : ℕ) = 2 ^ 6 - 1 by rfl, Nat.and_two_pow_sub_one_eq_mod]
    omega
  have hshift : acc.toNat <<< 6 % 2 ^ 32 = acc.toNat <<< 6 := by
    rw [Nat.shiftLeft_eq]
    omega
  rw [gather, if_pos hσ, UInt32.toNat_or, UInt32.toNat_shiftLeft, UInt8.toNat_toUInt32, UInt8.toNat_and,
    show (6 : UInt32).toNat % 32 = 6 by rfl, show (0x3F : UInt8).toNat = 0x3F by rfl, hbits, hshift,
    Nat.or_comm, ← Nat.shiftLeft_add_eq_or_of_lt (by omega), Nat.shiftLeft_eq]

/-- What a lead byte starts, and the bits it brings. -/
def LeadEntry (b : UInt8) : Prop :=
  (b.toNat < 0x80 → (gather 0 0 b).toNat = b.toNat) ∧
    (0xC2 ≤ b.toNat ∧ b.toNat < 0xE0 → next 0 b = 2 ∧ (gather 0 0 b).toNat = b.toNat - 0xC0) ∧
    (0xE0 ≤ b.toNat ∧ b.toNat < 0xF0 → (gather 0 0 b).toNat = b.toNat - 0xE0 ∧
      next 0 b = if b = 0xE0 then 4 else if b = 0xED then 5 else 3) ∧
    (0xF0 ≤ b.toNat ∧ b.toNat < 0xF5 → (gather 0 0 b).toNat = b.toNat - 0xF0 ∧
      next 0 b = if b = 0xF0 then 6 else if b = 0xF4 then 8 else 7)

instance : Decidable (LeadEntry b) := inferInstanceAs (Decidable (_ ∧ _))

theorem leadEntry (b : UInt8) : LeadEntry b := by
  unfold LeadEntry gather
  simp only [next_eq, type_eq]
  revert b
  apply forall_byte
  decide +kernel

/-- Where a continuation byte leads; overlong forms, surrogates and what lies beyond Unicode are rejected. -/
def ContinuationEntry (b : UInt8) : Prop :=
  0x80 ≤ b.toNat ∧ b.toNat < 0xC0 → next 2 b = 0 ∧ next 3 b = 2 ∧ next 7 b = 3 ∧
    (0xA0 ≤ b.toNat → next 4 b = 2) ∧ (b.toNat < 0xA0 → next 5 b = 2) ∧
    (0x90 ≤ b.toNat → next 6 b = 3) ∧ (b.toNat < 0x90 → next 8 b = 3)

instance : Decidable (ContinuationEntry b) := inferInstanceAs (Decidable (_ → _))

theorem continuationEntry (b : UInt8) : ContinuationEntry b := by
  unfold ContinuationEntry
  simp only [next_eq]
  revert b
  apply forall_byte
  decide +kernel

theorem gather_lead : gather 0 acc b = gather 0 0 b := rfl

variable {b₁ b₂ b₃ b₄ : UInt8}

theorem reads_one (h : b.toNat < 0x80) (hcp : cp.toNat = b.toNat) : Reads 0 acc [b] cp := by
  rw [reads_singleton, gather_lead, ← UInt32.toNat_inj, (leadEntry b).1 h]
  exact ⟨next_zero_iff.mpr h, hcp.symm⟩

theorem reads_two (h₁ : 0xC2 ≤ b₁.toNat ∧ b₁.toNat < 0xE0) (h₂ : 0x80 ≤ b₂.toNat ∧ b₂.toNat < 0xC0)
    (hcp : cp.toNat = (b₁.toNat - 0xC0) * 64 + (b₂.toNat - 0x80)) : Reads 0 acc [b₁, b₂] cp := by
  obtain ⟨hnext, hlead⟩ := (leadEntry b₁).2.1 h₁
  have hgather : (gather 2 (gather 0 0 b₁) b₂).toNat = cp.toNat := by
    rw [gather_continuation (by omega) h₂.1 h₂.2 (by omega), hlead, hcp]
  rw [reads_cons, reads_singleton, gather_lead, hnext, ← UInt32.toNat_inj]
  exact ⟨by omega, (continuationEntry b₂ h₂).1, hgather⟩

theorem reads_three (h₁ : 0xE0 ≤ b₁.toNat ∧ b₁.toNat < 0xF0) (h₂ : 0x80 ≤ b₂.toNat ∧ b₂.toNat < 0xC0)
    (h₃ : 0x80 ≤ b₃.toNat ∧ b₃.toNat < 0xC0) (hlong : b₁ = 0xE0 → 0xA0 ≤ b₂.toNat)
    (hsurrogate : b₁ = 0xED → b₂.toNat < 0xA0)
    (hcp : cp.toNat = ((b₁.toNat - 0xE0) * 64 + (b₂.toNat - 0x80)) * 64 + (b₃.toNat - 0x80)) :
    Reads 0 acc [b₁, b₂, b₃] cp := by
  obtain ⟨hlead, hnext⟩ := (leadEntry b₁).2.2.1 h₁
  obtain ⟨h2, h3, h7, h4, h5, h6, h8⟩ := continuationEntry b₂ h₂
  have hfirst : next 0 b₁ ≠ 0 := by rw [hnext]; split_ifs <;> omega
  have hsecond : next (next 0 b₁) b₂ = 2 := by
    rw [hnext]
    split_ifs with hE0 hED
    · exact h4 (hlong hE0)
    · exact h5 (hsurrogate hED)
    · exact h3
  have hgather₂ : (gather (next 0 b₁) (gather 0 0 b₁) b₂).toNat =
      (b₁.toNat - 0xE0) * 64 + (b₂.toNat - 0x80) := by
    rw [gather_continuation hfirst h₂.1 h₂.2 (by omega), hlead]
  have hgather₃ : (gather 2 (gather (next 0 b₁) (gather 0 0 b₁) b₂) b₃).toNat = cp.toNat := by
    rw [gather_continuation (by omega) h₃.1 h₃.2 (by omega), hgather₂, hcp]
  rw [reads_cons, reads_cons, reads_singleton, gather_lead, hsecond, ← UInt32.toNat_inj]
  exact ⟨hfirst, by omega, (continuationEntry b₃ h₃).1, hgather₃⟩

theorem reads_four (h₁ : 0xF0 ≤ b₁.toNat ∧ b₁.toNat < 0xF5) (h₂ : 0x80 ≤ b₂.toNat ∧ b₂.toNat < 0xC0)
    (h₃ : 0x80 ≤ b₃.toNat ∧ b₃.toNat < 0xC0) (h₄ : 0x80 ≤ b₄.toNat ∧ b₄.toNat < 0xC0)
    (hlong : b₁ = 0xF0 → 0x90 ≤ b₂.toNat) (hbeyond : b₁ = 0xF4 → b₂.toNat < 0x90)
    (hcp : cp.toNat = (((b₁.toNat - 0xF0) * 64 + (b₂.toNat - 0x80)) * 64 + (b₃.toNat - 0x80)) * 64 +
      (b₄.toNat - 0x80)) :
    Reads 0 acc [b₁, b₂, b₃, b₄] cp := by
  obtain ⟨hlead, hnext⟩ := (leadEntry b₁).2.2.2 h₁
  obtain ⟨h2, h3, h7, h4, h5, h6, h8⟩ := continuationEntry b₂ h₂
  have hfirst : next 0 b₁ ≠ 0 := by rw [hnext]; split_ifs <;> omega
  have hsecond : next (next 0 b₁) b₂ = 3 := by
    rw [hnext]
    split_ifs with hF0 hF4
    · exact h6 (hlong hF0)
    · exact h8 (hbeyond hF4)
    · exact h7
  have hgather₂ : (gather (next 0 b₁) (gather 0 0 b₁) b₂).toNat =
      (b₁.toNat - 0xF0) * 64 + (b₂.toNat - 0x80) := by
    rw [gather_continuation hfirst h₂.1 h₂.2 (by omega), hlead]
  have hgather₃ : (gather 3 (gather (next 0 b₁) (gather 0 0 b₁) b₂) b₃).toNat =
      ((b₁.toNat - 0xF0) * 64 + (b₂.toNat - 0x80)) * 64 + (b₃.toNat - 0x80) := by
    rw [gather_continuation (by omega) h₃.1 h₃.2 (by omega), hgather₂]
  have hgather₄ : (gather 2 (gather 3 (gather (next 0 b₁) (gather 0 0 b₁) b₂) b₃) b₄).toNat = cp.toNat := by
    rw [gather_continuation (by omega) h₄.1 h₄.2 (by omega), hgather₃, hcp]
  rw [reads_cons, reads_cons, reads_cons, reads_singleton, gather_lead, hsecond,
    (continuationEntry b₃ h₃).2.1, ← UInt32.toNat_inj]
  exact ⟨hfirst, by omega, by omega, (continuationEntry b₄ h₄).1, hgather₄⟩

theorem reads_encode (c : Char) : Reads 0 acc (String.utf8EncodeChar c) c.val := by
  have hvalid : c.val.toNat < 0xD800 ∨ (0xDFFF < c.val.toNat ∧ c.val.toNat < 0x110000) := c.valid
  unfold String.utf8EncodeChar
  simp only
  split
  · apply reads_one <;> rw [UInt8.toNat_ofNat'] <;> omega
  · split
    · apply reads_two <;> simp only [UInt8.toNat_ofNat'] <;> omega
    · split
      · apply reads_three <;> simp only [UInt8.toNat_ofNat', ← UInt8.toNat_inj, UInt8.toNat_ofNat] <;> omega
      · apply reads_four <;> simp only [UInt8.toNat_ofNat', ← UInt8.toNat_inj, UInt8.toNat_ofNat] <;> omega

end CProgram.Terminal.Utf8Decode
