import CProgram.Lib.Bytes

/-! Numbers as the C library prints them in a base up to ten, and as it reads them back. -/
namespace CProgram.Numerals
open Bytes

def numeral (b n : ℕ) : List UInt8 := (Nat.toDigits b n).map fun ch => UInt8.ofNat ch.toNat

def isDigitIn (b : ℕ) (ch : UInt8) : Bool := decide (48 ≤ ch.toNat) && decide (ch.toNat < 48 + b)

/-- The number that the digits at the front of a string continue. -/
def value (b : ℕ) : List UInt8 → ℕ → ℕ
  | [], n => n
  | ch :: rest, n => if isDigitIn b ch then value b rest (b * n + (ch.toNat - 48)) else n

/-- White space, a sign, and at least one digit. -/
def scan (b : ℕ) (text : List UInt8) : Option ℤ :=
  let number (s : List UInt8) : Option ℕ :=
    if isDigitIn b (s.headD 0) then some (value b s 0) else none
  match text.dropWhile isSpace with
  | 45 :: rest => (number rest).map fun n => -(n : ℤ)
  | 43 :: rest => (number rest).map Int.ofNat
  | rest => (number rest).map Int.ofNat

/-- `atol` on a 64-bit `long`. -/
def atol (text : List UInt8) : ℤ := max (-2 ^ 63) (min ((scan 10 text).getD 0) (2 ^ 63 - 1))

/-- What `sscanf` puts into an `unsigned long` for `%lo`, if it converts at all. -/
def scanOctal (text : List UInt8) : Option UInt64 :=
  (scan 8 text).map fun z => if z.natAbs < 2 ^ 64 then UInt64.ofInt z else UInt64.ofNat (2 ^ 64 - 1)

variable {b : ℕ}

theorem numeral_of_lt (hb : 1 < b) {n : ℕ} (h : n < b) (hten : b ≤ 10) :
    numeral b n = [UInt8.ofNat (48 + n)] := by
  have hsmall : n < 10 := by omega
  rw [numeral, Nat.toDigits_of_lt_base h]
  interval_cases n <;> rfl

theorem numeral_step (hb : 1 < b) {n : ℕ} (h : b ≤ n) :
    numeral b n = numeral b (n / b) ++ numeral b (n % b) := by
  have hdigit : n % b < b := Nat.mod_lt n (by omega)
  have hfront : 0 < n / b := Nat.div_pos h (by omega)
  have hsplit := Nat.toDigits_append_toDigits hb hfront hdigit
  rw [Nat.div_add_mod] at hsplit
  rw [numeral, ← hsplit, List.map_append, numeral, numeral]

theorem isDigitIn_of_mem (hb : 1 < b) (hten : b ≤ 10) {n : ℕ} {ch : UInt8}
    (hch : ch ∈ numeral b n) : isDigitIn b ch = true := by
  have hsingle (m : ℕ) (hm : m < b) (hmem : ch ∈ numeral b m) : isDigitIn b ch = true := by
    rw [numeral_of_lt hb hm hten, List.mem_singleton] at hmem
    have hval : (UInt8.ofNat (48 + m)).toNat = 48 + m := by
      rw [UInt8.toNat_ofNat']
      omega
    subst hmem
    simp only [isDigitIn, hval, Bool.and_eq_true, decide_eq_true_eq]
    omega
  induction n using Nat.strong_induction_on with
  | _ n ih =>
    by_cases h : n < b
    · exact hsingle n h hch
    · rw [numeral_step hb (by omega), List.mem_append] at hch
      rcases hch with hfront | hlast
      · exact ih (n / b) (Nat.div_lt_self (by omega) hb) hfront
      · exact hsingle (n % b) (Nat.mod_lt n (by omega)) hlast

theorem numeral_ne_nil (n : ℕ) : numeral b n ≠ [] := by
  simp [numeral, Nat.toDigits_ne_nil]

/-- The digits in front of what follows are read first. -/
theorem value_append {front rest : List UInt8} (hfront : ∀ ch ∈ front, isDigitIn b ch = true) (n : ℕ) :
    value b (front ++ rest) n = value b rest (value b front n) := by
  induction front generalizing n with
  | nil => rfl
  | cons ch front ih =>
    have hhead := hfront ch List.mem_cons_self
    rw [List.cons_append, value, value, if_pos hhead, if_pos hhead,
      ih fun x hx => hfront x (List.mem_cons_of_mem _ hx)]

theorem value_numeral (hb : 1 < b) (hten : b ≤ 10) (n : ℕ) : value b (numeral b n) 0 = n := by
  have hsingle (m k : ℕ) (hm : m < b) : value b (numeral b m) k = b * k + m := by
    have hval : (UInt8.ofNat (48 + m)).toNat = 48 + m := by
      rw [UInt8.toNat_ofNat']
      omega
    have hmem : UInt8.ofNat (48 + m) ∈ numeral b m := by
      rw [numeral_of_lt hb hm hten]
      exact List.mem_singleton_self _
    have hdigit := isDigitIn_of_mem hb hten hmem
    rw [numeral_of_lt hb hm hten, value, if_pos hdigit, value, hval]
    omega
  induction n using Nat.strong_induction_on with
  | _ n ih =>
    by_cases h : n < b
    · rw [hsingle n 0 h, Nat.mul_zero, Nat.zero_add]
    · have hfront := ih (n / b) (Nat.div_lt_self (by omega) hb)
      rw [numeral_step hb (by omega), value_append (fun ch hch => isDigitIn_of_mem hb hten hch), hfront,
        hsingle _ _ (Nat.mod_lt n (by omega)), Nat.div_add_mod]

/-- What was printed is read back. -/
theorem scan_numeral (hb : 1 < b) (hten : b ≤ 10) (n : ℕ) : scan b (numeral b n) = some (n : ℤ) := by
  obtain ⟨ch, rest, hlist⟩ := List.exists_cons_of_ne_nil (numeral_ne_nil (b := b) n)
  have hmem : ch ∈ numeral b n := by
    rw [hlist]
    exact List.mem_cons_self
  have hdigit := isDigitIn_of_mem hb hten hmem
  have hvalue := value_numeral hb hten n
  have hrange : 48 ≤ ch.toNat ∧ ch.toNat < 48 + b := by simpa [isDigitIn] using hdigit
  have hspace : isSpace ch = false := by
    have h32 : ch ≠ 32 := fun h => by subst h; simp at hrange
    have h13 : ¬ ch ≤ 13 := fun h => by
      have := UInt8.le_iff_toNat_le.mp h
      simp at this
      omega
    simp [isSpace, h32, h13]
  have hminus : ch ≠ 45 := fun h => by subst h; simp at hrange
  have hplus : ch ≠ 43 := fun h => by subst h; simp at hrange
  rw [hlist] at hvalue ⊢
  rw [scan, List.dropWhile_cons_of_neg (by simp [hspace])]
  dsimp only
  split
  · next h => exact absurd (List.cons.inj h).1 hminus
  · next h => exact absurd (List.cons.inj h).1 hplus
  · simp [hdigit, hvalue]

theorem length_numeral_le (hb : 1 < b) {n k : ℕ} (hk : 0 < k) (h : n < b ^ k) :
    (numeral b n).length ≤ k := by
  rw [numeral, List.length_map]
  exact (Nat.length_toDigits_le_iff hb hk).mpr h

end CProgram.Numerals
