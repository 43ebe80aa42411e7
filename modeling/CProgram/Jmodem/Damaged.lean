import CProgram.Jmodem.Buffers

/-! `calc_crc` on a block in a buffer: one byte that is changed behind the sealing never goes unseen. -/
namespace CProgram.Jmodem.Damaged

/-- The loop of `calc_crc`: so many rounds, from a place in the buffer on. -/
def sumFrom (buffer : ℕ → UInt8) : ℕ → ℕ → BitVec 16 → BitVec 16
  | 0, _, crc => crc
  | length + 1, i, crc =>
    sumFrom buffer length (i + 1) ((crc + BitVec.ofNat 16 (buffer i).toNat).rotateLeft ((length + 1) &&& 0x07))

def cmdGetCrc : ℕ := 0
def cmdSetCrc : ℕ := 1
def jmMax : BitVec 16 := 0xFFFF

/-- The rounds that `do .. while (--length)` makes; a length of 0 takes 65536. -/
def rounds (length : ℕ) : ℕ := if short (length + 65536 - 2) = 0 then 65536 else short (length + 65536 - 2)

/-- `calc_crc`: what is returned, and the buffer behind it. -/
def calcCrc (command length : ℕ) (buffer : ℕ → UInt8) : BitVec 16 × (ℕ → UInt8) :=
  let n := rounds length
  let crc := sumFrom buffer n 0 0
  if command = cmdGetCrc then
    (crc - (BitVec.ofNat 16 (buffer n).toNat ||| BitVec.ofNat 16 (buffer (n + 1)).toNat <<< 8), buffer)
  else if command = cmdSetCrc then
    let buffer := Function.update buffer n (UInt8.ofNat crc.toNat)
    (crc, Function.update buffer (n + 1) (UInt8.ofNat (crc >>> 8).toNat))
  else (jmMax, buffer)

variable {buffer other : ℕ → UInt8} {n i k : ℕ} {crc crc' : BitVec 16}

/-! ### A round -/

theorem rotateLeft_injective {w : ℕ} (r : ℕ) {x y : BitVec w} (h : x.rotateLeft r = y.rotateLeft r) : x = y := by
  rcases Nat.eq_zero_or_pos w with rfl | hw
  · exact Subsingleton.elim x y
  apply BitVec.eq_of_getLsbD_eq
  intro i hi
  have hr : r % w < w := Nat.mod_lt r hw
  have hbit := congrArg (fun z : BitVec w => z.getLsbD ((i + r % w) % w)) h
  simp only [BitVec.getLsbD_rotateLeft] at hbit
  by_cases hover : i + r % w < w
  · have hlow : ¬ i + r % w < r % w := by omega
    rw [Nat.mod_eq_of_lt hover] at hbit
    simpa [hlow, hover] using hbit
  · have hmod : (i + r % w) % w = i + r % w - w := by
      rw [Nat.mod_eq_sub_mod (by omega), Nat.mod_eq_of_lt (by omega)]
    have hlow : i + r % w - w < r % w := by omega
    have hback : w - r % w + (i + r % w - w) = i := by omega
    rw [hmod] at hbit
    simpa [hlow, hback] using hbit

theorem byte_injective {a b : UInt8} (h : BitVec.ofNat 16 a.toNat = BitVec.ofNat 16 b.toNat) : a = b := by
  have ha := a.toNat_lt
  have hb := b.toNat_lt
  have hnat := congrArg BitVec.toNat h
  rw [BitVec.toNat_ofNat, BitVec.toNat_ofNat] at hnat
  exact UInt8.toNat_inj.mp (by omega)

/-- A round loses nothing of the running value, and nothing of the byte. -/
theorem round_injective {r : ℕ} {x y : BitVec 16} :
    (crc + x).rotateLeft r = (crc' + y).rotateLeft r → (x = y → crc = crc') ∧ (crc = crc' → x = y) := by
  intro h
  have hsum := rotateLeft_injective r h
  constructor
  · rintro rfl
    exact (BitVec.add_left_inj _).mp hsum
  · rintro rfl
    exact (BitVec.add_right_inj _).mp hsum

/-! ### The loop -/

theorem sumFrom_congr (n i : ℕ) (crc : BitVec 16) (h : ∀ j, i ≤ j → j < i + n → buffer j = other j) :
    sumFrom buffer n i crc = sumFrom other n i crc := by
  induction n generalizing i crc with
  | zero => rfl
  | succ n ih =>
    rw [sumFrom, sumFrom, h i le_rfl (by omega)]
    exact ih (i + 1) _ fun j hj hlast => h j (by omega) (by omega)

theorem sumFrom_injective (buffer : ℕ → UInt8) (n i : ℕ) :
    sumFrom buffer n i crc = sumFrom buffer n i crc' → crc = crc' := by
  induction n generalizing i crc crc' with
  | zero => exact id
  | succ n ih => exact fun h => (round_injective (ih (i + 1) h)).1 rfl

/-- Two rows of bytes that differ in one place have different sums. -/
theorem sumFrom_ne (n i : ℕ) (crc : BitVec 16) (hlow : i ≤ k) (hhigh : k < i + n) (hk : buffer k ≠ other k)
    (h : ∀ j, i ≤ j → j < i + n → j ≠ k → buffer j = other j) : sumFrom buffer n i crc ≠ sumFrom other n i crc := by
  induction n generalizing i crc with
  | zero => omega
  | succ n ih =>
    rw [sumFrom, sumFrom]
    by_cases hik : i = k
    · subst hik
      have hrest := sumFrom_congr n (i + 1)
        ((crc + BitVec.ofNat 16 (buffer i).toNat).rotateLeft ((n + 1) &&& 0x07))
        fun j hj hlast => h j (by omega) (by omega) (by omega)
      rw [hrest]
      intro hsame
      exact hk (byte_injective ((round_injective (sumFrom_injective other n (i + 1) hsame)).2 rfl))
    · rw [h i le_rfl (by omega) hik]
      exact ih (i + 1) _ (by omega) (by omega) fun j hj hlast => h j (by omega) (by omega)

/-! ### The block -/

theorem rounds_eq {length : ℕ} (hlow : 3 ≤ length) (hhigh : length ≤ datLen) : rounds length = length - 2 := by
  have hshort : short (length + 65536 - 2) = length - 2 := by
    simp only [short, datLen] at *
    omega
  rw [rounds, hshort, if_neg (by omega)]

/-- The number of two bytes. -/
def wordOf (low high : UInt8) : BitVec 16 := BitVec.ofNat 16 low.toNat ||| BitVec.ofNat 16 high.toNat <<< 8

theorem toNat_wordOf (low high : UInt8) : (wordOf low high).toNat = low.toNat + 256 * high.toNat := by
  have hlow := low.toNat_lt
  have hhigh := high.toNat_lt
  have hor := Nat.shiftLeft_add_eq_or_of_lt (i := 8) (b := low.toNat) (by omega) high.toNat
  have hlow' : low.toNat % 2 ^ 16 = low.toNat := Nat.mod_eq_of_lt (by omega)
  have hhigh' : high.toNat % 2 ^ 16 = high.toNat := Nat.mod_eq_of_lt (by omega)
  have hshift : high.toNat <<< 8 % 2 ^ 16 = high.toNat <<< 8 := Nat.mod_eq_of_lt (by rw [Nat.shiftLeft_eq]; omega)
  rw [wordOf, BitVec.toNat_or, BitVec.toNat_shiftLeft, BitVec.toNat_ofNat, BitVec.toNat_ofNat, hlow', hhigh', hshift,
    Nat.or_comm, ← hor, Nat.shiftLeft_eq]
  omega

/-- The two bytes that the sealing writes. -/
theorem wordOf_bytes (crc : BitVec 16) : wordOf (UInt8.ofNat crc.toNat) (UInt8.ofNat (crc >>> 8).toNat) = crc := by
  have hcrc := crc.isLt
  apply BitVec.eq_of_toNat_eq
  rw [toNat_wordOf, UInt8.toNat_ofNat', UInt8.toNat_ofNat', BitVec.toNat_ushiftRight, Nat.shiftRight_eq_div_pow]
  omega

theorem wordOf_low {a b high : UInt8} (h : wordOf a high = wordOf b high) : a = b := by
  have hnat := congrArg BitVec.toNat h
  rw [toNat_wordOf, toNat_wordOf] at hnat
  exact UInt8.toNat_inj.mp (by omega)

theorem wordOf_high {a b low : UInt8} (h : wordOf low a = wordOf low b) : a = b := by
  have hnat := congrArg BitVec.toNat h
  rw [toNat_wordOf, toNat_wordOf] at hnat
  exact UInt8.toNat_inj.mp (by omega)

theorem get_eq_zero_iff (length : ℕ) (buffer : ℕ → UInt8) : (calcCrc cmdGetCrc length buffer).1 = 0 ↔
    sumFrom buffer (rounds length) 0 0 = wordOf (buffer (rounds length)) (buffer (rounds length + 1)) := by
  rw [calcCrc, if_pos rfl]
  constructor
  · intro h
    have hback := congrArg (· + wordOf (buffer (rounds length)) (buffer (rounds length + 1))) h
    simpa [wordOf, BitVec.sub_add_cancel] using hback
  · intro h
    rw [h]
    exact BitVec.sub_self _

/-- What the sealing leaves of the block, and what it writes behind it. -/
theorem set_facts (length : ℕ) (buffer : ℕ → UInt8) {sealed' : ℕ → UInt8}
    (h : (calcCrc cmdSetCrc length buffer).2 = sealed') :
    sumFrom sealed' (rounds length) 0 0 = wordOf (sealed' (rounds length)) (sealed' (rounds length + 1)) := by
  rw [calcCrc, if_neg (by decide), if_pos rfl] at h
  dsimp only at h
  subst h
  rw [Function.update_self, Function.update_of_ne (by omega), Function.update_self, wordOf_bytes]
  refine (sumFrom_congr _ _ _ fun j hlow hhigh => ?_).symm
  rw [Function.update_of_ne (by omega), Function.update_of_ne (by omega)]

/-- A block of 3 to `DAT_LEN` bytes that is sealed and then damaged in exactly one byte, be it one of the two that hold
the CRC, is found to be damaged. -/
theorem single_byte_found (length : ℕ) (hlow : 3 ≤ length) (hhigh : length ≤ datLen) (buffer damaged : ℕ → UInt8) (k : ℕ)
    (hk : k < length) (hdamage : damaged k ≠ (calcCrc cmdSetCrc length buffer).2 k)
    (hsame : ∀ j, j < length → j ≠ k → damaged j = (calcCrc cmdSetCrc length buffer).2 j) :
    (calcCrc cmdGetCrc length damaged).1 ≠ 0 := by
  rw [Ne, get_eq_zero_iff]
  have hfacts := set_facts length buffer rfl
  generalize (calcCrc cmdSetCrc length buffer).2 = whole at hdamage hsame hfacts
  rw [rounds_eq hlow hhigh] at hfacts ⊢
  intro hsum
  by_cases hfront : k < length - 2
  · -- the sums differ and the CRC is the same
    have hcrc : wordOf (damaged (length - 2)) (damaged (length - 2 + 1)) =
        wordOf (whole (length - 2)) (whole (length - 2 + 1)) := by
      rw [hsame _ (by omega) (by omega), hsame _ (by omega) (by omega)]
    refine sumFrom_ne (length - 2) 0 0 (Nat.zero_le k) (by omega) hdamage (fun j _ hj hne => hsame j (by omega) hne) ?_
    rw [hsum, hcrc, hfacts]
  · -- the sums are the same and the CRC differs
    have hfold : sumFrom damaged (length - 2) 0 0 = sumFrom whole (length - 2) 0 0 :=
      sumFrom_congr _ _ _ fun j _ hj => hsame j (by omega) (by omega)
    rw [hfold, hfacts] at hsum
    rcases (by omega : k = length - 2 ∨ k = length - 2 + 1) with rfl | rfl
    · rw [hsame (length - 2 + 1) (by omega) (by omega)] at hsum
      exact hdamage (wordOf_low hsum).symm
    · rw [hsame (length - 2) (by omega) (by omega)] at hsum
      exact hdamage (wordOf_high hsum).symm

/-- A block of three bytes, and the first one changed. -/
theorem single_byte_found_three : (calcCrc cmdGetCrc 3
    (Function.update (calcCrc cmdSetCrc 3 fun _ => 0).2 0 1)).1 ≠ 0 :=
  single_byte_found 3 (by decide) (by decide) (fun _ => 0) _ 0 (by decide) (by decide) fun j _ hj =>
    Function.update_of_ne hj _ _

end CProgram.Jmodem.Damaged
