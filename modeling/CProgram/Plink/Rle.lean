import Mathlib.Data.List.Basic
import Mathlib.Tactic

/-! The run-length coding of PLINK, on memory: the encoder looks at bytes behind its block, and both give the number of
bytes that they have written as an `unsigned short`. -/
namespace CProgram.Plink.Rle
variable {mem store : ℕ → UInt8} {p q len n k : ℕ} {dupl : UInt8}

/-- What is in front of every run. -/
def mark : UInt8 := 0xBB

/-- The bytes of a block. -/
def block (mem : ℕ → UInt8) (p len : ℕ) : List UInt8 := (List.range len).map fun i => mem (p + i)

/-- `how_many`, which is no larger than `len`. -/
def howMany (mem : ℕ → UInt8) (dupl : UInt8) : ℕ → ℕ → ℕ
  | _, 0 => 0
  | p, len + 1 => if mem p = dupl then howMany mem dupl (p + 1) len + 1 else 0

/-- A run, or a mark in the data. -/
def runs (mem : ℕ → UInt8) (p : ℕ) : Prop :=
  mem p = mark ∨ mem p = mem (p + 1) ∧ mem p = mem (p + 2) ∧ mem p = mem (p + 3) ∧ mem p = mem (p + 4)

instance : Decidable (runs mem p) := inferInstanceAs (Decidable (_ ∨ _))

theorem howMany_le : howMany mem dupl p len ≤ len := by
  induction len generalizing p with
  | zero => exact le_rfl
  | succ len ih =>
    rw [howMany]
    split
    · exact Nat.succ_le_succ ih
    · exact Nat.zero_le _

theorem howMany_pos : 0 < howMany mem (mem p) p (len + 1) := by
  rw [howMany, if_pos rfl]
  exact Nat.succ_pos _

/-- `rle`: what is written. -/
def rle (mem : ℕ → UInt8) (p : ℕ) : ℕ → List UInt8
  | 0 => []
  | len + 1 =>
    if runs mem p then
      let n := howMany mem (mem p) p (len + 1)
      have : len + 1 - n < len + 1 := Nat.sub_lt (Nat.succ_pos _) howMany_pos
      mark :: UInt8.ofNat n :: UInt8.ofNat (n >>> 8) :: mem p :: rle mem (p + n) (len + 1 - n)
    else mem p :: rle mem (p + 1) len

theorem rle_zero : rle mem p 0 = [] := by rw [rle]

/-- `unrle` from `q` up to `limit`. A run is read whole, also where `limit` is inside of it. -/
def unrle (store : ℕ → UInt8) (q limit : ℕ) : List UInt8 :=
  if _ : q < limit then
    if store q = mark then
      List.replicate ((store (q + 1)).toNat ||| (store (q + 2)).toNat <<< 8) (store (q + 3)) ++
        unrle store (q + 4) limit
    else store q :: unrle store (q + 1) limit
  else []
termination_by limit - q

/-- The number that is returned. -/
def count (out : List UInt8) : ℕ := out.length % 2 ^ 16

/-! ### The bytes of a run -/

@[simp] theorem length_block : (block mem p len).length = len := by simp [block]

theorem block_succ : block mem p (len + 1) = mem p :: block mem (p + 1) len := by
  rw [block, List.range_succ_eq_map, List.map_cons, List.map_map, block]
  refine congrArg₂ _ rfl (List.map_congr_left fun i _ => ?_)
  exact congrArg mem (by simp only [Nat.succ_eq_add_one]; omega)

theorem block_add : block mem p (n + len) = block mem p n ++ block mem (p + n) len := by
  rw [block, List.range_add, List.map_append, List.map_map, block, block]
  refine congrArg₂ _ rfl (List.map_congr_left fun i _ => ?_)
  exact congrArg mem (Nat.add_assoc _ _ _).symm

/-- A run is as many times its byte. -/
theorem block_howMany : block mem p (howMany mem dupl p len) = List.replicate (howMany mem dupl p len) dupl := by
  induction len generalizing p with
  | zero => rfl
  | succ len ih =>
    rw [howMany]
    split
    · next hdupl => rw [block_succ, ih, hdupl, List.replicate_succ]
    · rfl

theorem read_howMany (h : n < 2 ^ 16) : (UInt8.ofNat n).toNat ||| (UInt8.ofNat (n >>> 8)).toNat <<< 8 = n := by
  have hlow : (UInt8.ofNat n).toNat = n % 2 ^ 8 := by simp
  have hhigh : (UInt8.ofNat (n >>> 8)).toNat = n / 2 ^ 8 := by
    rw [UInt8.toNat_ofNat', Nat.shiftRight_eq_div_pow]
    exact Nat.mod_eq_of_lt (by omega)
  rw [hlow, hhigh, Nat.or_comm, ← Nat.shiftLeft_add_eq_or_of_lt (Nat.mod_lt n (by decide)), Nat.shiftLeft_eq]
  omega

/-! ### Back -/

/-- `out` is in memory from `q` on. -/
def Stored (store : ℕ → UInt8) (q : ℕ) (out : List UInt8) : Prop := block store q out.length = out

theorem Stored.tail {ch : UInt8} {out : List UInt8} (h : Stored store q (ch :: out)) :
    store q = ch ∧ Stored store (q + 1) out := by
  rw [Stored, List.length_cons, block_succ] at h
  exact List.cons.inj h

theorem unrle_run {out : List UInt8} (hn : n < 2 ^ 16)
    (h : Stored store q (mark :: UInt8.ofNat n :: UInt8.ofNat (n >>> 8) :: dupl :: out)) {limit : ℕ} (hq : q < limit) :
    unrle store q limit = List.replicate n dupl ++ unrle store (q + 4) limit ∧ Stored store (q + 4) out := by
  obtain ⟨hmark, h⟩ := h.tail
  obtain ⟨hlow, h⟩ := h.tail
  obtain ⟨hhigh, h⟩ := h.tail
  obtain ⟨hdupl, h⟩ := h.tail
  refine ⟨?_, h⟩
  rw [unrle, dif_pos hq, if_pos hmark, hlow, hhigh, hdupl, read_howMany hn]

theorem unrle_byte {ch : UInt8} {out : List UInt8} (hch : ch ≠ mark) (h : Stored store q (ch :: out)) {limit : ℕ}
    (hq : q < limit) : unrle store q limit = ch :: unrle store (q + 1) limit ∧ Stored store (q + 1) out := by
  obtain ⟨hfirst, h⟩ := h.tail
  refine ⟨?_, h⟩
  rw [unrle, dif_pos hq, if_neg (by rwa [hfirst]), hfirst]

theorem unrle_end (h : n ≤ q) : unrle store q n = [] := by
  rw [unrle, dif_neg (by omega)]

/-- All that was written gives the block back. -/
theorem unrle_rle (hlen : len < 2 ^ 16) (h : Stored store q (rle mem p len)) :
    unrle store q (q + (rle mem p len).length) = block mem p len := by
  induction len using Nat.strong_induction_on generalizing p q with
  | _ len ih =>
    cases len with
    | zero =>
      rw [rle_zero]
      exact unrle_end (show q + 0 ≤ q from le_rfl)
    | succ len =>
      rw [rle] at h ⊢
      by_cases hruns : runs mem p
      · rw [if_pos hruns] at h ⊢
        set n := howMany mem (mem p) p (len + 1) with hn
        have hle : n ≤ len + 1 := howMany_le
        have hpos : 0 < n := howMany_pos
        have hlimit : q + (mark :: UInt8.ofNat n :: UInt8.ofNat (n >>> 8) :: mem p ::
            rle mem (p + n) (len + 1 - n)).length = q + 4 + (rle mem (p + n) (len + 1 - n)).length := by
          simp only [List.length_cons]
          omega
        have hq : q < q + 4 + (rle mem (p + n) (len + 1 - n)).length := by omega
        obtain ⟨hrun, hrest⟩ := unrle_run (by omega) h hq
        rw [hlimit, hrun, ih (len + 1 - n) (by omega) (by omega) hrest, hn, ← block_howMany, ← hn, ← block_add,
          Nat.add_sub_cancel' hle]
      · rw [if_neg hruns] at h ⊢
        have hch : mem p ≠ mark := fun hmark => hruns (.inl hmark)
        have hlimit : q + (mem p :: rle mem (p + 1) len).length = q + 1 + (rle mem (p + 1) len).length := by
          simp only [List.length_cons]
          omega
        have hq : q < q + 1 + (rle mem (p + 1) len).length := by omega
        obtain ⟨hbyte, hrest⟩ := unrle_byte hch h hq
        rw [hlimit, hbyte, ih len (by omega) (by omega) hrest, block_succ]

theorem length_rle_pos (h : 0 < (rle mem p len).length) : 0 < len := by
  cases len with
  | zero => simp [rle_zero] at h
  | succ len => exact Nat.succ_pos len

/-- Where the end is left out, something of the block is missing. -/
theorem unrle_short (hlen : len < 2 ^ 16) (h : Stored store q (rle mem p len)) (hn : n + 3 < (rle mem p len).length) :
    (unrle store q (q + n)).length < len := by
  induction len using Nat.strong_induction_on generalizing p q n with
  | _ len ih =>
    cases len with
    | zero => simp [rle_zero] at hn
    | succ len =>
      rcases Nat.eq_zero_or_pos n with rfl | hpos
      · rw [unrle_end (show q + 0 ≤ q from le_rfl)]
        exact Nat.succ_pos len
      have hq : q < q + n := by omega
      rw [rle] at h hn
      by_cases hruns : runs mem p
      · rw [if_pos hruns] at h hn
        dsimp only at h hn
        simp only [List.length_cons] at hn
        have hmany : howMany mem (mem p) p (len + 1) ≤ len + 1 := howMany_le
        have hsome : 0 < howMany mem (mem p) p (len + 1) := howMany_pos
        obtain ⟨hrun, hrest⟩ := unrle_run (by omega) h hq
        have hmore := length_rle_pos (show 0 < (rle mem (p + howMany mem (mem p) p (len + 1))
          (len + 1 - howMany mem (mem p) p (len + 1))).length by omega)
        rw [hrun, List.length_append, List.length_replicate]
        rcases Nat.lt_or_ge 4 n with hfour | hfour
        · have hnext := ih _ (by omega) (by omega) hrest (show n - 4 + 3 < _ by omega)
          rw [show q + 4 + (n - 4) = q + n by omega] at hnext
          omega
        · rw [unrle_end (show q + n ≤ q + 4 by omega), List.length_nil]
          omega
      · rw [if_neg hruns] at h hn
        have hch : mem p ≠ mark := fun hmark => hruns (.inl hmark)
        simp only [List.length_cons] at hn
        obtain ⟨hbyte, hrest⟩ := unrle_byte hch h hq
        have hnext := ih len (by omega) (by omega) hrest (show n - 1 + 3 < _ by omega)
        rw [show q + 1 + (n - 1) = q + n by omega] at hnext
        rw [hbyte, List.length_cons]
        omega

/-! ### How much is written -/

/-- A run that ends inside of the block is of five bytes at least. -/
theorem howMany_five (h : runs mem p) (hmark : mem p ≠ mark) (hlast : howMany mem (mem p) p len < len) :
    5 ≤ howMany mem (mem p) p len := by
  obtain ⟨h1, h2, h3, h4⟩ := h.resolve_left hmark
  by_contra hfew
  have hstops : ∀ k len q, howMany mem (mem p) q len = k → k < len → mem (q + k) ≠ mem p := by
    intro k
    induction k with
    | zero =>
      intro len q hk hlen
      cases len with
      | zero => cases hlen
      | succ len =>
        rw [howMany] at hk
        split at hk
        · cases hk
        · next hne => exact hne
    | succ k ih =>
      intro len q hk hlen
      cases len with
      | zero => cases hk
      | succ len =>
        rw [howMany] at hk
        split at hk
        · have hnext := ih len (q + 1) (by omega) (by omega)
          rwa [show q + 1 + k = q + (k + 1) by omega] at hnext
        · cases hk
  have hne := hstops _ len p rfl hlast
  generalize howMany mem (mem p) p len = k at hne hfew
  rcases k with _ | _ | _ | _ | _ | k
  · exact hne rfl
  · exact hne h1.symm
  · exact hne h2.symm
  · exact hne h3.symm
  · exact hne h4.symm
  · omega

/-- Only marks, and a short run at the end, take more room than they had. -/
theorem length_rle_le : (rle mem p len).length ≤ len + 3 * (block mem p len).count mark + 3 := by
  induction len using Nat.strong_induction_on generalizing p with
  | _ len ih =>
    cases len with
    | zero =>
      rw [rle_zero]
      exact Nat.zero_le _
    | succ len =>
      rw [rle]
      split
      · next hruns =>
        simp only [List.length_cons]
        set n := howMany mem (mem p) p (len + 1) with hn
        have hle : n ≤ len + 1 := howMany_le
        have hpos : 0 < n := howMany_pos
        have hblock : block mem p (len + 1) = List.replicate n (mem p) ++ block mem (p + n) (len + 1 - n) := by
          rw [hn, ← block_howMany, ← hn, ← block_add, Nat.add_sub_cancel' hle]
        rw [hblock, List.count_append]
        have hrest := ih (len + 1 - n) (by omega) (p := p + n)
        rcases Nat.lt_or_ge n (len + 1) with hlast | hlast
        · have hfew : 4 ≤ n + 3 * (List.replicate n (mem p)).count mark := by
            by_cases hmark : mem p = mark
            · rw [List.count_replicate, if_pos (by simp [hmark])]
              omega
            · have hfive := howMany_five hruns hmark hlast
              omega
          omega
        · rw [show len + 1 - n = 0 by omega, rle_zero, List.length_nil]
          omega
      · have hrest := ih len (by omega) (p := p + 1)
        rw [block_succ, List.length_cons]
        have hcount := List.count_le_count_cons (a := mark) (b := mem p) (l := block mem (p + 1) len)
        omega

theorem length_rle_le_four : (rle mem p len).length ≤ 4 * len := by
  induction len using Nat.strong_induction_on generalizing p with
  | _ len ih =>
    cases len with
    | zero =>
      rw [rle_zero]
      exact le_rfl
    | succ len =>
      rw [rle]
      split
      · have hpos : 0 < howMany mem (mem p) p (len + 1) := howMany_pos
        have hle : howMany mem (mem p) p (len + 1) ≤ len + 1 := howMany_le
        have hrest := ih (len + 1 - howMany mem (mem p) p (len + 1)) (by omega)
          (p := p + howMany mem (mem p) p (len + 1))
        simp only [List.length_cons]
        omega
      · have hrest := ih len (by omega) (p := p + 1)
        rw [List.length_cons]
        omega

/-- A block comes back exactly where the number of bytes that were written fits an `unsigned short`, whatever is behind
the block; four bytes for each of the block are enough room, and marks and the last run are all that grows. -/
theorem unrle_rle_iff (hlen : len < 2 ^ 16) (h : Stored store q (rle mem p len)) :
    (unrle store q (q + count (rle mem p len)) = block mem p len ↔ (rle mem p len).length < 2 ^ 16) ∧
      (rle mem p len).length ≤ 4 * len ∧
      (rle mem p len).length ≤ len + 3 * (block mem p len).count mark + 3 := by
  refine ⟨⟨fun hback => ?_, fun hfits => ?_⟩, length_rle_le_four, length_rle_le⟩
  · by_contra hlong
    have hshort := unrle_short (n := count (rle mem p len)) hlen h (by rw [count]; omega)
    rw [hback, length_block] at hshort
    exact lt_irrefl _ hshort
  · rw [count, Nat.mod_eq_of_lt hfits]
    exact unrle_rle hlen h

theorem rle_sevens : rle (fun _ => 7) 0 3 = [0xBB, 3, 0, 7] := by
  rw [rle, if_pos (by decide)]
  exact congrArg (List.cons mark) (congrArg (List.cons 3) (congrArg (List.cons 0) (congrArg (List.cons 7) rle_zero)))

theorem unrle_rle_sevens :
    unrle (fun i => [0xBB, 3, 0, 7].getD i 0) 0 (0 + count (rle (fun _ => 7) 0 3)) = [7, 7, 7] :=
  (unrle_rle_iff (by decide) (by rw [rle_sevens]; rfl)).1.2 (by rw [rle_sevens]; decide)

end CProgram.Plink.Rle
