import Mathlib.Data.List.Basic
import Mathlib.Tactic

/-! Cyclic redundancy checks as shift registers that take the highest bit in first. A register is
linear in what it takes in, so two messages are told apart by the difference alone. -/
namespace CProgram.Crc
variable {w : ℕ} (poly : BitVec w)

/-- One shift of the register. -/
def step (r : BitVec w) : BitVec w := if r.msb then (r <<< 1) ^^^ poly else r <<< 1

/-- A bit at the place where it is taken in. -/
def top (b : Bool) : BitVec w := if b then BitVec.twoPow w (w - 1) else 0

def feedBit (r : BitVec w) (b : Bool) : BitVec w := step poly (r ^^^ top b)

/-- The register behind a message. -/
def feed (r : BitVec w) (bits : List Bool) : BitVec w := bits.foldl (feedBit poly) r

theorem xor_xor_xor_comm (a b c d : BitVec w) : (a ^^^ b) ^^^ (c ^^^ d) = (a ^^^ c) ^^^ (b ^^^ d) := by
  rw [BitVec.xor_assoc, BitVec.xor_assoc, ← BitVec.xor_assoc b c, BitVec.xor_comm b c,
    BitVec.xor_assoc c b]

theorem step_xor (a b : BitVec w) : step poly (a ^^^ b) = step poly a ^^^ step poly b := by
  unfold step
  rw [BitVec.msb_xor, BitVec.shiftLeft_xor_distrib]
  cases a.msb <;> cases b.msb
  · rfl
  · exact BitVec.xor_assoc _ _ _
  · change (a <<< 1 ^^^ b <<< 1) ^^^ poly = (a <<< 1 ^^^ poly) ^^^ b <<< 1
    rw [BitVec.xor_assoc, BitVec.xor_comm (b <<< 1), ← BitVec.xor_assoc]
  · change a <<< 1 ^^^ b <<< 1 = (a <<< 1 ^^^ poly) ^^^ (b <<< 1 ^^^ poly)
    rw [xor_xor_xor_comm, BitVec.xor_self, BitVec.xor_zero]

theorem top_xor (a b : Bool) : (top (xor a b) : BitVec w) = top a ^^^ top b := by
  cases a <;> cases b <;> simp [top]

/-- A shift loses nothing when the polynomial has the constant term. -/
theorem step_ne_zero {poly : BitVec w} (hpoly : poly.getLsbD 0 = true) {r : BitVec w}
    (hr : r ≠ 0) : step poly r ≠ 0 := by
  intro hzero
  have hw : 0 < w := BitVec.lt_of_getLsbD hpoly
  unfold step at hzero
  cases hmsb : r.msb with
  | true =>
    rw [hmsb, if_pos rfl] at hzero
    have hbit := congrArg (·.getLsbD 0) hzero
    simp [hpoly] at hbit
  | false =>
    rw [hmsb, if_neg (by decide)] at hzero
    refine hr (BitVec.eq_of_getLsbD_eq fun i hi => ?_)
    by_cases hlast : i = w - 1
    · rw [BitVec.msb_eq_getLsbD_last] at hmsb
      simpa [hlast] using hmsb
    · have hbit := congrArg (·.getLsbD (i + 1)) hzero
      have hshift : (r <<< 1).getLsbD (i + 1) = r.getLsbD i := by
        rw [BitVec.getLsbD_shiftLeft]
        simp [show i + 1 < w by omega]
      rw [← hshift]
      exact hbit.trans (by simp)

theorem iterate_step_ne_zero {poly : BitVec w} (hpoly : poly.getLsbD 0 = true) {r : BitVec w}
    (hr : r ≠ 0) (n : ℕ) : (step poly)^[n] r ≠ 0 := by
  induction n generalizing r with
  | zero => exact hr
  | succ n ih => exact ih (step_ne_zero hpoly hr)

@[simp] theorem feed_nil (r : BitVec w) : feed poly r [] = r := rfl

@[simp] theorem feed_cons (r : BitVec w) (b : Bool) (bits : List Bool) :
    feed poly r (b :: bits) = feed poly (feedBit poly r b) bits := rfl

theorem feed_append (r : BitVec w) (x y : List Bool) :
    feed poly r (x ++ y) = feed poly (feed poly r x) y := List.foldl_append

theorem feedBit_xor (r s : BitVec w) (a b : Bool) :
    feedBit poly (r ^^^ s) (xor a b) = feedBit poly r a ^^^ feedBit poly s b := by
  unfold feedBit
  rw [top_xor, xor_xor_xor_comm, step_xor]

/-- The difference of two messages leaves the difference of their registers. -/
theorem feed_xor (x y : List Bool) (hlength : x.length = y.length) (r s : BitVec w) :
    feed poly (r ^^^ s) (List.zipWith xor x y) = feed poly r x ^^^ feed poly s y := by
  induction x generalizing y r s with
  | nil =>
    cases y with
    | nil => rfl
    | cons b y => cases hlength
  | cons a x ih =>
    cases y with
    | nil => cases hlength
    | cons b y =>
      rw [List.zipWith_cons_cons, feed_cons, feed_cons, feed_cons, feedBit_xor,
        ih y (Nat.succ.inj hlength)]

theorem feed_replicate_false (n : ℕ) (r : BitVec w) :
    feed poly r (List.replicate n false) = (step poly)^[n] r := by
  induction n generalizing r with
  | zero => rfl
  | succ n ih =>
    have htop : feedBit poly r false = step poly r := by simp [feedBit, top]
    rw [List.replicate_succ, feed_cons, htop, ih]
    rfl

/-- A short message as it would lie in the register. -/
def align : List Bool → BitVec w
  | [] => 0
  | b :: bits => top b ^^^ (align bits >>> 1)

theorem getLsbD_align (bits : List Bool) (i : ℕ) (hi : i < w) :
    (align bits : BitVec w).getLsbD i = (bits[w - 1 - i]?).getD false := by
  induction bits generalizing i with
  | nil => simp [align]
  | cons b bits ih =>
    have htop : (top b : BitVec w).getLsbD i = (b && decide (i = w - 1)) := by
      cases b <;> simp [top, hi]
    rw [align, BitVec.getLsbD_xor, BitVec.getLsbD_ushiftRight, htop, Nat.add_comm 1 i]
    by_cases hlast : i = w - 1
    · have hout : (align bits : BitVec w).getLsbD (i + 1) = false :=
        BitVec.getLsbD_of_ge _ _ (by omega)
      simp [hlast, show w - 1 + 1 = i + 1 by omega, hout]
    · have hindex : w - 1 - i = (w - 1 - (i + 1)) + 1 := by omega
      rw [ih (i + 1) (by omega), hindex, List.getElem?_cons_succ]
      simp [hlast]

theorem align_ne_zero {bits : List Bool} (hlength : bits.length ≤ w) (htrue : true ∈ bits) :
    (align bits : BitVec w) ≠ 0 := by
  obtain ⟨k, hk, hbit⟩ := List.mem_iff_getElem.mp htrue
  intro hzero
  have hindex : w - 1 - (w - 1 - k) = k := by omega
  have hone := getLsbD_align bits (w - 1 - k) (by omega : w - 1 - k < w)
  rw [hzero, hindex, List.getElem?_eq_getElem hk, hbit] at hone
  simp at hone

theorem step_ushiftRight {r : BitVec w} (hlow : r.getLsbD 0 = false) : step poly (r >>> 1) = r := by
  by_cases hw : w = 0
  · subst hw
    exact BitVec.eq_nil _ |>.trans (BitVec.eq_nil _).symm
  have hmsb : (r >>> 1).msb = false := by
    rw [BitVec.msb_eq_getLsbD_last, BitVec.getLsbD_ushiftRight]
    exact BitVec.getLsbD_of_ge _ _ (by omega)
  rw [step, hmsb, if_neg (by decide)]
  refine BitVec.eq_of_getLsbD_eq fun i hi => ?_
  rw [BitVec.getLsbD_shiftLeft, BitVec.getLsbD_ushiftRight]
  cases i with
  | zero => simp [hlow]
  | succ i => simp [hi, Nat.add_comm 1 i]

/-- A short message is as good as its bits in the register. -/
theorem feed_eq_iterate (bits : List Bool) (hlength : bits.length ≤ w) (r : BitVec w) :
    feed poly r bits = (step poly)^[bits.length] (r ^^^ align bits) := by
  induction bits generalizing r with
  | nil => simp [align]
  | cons b bits ih =>
    have hlow : (align bits : BitVec w).getLsbD 0 = false := by
      have hw : 0 < w := by
        simp only [List.length_cons] at hlength
        omega
      rw [getLsbD_align bits 0 hw, List.getElem?_eq_none]
      · rfl
      · simp only [List.length_cons] at hlength
        omega
    rw [feed_cons, ih (by simp only [List.length_cons] at hlength; omega), List.length_cons,
      Function.iterate_succ_apply, align, ← BitVec.xor_assoc, step_xor, step_ushiftRight poly hlow]
    rfl

theorem zipWith_xor_self (bits : List Bool) :
    List.zipWith xor bits bits = List.replicate bits.length false := by
  induction bits with
  | nil => rfl
  | cons b bits ih => rw [List.zipWith_cons_cons, ih, Bool.xor_self, List.length_cons,
      List.replicate_succ]

/-- Two lists that differ do so somewhere. -/
theorem true_mem_zipWith_xor {x y : List Bool} (hxy : x.length = y.length) (hne : x ≠ y) :
    true ∈ List.zipWith xor x y := by
  induction x generalizing y with
  | nil => exact absurd (List.length_eq_zero_iff.mp hxy.symm).symm hne
  | cons a x ih =>
    cases y with
    | nil => cases hxy
    | cons b y =>
      rw [List.zipWith_cons_cons, List.mem_cons]
      by_cases hab : a = b
      · subst hab
        exact .inr (ih (Nat.succ.inj hxy) fun h => hne (h ▸ rfl))
      · exact .inl (by simpa using hab)

/-- A burst that is no longer than the register changes it. -/
theorem feed_ne_of_burst {poly : BitVec w} (hpoly : poly.getLsbD 0 = true)
    {front back x y : List Bool} (hxy : x.length = y.length) (hlength : x.length ≤ w)
    (hne : x ≠ y) (r : BitVec w) :
    feed poly r (front ++ x ++ back) ≠ feed poly r (front ++ y ++ back) := by
  have hdlength : (List.zipWith xor x y).length = x.length := by simp [hxy]
  have hburst : feed poly 0 (List.zipWith xor x y) ≠ 0 := by
    have hzero : 0 ^^^ align (List.zipWith xor x y) = (align (List.zipWith xor x y) : BitVec w) :=
      BitVec.zero_xor
    rw [feed_eq_iterate poly _ (by omega), hzero]
    exact iterate_step_ne_zero hpoly
      (align_ne_zero (by omega) (true_mem_zipWith_xor hxy hne)) _
  have hall : feed poly 0 (List.zipWith xor (x ++ back) (y ++ back)) ≠ 0 := by
    rw [List.zipWith_append hxy, zipWith_xor_self, feed_append, feed_replicate_false]
    exact iterate_step_ne_zero hpoly hburst _
  intro heq
  rw [List.append_assoc, List.append_assoc, feed_append, feed_append _ _ front] at heq
  have hxor := feed_xor poly (x ++ back) (y ++ back) (by simp [hxy]) (feed poly r front)
    (feed poly r front)
  rw [heq, BitVec.xor_self, BitVec.xor_self] at hxor
  exact hall hxor

end CProgram.Crc
