import CProgram.Lib.Crc

/-! Registers that take the lowest bit in first: they are the others read backwards, and a table lets them take eight
bits at once. -/
namespace CProgram.Crc
variable {w : ℕ} {poly r s : BitVec w} {k : ℕ}

/-- One shift of the register to the right. -/
def shift (poly r : BitVec w) : BitVec w := if r.getLsbD 0 then (r >>> 1) ^^^ poly else r >>> 1

theorem reverse_xor : (r ^^^ s).reverse = r.reverse ^^^ s.reverse := by
  refine BitVec.eq_of_getLsbD_eq fun i hi => ?_
  simp [BitVec.getLsbD_reverse, BitVec.getMsbD_xor]

theorem reverse_shiftLeft : (r <<< k).reverse = r.reverse >>> k := by
  refine BitVec.eq_of_getLsbD_eq fun i hi => ?_
  rw [BitVec.getLsbD_ushiftRight, BitVec.getLsbD_reverse, BitVec.getLsbD_reverse, BitVec.getMsbD_shiftLeft,
    Nat.add_comm]

/-- The two kinds of registers are each other's mirror. -/
theorem reverse_step : (step poly r).reverse = shift poly.reverse r.reverse := by
  have hbit : r.reverse.getLsbD 0 = r.msb := by
    rw [BitVec.getLsbD_reverse]
    rfl
  rw [step, shift, hbit]
  cases r.msb with
  | true => rw [if_pos rfl, if_pos rfl, reverse_xor, reverse_shiftLeft]
  | false => rw [if_neg (by decide), if_neg (by decide), reverse_shiftLeft]

theorem reverse_iterate : ((step poly)^[k] r).reverse = (shift poly.reverse)^[k] r.reverse := by
  induction k generalizing r with
  | zero => rfl
  | succ k ih => rw [Function.iterate_succ_apply, Function.iterate_succ_apply, ih, reverse_step]

theorem shift_xor : shift poly (r ^^^ s) = shift poly r ^^^ shift poly s := by
  unfold shift
  rw [BitVec.getLsbD_xor, BitVec.ushiftRight_xor_distrib]
  cases r.getLsbD 0 <;> cases s.getLsbD 0
  · rfl
  · exact BitVec.xor_assoc _ _ _
  · change (r >>> 1 ^^^ s >>> 1) ^^^ poly = (r >>> 1 ^^^ poly) ^^^ s >>> 1
    rw [BitVec.xor_assoc, BitVec.xor_comm (s >>> 1), ← BitVec.xor_assoc]
  · change r >>> 1 ^^^ s >>> 1 = (r >>> 1 ^^^ poly) ^^^ (s >>> 1 ^^^ poly)
    rw [xor_xor_xor_comm, BitVec.xor_self, BitVec.xor_zero]

theorem iterate_shift_xor : (shift poly)^[k] (r ^^^ s) = (shift poly)^[k] r ^^^ (shift poly)^[k] s := by
  induction k generalizing r s with
  | zero => rfl
  | succ k ih => rw [Function.iterate_succ_apply, shift_xor, ih, ← Function.iterate_succ_apply,
      ← Function.iterate_succ_apply]

/-- Bits that do not reach the end are only moved. -/
theorem iterate_shift_of_low (h : ∀ i < k, r.getLsbD i = false) : (shift poly)^[k] r = r >>> k := by
  induction k generalizing r with
  | zero => exact (BitVec.ushiftRight_zero r).symm
  | succ k ih =>
    have hfirst : shift poly r = r >>> 1 := by rw [shift, h 0 (Nat.succ_pos k), if_neg (by decide)]
    rw [Function.iterate_succ_apply, hfirst, ih, ← BitVec.shiftRight_add, Nat.add_comm]
    intro i hi
    rw [BitVec.getLsbD_ushiftRight]
    exact h (1 + i) (by omega)

/-- What `k` shifts make of the register, from what they make of its `k` lowest bits. -/
theorem iterate_shift_split : (shift poly)^[k] r = (shift poly)^[k] ((r.setWidth k).setWidth w) ^^^ (r >>> k) := by
  have hsplit : r = (r.setWidth k).setWidth w ^^^ ((r >>> k) <<< k) := by
    refine BitVec.eq_of_getLsbD_eq fun i hi => ?_
    rw [BitVec.getLsbD_xor, BitVec.getLsbD_setWidth, BitVec.getLsbD_setWidth, BitVec.getLsbD_shiftLeft,
      BitVec.getLsbD_ushiftRight]
    by_cases hik : i < k
    · simp [hi, hik]
    · simp [hi, hik, show k + (i - k) = i by omega]
  have hlow : ∀ i < k, ((r >>> k) <<< k).getLsbD i = false := fun i hi => by
    rw [BitVec.getLsbD_shiftLeft]
    simp [hi]
  have hmoved : ((r >>> k) <<< k) >>> k = r >>> k := by
    refine BitVec.eq_of_getLsbD_eq fun i hi => ?_
    rw [BitVec.getLsbD_ushiftRight, BitVec.getLsbD_shiftLeft, BitVec.getLsbD_ushiftRight]
    by_cases hk : k + i < w
    · simp [hk]
    · simp [hk, BitVec.getLsbD_of_ge r (k + i) (by omega)]
  conv_lhs => rw [hsplit]
  rw [iterate_shift_xor, iterate_shift_of_low hlow, hmoved]

/-- The bits of a byte, lowest first. -/
def lowFirst (ch : BitVec 8) : List Bool := (List.range 8).map ch.getLsbD

theorem align_lowFirst (hw : 8 ≤ w) (ch : BitVec 8) : align (lowFirst ch) = (ch.setWidth w).reverse := by
  refine BitVec.eq_of_getLsbD_eq fun i hi => ?_
  rw [getLsbD_align _ i hi, BitVec.getLsbD_reverse, BitVec.getMsbD_eq_getLsbD, BitVec.getLsbD_setWidth, lowFirst,
    List.getElem?_map]
  by_cases hin : w - 1 - i < 8
  · rw [List.getElem?_range hin]
    simp [hi, show w - 1 - i < w by omega]
  · rw [List.getElem?_eq_none (by simp only [List.length_range]; omega), BitVec.getLsbD_of_ge ch _ (by omega)]
    simp

/-- A byte is taken in by way of a table. -/
theorem feed_lowFirst (hw : 8 ≤ w) (ch : BitVec 8) : (feed poly r.reverse (lowFirst ch)).reverse =
    (shift poly.reverse)^[8] ((r.setWidth 8 ^^^ ch).setWidth w) ^^^ (r >>> 8) := by
  have hlength : (lowFirst ch).length = 8 := by simp [lowFirst]
  rw [feed_eq_iterate poly _ (by omega), hlength, align_lowFirst hw, ← reverse_xor, reverse_iterate,
    BitVec.reverse_reverse_eq, iterate_shift_split, BitVec.setWidth_xor, BitVec.ushiftRight_xor_distrib]
  have hbyte : (ch.setWidth w).setWidth 8 = ch := by
    refine BitVec.eq_of_getLsbD_eq fun i hi => ?_
    simp [hi, show i < w by omega]
  have hgone : (ch.setWidth w) >>> 8 = 0#w := by
    refine BitVec.eq_of_getLsbD_eq fun i hi => ?_
    simp
  rw [hbyte, hgone, BitVec.xor_zero]

/-- A register that is kept the other way round. -/
def feedBack (poly r : BitVec w) (bits : List Bool) : BitVec w := (feed poly.reverse r.reverse bits).reverse

theorem feedBack_append (x y : List Bool) : feedBack poly r (x ++ y) = feedBack poly (feedBack poly r x) y := by
  rw [feedBack, feed_append, feedBack, feedBack, BitVec.reverse_reverse_eq]

/-- A loop over bytes that looks up each one in a table is such a register. -/
theorem foldl_eq_feedBack {α : Type*} {update : BitVec w → α → BitVec w} {value : α → BitVec 8} (hw : 8 ≤ w)
    (h : ∀ r ch, update r ch = (shift poly)^[8] ((r.setWidth 8 ^^^ value ch).setWidth w) ^^^ (r >>> 8))
    (data : List α) : data.foldl update r = feedBack poly r (data.flatMap fun ch => lowFirst (value ch)) := by
  induction data generalizing r with
  | nil => exact BitVec.reverse_reverse_eq.symm
  | cons ch data ih =>
    have hbyte : update r ch = feedBack poly r (lowFirst (value ch)) := by
      rw [h, feedBack, feed_lowFirst hw, BitVec.reverse_reverse_eq]
    rw [List.foldl_cons, List.flatMap_cons, feedBack_append, ← hbyte, ih]

/-- Such a register tells bursts too. -/
theorem feedBack_ne_of_burst (hpoly : poly.msb = true) {front back x y : List Bool} (hxy : x.length = y.length)
    (hlength : x.length ≤ w) (hne : x ≠ y) (r : BitVec w) :
    feedBack poly r (front ++ x ++ back) ≠ feedBack poly r (front ++ y ++ back) := by
  have hlow : poly.reverse.getLsbD 0 = true := by
    rw [BitVec.getLsbD_reverse]
    exact hpoly
  intro heq
  have hfeed := congrArg BitVec.reverse heq
  rw [feedBack, feedBack, BitVec.reverse_reverse_eq, BitVec.reverse_reverse_eq] at hfeed
  exact feed_ne_of_burst hlow hxy hlength hne r.reverse hfeed

end CProgram.Crc
