import CProgram.Lib.Bytes
import CProgram.Lib.Crc
import CProgram.Zmodem.Header

/-! `compute_crc16` as a shift register: the bits above the low sixteen are carried along in vain. -/
namespace CProgram.Zmodem
open Bytes Crc

/-- The polynomial of the CRC-16. -/
def crc16Poly : BitVec 16 := 0x1021

/-- The register that an `int` carries. -/
def low16 (x : UInt32) : BitVec 16 := x.toBitVec.setWidth 16

/-- The bits of a byte, highest first. -/
def byteBits (ch : UInt8) : List Bool := [7, 6, 5, 4, 3, 2, 1, 0].map ch.toBitVec.getLsbD

def bits (data : List UInt8) : List Bool := data.flatMap byteBits

theorem toNat_low16 (x : UInt32) : (low16 x).toNat = x.toNat % 2 ^ 16 :=
  BitVec.toNat_setWidth ..

theorem toNat_mask (x : UInt32) : (x &&& 0xFFFF).toNat = x.toNat % 2 ^ 16 := by
  rw [UInt32.toNat_and]
  exact Nat.and_two_pow_sub_one_eq_mod x.toNat 16

theorem mask_inj {x y : UInt32} (h : low16 x = low16 y) : x &&& 0xFFFF = y &&& 0xFFFF := by
  apply UInt32.toNat.inj
  rw [toNat_mask, toNat_mask, ← toNat_low16, ← toNat_low16, h]

theorem low16_mask (x : UInt32) : low16 (x &&& 0xFFFF) = low16 x := by
  apply BitVec.eq_of_toNat_eq
  rw [toNat_low16, toNat_low16, toNat_mask, Nat.mod_mod]

theorem low16_xor (x y : UInt32) : low16 (x ^^^ y) = low16 x ^^^ low16 y := by
  rw [low16, UInt32.toBitVec_xor, BitVec.setWidth_xor]
  rfl

theorem low16_shift (x : UInt32) : low16 (x <<< 1) = low16 x <<< 1 := by
  apply BitVec.eq_of_toNat_eq
  rw [toNat_low16, UInt32.toNat_shiftLeft, BitVec.toNat_shiftLeft, toNat_low16]
  have h : (1 : UInt32).toNat % 32 = 1 := rfl
  simp only [h, Nat.shiftLeft_eq]
  omega

theorem low16_round (x : UInt32) : low16 (crc16Round x) = step crc16Poly (low16 x) := by
  have hmsb : (x &&& 0x8000 ≠ 0) ↔ (low16 x).msb = true := by
    have hbit : (x &&& 0x8000).toBitVec = if x.toBitVec.getLsbD 15 then BitVec.twoPow 32 15 else 0 :=
      BitVec.and_twoPow x.toBitVec 15
    have hmsb' : (low16 x).msb = x.toBitVec.getLsbD 15 := by
      rw [BitVec.msb_eq_getLsbD_last, low16, BitVec.getLsbD_setWidth]
      rfl
    rw [hmsb', Ne, ← UInt32.toBitVec_inj, hbit]
    cases x.toBitVec.getLsbD 15 <;> decide
  unfold crc16Round step
  by_cases h : x &&& 0x8000 ≠ 0
  · rw [if_pos h, if_pos (hmsb.mp h), low16_xor, low16_shift]
    rfl
  · rw [if_neg h, if_neg (fun hc => h (hmsb.mpr hc)), low16_shift]

theorem low16_byte (crc : UInt32) (ch : UInt8) :
    low16 (crc16Byte crc ch) = feed crc16Poly (low16 crc) (byteBits ch) := by
  have hshift : low16 (ch.toUInt32 <<< 8) = align (byteBits ch) := by
    revert ch
    exact forall_byte (by decide +kernel)
  have hrounds (n : Nat) (x : UInt32) :
      low16 (Nat.repeat crc16Round n x) = (step crc16Poly)^[n] (low16 x) := by
    induction n with
    | zero => rfl
    | succ n ih => rw [Nat.repeat, low16_round, ih, Function.iterate_succ_apply']
  rw [crc16Byte, hrounds, low16_xor, hshift, feed_eq_iterate crc16Poly (byteBits ch) (by simp [byteBits])]
  rfl

theorem low16_foldl (data : List UInt8) (crc : UInt32) :
    low16 (data.foldl crc16Byte crc) = feed crc16Poly (low16 crc) (bits data) := by
  induction data generalizing crc with
  | nil => rfl
  | cons ch data ih =>
    rw [List.foldl_cons, ih, low16_byte, bits, bits, List.flatMap_cons, feed_append]

/-- The CRC of a block is the register behind its bits. -/
theorem low16_computeCrc16 (crc : UInt32) (data : List UInt8) :
    low16 (computeCrc16 crc data) = feed crc16Poly (low16 crc) (bits data) := by
  rw [computeCrc16, low16_mask, low16_foldl]

end CProgram.Zmodem
