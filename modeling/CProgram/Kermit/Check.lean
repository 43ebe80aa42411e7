import CProgram.Kermit.Parameters

/-! The block checks of Kermit: the 6-bit and 12-bit checksums and the CRC, how each is written
behind a packet, and how the receiver compares what it computes with what it got. -/
namespace CProgram.Kermit

/-- On a 7-bit channel the parity bit is left out of every check. -/
def checked (sevenBit : Bool) (ch : UInt8) : UInt8 := if sevenBit then ch &&& 0x7F else ch

/-- `compute_checksum`. -/
def computeChecksum (sevenBit : Bool) (l : List UInt8) : UInt8 :=
  let sum := l.foldl (fun sum ch => sum + checked sevenBit ch) 0
  (sum + (sum &&& 0xC0) / 0x40) &&& 0x3F

/-- `compute_checksum2`. -/
def computeChecksum2 (sevenBit : Bool) (l : List UInt8) : UInt16 :=
  l.foldl (fun sum ch => sum + (checked sevenBit ch).toUInt16) 0 &&& 0x0FFF

def crcBit (crc : UInt16) : UInt16 := (crc >>> 1) ^^^ (if crc &&& 1 ≠ 0 then 0x8408 else 0)

/-- `crc_16_tab`, as `makecrc` fills it. -/
def crc16Tab (i : UInt16) : UInt16 :=
  crcBit (crcBit (crcBit (crcBit (crcBit (crcBit (crcBit (crcBit i)))))))

/-- `compute_crc16`. -/
def computeCrc16 (sevenBit : Bool) (l : List UInt8) : UInt16 :=
  l.foldl (fun crc ch =>
    crc16Tab ((crc ^^^ (checked sevenBit ch).toUInt16) &&& 0xFF) ^^^ (crc >>> 8)) 0

/-- Check types are 1, 2, 3, and 12 for type B; the last one takes two characters. -/
def checkTypeLength (checkType : Nat) : Nat := if checkType = 12 then 2 else checkType

/-- The check that `encode_output_packet` writes behind `l`. -/
def checkBytes (sevenBit : Bool) (checkType : Nat) (l : List UInt8) : List UInt8 :=
  match checkType with
  | 1 => [tochar (computeChecksum sevenBit l)]
  | 2 =>
    let sum := computeChecksum2 sevenBit l
    [tochar ((sum >>> 6) &&& 0x3F).toUInt8, tochar (sum &&& 0x3F).toUInt8]
  | 3 =>
    let crc := computeCrc16 sevenBit l
    [tochar ((crc >>> 12) &&& 0x0F).toUInt8, tochar ((crc >>> 6) &&& 0x3F).toUInt8,
      tochar (crc &&& 0x3F).toUInt8]
  | 12 =>
    let sum := computeChecksum2 sevenBit l
    [tochar (((sum >>> 6) &&& 0x3F) + 1).toUInt8, tochar ((sum &&& 0x3F) + 1).toUInt8]
  | _ => []

/-- The test of `decode_input_bytes`: `l` is what the check covers, `given` what follows it. The
pieces of a longer check are shifted together in `int` without looking at their range. -/
def checkOk (sevenBit : Bool) (checkType : Nat) (l : List UInt8) (given : Nat → UInt8) : Bool :=
  match checkType with
  | 1 => decide (tochar (computeChecksum sevenBit l) = given 0)
  | 2 =>
    decide ((computeChecksum2 sevenBit l).toNat =
      (unchar (given 0)).toNat <<< 6 ||| (unchar (given 1)).toNat)
  | 3 =>
    decide ((computeCrc16 sevenBit l).toNat =
      (unchar (given 0)).toNat <<< 12 ||| (unchar (given 1)).toNat <<< 6 |||
        (unchar (given 2)).toNat)
  | 12 =>
    -- a piece of 0 would make the `int` negative, which no checksum is
    decide (unchar (given 0) ≠ 0) && decide (unchar (given 1) ≠ 0) &&
    decide ((computeChecksum2 sevenBit l).toNat =
      ((unchar (given 0)).toNat - 1) <<< 6 ||| ((unchar (given 1)).toNat - 1))
  | _ => true

theorem length_checkBytes {sevenBit : Bool} {checkType : Nat}
    (h : checkType = 1 ∨ checkType = 2 ∨ checkType = 3 ∨ checkType = 12) (l : List UInt8) :
    (checkBytes sevenBit checkType l).length = checkTypeLength checkType := by
  rcases h with rfl | rfl | rfl | rfl <;> rfl

/-- The 12-bit sum fits into two characters of six bits. -/
theorem computeChecksum2_lt (sevenBit : Bool) (l : List UInt8) :
    (computeChecksum2 sevenBit l).toNat < 4096 := by
  have h : (computeChecksum2 sevenBit l).toNat ≤ (0x0FFF : UInt16).toNat := by
    rw [computeChecksum2, UInt16.toNat_and]
    exact Nat.and_le_right
  exact Nat.lt_of_le_of_lt h (by decide)

/-- A number from its low six bits and the rest. -/
theorem split_six (n : Nat) : (n / 64) <<< 6 ||| n % 64 = n := by
  have h := Nat.shiftLeft_add_eq_or_of_lt (show n % 64 < 2 ^ 6 by omega) (n / 64)
  rw [← h, Nat.shiftLeft_eq]
  omega

theorem toNat_six (x : UInt16) : ((x &&& 0x3F).toUInt8).toNat = x.toNat % 64 := by
  rw [UInt16.toNat_toUInt8, UInt16.toNat_and]
  have h : x.toNat &&& (0x3F : UInt16).toNat = x.toNat % 2 ^ 6 :=
    Nat.and_two_pow_sub_one_eq_mod x.toNat 6
  rw [h]
  omega

theorem toNat_shift_six (x : UInt16) : (x >>> 6).toNat = x.toNat / 64 := by
  have h : (6 : UInt16).toNat % 16 = 6 := rfl
  rw [UInt16.toNat_shiftRight, h, Nat.shiftRight_eq_div_pow]

/-- What the encoder writes behind a packet is what the decoder accepts. -/
theorem checkOk_checkBytes {sevenBit : Bool} {checkType : Nat}
    (h : checkType = 1 ∨ checkType = 2 ∨ checkType = 3) (l : List UInt8)
    (given : Nat → UInt8)
    (hg : ∀ i b, (checkBytes sevenBit checkType l)[i]? = some b → given i = b) :
    checkOk sevenBit checkType l given = true := by
  rcases h with rfl | rfl | rfl
  · have h0 := hg 0 _ rfl
    simp [checkOk, h0]
  · have h0 := hg 0 _ rfl
    have h1 := hg 1 _ rfl
    have hlt := computeChecksum2_lt sevenBit l
    simp only [checkOk, h0, h1, unchar_tochar, toNat_six, toNat_shift_six, decide_eq_true_eq]
    rw [Nat.mod_eq_of_lt (show (computeChecksum2 sevenBit l).toNat / 64 < 64 by omega), split_six]
  · have h0 := hg 0 _ rfl
    have h1 := hg 1 _ rfl
    have h2 := hg 2 _ rfl
    have htop : (((computeCrc16 sevenBit l >>> 12) &&& 0x0F).toUInt8).toNat =
        (computeCrc16 sevenBit l).toNat / 4096 := by
      have hlt := (computeCrc16 sevenBit l).toNat_lt
      have hand : (computeCrc16 sevenBit l >>> 12).toNat &&& (0x0F : UInt16).toNat =
          (computeCrc16 sevenBit l >>> 12).toNat % 2 ^ 4 :=
        Nat.and_two_pow_sub_one_eq_mod _ 4
      rw [UInt16.toNat_toUInt8, UInt16.toNat_and, hand, UInt16.toNat_shiftRight]
      have hs : (computeCrc16 sevenBit l).toNat >>> ((12 : UInt16).toNat % 16) =
          (computeCrc16 sevenBit l).toNat / 4096 := by
        rw [Nat.shiftRight_eq_div_pow]
        rfl
      rw [hs]
      omega
    simp only [checkOk, h0, h1, h2, unchar_tochar, toNat_six, toNat_shift_six, htop,
      decide_eq_true_eq]
    set n := (computeCrc16 sevenBit l).toNat
    have hjoin : (n / 4096) <<< 12 ||| (n / 64 % 64) <<< 6 = (n / 64) <<< 6 := by
      have h1 : (n / 4096) <<< 12 = ((n / 64 / 64) <<< 6) <<< 6 := by
        rw [← Nat.shiftLeft_add, Nat.div_div_eq_div_mul]
      rw [h1, ← Nat.shiftLeft_or_distrib, split_six]
    rw [hjoin, split_six]

end CProgram.Kermit
