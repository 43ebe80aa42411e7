import CProgram.Hydra.Packet

/-! Each encoding of a packet is undone by the decoder of its format, and the checksum behind a packet
leaves the same remainder behind every packet. -/
namespace CProgram.Hydra
open Bytes

/-! ### Checksums -/

section
variable {w : ℕ} (poly : BitVec w)

/-- The register behind `n` bytes of the inverted checksum, up to what is left of the checksum. -/
def residue : ℕ → BitVec w
  | 0 => 0
  | n + 1 => crcEntry poly (UInt8.ofBitVec ((residue n).setWidth 8 ^^^ 0xff)) ^^^ (residue n >>> 8)

theorem low_xor_not {c : BitVec w} {k : ℕ} (hk : k + 8 ≤ w) :
    (c >>> k).setWidth 8 ^^^ ((~~~c) >>> k).setWidth 8 = (0xff : BitVec 8) := by
  apply BitVec.eq_of_getLsbD_eq
  intro i hi
  have hin : k + i < w := by omega
  have hones : (0xff : BitVec 8).getLsbD i = true := by
    have hall : ∀ j : Fin 8, (0xff : BitVec 8).getLsbD j = true := by decide
    exact hall ⟨i, hi⟩
  simp only [BitVec.getLsbD_xor, BitVec.getLsbD_setWidth, BitVec.getLsbD_ushiftRight,
    BitVec.getLsbD_not, hi, hin, decide_true, Bool.true_and, hones]
  cases c.getLsbD (k + i) <;> rfl

theorem updcrc_residue {c : BitVec w} {n : ℕ} (hn : 8 * n + 8 ≤ w) :
    updcrc poly (residue poly n ^^^ (c >>> (8 * n))) (UInt8.ofBitVec (((~~~c) >>> (8 * n)).setWidth 8)) =
      residue poly (n + 1) ^^^ (c >>> (8 * (n + 1))) := by
  have hindex : UInt8.ofBitVec ((residue poly n ^^^ (c >>> (8 * n))).setWidth 8) ^^^
      UInt8.ofBitVec (((~~~c) >>> (8 * n)).setWidth 8) =
      UInt8.ofBitVec ((residue poly n).setWidth 8 ^^^ 0xff) := by
    rw [← UInt8.ofBitVec_xor, BitVec.setWidth_xor, BitVec.xor_assoc, low_xor_not hn]
  rw [updcrc, hindex, residue, BitVec.ushiftRight_xor_distrib, ← BitVec.shiftRight_add,
    ← BitVec.xor_assoc, Nat.mul_succ]

theorem foldl_lowFirst {c : BitVec w} {n m : ℕ} (h : 8 * (n + m) ≤ w) :
    (lowFirst ((~~~c) >>> (8 * n)) m).foldl (updcrc poly) (residue poly n ^^^ (c >>> (8 * n))) =
      residue poly (n + m) ^^^ (c >>> (8 * (n + m))) := by
  induction m generalizing n with
  | zero => rfl
  | succ m ih =>
    have hnext : ((~~~c) >>> (8 * n)) >>> 8 = (~~~c) >>> (8 * (n + 1)) := by
      rw [← BitVec.shiftRight_add, Nat.mul_succ]
    rw [lowFirst, List.foldl_cons, updcrc_residue poly (by omega), hnext, ih (by omega)]
    rw [show n + 1 + m = n + (m + 1) by omega]

end

/-- What the two checks leave of themselves. -/
theorem residue_framed : residue crc16poly 2 = 0xf0b8 ∧ residue crc32poly 4 = 0xdebb20e3 := by decide +kernel

theorem crc16test_framed (data : List UInt8) :
    crc16test (crc16block (data ++ lowFirst (~~~(crc16block data)) 2)) = true := by
  have hfold := @foldl_lowFirst 16 crc16poly (crc16block data) 0 2 (by decide)
  rw [crc16block, List.foldl_append]
  change crc16test ((lowFirst (~~~(crc16block data)) 2).foldl (updcrc crc16poly) (crc16block data)) = true
  have hstart : residue crc16poly 0 ^^^ (crc16block data >>> (8 * 0)) = crc16block data := by
    simp [residue]
  have hend : crc16block data >>> (8 * (0 + 2)) = 0 := BitVec.ushiftRight_eq_zero (le_refl 16)
  rw [hstart, hend, show (~~~(crc16block data)) >>> (8 * 0) = ~~~(crc16block data) by simp] at hfold
  rw [hfold, Nat.zero_add, residue_framed.1]
  rfl

theorem crc32test_framed (data : List UInt8) :
    crc32test (crc32block (data ++ lowFirst (~~~(crc32block data)) 4)) = true := by
  have hfold := @foldl_lowFirst 32 crc32poly (crc32block data) 0 4 (by decide)
  rw [crc32block, List.foldl_append]
  change crc32test ((lowFirst (~~~(crc32block data)) 4).foldl (updcrc crc32poly) (crc32block data)) = true
  have hstart : residue crc32poly 0 ^^^ (crc32block data >>> (8 * 0)) = crc32block data := by
    simp [residue]
  have hend : crc32block data >>> (8 * (0 + 4)) = 0 := BitVec.ushiftRight_eq_zero (le_refl 32)
  rw [hstart, hend, show (~~~(crc32block data)) >>> (8 * 0) = ~~~(crc32block data) by simp] at hfold
  rw [hfold, Nat.zero_add, residue_framed.2]
  rfl

/-! ### Hexadecimal -/

/-- What of `putHex` is left when the escapes of the line are undone. -/
def hexText (c : UInt8) : List UInt8 :=
  if c &&& 0x80 ≠ 0 then [92, hexdigit ((c >>> 4) &&& 0x0f), hexdigit (c &&& 0x0f)]
  else if c = 92 then [92, 92]
  else [c]

theorem length_hexText (c : UInt8) : 1 ≤ (hexText c).length ∧ (hexText c).length ≤ 3 := by
  unfold hexText
  split_ifs <;> simp

theorem hexdigit_facts (c : UInt8) : hexdigit ((c >>> 4) &&& 0x0f) ≠ 92 ∧
    nibble (hexdigit ((c >>> 4) &&& 0x0f)) = some (c.toNat / 16) ∧
      nibble (hexdigit (c &&& 0x0f)) = some (c.toNat % 16) ∧
        UInt8.ofNat (((c.toNat / 16) <<< 4) ||| (c.toNat % 16)) = c :=
  forall_byte (P := fun c => hexdigit ((c >>> 4) &&& 0x0f) ≠ 92 ∧
    nibble (hexdigit ((c >>> 4) &&& 0x0f)) = some (c.toNat / 16) ∧
      nibble (hexdigit (c &&& 0x0f)) = some (c.toNat % 16) ∧
        UInt8.ofNat (((c.toNat / 16) <<< 4) ||| (c.toNat % 16)) = c) (by decide +kernel) c

theorem hexLoop_hexText (bytes : List UInt8) {buf : ℕ → UInt8} {p fuel : ℕ} (out : List UInt8)
    (htext : ∀ i (h : i < (bytes.flatMap hexText).length), buf (p + i) = (bytes.flatMap hexText)[i])
    (hfuel : (bytes.flatMap hexText).length ≤ fuel) :
    hexLoop buf (p + (bytes.flatMap hexText).length) fuel p out =
      (out ++ bytes, p + (bytes.flatMap hexText).length) := by
  induction bytes generalizing p fuel out with
  | nil =>
    cases fuel with
    | zero => simp [hexLoop]
    | succ fuel => simp [hexLoop]
  | cons c bytes ih =>
    have hlength := length_hexText c
    have hsplit : ((c :: bytes).flatMap hexText).length =
        (hexText c).length + (bytes.flatMap hexText).length := by simp
    obtain ⟨fuel, rfl⟩ : ∃ f, fuel = f + 1 := ⟨fuel - 1, by omega⟩
    have hhead (i : ℕ) (hi : i < (hexText c).length) : buf (p + i) = (hexText c)[i] := by
      have hi' : i < ((c :: bytes).flatMap hexText).length := by omega
      rw [htext i hi']
      simp only [List.flatMap_cons]
      exact List.getElem_append_left hi
    have htail (i : ℕ) (hi : i < (bytes.flatMap hexText).length) :
        buf (p + (hexText c).length + i) = (bytes.flatMap hexText)[i] := by
      have hi' : (hexText c).length + i < ((c :: bytes).flatMap hexText).length := by omega
      rw [Nat.add_assoc, htext _ hi']
      simp only [List.flatMap_cons]
      rw [List.getElem_append_right (by omega)]
      simp
    have hgo (out' : List UInt8) (hout : out' = out ++ [c]) :
        hexLoop buf (p + ((c :: bytes).flatMap hexText).length) fuel (p + (hexText c).length) out' =
          (out ++ (c :: bytes), p + ((c :: bytes).flatMap hexText).length) := by
      rw [hsplit, ← Nat.add_assoc, ih out' htail (by omega), hout]
      simp
    have hin : p < p + ((c :: bytes).flatMap hexText).length := by omega
    rw [hexLoop, if_pos hin]
    by_cases hhigh : c &&& 0x80 ≠ 0
    · have hform : hexText c = [92, hexdigit ((c >>> 4) &&& 0x0f), hexdigit (c &&& 0x0f)] := by
        rw [hexText, if_pos hhigh]
      obtain ⟨hnot, hi, hn, hback⟩ := hexdigit_facts c
      have h0 := hhead 0 (by simp [hform])
      have h1 := hhead 1 (by simp [hform])
      have h2 := hhead 2 (by simp [hform])
      simp only [hform, List.getElem_cons_zero, List.getElem_cons_succ, Nat.add_zero] at h0 h1 h2
      rw [if_pos h0, h1, if_pos hnot, h2, hi, hn]
      simp only [hback]
      have hthree := hgo (out ++ [c]) rfl
      rwa [hform] at hthree
    · by_cases hback : c = 92
      · have hform : hexText c = [92, 92] := by rw [hexText, if_neg hhigh, if_pos hback]
        have h0 := hhead 0 (by simp [hform])
        have h1 := hhead 1 (by simp [hform])
        simp only [hform, List.getElem_cons_zero, List.getElem_cons_succ, Nat.add_zero] at h0 h1
        rw [if_pos h0, if_neg (by simp [h1]), h1]
        have htwo := hgo (out ++ [92]) (by rw [hback])
        rwa [hform] at htwo
      · have hform : hexText c = [c] := by rw [hexText, if_neg hhigh, if_neg hback]
        have h0 := hhead 0 (by simp [hform])
        simp only [hform, List.getElem_cons_zero, Nat.add_zero] at h0
        rw [h0, if_neg hback]
        have hone := hgo (out ++ [c]) rfl
        rwa [hform] at hone

/-! ### Uuencoding -/

theorem uudec_uuenc {c : ℕ} (h : c < 64) : uudec (uuenc c) = c ∧ uuBad (uuenc c) = false := by
  have hall : ∀ i : Fin 64, uudec (uuenc i) = i ∧ uuBad (uuenc i) = false := by decide
  exact hall ⟨c, h⟩

theorem or_eq_add {a b : ℕ} (k : ℕ) (hb : b < 2 ^ k) : (a <<< k) ||| b = a * 2 ^ k + b := by
  rw [← Nat.shiftLeft_add_eq_or_of_lt hb, Nat.shiftLeft_eq]

/-- The pieces that `put_uue` cuts a byte into. -/
theorem uuePieces : ∀ a : UInt8, (a.toNat <<< 4) &&& 0x30 = (a.toNat % 4) <<< 4 ∧
    (a.toNat >>> 4) &&& 0x0f = a.toNat / 16 ∧ (a.toNat <<< 2) &&& 0x3c = (a.toNat % 16) <<< 2 ∧
    (a.toNat >>> 6) &&& 0x03 = a.toNat / 64 := by
  apply forall_byte
  decide +kernel

theorem uuSplit_eq (a b : UInt8) : uuSplit a b = uuenc (a.toNat % 4 * 16 + b.toNat / 16) := by
  have hlt := b.toNat_lt
  rw [uuSplit, (uuePieces a).1, (uuePieces b).2.1, or_eq_add 4 (by omega)]
  rfl

theorem uuMiddle_eq (b c : UInt8) :
    ((b.toNat <<< 2) &&& 0x3c) ||| ((c.toNat >>> 6) &&& 0x03) = b.toNat % 16 * 4 + c.toNat / 64 := by
  have hlt := c.toNat_lt
  rw [(uuePieces b).2.2.1, (uuePieces c).2.2.2, or_eq_add 2 (by omega)]
  rfl

theorem uuLast_eq (b : UInt8) : (b.toNat <<< 2) &&& 0x3c = b.toNat % 16 * 4 := by
  rw [(uuePieces b).2.2.1, Nat.shiftLeft_eq]

theorem uuFirst_eq {x y : ℕ} (hx : x < 64) (hy : y < 64) :
    uuFirst (uuenc x) (uuenc y) = UInt8.ofNat (x * 4 + y / 16) := by
  rw [uuFirst, (uudec_uuenc hx).1, (uudec_uuenc hy).1, Nat.shiftRight_eq_div_pow,
    or_eq_add 2 (by omega)]
  rfl

theorem uuSecond_eq {x y : ℕ} (hx : x < 64) (hy : y < 64) :
    uuSecond (uuenc x) (uuenc y) = UInt8.ofNat (x * 16 + y / 4) := by
  rw [uuSecond, (uudec_uuenc hx).1, (uudec_uuenc hy).1, Nat.shiftRight_eq_div_pow,
    or_eq_add 4 (by omega)]
  rfl

theorem uuThird_eq {x y : ℕ} (hx : x < 64) (hy : y < 64) :
    uuThird (uuenc x) (uuenc y) = UInt8.ofNat (x * 64 + y) := by
  rw [uuThird, (uudec_uuenc hx).1, (uudec_uuenc hy).1, or_eq_add 6 (by omega)]
  rfl

theorem ofNat_of_mod {a : UInt8} {n : ℕ} (h : n % 256 = a.toNat) : UInt8.ofNat n = a := by
  apply UInt8.toNat_inj.mp
  rw [UInt8.toNat_ofNat', h]

theorem uueLoop_putUue (stale : UInt8) (bytes : List UInt8) :
    (uueLoop (putUue stale bytes)).1 = some bytes := by
  induction bytes using putUue.induct with
  | case1 a b c rest ih =>
    have ha := a.toNat_lt
    have hb := b.toNat_lt
    have hc := c.toNat_lt
    have hand : c.toNat &&& 0x3f = c.toNat % 64 := Nat.and_two_pow_sub_one_eq_mod c.toNat 6
    have hshift : a.toNat >>> 2 = a.toNat / 4 := Nat.shiftRight_eq_div_pow _ 2
    have hx : a.toNat / 4 < 64 := by omega
    have hy : a.toNat % 4 * 16 + b.toNat / 16 < 64 := by omega
    have hz : b.toNat % 16 * 4 + c.toNat / 64 < 64 := by omega
    have hv : c.toNat % 64 < 64 := by omega
    rw [putUue, uuSplit_eq, uuMiddle_eq, hand, hshift, uueLoop, (uudec_uuenc hx).2,
      (uudec_uuenc hy).2, (uudec_uuenc hz).2]
    simp only [Bool.or_self, Bool.false_eq_true, if_false, ih, Option.map_some]
    rw [uuFirst_eq hx hy, uuSecond_eq hy hz, uuThird_eq hz hv, ofNat_of_mod (a := a) (by omega),
      ofNat_of_mod (a := b) (by omega), ofNat_of_mod (a := c) (by omega)]
  | case2 a b =>
    have ha := a.toNat_lt
    have hb := b.toNat_lt
    have hshift : a.toNat >>> 2 = a.toNat / 4 := Nat.shiftRight_eq_div_pow _ 2
    have hx : a.toNat / 4 < 64 := by omega
    have hy : a.toNat % 4 * 16 + b.toNat / 16 < 64 := by omega
    have hz : b.toNat % 16 * 4 < 64 := by omega
    rw [putUue, uuSplit_eq, uuLast_eq, hshift, uueLoop, (uudec_uuenc hx).2]
    simp only [Bool.false_eq_true, if_false]
    rw [uuFirst_eq hx hy, uuSecond_eq hy hz, ofNat_of_mod (a := a) (by omega),
      ofNat_of_mod (a := b) (by omega)]
  | case3 a =>
    have ha := a.toNat_lt
    have hs := stale.toNat_lt
    have hshift : a.toNat >>> 2 = a.toNat / 4 := Nat.shiftRight_eq_div_pow _ 2
    have hx : a.toNat / 4 < 64 := by omega
    have hy : a.toNat % 4 * 16 + stale.toNat / 16 < 64 := by omega
    rw [putUue, uuSplit_eq, hshift, uueLoop, (uudec_uuenc hx).2]
    simp only [Bool.false_eq_true, if_false]
    rw [uuFirst_eq hx hy, ofNat_of_mod (a := a) (by omega)]
  | case4 => rfl

/-! ### Seven bits -/

def digits (bytes : List UInt8) : List ℕ := bytes.map UInt8.toNat

theorem digits_lt (bytes : List UInt8) : ∀ d ∈ digits bytes, d < 256 := by
  intro d hd
  obtain ⟨b, -, rfl⟩ := List.mem_map.mp hd
  exact b.toNat_lt

/-- The groups are the digits to the base 128 of the number that the bytes are to the base 256. -/
theorem ascGroups_facts (bytes : List UInt8) {n c : ℕ} (hn : n < 7) (hc : c < 2 ^ n) :
    Nat.ofDigits 128 (digits (ascGroups n c bytes)) = c + 2 ^ n * Nat.ofDigits 256 (digits bytes) ∧
      (ascGroups n c bytes).length = (n + 8 * bytes.length + 6) / 7 ∧
        ∀ g ∈ ascGroups n c bytes, g < 128 := by
  have hmod (m : ℕ) : m &&& 0x7f = m % 128 := Nat.and_two_pow_sub_one_eq_mod m 7
  have hdiv (m : ℕ) : m >>> 7 = m / 128 := Nat.shiftRight_eq_div_pow m 7
  have hval (m : ℕ) : (UInt8.ofNat (m % 128)).toNat = m % 128 := by
    rw [UInt8.toNat_ofNat']
    omega
  have hlow (m : ℕ) : UInt8.ofNat (m % 128) < 128 := by
    rw [UInt8.lt_iff_toNat_lt, hval]
    exact Nat.mod_lt m (by decide)
  induction bytes generalizing n c with
  | nil =>
    have hsmall : c < 128 := Nat.lt_of_lt_of_le hc (Nat.pow_le_pow_right (by decide) (by omega : n ≤ 7))
    rw [ascGroups]
    by_cases hpos : 0 < n
    · rw [if_pos hpos, hmod]
      refine ⟨?_, by simp; omega, ?_⟩
      · simp only [digits, List.map_cons, List.map_nil, hval, Nat.ofDigits_singleton,
          Nat.ofDigits_nil, Nat.mul_zero, Nat.add_zero]
        exact Nat.mod_eq_of_lt hsmall
      · intro g hg
        rw [List.mem_singleton.mp hg]
        exact hlow c
    · have hzero : n = 0 := by omega
      subst hzero
      rw [if_neg hpos]
      refine ⟨?_, by simp, by simp⟩
      simp only [pow_zero] at hc
      simp [digits]
      omega
  | cons b bytes ih =>
    have hb := b.toNat_lt
    have hor : c ||| (b.toNat <<< n) = c + b.toNat * 2 ^ n := by
      rw [Nat.or_comm, or_eq_add n hc, Nat.add_comm]
    have hword : c + b.toNat * 2 ^ n < 2 ^ (n + 8) := by
      have hmul : b.toNat * 2 ^ n ≤ 255 * 2 ^ n := Nat.mul_le_mul_right _ (by omega)
      rw [pow_add]
      omega
    rw [ascGroups]
    simp only [hor, hmod, hdiv]
    have hcons : Nat.ofDigits 256 (digits (b :: bytes)) =
        b.toNat + 256 * Nat.ofDigits 256 (digits bytes) := by
      simp [digits, Nat.ofDigits_cons]
    rw [hcons]
    generalize hx : c + b.toNat * 2 ^ n = x at hword
    have hexpand : c + 2 ^ n * (b.toNat + 256 * Nat.ofDigits 256 (digits bytes)) =
        x + 2 ^ (n + 8) * Nat.ofDigits 256 (digits bytes) := by
      rw [← hx, pow_add]
      ring
    rw [hexpand]
    by_cases hfull : 7 ≤ n + 1
    · have hsix : n = 6 := by omega
      subst hsix
      obtain ⟨hsum, hlen, hall⟩ := ih (n := 0) (c := 0) (by decide) (by decide)
      rw [if_pos hfull]
      refine ⟨?_, ?_, ?_⟩
      · simp only [digits, List.map_cons, Nat.ofDigits_cons, hval] at hsum ⊢
        rw [hsum]
        have hword' : x < 16384 := hword
        norm_num
        omega
      · rw [List.length_cons, List.length_cons, hlen, List.length_cons]
        omega
      · intro g hg
        rcases List.mem_cons.mp hg with rfl | hg
        · exact hlow x
        · rcases List.mem_cons.mp hg with rfl | hg
          · exact hlow (x / 128)
          · exact hall g hg
    · have hnext : x / 128 < 2 ^ (n + 1) := by
        apply Nat.div_lt_of_lt_mul
        calc x < 2 ^ (n + 8) := hword
          _ = 128 * 2 ^ (n + 1) := by rw [pow_add, pow_add]; ring
      obtain ⟨hsum, hlen, hall⟩ := ih (n := n + 1) (by omega) hnext
      rw [if_neg hfull]
      refine ⟨?_, ?_, ?_⟩
      · simp only [digits, List.map_cons, Nat.ofDigits_cons, hval] at hsum ⊢
        rw [hsum]
        have hsplit := Nat.mod_add_div x 128
        have hpow : (2 : ℕ) ^ (n + 8) = 128 * 2 ^ (n + 1) := by rw [pow_add, pow_add]; ring
        rw [hpow]
        linarith [Nat.mul_add 128 (x / 128) (2 ^ (n + 1) * Nat.ofDigits 256 (List.map UInt8.toNat bytes)),
          Nat.mul_assoc 128 (2 ^ (n + 1)) (Nat.ofDigits 256 (List.map UInt8.toNat bytes))]
      · rw [List.length_cons, hlen, List.length_cons]
        omega
      · intro g hg
        rcases List.mem_cons.mp hg with rfl | hg
        · exact hlow x
        · exact hall g hg

/-- The bytes are the digits to the base 256 of the number that the groups are to the base 128, as
far as whole bytes go. -/
theorem ascLoop_facts (groups : List UInt8) (hgroups : ∀ g ∈ groups, g < 128) {n i : ℕ} (hn : n < 8)
    (hi : i < 2 ^ n) :
    (ascLoop n i groups).length = (n + 7 * groups.length) / 8 ∧
      ∃ spill, Nat.ofDigits 256 (digits (ascLoop n i groups)) + 256 ^ (ascLoop n i groups).length * spill =
        i + 2 ^ n * Nat.ofDigits 128 (digits groups) := by
  have hmod (m : ℕ) : m &&& 0xff = m % 256 := Nat.and_two_pow_sub_one_eq_mod m 8
  have hdiv (m : ℕ) : m >>> 8 = m / 256 := Nat.shiftRight_eq_div_pow m 8
  have hval (m : ℕ) : (UInt8.ofNat (m % 256)).toNat = m % 256 := by
    rw [UInt8.toNat_ofNat']
    omega
  induction groups generalizing n i with
  | nil =>
    refine ⟨?_, i, ?_⟩
    · simp [ascLoop]
      omega
    · simp [ascLoop, digits]
  | cons g groups ih =>
    have hg : g.toNat < 128 := UInt8.lt_iff_toNat_lt.mp (hgroups g List.mem_cons_self)
    have hrest : ∀ x ∈ groups, x < 128 := fun x hx => hgroups x (List.mem_cons_of_mem _ hx)
    have hand : g.toNat &&& 0x7f = g.toNat := by
      rw [show (0x7f : ℕ) = 2 ^ 7 - 1 by rfl, Nat.and_two_pow_sub_one_eq_mod]
      exact Nat.mod_eq_of_lt hg
    have hor : i ||| ((g.toNat &&& 0x7f) <<< n) = i + g.toNat * 2 ^ n := by
      rw [hand, Nat.or_comm, or_eq_add n hi, Nat.add_comm]
    have hword : i + g.toNat * 2 ^ n < 2 ^ (n + 7) := by
      have hmul : g.toNat * 2 ^ n ≤ 127 * 2 ^ n := Nat.mul_le_mul_right _ (by omega)
      rw [pow_add]
      omega
    have hcons : Nat.ofDigits 128 (digits (g :: groups)) =
        g.toNat + 128 * Nat.ofDigits 128 (digits groups) := by
      simp [digits, Nat.ofDigits_cons]
    rw [ascLoop, hcons]
    simp only [hor, hmod, hdiv]
    generalize hx : i + g.toNat * 2 ^ n = x at hword
    have hexpand : i + 2 ^ n * (g.toNat + 128 * Nat.ofDigits 128 (digits groups)) =
        x + 2 ^ (n + 7) * Nat.ofDigits 128 (digits groups) := by
      rw [← hx, pow_add]
      ring
    rw [hexpand]
    by_cases hfull : 8 ≤ n + 7
    · obtain ⟨m, rfl⟩ : ∃ m, n = m + 1 := ⟨n - 1, by omega⟩
      have hnext : x / 256 < 2 ^ m := by
        apply Nat.div_lt_of_lt_mul
        calc x < 2 ^ (m + 1 + 7) := hword
          _ = 256 * 2 ^ m := by rw [pow_add, pow_add]; ring
      obtain ⟨hlen, spill, hsum⟩ := ih hrest (n := m) (by omega) hnext
      rw [if_pos hfull, show m + 1 + 7 - 8 = m by omega]
      refine ⟨?_, spill, ?_⟩
      · rw [List.length_cons, hlen, List.length_cons]
        omega
      · have hsplit := Nat.mod_add_div x 256
        have hpow : (2 : ℕ) ^ (m + 1 + 7) = 256 * 2 ^ m := by rw [pow_add, pow_add]; ring
        rw [hpow, List.length_cons, pow_succ]
        have hdig : Nat.ofDigits 256 (digits (UInt8.ofNat (x % 256) :: ascLoop m (x / 256) groups)) =
            x % 256 + 256 * Nat.ofDigits 256 (digits (ascLoop m (x / 256) groups)) := by
          simp only [digits, List.map_cons, Nat.ofDigits_cons, hval]
        rw [hdig]
        calc x % 256 + 256 * Nat.ofDigits 256 (digits (ascLoop m (x / 256) groups)) +
              256 ^ (ascLoop m (x / 256) groups).length * 256 * spill
            = x % 256 + 256 * (Nat.ofDigits 256 (digits (ascLoop m (x / 256) groups)) +
                256 ^ (ascLoop m (x / 256) groups).length * spill) := by ring
          _ = x % 256 + 256 * (x / 256 + 2 ^ m * Nat.ofDigits 128 (digits groups)) := by rw [hsum]
          _ = (x % 256 + 256 * (x / 256)) + 256 * 2 ^ m * Nat.ofDigits 128 (digits groups) := by ring
          _ = x + 256 * 2 ^ m * Nat.ofDigits 128 (digits groups) := by rw [hsplit]
    · have hzero : n = 0 := by omega
      subst hzero
      obtain ⟨hlen, spill, hsum⟩ := ih hrest (n := 7) (by decide) hword
      rw [if_neg hfull]
      refine ⟨?_, spill, hsum⟩
      rw [hlen, List.length_cons]
      omega

theorem ascLoop_ascGroups (bytes : List UInt8) : ascLoop 0 0 (ascGroups 0 0 bytes) = bytes := by
  obtain ⟨hsum, hlen, hall⟩ := ascGroups_facts bytes (by decide : 0 < 7) (by decide : 0 < 2 ^ 0)
  obtain ⟨hback, spill, hover⟩ := ascLoop_facts (ascGroups 0 0 bytes) hall (by decide : 0 < 8)
    (by decide : 0 < 2 ^ 0)
  have hlength : (ascLoop 0 0 (ascGroups 0 0 bytes)).length = bytes.length := by
    rw [hback, hlen]
    omega
  rw [hsum] at hover
  simp only [pow_zero, one_mul, Nat.zero_add] at hover
  have hsmall := Nat.ofDigits_lt_base_pow_length (by decide : 1 < 256) (digits_lt bytes)
  have hnone : spill = 0 := by
    rcases Nat.eq_zero_or_pos spill with hz | hpos
    · exact hz
    · rw [digits, List.length_map, ← digits, ← hlength] at hsmall
      have hle : 256 ^ (ascLoop 0 0 (ascGroups 0 0 bytes)).length ≤
          256 ^ (ascLoop 0 0 (ascGroups 0 0 bytes)).length * spill := Nat.le_mul_of_pos_right _ hpos
      omega
  rw [hnone, Nat.mul_zero, Nat.add_zero] at hover
  have hinj := Nat.ofDigits_inj_of_len_eq (by decide : 1 < 256)
    (by simpa [digits] using hlength) (digits_lt _) (digits_lt _) hover
  exact List.map_injective_iff.mpr (fun a b h => UInt8.toNat_inj.mp h) hinj

end CProgram.Hydra
