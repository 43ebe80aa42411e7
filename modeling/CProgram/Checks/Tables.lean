import CProgram.Lib.Reflected
import CProgram.Hydra.Coding
import CProgram.Zmodem.DataFrame

/-! The 32-bit checks of the repository. PLINK reads its table from a literal, HYDRA shifts each entry, ZMODEM builds
the table from its powers of two, and `CRC32.c` keeps the register the other way round. -/
namespace CProgram.Checks
open Crc

/-- `crc_32_tab` of PLINK. -/
def crc32Tab : List (BitVec 32) :=
  [0x00000000, 0x77073096, 0xee0e612c, 0x990951ba, 0x076dc419, 0x706af48f, 0xe963a535, 0x9e6495a3,
    0x0edb8832, 0x79dcb8a4, 0xe0d5e91e, 0x97d2d988, 0x09b64c2b, 0x7eb17cbd, 0xe7b82d07, 0x90bf1d91,
    0x1db71064, 0x6ab020f2, 0xf3b97148, 0x84be41de, 0x1adad47d, 0x6ddde4eb, 0xf4d4b551, 0x83d385c7,
    0x136c9856, 0x646ba8c0, 0xfd62f97a, 0x8a65c9ec, 0x14015c4f, 0x63066cd9, 0xfa0f3d63, 0x8d080df5,
    0x3b6e20c8, 0x4c69105e, 0xd56041e4, 0xa2677172, 0x3c03e4d1, 0x4b04d447, 0xd20d85fd, 0xa50ab56b,
    0x35b5a8fa, 0x42b2986c, 0xdbbbc9d6, 0xacbcf940, 0x32d86ce3, 0x45df5c75, 0xdcd60dcf, 0xabd13d59,
    0x26d930ac, 0x51de003a, 0xc8d75180, 0xbfd06116, 0x21b4f4b5, 0x56b3c423, 0xcfba9599, 0xb8bda50f,
    0x2802b89e, 0x5f058808, 0xc60cd9b2, 0xb10be924, 0x2f6f7c87, 0x58684c11, 0xc1611dab, 0xb6662d3d,
    0x76dc4190, 0x01db7106, 0x98d220bc, 0xefd5102a, 0x71b18589, 0x06b6b51f, 0x9fbfe4a5, 0xe8b8d433,
    0x7807c9a2, 0x0f00f934, 0x9609a88e, 0xe10e9818, 0x7f6a0dbb, 0x086d3d2d, 0x91646c97, 0xe6635c01,
    0x6b6b51f4, 0x1c6c6162, 0x856530d8, 0xf262004e, 0x6c0695ed, 0x1b01a57b, 0x8208f4c1, 0xf50fc457,
    0x65b0d9c6, 0x12b7e950, 0x8bbeb8ea, 0xfcb9887c, 0x62dd1ddf, 0x15da2d49, 0x8cd37cf3, 0xfbd44c65,
    0x4db26158, 0x3ab551ce, 0xa3bc0074, 0xd4bb30e2, 0x4adfa541, 0x3dd895d7, 0xa4d1c46d, 0xd3d6f4fb,
    0x4369e96a, 0x346ed9fc, 0xad678846, 0xda60b8d0, 0x44042d73, 0x33031de5, 0xaa0a4c5f, 0xdd0d7cc9,
    0x5005713c, 0x270241aa, 0xbe0b1010, 0xc90c2086, 0x5768b525, 0x206f85b3, 0xb966d409, 0xce61e49f,
    0x5edef90e, 0x29d9c998, 0xb0d09822, 0xc7d7a8b4, 0x59b33d17, 0x2eb40d81, 0xb7bd5c3b, 0xc0ba6cad,
    0xedb88320, 0x9abfb3b6, 0x03b6e20c, 0x74b1d29a, 0xead54739, 0x9dd277af, 0x04db2615, 0x73dc1683,
    0xe3630b12, 0x94643b84, 0x0d6d6a3e, 0x7a6a5aa8, 0xe40ecf0b, 0x9309ff9d, 0x0a00ae27, 0x7d079eb1,
    0xf00f9344, 0x8708a3d2, 0x1e01f268, 0x6906c2fe, 0xf762575d, 0x806567cb, 0x196c3671, 0x6e6b06e7,
    0xfed41b76, 0x89d32be0, 0x10da7a5a, 0x67dd4acc, 0xf9b9df6f, 0x8ebeeff9, 0x17b7be43, 0x60b08ed5,
    0xd6d6a3e8, 0xa1d1937e, 0x38d8c2c4, 0x4fdff252, 0xd1bb67f1, 0xa6bc5767, 0x3fb506dd, 0x48b2364b,
    0xd80d2bda, 0xaf0a1b4c, 0x36034af6, 0x41047a60, 0xdf60efc3, 0xa867df55, 0x316e8eef, 0x4669be79,
    0xcb61b38c, 0xbc66831a, 0x256fd2a0, 0x5268e236, 0xcc0c7795, 0xbb0b4703, 0x220216b9, 0x5505262f,
    0xc5ba3bbe, 0xb2bd0b28, 0x2bb45a92, 0x5cb36a04, 0xc2d7ffa7, 0xb5d0cf31, 0x2cd99e8b, 0x5bdeae1d,
    0x9b64c2b0, 0xec63f226, 0x756aa39c, 0x026d930a, 0x9c0906a9, 0xeb0e363f, 0x72076785, 0x05005713,
    0x95bf4a82, 0xe2b87a14, 0x7bb12bae, 0x0cb61b38, 0x92d28e9b, 0xe5d5be0d, 0x7cdcefb7, 0x0bdbdf21,
    0x86d3d2d4, 0xf1d4e242, 0x68ddb3f8, 0x1fda836e, 0x81be16cd, 0xf6b9265b, 0x6fb077e1, 0x18b74777,
    0x88085ae6, 0xff0f6a70, 0x66063bca, 0x11010b5c, 0x8f659eff, 0xf862ae69, 0x616bffd3, 0x166ccf45,
    0xa00ae278, 0xd70dd2ee, 0x4e048354, 0x3903b3c2, 0xa7672661, 0xd06016f7, 0x4969474d, 0x3e6e77db,
    0xaed16a4a, 0xd9d65adc, 0x40df0b66, 0x37d83bf0, 0xa9bcae53, 0xdebb9ec5, 0x47b2cf7f, 0x30b5ffe9,
    0xbdbdf21c, 0xcabac28a, 0x53b39330, 0x24b4a3a6, 0xbad03605, 0xcdd70693, 0x54de5729, 0x23d967bf,
    0xb3667a2e, 0xc4614ab8, 0x5d681b02, 0x2a6f2b94, 0xb40bbe37, 0xc30c8ea1, 0x5a05df1b, 0x2d02ef8d]

def crc32Byte (crccode : BitVec 32) (ch : UInt8) : BitVec 32 :=
  crc32Tab.getD ((crccode ^^^ ch.toBitVec.setWidth 32).setWidth 16 &&& 0xFF).toNat 0 ^^^
    ((crccode >>> 8) &&& 0x00FFFFFF)

/-- `crc32` of PLINK, over the `size` bytes of the buffer. -/
def crc32 (buf : List UInt8) : BitVec 32 := buf.foldl crc32Byte 0xFFFFFFFF

/-! ### `CRC32.c` -/

def polynomial : BitVec 32 := 0x04c11db7

/-- The inner loop of `gen_crc_table`. -/
def genCrcBit (crcAccum : BitVec 32) : BitVec 32 :=
  if crcAccum &&& 0x80000000 ≠ 0 then (crcAccum <<< 1) ^^^ polynomial else crcAccum <<< 1

/-- `gen_crc_table`. -/
def genCrcTable : List (BitVec 32) :=
  (List.range 256).map fun i => genCrcBit^[8] (BitVec.ofNat 32 i <<< 24)

def updateCrcByte (crcTable : List (BitVec 32)) (crcAccum : BitVec 32) (ch : UInt8) : BitVec 32 :=
  (crcAccum <<< 8) ^^^ crcTable.getD (((crcAccum >>> 24) ^^^ ch.toBitVec.setWidth 32) &&& 0xFF).toNat 0

/-- `update_crc`. -/
def updateCrc (crcTable : List (BitVec 32)) (crcAccum : BitVec 32) (dataBlk : List UInt8) : BitVec 32 :=
  ~~~(dataBlk.foldl (updateCrcByte crcTable) crcAccum)

/-! ### Agreement -/

/-- What the tables hold. -/
def entry (i : ℕ) : BitVec 32 := (shift Hydra.crc32poly)^[8] (BitVec.ofNat 32 i)

theorem crc32Tab_eq : crc32Tab = (List.range 256).map entry := by
  decide +kernel

theorem getD_range {α : Type*} (f : ℕ → α) (d : α) {i : ℕ} (h : i < 256) :
    ((List.range 256).map f).getD i d = f i := by
  simp [h]

theorem and_byte (x : BitVec 32) : (x &&& 0xFF).toNat = (x.setWidth 8).toNat := by
  rw [BitVec.toNat_and, BitVec.toNat_setWidth]
  exact Nat.and_two_pow_sub_one_eq_mod _ 8

theorem ofNat_toNat_byte (x : BitVec 8) : BitVec.ofNat 32 x.toNat = x.setWidth 32 := by
  refine BitVec.eq_of_toNat_eq ?_
  rw [BitVec.toNat_ofNat, BitVec.toNat_setWidth]

theorem setWidth_setWidth_byte (ch : UInt8) : (ch.toBitVec.setWidth 32).setWidth 8 = ch.toBitVec := by
  rw [BitVec.setWidth_setWidth_of_le _ (by decide), BitVec.setWidth_eq]

theorem crc32Byte_eq (r : BitVec 32) (ch : UInt8) :
    crc32Byte r ch = (shift Hydra.crc32poly)^[8] ((r.setWidth 8 ^^^ ch.toBitVec).setWidth 32) ^^^ (r >>> 8) := by
  have hindex :
      ((r ^^^ ch.toBitVec.setWidth 32).setWidth 16 &&& 0xFF).toNat = (r.setWidth 8 ^^^ ch.toBitVec).toNat := by
    conv_rhs => rw [← setWidth_setWidth_byte ch, ← BitVec.setWidth_xor, BitVec.toNat_setWidth]
    rw [BitVec.toNat_and, BitVec.toNat_setWidth]
    exact (Nat.and_two_pow_sub_one_eq_mod _ 8).trans (Nat.mod_mod_of_dvd _ (Nat.pow_dvd_pow 2 (by decide : 8 ≤ 16)))
  have hhigh : (r >>> 8) &&& (0x00FFFFFF : BitVec 32) = r >>> 8 := by
    refine BitVec.eq_of_toNat_eq ?_
    rw [BitVec.toNat_and]
    refine (Nat.and_two_pow_sub_one_eq_mod _ 24).trans (Nat.mod_eq_of_lt ?_)
    rw [BitVec.toNat_ushiftRight, Nat.shiftRight_eq_div_pow]
    have hr := r.isLt
    omega
  rw [crc32Byte, hindex, hhigh, crc32Tab_eq, getD_range _ _ (r.setWidth 8 ^^^ ch.toBitVec).isLt, entry,
    ofNat_toNat_byte]

theorem updcrc_eq {w : ℕ} (poly r : BitVec w) (ch : UInt8) :
    Hydra.updcrc poly r ch = (shift poly)^[8] ((r.setWidth 8 ^^^ ch.toBitVec).setWidth w) ^^^ (r >>> 8) := rfl

theorem crc32_eq_crc32block (data : List UInt8) : crc32 data = Hydra.crc32block data :=
  congrArg (fun update => data.foldl update (0xFFFFFFFF : BitVec 32))
    (funext fun r => funext fun ch => (crc32Byte_eq r ch).trans (updcrc_eq Hydra.crc32poly r ch).symm)

/-! ### The table of ZMODEM -/

/-- The entries at the multiples of `j` are made. -/
def Filled (j : ℕ) (tab : List UInt32) : Prop :=
  tab.length = 256 ∧ ∀ q, j * q < 256 → (tab.getD (j * q) 0).toBitVec = entry (j * q)

set_option maxRecDepth 4000 in
theorem entry_add {j n : ℕ} (hj : j ∈ [128, 64, 32, 16, 8, 4, 2, 1]) (hn : n < 128 / j) :
    entry (2 * j * n + j) = entry (2 * j * n) ^^^ entry j := by
  have hbits : ∀ j ∈ [128, 64, 32, 16, 8, 4, 2, 1], ∀ n < 128 / j,
      BitVec.ofNat 32 (2 * j * n + j) = BitVec.ofNat 32 (2 * j * n) ^^^ BitVec.ofNat 32 j := by decide
  rw [entry, hbits j hj n hn, iterate_shift_xor]
  rfl

/-- The inner loop of `makecrc`. -/
theorem Filled.loop {j : ℕ} {tab : List UInt32} {next : UInt32} (h : Filled (2 * j) tab)
    (hj : j ∈ [128, 64, 32, 16, 8, 4, 2, 1]) (hnext : next.toBitVec = entry j) {n : ℕ} (hn : n ≤ 128 / j) :
    ∃ t, (List.range n).foldl (fun t k => t.set (2 * j * k + j) (t.getD (2 * j * k) 0 ^^^ next)) tab = t ∧
      t.length = 256 ∧
      ∀ q, j * q < 256 → (q % 2 = 0 ∨ q < 2 * n) → (t.getD (j * q) 0).toBitVec = entry (j * q) := by
  induction n with
  | zero =>
    refine ⟨tab, rfl, h.1, fun q hq heven => ?_⟩
    have hindex : j * q = 2 * j * (q / 2) := by rw [Nat.mul_comm 2, Nat.mul_assoc, Nat.mul_div_cancel' (by omega)]
    rw [hindex] at hq ⊢
    exact h.2 _ hq
  | succ n ih =>
    obtain ⟨t, ht, hlength, hmade⟩ := ih (by omega)
    refine ⟨t.set (2 * j * n + j) (t.getD (2 * j * n) 0 ^^^ next), ?_, ?_, fun q hq heven => ?_⟩
    · rw [List.range_succ, List.foldl_append, ht]
      rfl
    · rw [List.length_set, hlength]
    have hodd : 2 * j * n + j = j * (2 * n + 1) := by ring
    have hfrom : 2 * j * n = j * (2 * n) := by ring
    rw [List.getD_eq_getElem?_getD, List.getElem?_set]
    by_cases hset : 2 * j * n + j = j * q
    · rw [if_pos hset, if_pos (by omega), Option.getD_some, UInt32.toBitVec_xor, hfrom,
        hmade (2 * n) (by omega) (Or.inl (by omega)), hnext, ← hfrom, ← entry_add hj hn, hset]
    · have hq' : q ≠ 2 * n + 1 := fun heq => hset (heq ▸ hodd)
      rw [if_neg hset, ← List.getD_eq_getElem?_getD]
      exact hmade q hq (by omega)

theorem Filled.pass {j : ℕ} {tab : List UInt32 × UInt32} (h : Filled (2 * j) tab.1)
    (hj : j ∈ [128, 64, 32, 16, 8, 4, 2, 1]) (hnext : (Zmodem.makecrcPass tab j).2.toBitVec = entry j) :
    Filled j (Zmodem.makecrcPass tab j).1 := by
  obtain ⟨t, ht, hlength, hmade⟩ := h.loop hj hnext le_rfl
  have hall : j * (2 * (128 / j)) = 256 := by fin_cases hj <;> rfl
  rw [show (Zmodem.makecrcPass tab j).1 = t from ht]
  exact ⟨hlength, fun q hq => hmade q hq (Or.inr (Nat.lt_of_mul_lt_mul_left (a := j) (by omega)))⟩

theorem filled_makecrc : Filled 1 Zmodem.makecrc := by
  have hstart : Filled 256 (List.replicate 256 (0 : UInt32), (1 : UInt32)).1 := by
    refine ⟨List.length_replicate, fun q hq => ?_⟩
    rw [show q = 0 by omega]
    rfl
  have h := (hstart.pass (j := 128) (by decide) rfl).pass (j := 64) (by decide) rfl
  have h := (h.pass (j := 32) (by decide) rfl).pass (j := 16) (by decide) rfl
  have h := (h.pass (j := 8) (by decide) rfl).pass (j := 4) (by decide) rfl
  exact (h.pass (j := 2) (by decide) rfl).pass (by decide) rfl

theorem toBitVec_crc32Byte (crc : UInt32) (ch : UInt8) :
    (Zmodem.crc32Byte Zmodem.makecrc crc ch).toBitVec = Hydra.updcrc Hydra.crc32poly crc.toBitVec ch := by
  have hindex : ((crc ^^^ ch.toUInt32) % 256).toNat = (crc.toBitVec.setWidth 8 ^^^ ch.toBitVec).toNat := by
    rw [← setWidth_setWidth_byte ch, ← BitVec.setWidth_xor, BitVec.toNat_setWidth]
    rfl
  have hentry := filled_makecrc.2 (crc.toBitVec.setWidth 8 ^^^ ch.toBitVec).toNat (by omega)
  rw [Nat.one_mul, entry, ofNat_toNat_byte] at hentry
  rw [Zmodem.crc32Byte, UInt32.toBitVec_xor, hindex, hentry, updcrc_eq, BitVec.xor_comm]
  rfl

theorem toBitVec_foldl (data : List UInt8) (crc : UInt32) :
    (data.foldl (Zmodem.crc32Byte Zmodem.makecrc) crc).toBitVec =
      data.foldl (Hydra.updcrc Hydra.crc32poly) crc.toBitVec := by
  induction data generalizing crc with
  | nil => rfl
  | cons ch data ih => rw [List.foldl_cons, ih, toBitVec_crc32Byte, List.foldl_cons]

theorem computeCrc32_eq (data : List UInt8) :
    (Zmodem.computeCrc32 Zmodem.makecrc Zmodem.crc32Preset data).toBitVec = ~~~(Hydra.crc32block data) := by
  rw [Zmodem.computeCrc32, Zmodem.xor_ones, UInt32.toBitVec_not, toBitVec_foldl]
  rfl

/-! ### The mirror of `CRC32.c` -/

/-- A byte read backwards. -/
def mirror (ch : UInt8) : UInt8 := ⟨ch.toBitVec.reverse⟩

theorem genCrcBit_eq (r : BitVec 32) : genCrcBit r = step polynomial r := by
  have htop : (0x80000000 : BitVec 32) = BitVec.twoPow 32 31 := by decide
  rw [genCrcBit, step, htop, BitVec.and_twoPow]
  have hmsb : r.msb = r.getLsbD 31 := BitVec.msb_eq_getLsbD_last r
  rw [hmsb]
  cases r.getLsbD 31 with
  | true => rfl
  | false => rfl

theorem reverse_byte (x : BitVec 8) : (x.setWidth 32 <<< 24).reverse = x.reverse.setWidth 32 := by
  refine BitVec.eq_of_getLsbD_eq fun i hi => ?_
  rw [BitVec.getLsbD_reverse, BitVec.getMsbD_eq_getLsbD, BitVec.getLsbD_shiftLeft, BitVec.getLsbD_setWidth,
    BitVec.getLsbD_setWidth, BitVec.getLsbD_reverse, BitVec.getMsbD_eq_getLsbD]
  by_cases hin : i < 8
  · simp [hi, hin, show 32 - 1 - i - 24 = 8 - 1 - i by omega, show 32 - 1 - i < 32 by omega,
      show ¬ 32 - 1 - i < 24 by omega, show 8 - 1 - i < 32 by omega]
  · simp [hin, show 32 - 1 - i < 24 by omega]

theorem reverse_first (r : BitVec 32) : ((r >>> 24).setWidth 8).reverse = r.reverse.setWidth 8 := by
  refine BitVec.eq_of_getLsbD_eq fun i hi => ?_
  rw [BitVec.getLsbD_reverse, BitVec.getMsbD_eq_getLsbD, BitVec.getLsbD_setWidth, BitVec.getLsbD_ushiftRight,
    BitVec.getLsbD_setWidth, BitVec.getLsbD_reverse, BitVec.getMsbD_eq_getLsbD]
  simp [hi, show i < 32 by omega, show 24 + (8 - 1 - i) = 32 - 1 - i by omega, show 8 - 1 - i < 8 by omega]

theorem reverse_constants : polynomial.reverse = Hydra.crc32poly ∧ (-1 : BitVec 32).reverse = 0xFFFFFFFF := by
  decide +kernel

theorem reverse_updateCrcByte (r : BitVec 32) (ch : UInt8) :
    (updateCrcByte genCrcTable r ch).reverse = crc32Byte r.reverse (mirror ch) := by
  have hindex : (((r >>> 24) ^^^ ch.toBitVec.setWidth 32).setWidth 8).reverse =
      r.reverse.setWidth 8 ^^^ (mirror ch).toBitVec := by
    rw [BitVec.setWidth_xor, setWidth_setWidth_byte, reverse_xor, reverse_first]
    rfl
  rw [updateCrcByte, reverse_xor, reverse_shiftLeft, and_byte, genCrcTable, getD_range _ _ (BitVec.isLt _),
    ofNat_toNat_byte, funext genCrcBit_eq, reverse_iterate, reverse_byte, hindex, reverse_constants.1, crc32Byte_eq,
    BitVec.xor_comm]

theorem reverse_foldl (data : List UInt8) (r : BitVec 32) :
    (data.foldl (updateCrcByte genCrcTable) r).reverse = (data.map mirror).foldl crc32Byte r.reverse := by
  induction data generalizing r with
  | nil => rfl
  | cons ch data ih => rw [List.foldl_cons, ih, reverse_updateCrcByte, List.map_cons, List.foldl_cons]

theorem updateCrc_eq (data : List UInt8) :
    updateCrc genCrcTable (-1) data = ~~~(crc32 (data.map mirror)).reverse := by
  rw [updateCrc, crc32, ← reverse_constants.2, ← reverse_foldl, BitVec.reverse_reverse_eq]

/-- PLINK and HYDRA compute the same number, ZMODEM its complement, and `CRC32.c` the complement of the mirrored number
of the mirrored bytes. -/
theorem crc32_agree (data : List UInt8) :
    crc32 data = Hydra.crc32block data ∧
    (Zmodem.computeCrc32 Zmodem.makecrc Zmodem.crc32Preset data).toBitVec = ~~~(crc32 data) ∧
    updateCrc genCrcTable (-1) data = ~~~(crc32 (data.map mirror)).reverse :=
  ⟨crc32_eq_crc32block data, crc32_eq_crc32block data ▸ computeCrc32_eq data, updateCrc_eq data⟩

end CProgram.Checks
