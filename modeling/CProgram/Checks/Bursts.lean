import CProgram.Checks.Tables
import CProgram.Kermit.Check
import CProgram.Zmodem.Overrun

/-! What the checks tell: damage that stays within as many bits as the register has, wherever it is, changes the number
that the receiver compares. -/
namespace CProgram.Checks
open Crc

/-- The bits of a message as they stand on a serial line. -/
def lineBits (data : List UInt8) : List Bool := data.flatMap fun ch => lowFirst ch.toBitVec

theorem length_lineBits (data : List UInt8) : (lineBits data).length = 8 * data.length := by
  induction data with
  | nil => rfl
  | cons ch data ih =>
    rw [lineBits, List.flatMap_cons, List.length_append, ← lineBits, ih, List.length_cons]
    simp [lowFirst]
    omega

/-! ### The 16-bit check of Kermit -/

theorem toBitVec_crcBit (crc : UInt16) : (Kermit.crcBit crc).toBitVec = shift Hydra.crc16poly crc.toBitVec := by
  have hbit : crc &&& 1 ≠ 0 ↔ crc.toBitVec.getLsbD 0 = true := by
    rw [Ne, ← UInt16.toBitVec_inj, UInt16.toBitVec_and]
    have hone : (1 : UInt16).toBitVec = BitVec.twoPow 16 0 := by decide
    rw [hone, BitVec.and_twoPow]
    cases crc.toBitVec.getLsbD 0 with
    | true => exact ⟨fun _ => rfl, fun _ => by decide⟩
    | false => exact ⟨fun h => absurd rfl h, fun h => by cases h⟩
  rw [Kermit.crcBit, shift]
  by_cases hodd : crc &&& 1 ≠ 0
  · rw [if_pos hodd, if_pos (hbit.1 hodd)]
    rfl
  · rw [if_neg hodd, if_neg fun h => hodd (hbit.2 h)]
    exact BitVec.xor_zero

theorem toBitVec_crc16Tab (i : UInt16) : (Kermit.crc16Tab i).toBitVec = (shift Hydra.crc16poly)^[8] i.toBitVec := by
  simp only [Kermit.crc16Tab, toBitVec_crcBit]
  rfl

theorem toBitVec_computeCrc16 (sevenBit : Bool) (l : List UInt8) :
    (Kermit.computeCrc16 sevenBit l).toBitVec =
      (l.map (Kermit.checked sevenBit)).foldl (Hydra.updcrc Hydra.crc16poly) 0 := by
  have hbyte : ∀ (crc : UInt16) (ch : UInt8),
      (Kermit.crc16Tab ((crc ^^^ ch.toUInt16) &&& 0xFF) ^^^ (crc >>> 8)).toBitVec =
        Hydra.updcrc Hydra.crc16poly crc.toBitVec ch := by
    intro crc ch
    have hindex :
        ((crc ^^^ ch.toUInt16) &&& 0xFF).toBitVec = (crc.toBitVec.setWidth 8 ^^^ ch.toBitVec).setWidth 16 := by
      refine BitVec.eq_of_toNat_eq ?_
      have hlow : (crc.toBitVec ^^^ ch.toBitVec.setWidth 16).setWidth 8 = crc.toBitVec.setWidth 8 ^^^ ch.toBitVec := by
        rw [BitVec.setWidth_xor, BitVec.setWidth_setWidth_of_le _ (by decide), BitVec.setWidth_eq]
      rw [← hlow, BitVec.toNat_setWidth, BitVec.toNat_setWidth, UInt16.toBitVec_and, BitVec.toNat_and]
      exact (Nat.and_two_pow_sub_one_eq_mod _ 8).trans (Nat.mod_eq_of_lt (by omega)).symm
    rw [UInt16.toBitVec_xor, toBitVec_crc16Tab, hindex, updcrc_eq]
    rfl
  have hloop : ∀ crc : UInt16, (l.foldl (fun crc ch =>
      Kermit.crc16Tab ((crc ^^^ (Kermit.checked sevenBit ch).toUInt16) &&& 0xFF) ^^^ (crc >>> 8)) crc).toBitVec =
      (l.map (Kermit.checked sevenBit)).foldl (Hydra.updcrc Hydra.crc16poly) crc.toBitVec := by
    induction l with
    | nil => exact fun crc => rfl
    | cons ch l ih =>
      intro crc
      rw [List.foldl_cons, ih, hbyte, List.map_cons, List.foldl_cons]
  exact hloop 0

/-! ### Damaged packets -/

section
variable {sent got : List UInt8} {front back x y : List Bool}

/-- A register over bytes of the line tells a burst that is no longer than itself. -/
theorem foldl_updcrc_ne {w : ℕ} (poly : BitVec w) (hw : 8 ≤ w) (hpoly : poly.msb = true)
    (hsent : lineBits sent = front ++ x ++ back) (hgot : lineBits got = front ++ y ++ back)
    (hxy : x.length = y.length) (hlength : x.length ≤ w) (hne : x ≠ y) (r : BitVec w) :
    sent.foldl (Hydra.updcrc poly) r ≠ got.foldl (Hydra.updcrc poly) r := by
  have hfeed : ∀ data : List UInt8, data.foldl (Hydra.updcrc poly) r = feedBack poly r (lineBits data) :=
    fun data =>
    foldl_eq_feedBack hw (updcrc_eq poly) data
  rw [hfeed, hfeed, hsent, hgot]
  exact feedBack_ne_of_burst hpoly hxy hlength hne r

/-- What 32-bit and 16-bit packets are accepted by tells such bursts in what was decoded. -/
theorem pktEnd_burst (sent got : List UInt8) (front back x y : List Bool) {base : ℕ} {opts : Hydra.Dword}
    {r r' : Hydra.Rx} {p q : Option ℕ} (hformat : r'.rxpktformat = r.rxpktformat)
    (hdecode : Hydra.decode base r = (some sent, p)) (hdecode' : Hydra.decode base r' = (some got, q))
    (hsent : lineBits sent = front ++ x ++ back) (hgot : lineBits got = front ++ y ++ back)
    (hxy : x.length = y.length) (hne : x ≠ y)
    (hlength : x.length ≤ if Hydra.wide opts r.rxpktformat then 32 else 16)
    (haccept : (Hydra.pktEnd base opts r).2.isSome) : (Hydra.pktEnd base opts r').2 = none := by
  have htwin : sent.length = got.length := by
    have hbits : (lineBits sent).length = (lineBits got).length := by
      rw [hsent, hgot]
      simp [hxy]
    rw [length_lineBits, length_lineBits] at hbits
    omega
  rw [Hydra.pktEnd, hdecode] at haccept
  rw [Hydra.pktEnd, hdecode']
  simp only [hformat, ← htwin] at haccept hlength ⊢
  split_ifs at haccept hlength ⊢ with hwide hlen hpass' hpass hfail hlen hpass' hpass hfail
  any_goals rfl
  · exact absurd ((of_decide_eq_true hpass).trans (of_decide_eq_true hpass').symm)
      (foldl_updcrc_ne _ (by decide) (by decide) hsent hgot hxy hlength hne _)
  · cases haccept
  · exact absurd ((of_decide_eq_true hpass).trans (of_decide_eq_true hpass').symm)
      (foldl_updcrc_ne _ (by decide) (by decide) hsent hgot hxy hlength hne _)
  · cases haccept

/-- Check type 3 of Kermit tells bursts of 16 bits, counted on the bits that it covers. -/
theorem checkOk_burst (sent got : List UInt8) (front back x y : List Bool) {sevenBit : Bool} {given : ℕ → UInt8}
    (hsent : lineBits (sent.map (Kermit.checked sevenBit)) = front ++ x ++ back)
    (hgot : lineBits (got.map (Kermit.checked sevenBit)) = front ++ y ++ back)
    (hxy : x.length = y.length) (hlength : x.length ≤ 16) (hne : x ≠ y)
    (haccept : Kermit.checkOk sevenBit 3 sent given = true) : Kermit.checkOk sevenBit 3 got given = false := by
  by_contra hpass
  have hsame := (of_decide_eq_true haccept).trans (of_decide_eq_true (Bool.eq_true_of_not_eq_false hpass)).symm
  refine foldl_updcrc_ne Hydra.crc16poly (by decide) (by decide) hsent hgot hxy hlength hne 0 ?_
  rw [← toBitVec_computeCrc16, ← toBitVec_computeCrc16, UInt16.toNat_inj.1 hsame]

end

/-- A binary packet of four bytes. -/
def binpkt (bytes : List UInt8) : Hydra.Rx := ⟨fun i => bytes.getD i 0, some 4, 0, Hydra.hchrBinpkt, 0⟩

theorem pktEnd_burst_binpkt : (Hydra.pktEnd 0 0 (binpkt [0, 66, 137, 119])).2 = none :=
  pktEnd_burst [1, 66, 137, 119] [0, 66, 137, 119] [] (lineBits [1, 66, 137, 119]).tail [true] [false]
    (r := binpkt [1, 66, 137, 119]) (p := some 4) (q := some 4) rfl (by decide +kernel) (by decide +kernel)
    (by decide +kernel) (by decide +kernel) rfl (by decide) (by decide +kernel) (by decide +kernel)

theorem checkOk_burst_byte :
    Kermit.checkOk false 3 [64] (fun i => (Kermit.checkBytes false 3 [65]).getD i 0) = false :=
  checkOk_burst [65] [64] [] (lineBits [65]).tail [true] [false] (by decide) (by decide) rfl (by decide) (by decide)
    (by decide +kernel)

/-! ### Subpackets of ZMODEM -/

/-- A receiver with this data and a 32-bit check. -/
def subpacket (data : List UInt8) : Zmodem.Receiver :=
  { Zmodem.Receiver.exampleReceiver with
    packet := { Zmodem.Receiver.exampleReceiver.packet with data := data, dataN := data.length, useCrc32 := true }
    crcTabMade := true }

end CProgram.Checks
