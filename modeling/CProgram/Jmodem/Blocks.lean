import CProgram.Lib.Bytes
import Mathlib.Data.List.TakeWhile

/-! JMODEM blocks: the run-length code of `encode` and `decode`, the CRC, and what the receiver makes of the
bytes of a block. -/
namespace CProgram.Jmodem
open Bytes

def blkSiz : ℕ := 0x200
def ovrhd : ℕ := 6
def datLen : ℕ := 0x2000 + 1024
def datMax : ℕ := 0x2000
def norm : UInt8 := 0x01
def comp : UInt8 := 0x02
def eof : UInt8 := 0x04
def ack : UInt8 := 0x06
def nak : UInt8 := 0x15
def can : UInt8 := 0x18
def sentinel : UInt8 := 0xBB

/-- The two bytes of an `unsigned short`. -/
def word (n : ℕ) : List UInt8 := [UInt8.ofNat n, UInt8.ofNat (n >>> 8)]

/-- The loop of `encode` over what is left of the input, which `beyond` stands behind; nothing when the
output has outgrown `DAT_MAX`. -/
def encodeLoop (beyond : UInt8) (out : List UInt8) : List UInt8 → Option (List UInt8)
  | [] => some out
  | ch :: rest =>
    if ch = sentinel ∨ ch = rest.headD beyond then
      let out := out ++ sentinel :: word ((rest.takeWhile (· = ch)).length + 1) ++ [ch]
      if datMax < out.length then none else encodeLoop beyond out (rest.dropWhile (· = ch))
    else
      let out := out ++ [ch]
      if datMax < out.length then none else encodeLoop beyond out rest
  termination_by input => input.length
  decreasing_by
    · have hle := (List.dropWhile_sublist (p := (· = ch)) (l := rest)).length_le
      simp only [List.length_cons]
      omega
    · simp

def encode (beyond : UInt8) (input : List UInt8) : Option (List UInt8) := encodeLoop beyond [] input

/-- `decode` of `len` bytes; a count that is cut off is read from what stands behind them. -/
def decode (len : ℕ) (buffer : List UInt8) : List UInt8 :=
  match len, buffer with
  | 0, _ => []
  | _, [] => []
  | n + 1, ch :: rest =>
    if ch = sentinel then
      List.replicate ((rest.getD 0 0).toNat + 256 * (rest.getD 1 0).toNat) (rest.getD 2 0) ++
        decode (n - 3) (rest.drop 3)
    else ch :: decode n rest
  termination_by len

/-- The loop of `calc_crc` over the bytes in front of the CRC. -/
def crcLoop : BitVec 16 → List UInt8 → BitVec 16
  | crc, [] => crc
  | crc, ch :: rest => crcLoop ((crc + BitVec.ofNat 16 ch.toNat).rotateLeft ((rest.length + 1) % 8)) rest

def calcCrc (front : List UInt8) : ℕ := (crcLoop 0 front).toNat

/-- A block as it is written to the line. -/
def block (num : ℕ) (typ : UInt8) (payload : List UInt8) : List UInt8 :=
  let front := word (payload.length + ovrhd) ++ [typ, UInt8.ofNat num] ++ payload
  front ++ word (calcCrc front)

/-- What the sender makes of a record: compressed where that is shorter. -/
def record (beyond : UInt8) (num : ℕ) (last : Bool) (data : List UInt8) : List UInt8 :=
  let typ := if last then eof else norm
  match encode beyond data with
  | some packed => if packed.length < data.length then block num (typ ||| comp) packed else block num typ data
  | none => block num typ data

/-- `recv_blk` on what comes in: a block and what is left behind it, nothing while it is not all there. -/
def recvBlk (line : List UInt8) : Option (List UInt8 × List UInt8) :=
  let len := (line.getD 0 0).toNat + 256 * (line.getD 1 0).toNat
  if 2 ≤ line.length ∧ len ≤ datLen ∧ len ≤ line.length then some (line.take len, line.drop len) else none

/-- The receiver's test of a block, and the data in it with the flag of the last one. -/
def check (sBlk : ℕ) (buffer : List UInt8) : Option (List UInt8 × Bool) :=
  let front := buffer.take (buffer.length - 2)
  if buffer.drop (buffer.length - 2) = word (calcCrc front) ∧ buffer.getD 3 0 = UInt8.ofNat (sBlk + 1) then
    let typ := buffer.getD 2 0
    let payload := front.drop 4
    some (if typ &&& comp = comp then decode payload.length payload else payload, decide (typ &&& eof = eof))
  else none

variable {beyond : UInt8} {data : List UInt8}

theorem toNat_word {n : ℕ} (h : n < 65536) :
    (UInt8.ofNat n).toNat + 256 * (UInt8.ofNat (n >>> 8)).toNat = n := by
  rw [UInt8.toNat_ofNat', UInt8.toNat_ofNat', Nat.shiftRight_eq_div_pow]
  omega

/-- A run at the front is read back. -/
theorem decode_run {n : ℕ} (h : n < 65536) (ch : UInt8) (rest : List UInt8) :
    decode (sentinel :: word n ++ ch :: rest).length (sentinel :: word n ++ ch :: rest) =
      List.replicate n ch ++ decode rest.length rest := by
  have hlength : (sentinel :: word n ++ ch :: rest).length = (rest.length + 3) + 1 := rfl
  have hlist : sentinel :: word n ++ ch :: rest = sentinel :: (UInt8.ofNat n :: UInt8.ofNat (n >>> 8) :: ch :: rest) :=
    rfl
  rw [hlength, hlist, decode, if_pos rfl]
  have hcount := toNat_word h
  simp only [List.getD_cons_zero, List.getD_cons_succ, List.drop_succ_cons, List.drop_zero, hcount]
  rfl

theorem decode_plain {ch : UInt8} (h : ch ≠ sentinel) (rest : List UInt8) :
    decode (ch :: rest).length (ch :: rest) = ch :: decode rest.length rest := by
  rw [List.length_cons, decode, if_neg h]

/-- What `encode` adds for the rest of the input decodes to it. -/
theorem encodeLoop_decodes (input : List UInt8) (hshort : input.length < 65536) (out : List UInt8) :
    ∀ packed, encodeLoop beyond out input = some packed →
      ∃ added, packed = out ++ added ∧ decode added.length added = input := by
  induction hn : input.length using Nat.strong_induction_on generalizing input out with
  | _ n ih =>
    intro packed hpacked
    cases input with
    | nil =>
      rw [encodeLoop] at hpacked
      obtain rfl := Option.some.inj hpacked
      exact ⟨[], by simp, by simp [decode]⟩
    | cons ch rest =>
      have hsplit : rest.takeWhile (· = ch) ++ rest.dropWhile (· = ch) = rest := List.takeWhile_append_dropWhile
      have hlengths := congrArg List.length hsplit
      rw [List.length_append] at hlengths
      rw [List.length_cons] at hn hshort
      rw [encodeLoop] at hpacked
      split at hpacked
      · dsimp only at hpacked
        split at hpacked
        · cases hpacked
        obtain ⟨added, hadded, hdecode⟩ := ih (rest.dropWhile (· = ch)).length (by omega) (rest.dropWhile (· = ch))
          (by omega) _ rfl packed hpacked
        have hrun : rest.takeWhile (· = ch) = List.replicate (rest.takeWhile (· = ch)).length ch := by
          apply List.eq_replicate_of_mem
          intro b hb
          simpa using List.mem_takeWhile_imp hb
        apply Exists.intro (sentinel :: word ((rest.takeWhile (· = ch)).length + 1) ++ ch :: added)
        constructor
        · rw [hadded]
          simp
        · rw [decode_run (by omega), hdecode, List.replicate_succ, List.cons_append, ← hrun, hsplit]
      · next hplain =>
        dsimp only at hpacked
        split at hpacked
        · cases hpacked
        obtain ⟨added, hadded, hdecode⟩ := ih rest.length (by omega) rest (by omega) _ rfl packed hpacked
        have hch : ch ≠ sentinel := fun h => hplain (Or.inl h)
        apply Exists.intro (ch :: added)
        constructor
        · rw [hadded]
          simp
        · rw [decode_plain hch, hdecode]

/-- `decode` undoes `encode`. -/
theorem decode_encode (hshort : data.length < 65536) {packed : List UInt8} (h : encode beyond data = some packed) :
    decode packed.length packed = data := by
  obtain ⟨added, hadded, hdecode⟩ := encodeLoop_decodes data hshort [] packed h
  rw [List.nil_append] at hadded
  rw [hadded]
  exact hdecode

theorem length_block (num : ℕ) (typ : UInt8) (payload : List UInt8) :
    (block num typ payload).length = payload.length + ovrhd := by
  simp [block, word, ovrhd]

/-- A block is taken off the line as it was put there. -/
theorem recvBlk_block (num : ℕ) (typ : UInt8) {payload : List UInt8} (hshort : payload.length ≤ datMax)
    (later : List UInt8) : recvBlk (block num typ payload ++ later) = some (block num typ payload, later) := by
  have hlength := length_block num typ payload
  have hlen : ((block num typ payload ++ later).getD 0 0).toNat +
      256 * ((block num typ payload ++ later).getD 1 0).toNat = (block num typ payload).length := by
    rw [hlength]
    exact toNat_word (by simp only [datMax] at hshort; simp only [ovrhd]; omega)
  have hfits : 2 ≤ (block num typ payload ++ later).length ∧ (block num typ payload).length ≤ datLen ∧
      (block num typ payload).length ≤ (block num typ payload ++ later).length := by
    rw [List.length_append, hlength]
    simp only [datMax, datLen, ovrhd] at hshort ⊢
    omega
  rw [recvBlk]
  simp only [hlen]
  rw [if_pos hfits, List.take_left, List.drop_left]

theorem check_block (sBlk num : ℕ) (typ : UInt8) (payload : List UInt8) :
    check sBlk (block num typ payload) = if UInt8.ofNat num = UInt8.ofNat (sBlk + 1) then
      some (if typ &&& comp = comp then decode payload.length payload else payload, decide (typ &&& eof = eof))
    else none := by
  have hcut : (block num typ payload).length - 2 =
      (word (payload.length + ovrhd) ++ [typ, UInt8.ofNat num] ++ payload).length := by
    rw [length_block]
    simp [word, ovrhd]
  have hfront : (block num typ payload).take ((block num typ payload).length - 2) =
      word (payload.length + ovrhd) ++ [typ, UInt8.ofNat num] ++ payload := by
    rw [hcut, block]
    exact List.take_left
  have hback : (block num typ payload).drop ((block num typ payload).length - 2) =
      word (calcCrc (word (payload.length + ovrhd) ++ [typ, UInt8.ofNat num] ++ payload)) := by
    rw [hcut, block]
    exact List.drop_left
  rw [check, hfront, hback]
  have hnum : (block num typ payload).getD 3 0 = UInt8.ofNat num := rfl
  have htyp : (block num typ payload).getD 2 0 = typ := rfl
  have hpayload : (word (payload.length + ovrhd) ++ [typ, UInt8.ofNat num] ++ payload).drop 4 = payload := rfl
  simp only [hnum, htyp, hpayload, true_and]

/-- The receiver gets out of a record what the sender has put into it. -/
theorem check_record (hshort : data.length < 65536) (sBlk num : ℕ) (last : Bool) :
    check sBlk (record beyond num last data) =
      if UInt8.ofNat num = UInt8.ofNat (sBlk + 1) then some (data, last) else none := by
  have htyp : (if last then eof else norm) &&& comp ≠ comp ∧
      decide ((if last then eof else norm) &&& eof = eof) = last ∧
      ((if last then eof else norm) ||| comp) &&& comp = comp ∧
      decide (((if last then eof else norm) ||| comp) &&& eof = eof) = last := by
    cases last
    · decide
    · decide
  obtain ⟨hplain, hlast, hpacked, hlast'⟩ := htyp
  rw [record]
  split
  · next packed hencode =>
    split
    · rw [check_block, if_pos hpacked, hlast', decode_encode hshort hencode]
    · rw [check_block, if_neg hplain, hlast]
  · rw [check_block, if_neg hplain, hlast]

end CProgram.Jmodem
