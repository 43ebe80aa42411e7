import CProgram.Jmodem.Blocks

/-! The receiver's buffers: `recv_blk`, `calc_crc`, `decode` and the plain copy with the bounds of `in_buffer` and
`file_buffer`, which are `DAT_LEN` bytes each. -/
namespace CProgram.Jmodem

/-- What arrives for one attempt of `recv_blk`: while it waits for the length, and while it waits for the rest. -/
structure Attempt where
  header : List UInt8
  body : List UInt8

/-- An `unsigned short` that may have wrapped around. -/
def short (n : ℕ) : ℕ := n % 65536

/-- Bytes in a row, from an index on. -/
def store (start : ℕ) (data : List UInt8) (buffer : ℕ → UInt8) : ℕ → UInt8 := fun i =>
  if start ≤ i ∧ i < start + data.length then data.getD (i - start) 0 else buffer i

/-- A byte of a buffer that ends before `size`. -/
def inside (size : ℕ) (buffer : ℕ → UInt8) (i : ℕ) : Option UInt8 := if i < size then some (buffer i) else none

/-- `read_chan` into `in_buffer`: as much as was asked for and has arrived. -/
def readChan (bytes : ℕ) (arriving : List UInt8) (start : ℕ) (buffer : ℕ → UInt8) : Option (ℕ × (ℕ → UInt8)) :=
  if start + (arriving.take bytes).length ≤ datLen then
    some ((arriving.take bytes).length, store start (arriving.take bytes) buffer)
  else none

/-- `buff->len`. -/
def lenOf (buffer : ℕ → UInt8) : ℕ := (buffer 0).toNat + 256 * (buffer 1).toNat

/-- The attempts of `recv_blk`, which end before the last one when the user breaks off; what comes back is the length of
a block, or nothing when it gives up. -/
def recvBlkInto : ℕ → List Attempt → (ℕ → UInt8) → Option (Option ℕ × (ℕ → UInt8))
  | 0, _, buffer => some (none, buffer)
  | _ + 1, [], buffer => some (none, buffer)
  | tries + 1, attempt :: attempts, buffer => do
    let (retVal, buffer) ← readChan 2 attempt.header 0 buffer
    if retVal = 2 then
      let blkLen := lenOf buffer
      if datLen < blkLen then some (none, buffer)
      else
        let (retVal, buffer) ← readChan (short (blkLen + 65536 - 2)) attempt.body 2 buffer
        -- the comparison is one of `int`
        if retVal + 2 = blkLen then some (some blkLen, buffer)
        else recvBlkInto tries attempts buffer
    else recvBlkInto tries attempts buffer

/-- So many rounds of `calc_crc`, of which the last ones are rotated by what is left; a length of 0 takes 65536. -/
def crcRounds (read : ℕ → Option UInt8) : ℕ → ℕ → BitVec 16 → Option (BitVec 16)
  | 0, _, crc => some crc
  | rounds + 1, i, crc => do
    let ch ← read i
    crcRounds read rounds (i + 1) ((crc + BitVec.ofNat 16 ch.toNat).rotateLeft ((rounds + 1) % 8))

/-- `calc_crc` with `GET_CRC`. -/
def getCrc (read : ℕ → Option UInt8) (len : ℕ) : Option (BitVec 16) := do
  let length := short (len + 65536 - 2)
  let rounds := if length = 0 then 65536 else length
  let crc ← crcRounds read rounds 0 0
  let low ← read rounds
  let high ← read (rounds + 1)
  some (crc - BitVec.ofNat 16 (low.toNat + 256 * high.toNat))

/-- One more byte in `file_buffer`. -/
def push (out : List UInt8) (ch : UInt8) : Option (List UInt8) := if out.length < datLen then some (out ++ [ch]) else none

def expand (ch : UInt8) : ℕ → List UInt8 → Option (List UInt8)
  | 0, out => some out
  | n + 1, out => (push out ch).bind (expand ch n)

/-- The loop of `decode`. -/
def decodeInto (read : ℕ → Option UInt8) (limit i : ℕ) (out : List UInt8) : Option (List UInt8) :=
  if i < limit then do
    let ch ← read i
    if ch = sentinel then
      let low ← read (i + 1)
      let high ← read (i + 2)
      let c ← read (i + 3)
      let out ← expand c (low.toNat + 256 * high.toNat) out
      decodeInto read limit (i + 4) out
    else
      let out ← push out ch
      decodeInto read limit (i + 1) out
  else some out
  termination_by limit - i

/-- `memcpy` into `file_buffer`. -/
def copyInto (read : ℕ → Option UInt8) : ℕ → ℕ → List UInt8 → Option (List UInt8)
  | 0, _, out => some out
  | n + 1, i, out => do
    let ch ← read i
    let out ← push out ch
    copyInto read n (i + 1) out

/-- What the receiver makes of the block in `in_buffer`: the data in `file_buffer` if it takes it. -/
def takeBlock (sBlk len : ℕ) (buffer : ℕ → UInt8) : Option (Option (List UInt8)) := do
  let crc ← getCrc (inside datLen buffer) len
  let num ← inside datLen buffer 3
  if crc = 0 ∧ num = UInt8.ofNat (sBlk + 1) then
    let len := short (len + 65536 - ovrhd)
    let typ ← inside datLen buffer 2
    let out ← if typ &&& comp = comp then decodeInto (inside datLen buffer) (4 + len) 4 []
      else copyInto (inside datLen buffer) len 4 []
    some (some out)
  else some none

/-- A round of the receiver. -/
def receiveInto (sBlk : ℕ) (attempts : List Attempt) (buffer : ℕ → UInt8) : Option (Option (List UInt8)) := do
  match ← recvBlkInto 10 attempts buffer with
  | (none, _) => some none
  | (some len, buffer) => takeBlock sBlk len buffer

/-- Nothing outside the buffers is touched, and `calc_crc` looks at the block alone. -/
def StaysInside (sBlk : ℕ) (attempts : List Attempt) (buffer : ℕ → UInt8) : Prop :=
  (receiveInto sBlk attempts buffer).isSome ∧ ∀ len buffer', recvBlkInto 10 attempts buffer = some (some len, buffer') →
    (getCrc (inside len buffer') len).isSome

/-! ### When all is well -/

/-- How long the data become, from `i` to before `limit`. -/
def expansion (buffer : ℕ → UInt8) (limit i : ℕ) : ℕ :=
  if i < limit then
    if buffer i = sentinel then
      (buffer (i + 1)).toNat + 256 * (buffer (i + 2)).toNat + expansion buffer limit (i + 4)
    else 1 + expansion buffer limit (i + 1)
  else 0
  termination_by limit - i

/-- A run begins with the last byte of the data. -/
def CutOff (buffer : ℕ → UInt8) (limit i : ℕ) : Prop :=
  if i < limit then
    if buffer i = sentinel then i + 1 = limit ∨ CutOff buffer limit (i + 4) else CutOff buffer limit (i + 1)
  else False
  termination_by limit - i

/-- The receiver takes the block. -/
def Takes (sBlk : ℕ) (buffer : ℕ → UInt8) (len : ℕ) : Prop :=
  (buffer (len - 2)).toNat + 256 * (buffer (len - 1)).toNat = calcCrc ((List.range (len - 2)).map buffer) ∧
    buffer 3 = UInt8.ofNat (sBlk + 1)

/-- A block that is long enough for its CRC, and if it is taken for its header, and fits when it is decoded. -/
def BlockFits (sBlk : ℕ) (buffer : ℕ → UInt8) (len : ℕ) : Prop :=
  3 ≤ len ∧ (Takes sBlk buffer len → ovrhd ≤ len ∧ (buffer 2 &&& comp = comp →
    expansion buffer (len - 2) 4 ≤ datLen ∧ (len = datLen → ¬ CutOff buffer (len - 2) 4)))

/-- Of the attempts, one with a length below 2 brings no more than the buffer holds, and the block that comes fits. -/
def LineFits (sBlk : ℕ) : ℕ → List Attempt → (ℕ → UInt8) → Prop
  | 0, _, _ => True
  | _ + 1, [], _ => True
  | tries + 1, attempt :: attempts, buffer =>
    let buffer := store 0 (attempt.header.take 2) buffer
    let len := lenOf buffer
    if attempt.header.length < 2 then LineFits sBlk tries attempts buffer
    else if datLen < len then True
    else if len < 2 then attempt.body.length + 2 ≤ datLen ∧ LineFits sBlk tries attempts (store 2 attempt.body buffer)
    else
      let buffer := store 2 (attempt.body.take (len - 2)) buffer
      if attempt.body.length < len - 2 then LineFits sBlk tries attempts buffer else BlockFits sBlk buffer len

variable {buffer : ℕ → UInt8} {read : ℕ → Option UInt8} {i n len limit sBlk : ℕ} {out : List UInt8} {ch : UInt8}

/-! ### The loops -/

theorem inside_of_lt {size : ℕ} (h : i < size) : inside size buffer i = some (buffer i) := if_pos h

theorem inside_of_le {size : ℕ} (h : size ≤ i) : inside size buffer i = none := if_neg (by omega)

theorem crcRounds_eq {crc : BitVec 16} (hread : ∀ j, i ≤ j → j < i + n → read j = some (buffer j)) :
    crcRounds read n i crc = some (crcLoop crc ((List.range' i n).map buffer)) := by
  induction n generalizing i crc with
  | zero => rfl
  | succ n ih =>
    have hrest : crcRounds read n (i + 1) ((crc + BitVec.ofNat 16 (buffer i).toNat).rotateLeft ((n + 1) % 8)) = _ :=
      ih fun j hlo hhi => hread j (by omega) (by omega)
    rw [crcRounds, hread i le_rfl (by omega), List.range'_succ, List.map_cons, crcLoop]
    simpa using hrest

theorem crcRounds_none {crc : BitVec 16} (hlo : i ≤ limit) (hhi : limit < i + n) (hread : read limit = none) :
    crcRounds read n i crc = none := by
  induction n generalizing i crc with
  | zero => omega
  | succ n ih =>
    rw [crcRounds]
    by_cases hi : i = limit
    · rw [hi, hread]
      rfl
    · cases read i with
      | none => rfl
      | some ch => exact ih (by omega) (by omega)

/-- A block that is longer than its CRC is all that `calc_crc` looks at. -/
theorem getCrc_eq (hlow : 3 ≤ len) (hhigh : len ≤ datLen) (hread : ∀ j < len, read j = some (buffer j)) :
    getCrc read len = some (crcLoop 0 ((List.range (len - 2)).map buffer) -
      BitVec.ofNat 16 ((buffer (len - 2)).toNat + 256 * (buffer (len - 1)).toNat)) := by
  have hlength : short (len + 65536 - 2) = len - 2 := by
    simp only [short, datLen] at *
    omega
  have hcrc : crcRounds read (len - 2) 0 0 = some (crcLoop 0 ((List.range' 0 (len - 2)).map buffer)) :=
    crcRounds_eq fun j _ hj => hread j (by omega)
  have hplace : len - 2 + 1 = len - 1 := by omega
  rw [getCrc]
  simp only [hlength, if_neg (show ¬ len - 2 = 0 by omega), hcrc, hread (len - 2) (by omega), hplace,
    hread (len - 1) (by omega), Option.bind_eq_bind, Option.bind_some, List.range_eq_range']

/-- With nothing in front of the CRC, `calc_crc` runs out of the buffer. -/
theorem getCrc_none {size : ℕ} (hlen : len = 2) (hsize : size < 65536) : getCrc (inside size buffer) len = none := by
  have hcrc : crcRounds (inside size buffer) 65536 0 0 = none :=
    crcRounds_none (Nat.zero_le size) (by omega) (inside_of_le le_rfl)
  rw [getCrc, hlen]
  simp only [short, if_true, hcrc, Option.bind_eq_bind, Option.bind_none]

theorem push_eq (h : out.length < datLen) : push out ch = some (out ++ [ch]) := if_pos h

theorem expand_eq (h : out.length + n ≤ datLen) : expand ch n out = some (out ++ List.replicate n ch) := by
  induction n generalizing out with
  | zero => simp [expand]
  | succ n ih =>
    rw [expand, push_eq (by omega)]
    show expand ch n (out ++ [ch]) = _
    rw [ih (by simp; omega), List.replicate_succ, List.append_assoc, List.singleton_append]

theorem expand_none (hout : out.length ≤ datLen) (h : datLen < out.length + n) : expand ch n out = none := by
  induction n generalizing out with
  | zero => omega
  | succ n ih =>
    rw [expand]
    by_cases hfull : out.length < datLen
    · rw [push_eq hfull]
      exact ih (by simp; omega) (by simp; omega)
    · rw [push, if_neg hfull]
      rfl

/-- `decode` stays inside the buffers when the data fit, and do not end within a run at the very end. -/
theorem decodeInto_isSome (hlimit : limit + 2 ≤ datLen) (hout : out.length ≤ datLen) :
    (decodeInto (inside datLen buffer) limit i out).isSome ↔
      out.length + expansion buffer limit i ≤ datLen ∧ (limit + 2 = datLen → ¬ CutOff buffer limit i) := by
  induction hn : limit - i using Nat.strong_induction_on generalizing i out with
  | _ n ih =>
    rw [decodeInto, expansion, CutOff]
    by_cases hi : i < limit
    · rw [if_pos hi, if_pos hi, if_pos hi, inside_of_lt (by omega)]
      show (if buffer i = sentinel then _ else _ : Option (List UInt8)).isSome ↔ _
      by_cases hrun : buffer i = sentinel
      · rw [if_pos hrun, if_pos hrun, if_pos hrun, inside_of_lt (by omega), inside_of_lt (by omega)]
        by_cases hend : limit + 2 = datLen ∧ i + 1 = limit
        · rw [inside_of_le (by omega)]
          simp [hend.1, hend.2]
        · rw [inside_of_lt (by omega)]
          show ((expand (buffer (i + 3)) ((buffer (i + 1)).toNat + 256 * (buffer (i + 2)).toNat) out).bind
            (decodeInto (inside datLen buffer) limit (i + 4))).isSome ↔ _
          generalize (buffer (i + 1)).toNat + 256 * (buffer (i + 2)).toNat = count
          by_cases hfits : out.length + count ≤ datLen
          · rw [expand_eq hfits]
            show (decodeInto (inside datLen buffer) limit (i + 4) (out ++ List.replicate count (buffer (i + 3)))).isSome ↔ _
            rw [ih _ (by omega) (by simp; omega) rfl, List.length_append, List.length_replicate, not_or, Nat.add_assoc]
            refine and_congr_right fun _ => forall_congr' fun hsize => ?_
            exact (and_iff_right fun h => hend ⟨hsize, h⟩).symm
          · rw [expand_none hout (by omega)]
            simp only [Option.bind_none, Option.isSome_none, Bool.false_eq_true, false_iff]
            omega
      · rw [if_neg hrun, if_neg hrun, if_neg hrun]
        show ((push out (buffer i)).bind (decodeInto (inside datLen buffer) limit (i + 1))).isSome ↔ _
        by_cases hfull : out.length < datLen
        · rw [push_eq hfull]
          show (decodeInto (inside datLen buffer) limit (i + 1) (out ++ [buffer i])).isSome ↔ _
          rw [ih _ (by omega) (by simp; omega) rfl, List.length_append, List.length_singleton, Nat.add_assoc]
        · rw [push, if_neg hfull]
          simp only [Option.bind_none, Option.isSome_none, Bool.false_eq_true, false_iff]
          omega
    · rw [if_neg hi, if_neg hi, if_neg hi]
      simpa using hout

theorem copyInto_eq (hin : i + n ≤ datLen) (hout : out.length + n ≤ datLen) :
    (copyInto (inside datLen buffer) n i out).isSome := by
  induction n generalizing i out with
  | zero => rfl
  | succ n ih =>
    rw [copyInto, inside_of_lt (by omega)]
    show ((push out (buffer i)).bind (copyInto (inside datLen buffer) n (i + 1))).isSome
    rw [push_eq (by omega)]
    exact ih (by omega) (by simp; omega)

theorem copyInto_none (hlo : i ≤ datLen) (hhi : datLen < i + n) : copyInto (inside datLen buffer) n i out = none := by
  induction n generalizing i out with
  | zero => omega
  | succ n ih =>
    rw [copyInto]
    by_cases hi : i < datLen
    · rw [inside_of_lt hi]
      show (push out (buffer i)).bind (copyInto (inside datLen buffer) n (i + 1)) = none
      cases push out (buffer i) with
      | none => rfl
      | some out => exact ih (by omega) (by omega)
    · rw [inside_of_le (by omega)]
      rfl

/-- Data that end beyond the buffer are not decoded inside it. -/
theorem decodeInto_none (hlo : i ≤ datLen) (hhi : datLen < limit) : decodeInto (inside datLen buffer) limit i out = none := by
  induction hn : datLen - i using Nat.strong_induction_on generalizing i out with
  | _ n ih =>
    rw [decodeInto, if_pos (by omega)]
    by_cases hi : i < datLen
    · rw [inside_of_lt hi]
      show (if buffer i = sentinel then _ else _ : Option (List UInt8)) = none
      by_cases hrun : buffer i = sentinel
      · rw [if_pos hrun]
        by_cases hthree : i + 3 < datLen
        · rw [inside_of_lt (by omega), inside_of_lt (by omega), inside_of_lt hthree]
          show (expand (buffer (i + 3)) ((buffer (i + 1)).toNat + 256 * (buffer (i + 2)).toNat) out).bind
            (decodeInto (inside datLen buffer) limit (i + 4)) = none
          cases expand (buffer (i + 3)) ((buffer (i + 1)).toNat + 256 * (buffer (i + 2)).toNat) out with
          | none => rfl
          | some out => exact ih _ (by omega) (by omega) rfl
        · have hlast : inside datLen buffer (i + 3) = none := inside_of_le (by omega)
          rw [hlast]
          cases inside datLen buffer (i + 1) <;> cases inside datLen buffer (i + 2) <;> rfl
      · rw [if_neg hrun]
        show (push out (buffer i)).bind (decodeInto (inside datLen buffer) limit (i + 1)) = none
        cases push out (buffer i) with
        | none => rfl
        | some out => exact ih _ (by omega) (by omega) rfl
    · rw [inside_of_le (by omega)]
      rfl

/-! ### A block, and the line -/

theorem takes_iff : (crcLoop 0 ((List.range (len - 2)).map buffer) -
      BitVec.ofNat 16 ((buffer (len - 2)).toNat + 256 * (buffer (len - 1)).toNat) = 0 ∧
        buffer 3 = UInt8.ofNat (sBlk + 1)) ↔ Takes sBlk buffer len := by
  have hlow := (buffer (len - 2)).toNat_lt
  have hhigh := (buffer (len - 1)).toNat_lt
  refine and_congr_left fun _ => ?_
  rw [calcCrc, ← BitVec.toNat_inj, BitVec.toNat_sub, BitVec.toNat_ofNat]
  have hcrc := (crcLoop 0 ((List.range (len - 2)).map buffer)).isLt
  have hzero : (0 : BitVec 16).toNat = 0 := rfl
  rw [hzero]
  omega

theorem takeBlock_isSome (hlow : 2 ≤ len) (hhigh : len ≤ datLen) :
    (takeBlock sBlk len buffer).isSome ∧ (getCrc (inside len buffer) len).isSome ↔ BlockFits sBlk buffer len := by
  by_cases hlen : len = 2
  · have hnone : takeBlock sBlk len buffer = none := by
      rw [takeBlock, getCrc_none hlen (by decide)]
      rfl
    have hshort : ¬ BlockFits sBlk buffer len := fun h => by
      have hthree := h.1
      omega
    simp [hnone, hshort]
  · have hthree : 3 ≤ len := by omega
    have hblock : ∀ j < len, inside len buffer j = some (buffer j) := fun j hj => inside_of_lt hj
    have hbuffer : ∀ j < len, inside datLen buffer j = some (buffer j) := fun j hj => inside_of_lt (by omega)
    rw [getCrc_eq hthree hhigh hblock, takeBlock, getCrc_eq hthree hhigh hbuffer,
      inside_of_lt (show 3 < datLen by decide), inside_of_lt (show 2 < datLen by decide), BlockFits]
    simp only [Option.bind_eq_bind, Option.bind_some, Option.isSome_some, and_true, hthree, true_and]
    by_cases htakes : Takes sBlk buffer len
    · rw [if_pos (takes_iff.mpr htakes), imp_iff_right htakes]
      by_cases hsix : ovrhd ≤ len
      · have hcount : short (len + 65536 - ovrhd) = len - 6 := by
          simp only [short, ovrhd, datLen] at *
          omega
        have hlimit : 4 + (len - 6) = len - 2 := by
          simp only [ovrhd] at hsix
          omega
        have hbound : len - 2 + 2 = len := by omega
        rw [hcount, hlimit, and_iff_right hsix]
        by_cases hcomp : buffer 2 &&& comp = comp
        · rw [if_pos hcomp, imp_iff_right hcomp, Option.isSome_bind]
          have hdecode : (decodeInto (inside datLen buffer) (len - 2) 4 []).isSome ↔ _ :=
            decodeInto_isSome (by omega) (Nat.zero_le _)
          rw [hbound, List.length_nil, Nat.zero_add] at hdecode
          rw [← hdecode]
          simp
        · have hcopy : (copyInto (inside datLen buffer) (len - 6) 4 []).isSome :=
            copyInto_eq (by omega) (by simp only [List.length_nil]; omega)
          obtain ⟨file, hfile⟩ := Option.isSome_iff_exists.mp hcopy
          rw [if_neg hcomp, hfile]
          simp [hcomp]
      · have hcount : datLen < 4 + short (len + 65536 - ovrhd) := by
          simp only [short, ovrhd, datLen] at *
          omega
        have hdecode : decodeInto (inside datLen buffer) (4 + short (len + 65536 - ovrhd)) 4 [] = none :=
          decodeInto_none (by decide) hcount
        have hcopy : copyInto (inside datLen buffer) (short (len + 65536 - ovrhd)) 4 [] = none :=
          copyInto_none (by decide) hcount
        rw [hdecode, hcopy]
        simp [hsix]
    · rw [if_neg fun h => htakes (takes_iff.mp h)]
      simp [htakes]

/-- What `recv_blk` does with the line: it runs out of the buffer, gives up, or has a block. -/
theorem recvBlkInto_cases (sBlk tries : ℕ) (attempts : List Attempt) (buffer : ℕ → UInt8) :
    (recvBlkInto tries attempts buffer = none ∧ ¬ LineFits sBlk tries attempts buffer) ∨
    (∃ buffer', recvBlkInto tries attempts buffer = some (none, buffer') ∧ LineFits sBlk tries attempts buffer) ∨
    ∃ len buffer', recvBlkInto tries attempts buffer = some (some len, buffer') ∧ 2 ≤ len ∧ len ≤ datLen ∧
      (LineFits sBlk tries attempts buffer ↔ BlockFits sBlk buffer' len) := by
  induction tries generalizing attempts buffer with
  | zero => exact Or.inr (Or.inl ⟨buffer, rfl, trivial⟩)
  | succ tries ih =>
    cases attempts with
    | nil => exact Or.inr (Or.inl ⟨buffer, rfl, trivial⟩)
    | cons attempt attempts =>
      have hheader : readChan 2 attempt.header 0 buffer =
          some ((attempt.header.take 2).length, store 0 (attempt.header.take 2) buffer) := by
        refine if_pos ?_
        rw [List.length_take]
        simp only [datLen]
        omega
      rw [recvBlkInto, LineFits, hheader]
      simp only [Option.bind_eq_bind, Option.bind_some, List.length_take]
      generalize store 0 (attempt.header.take 2) buffer = buffer'
      by_cases hshort : attempt.header.length < 2
      · rw [if_neg (by omega), if_pos hshort]
        exact ih attempts buffer'
      · rw [if_pos (by omega), if_neg hshort]
        by_cases hhigh : datLen < lenOf buffer'
        · rw [if_pos hhigh, if_pos hhigh]
          exact Or.inr (Or.inl ⟨buffer', rfl, trivial⟩)
        · rw [if_neg hhigh, if_neg hhigh]
          by_cases hlow : lenOf buffer' < 2
          · -- the rest that is asked for is more than the buffer holds
            have hcount : datLen ≤ short (lenOf buffer' + 65536 - 2) := by
              simp only [short, datLen]
              omega
            rw [if_pos hlow]
            by_cases hbody : attempt.body.length + 2 ≤ datLen
            · have htake : attempt.body.take (short (lenOf buffer' + 65536 - 2)) = attempt.body :=
                List.take_of_length_le (by omega)
              rw [readChan, htake, if_pos (by omega)]
              simp only [Option.bind_some, hbody, true_and]
              rw [if_neg (by omega)]
              exact ih attempts (store 2 attempt.body buffer')
            · rw [readChan, if_neg (by rw [List.length_take]; simp only [datLen] at *; omega)]
              exact Or.inl ⟨rfl, fun h => hbody h.1⟩
          · have hcount : short (lenOf buffer' + 65536 - 2) = lenOf buffer' - 2 := by
              simp only [short, datLen] at *
              omega
            rw [if_neg hlow, readChan, hcount, if_pos (by rw [List.length_take]; omega)]
            simp only [Option.bind_some, List.length_take]
            by_cases hbody : attempt.body.length < lenOf buffer' - 2
            · rw [if_neg (by omega), if_pos hbody]
              exact ih attempts (store 2 (attempt.body.take (lenOf buffer' - 2)) buffer')
            · rw [if_pos (by omega), if_neg hbody]
              exact Or.inr (Or.inr ⟨_, _, rfl, by omega, by omega, Iff.rfl⟩)

/-- The receiver stays inside its buffers exactly when what arrives fits. -/
theorem staysInside_iff (attempts : List Attempt) (buffer : ℕ → UInt8) :
    StaysInside sBlk attempts buffer ↔ LineFits sBlk 10 attempts buffer := by
  have hcases := recvBlkInto_cases sBlk 10 attempts buffer
  rw [StaysInside, receiveInto]
  generalize recvBlkInto 10 attempts buffer = received at hcases ⊢
  obtain ⟨rfl, hfits⟩ | ⟨buffer', rfl, hfits⟩ | ⟨len, buffer', rfl, hlow, hhigh, hfits⟩ := hcases
  · simp [hfits]
  · simp [hfits]
  · rw [hfits, ← takeBlock_isSome hlow hhigh, Option.bind_eq_bind, Option.bind_some]
    refine and_congr_right fun _ => ⟨fun hall => hall len buffer' rfl, fun hcrc _ _ heq => ?_⟩
    cases heq
    exact hcrc

/-- A length of 2 and nothing else: the CRC of such a block runs through 65536 bytes. -/
theorem not_staysInside : ¬ ∀ (sBlk : ℕ) (attempts : List Attempt) (buffer : ℕ → UInt8),
    StaysInside sBlk attempts buffer := by
  intro hall
  obtain ⟨-, hblock⟩ := hall 0 [⟨[2, 0], []⟩] fun _ => 0
  have hheader : readChan 2 [2, 0] 0 (fun _ => 0) = some (2, store 0 [2, 0] fun _ => 0) := rfl
  have hrest : readChan 0 [] 2 (store 0 [2, 0] fun _ => 0) = some (0, store 2 [] (store 0 [2, 0] fun _ => 0)) := rfl
  have hlen : lenOf (store 0 [2, 0] fun _ => 0) = 2 := rfl
  have hrecv : recvBlkInto 10 [⟨[2, 0], []⟩] (fun _ => 0) = some (some 2, store 2 [] (store 0 [2, 0] fun _ => 0)) := by
    simp [recvBlkInto, hheader, hlen, hrest, short, datLen]
  have hcrc := hblock 2 _ hrecv
  rw [getCrc_none rfl (by decide)] at hcrc
  exact absurd hcrc (by decide)

end CProgram.Jmodem
