import CProgram.Jmodem.Blocks

/-! A whole transfer on a line that delivers everything: the sender's loop, `send_blk`, and the receiver's
loop, which hears every block at once. -/
namespace CProgram.Jmodem

inductive Status where
  | nrm | abt
  deriving DecidableEq

structure Sender where
  /-- What is left to read of the file. -/
  rest : List UInt8
  sLen : ℕ
  sBlk : ℕ

/-- The receiver in `recv_blk`, with the tries that are left behind this one, or at its end. -/
structure Receiver where
  /-- The file, until it is deleted. -/
  file : Option (List UInt8)
  sBlk : ℕ
  tries : ℕ
  ended : Option Status
  deriving DecidableEq

/-- How both ends stand when nothing more comes: without a status an end still waits. -/
structure Result where
  sender : Option Status
  receiver : Option Status
  file : Option (List UInt8)
  deriving DecidableEq

def Receiver.start : Receiver := ⟨some [], 0, 9, none⟩

/-- The loop is left without the end of the file. -/
def Receiver.aborted (r : Receiver) : Receiver := { r with file := none, ended := some .abt }

/-- The receiver's loop on what comes in: its answer, if it gives one. -/
def Receiver.hear (r : Receiver) (line : List UInt8) : Option UInt8 × Receiver :=
  if r.ended.isSome then (none, r)
  else
    match recvBlk line with
    | none => (none, r)
    | some (buffer, _) =>
      match check r.sBlk buffer with
      | some (data, last) =>
        let r := { r with file := r.file.map (· ++ data), sBlk := r.sBlk + 1, tries := 9 }
        (some ack, if last then { r with ended := some .nrm } else if data = [] then r.aborted else r)
      | none => (some nak, if r.tries = 0 then r.aborted else { r with tries := r.tries - 1 })

/-- How `send_blk` ends. -/
inductive Sent where
  /-- On an ACK, with the tries that were left. -/
  | acked (tries : ℕ)
  | gaveUp
  /-- No answer comes. -/
  | waits

/-- `send_blk` -/
def sendBlk (buffer : List UInt8) : ℕ → Receiver → Sent × Receiver
  | 0, r => (.gaveUp, r)
  | tries + 1, r =>
    match r.hear buffer with
    | (none, r) => (.waits, r)
    | (some answer, r) => if answer = ack then (.acked tries, r) else sendBlk buffer tries r

/-- The length of the next block. -/
def nextLen (sLen tries : ℕ) : ℕ := if tries = 9 then min (sLen + 512) datMax else max (sLen / 2) 0x40

/-- The sender's loop with the receiver at the other end; `beyond` is what stands behind each record in the
file buffer. -/
def transfer (beyond : ℕ → UInt8) (s : Sender) (r : Receiver) : Result :=
  let data := s.rest.take s.sLen
  if data = [] then ⟨some .nrm, r.ended, r.file⟩
  else
    let buffer := record (beyond s.sBlk) (s.sBlk + 1) (decide (data.length ≠ s.sLen)) data
    match sendBlk buffer 10 r with
    | (.acked tries, r) =>
      if buffer.getD 2 0 = eof then ⟨some .nrm, r.ended, r.file⟩
      else transfer beyond ⟨s.rest.drop s.sLen, nextLen s.sLen tries, s.sBlk + 1⟩ r
    | (.gaveUp, r) => ⟨some .abt, r.ended, r.file⟩
    | (.waits, r) => ⟨none, r.ended, r.file⟩
  termination_by s.rest.length
  decreasing_by
    next hdata _ =>
    have htake : s.rest.take s.sLen ≠ [] := hdata
    rw [List.length_drop]
    cases hrest : s.rest with
    | nil =>
      rw [hrest, List.take_nil] at htake
      exact absurd rfl htake
    | cons ch rest =>
      cases hlen : s.sLen with
      | zero =>
        rw [hlen, List.take_zero] at htake
        exact absurd rfl htake
      | succ n =>
        simp only [List.length_cons]
        omega

/-! The lengths of the blocks when none is sent twice -/

def blockLen (k : ℕ) : ℕ := min (blkSiz * (k + 1)) datMax

/-- The length of the first blocks together. -/
def blockEnd : ℕ → ℕ
  | 0 => 0
  | k + 1 => blockEnd k + blockLen k

variable {beyond : UInt8} {data rest : List UInt8} {k : ℕ}

theorem blockLen_pos (k : ℕ) : 0 < blockLen k := by
  simp only [blockLen, blkSiz, datMax]
  omega

theorem nextLen_blockLen (k : ℕ) : nextLen (blockLen k) 9 = blockLen (k + 1) := by
  simp only [nextLen, blockLen, blkSiz, datMax, if_true]
  omega

theorem blockEnd_mono (k j : ℕ) : blockEnd k ≤ blockEnd (k + j) := by
  induction j with
  | zero => exact le_rfl
  | succ j ih =>
    have hstep : blockEnd (k + (j + 1)) = blockEnd (k + j) + blockLen (k + j) := rfl
    omega

/-- A record comes out of the line whole. -/
theorem recvBlk_record (hshort : data.length ≤ datMax) (num : ℕ) (last : Bool) :
    recvBlk (record beyond num last data) = some (record beyond num last data, []) := by
  have hplain (typ : UInt8) (payload : List UInt8) (hpayload : payload.length ≤ datMax) :
      recvBlk (block num typ payload) = some (block num typ payload, []) := by
    have hback := recvBlk_block num typ hpayload []
    rwa [List.append_nil] at hback
  rw [record]
  split
  · next packed _ =>
    split
    · exact hplain _ packed (by omega)
    · exact hplain _ data hshort
  · exact hplain _ data hshort

/-- The record that the receiver waits for is acknowledged and written. -/
theorem hear_record (hdata : data ≠ []) (hshort : data.length ≤ datMax) (done : List UInt8) (last : Bool) :
    Receiver.hear ⟨some done, k, 9, none⟩ (record beyond (k + 1) last data) =
      (some ack, ⟨some (done ++ data), k + 1, 9, if last then some .nrm else none⟩) := by
  have hlt : data.length < 65536 := by
    simp only [datMax] at hshort
    omega
  rw [Receiver.hear, recvBlk_record hshort]
  simp only [check_record hlt, if_true, hdata, if_false, Option.isSome_none, Bool.false_eq_true, Option.map_some]
  cases last
  · rfl
  · rfl

theorem sendBlk_record (hdata : data ≠ []) (hshort : data.length ≤ datMax) (done : List UInt8) (last : Bool) :
    sendBlk (record beyond (k + 1) last data) 10 ⟨some done, k, 9, none⟩ =
      (.acked 9, ⟨some (done ++ data), k + 1, 9, if last then some .nrm else none⟩) := by
  rw [sendBlk, hear_record hdata hshort]
  dsimp only
  rw [if_pos rfl]

/-- The kind of a block is end of file alone only in the last record. -/
theorem typ_record (num : ℕ) (h : (record beyond num false data).getD 2 0 = eof) : False := by
  have htyp (typ : UInt8) (payload : List UInt8) : (block num typ payload).getD 2 0 = typ := rfl
  rw [record] at h
  split at h
  · split at h
    · rw [htyp] at h
      cases h
    · rw [htyp] at h
      cases h
  · rw [htyp] at h
    cases h

theorem take_ne_nil (hrest : rest ≠ []) {n : ℕ} (hn : 0 < n) : rest.take n ≠ [] := by
  intro hnil
  obtain h | h := List.take_eq_nil_iff.mp hnil
  · omega
  · exact hrest h

/-- From the `k`-th block on: everything arrives, and the receiver learns of the end unless the file ends
with a block. -/
theorem transfer_from (beyond : ℕ → UInt8) (rest : List UInt8) (k : ℕ) (done : List UInt8) :
    ∃ ended, transfer beyond ⟨rest, blockLen k, k⟩ ⟨some done, k, 9, none⟩ =
      ⟨some .nrm, ended, some (done ++ rest)⟩ ∧
        (ended = some .nrm ↔ ∀ j, rest.length ≠ blockEnd (k + j) - blockEnd k) := by
  induction hn : rest.length using Nat.strong_induction_on generalizing rest k done with
  | _ n ih =>
    have hpos := blockLen_pos k
    have hmax : blockLen k ≤ datMax := Nat.min_le_right _ _
    by_cases hrest : rest = []
    · -- the end of the file is read without a block that tells of it
      subst hrest
      apply Exists.intro none
      constructor
      · rw [transfer]
        simp
      · constructor
        · intro h
          cases h
        · intro h
          have hzero := h 0
          simp at hzero
          exact absurd hn.symm hzero
    have hdata := take_ne_nil hrest hpos
    have hshort : (rest.take (blockLen k)).length ≤ datMax := by
      rw [List.length_take]
      omega
    by_cases hlast : n < blockLen k
    · -- the last record, a short one
      have htake : rest.take (blockLen k) = rest := List.take_of_length_le (by omega)
      have hdrop : rest.drop (blockLen k) = [] := List.drop_of_length_le (by omega)
      have hflag : decide ((rest.take (blockLen k)).length ≠ blockLen k) = true := by
        rw [htake]
        simp only [ne_eq, decide_not, Bool.not_eq_eq_eq_not, Bool.not_true, decide_eq_false_iff_not]
        omega
      apply Exists.intro (some .nrm)
      constructor
      · rw [transfer]
        dsimp only
        rw [if_neg hdata, hflag, sendBlk_record hdata hshort]
        dsimp only
        split
        · rw [htake]
          rfl
        · rw [hdrop, htake, transfer]
          simp
      · apply iff_of_true rfl
        intro j
        cases j with
        | zero =>
          have hne : rest.length ≠ 0 := mt List.length_eq_zero_iff.mp hrest
          simp only [Nat.add_zero, Nat.sub_self]
          omega
        | succ j =>
          have hmono := blockEnd_mono (k + 1) j
          have hstep : blockEnd (k + 1) = blockEnd k + blockLen k := rfl
          have hsum : k + (j + 1) = k + 1 + j := by omega
          rw [hsum]
          omega
    · -- a full record
      have hlength : (rest.take (blockLen k)).length = blockLen k := by
        rw [List.length_take]
        omega
      have hflag : decide ((rest.take (blockLen k)).length ≠ blockLen k) = false := by
        rw [hlength]
        simp
      obtain ⟨ended, hended, hiff⟩ := ih (rest.drop (blockLen k)).length
        (by rw [List.length_drop]; omega) (rest.drop (blockLen k)) (k + 1) (done ++ rest.take (blockLen k)) rfl
      apply Exists.intro ended
      constructor
      · rw [transfer]
        dsimp only
        rw [if_neg hdata, hflag, sendBlk_record hdata hshort]
        dsimp only
        rw [if_neg (typ_record (k + 1)), nextLen_blockLen]
        rw [List.append_assoc, List.take_append_drop] at hended
        exact hended
      · rw [hiff]
        have hstep : blockEnd (k + 1) = blockEnd k + blockLen k := rfl
        constructor
        · intro h j
          cases j with
          | zero =>
            simp only [Nat.add_zero, Nat.sub_self]
            omega
          | succ j =>
            have hj := h j
            have hmono := blockEnd_mono (k + 1) j
            have hsum : k + (j + 1) = k + 1 + j := by omega
            rw [List.length_drop] at hj
            rw [hsum]
            omega
        · intro h j
          have hj := h (j + 1)
          have hmono := blockEnd_mono (k + 1) j
          have hsum : k + (j + 1) = k + 1 + j := by omega
          rw [hsum] at hj
          rw [List.length_drop]
          omega

/-- A file arrives and both ends know it, unless it ends where a block ends. -/
theorem transfer_complete (beyond : ℕ → UInt8) (file : List UInt8) :
    transfer beyond ⟨file, blkSiz, 0⟩ .start = ⟨some .nrm, some .nrm, some file⟩ ↔
      ∀ k, file.length ≠ blockEnd k := by
  obtain ⟨ended, hended, hiff⟩ := transfer_from beyond file 0 []
  have hstart : transfer beyond ⟨file, blkSiz, 0⟩ .start = ⟨some .nrm, ended, some file⟩ := hended
  have hends : (∀ j, file.length ≠ blockEnd (0 + j) - blockEnd 0) ↔ ∀ k, file.length ≠ blockEnd k := by
    simp [blockEnd]
  rw [hstart, ← hends, ← hiff]
  constructor
  · intro h
    exact congrArg Result.receiver h
  · intro h
    rw [h]

/-- The end of an empty file is not told. -/
theorem not_transfer_complete : ¬ ∀ (beyond : ℕ → UInt8) (file : List UInt8),
    transfer beyond ⟨file, blkSiz, 0⟩ .start = ⟨some .nrm, some .nrm, some file⟩ := by
  intro h
  have hempty := h (fun _ => 0) []
  rw [transfer] at hempty
  cases hempty

end CProgram.Jmodem
