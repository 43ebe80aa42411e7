import Mathlib.Data.UInt
import Mathlib.Tactic.Linarith

/-! The run-length tool: `rle_compress` and `rle_extract` over the bytes of the file that they read. Reading and writing
do not fail and `errno` is 0 at first, so `rle_compress` always reports success. -/
namespace CProgram.Rle

/-- A file that is read: what is left of it, and `feof`. -/
structure Reader where
  rest : List UInt8
  feof : Bool
  deriving DecidableEq

namespace Reader

/-- `fgetc`, nothing for EOF. -/
def fgetc (r : Reader) : Option UInt8 × Reader :=
  match r.rest with
  | [] => (none, { r with feof := true })
  | ch :: rest => (some ch, { r with rest := rest })

/-- The calls of `fgetc` that are left before EOF has been seen. -/
def left (r : Reader) : ℕ := r.rest.length + if r.feof then 0 else 1

end Reader

/-- EOF where it is kept in a `uint8_t`. -/
def kept (ch : Option UInt8) : UInt8 := ch.getD 0xFF

/-- The loop over bytes that differ, with `t[0..i]` and what is left up to 128. -/
def literalLoop (t : List UInt8) (r : Reader) : ℕ → List UInt8 × Reader
  | 0 => (t, r)
  | room + 1 =>
    let (ch, r) := r.fgetc
    let next := kept ch
    if r.feof = false ∧ 0 < room ∧ next ≠ t.getLastD 0 then literalLoop (t ++ [next]) r room else (t ++ [next], r)

/-- The loop over equal bytes: `i`, `t[1]`, and the file, with what is left up to 130. -/
def runLoop (t0 : UInt8) (r : Reader) : ℕ → ℕ × UInt8 × Reader
  | 0 => (130, t0, r)
  | room + 1 =>
    let (ch, r) := r.fgetc
    let t1 := kept ch
    if 0 < room ∧ t0 = t1 then runLoop t0 r room else (130 - room, t1, r)

theorem left_fgetc (r : Reader) : r.fgetc.2.left ≤ r.left ∧ (r.feof = false → r.fgetc.2.left < r.left) := by
  cases r with
  | mk rest feof =>
    cases rest with
    | nil => cases feof <;> simp [Reader.fgetc, Reader.left]
    | cons ch rest => cases feof <;> simp [Reader.fgetc, Reader.left]

theorem left_literalLoop (t : List UInt8) (r : Reader) (room : ℕ) : (literalLoop t r room).2.left ≤ r.left := by
  induction room generalizing t r with
  | zero => exact le_rfl
  | succ room ih =>
    rw [literalLoop]
    dsimp only
    split
    · exact (ih _ _).trans (left_fgetc r).1
    · exact (left_fgetc r).1

theorem left_runLoop (t0 : UInt8) (r : Reader) (room : ℕ) : (runLoop t0 r room).2.2.left ≤ r.left := by
  induction room generalizing r with
  | zero => exact le_rfl
  | succ room ih =>
    rw [runLoop]
    dsimp only
    split
    · exact (ih _).trans (left_fgetc r).1
    · exact (left_fgetc r).1

/-- The bytes that differ from each other, `t[0]` for what follows, and whether it begins a run. -/
def literal (t0 t1 : UInt8) (r : Reader) : List UInt8 × UInt8 × Bool × Reader :=
  let (t, r) := if r.feof then ([t0, t1], r) else literalLoop [t0, t1] r 127
  let i := t.length - 1
  let keep := t.getD i 0 = t.getD (i - 1) 0
  let i := if keep then i - 1 else i
  (t.take i, t.getD i 0, keep, r)

theorem left_literal (t0 t1 : UInt8) (r : Reader) : (literal t0 t1 r).2.2.2.left ≤ r.left := by
  rw [literal]
  dsimp only
  split
  · exact le_rfl
  · exact left_literalLoop _ _ _

/-- The main loop of `rle_compress`: what it writes. -/
def compressLoop (t0 : UInt8) (r : Reader) : List UInt8 :=
  if hfeof : r.feof = true then [] else
  let next := r.fgetc
  have hnext := (left_fgetc r).2 (by simpa using hfeof)
  let t1 := kept next.1
  if t0 ≠ t1 then
    let part := literal t0 t1 next.2
    have hpart : part.2.2.2.left ≤ next.2.left := left_literal t0 t1 next.2
    UInt8.ofNat (part.1.length - 1) :: part.1 ++
      if part.2.2.1 then
        let run := runLoop part.2.1 part.2.2.2 128
        have hrun : run.2.2.left ≤ part.2.2.2.left := left_runLoop part.2.1 part.2.2.2 128
        UInt8.ofNat (run.1 + 125) :: part.2.1 :: compressLoop run.2.1 run.2.2
      else compressLoop part.2.1 part.2.2.2
  else
    let run := runLoop t0 next.2 128
    have hrun : run.2.2.left ≤ next.2.left := left_runLoop t0 next.2 128
    UInt8.ofNat (run.1 + 125) :: t0 :: compressLoop run.2.1 run.2.2
  termination_by r.left
  decreasing_by
    · exact (hrun.trans hpart).trans_lt hnext
    · exact hpart.trans_lt hnext
    · exact hrun.trans_lt hnext

def compress (source : List UInt8) : List UInt8 :=
  let first := Reader.fgetc ⟨source, false⟩
  compressLoop (kept first.1) first.2

/-- `while (max--)`: what is written, the last `j`, and what is left of the file. -/
def extractRow (copies : Bool) : ℕ → UInt8 → List UInt8 → List UInt8 × Option UInt8 × List UInt8
  | 0, j, rest => ([], some j, rest)
  | max + 1, j, rest =>
    if copies = false ∧ max ≠ 0 then
      match rest with
      | [] => ([j], none, [])
      | next :: rest =>
        let row := extractRow copies max next rest
        (j :: row.1, row.2)
    else
      let row := extractRow copies max j rest
      (j :: row.1, row.2)

theorem length_extractRow (copies : Bool) (max : ℕ) (j : UInt8) (rest : List UInt8) :
    (extractRow copies max j rest).2.2.length ≤ rest.length := by
  induction max generalizing j rest with
  | zero => exact le_rfl
  | succ max ih =>
    by_cases hnext : copies = false ∧ max ≠ 0
    · cases rest with
      | nil => simp [extractRow, hnext]
      | cons next rest =>
        have hrow := ih next rest
        simp only [extractRow, hnext, ne_eq, not_false_eq_true, and_self, if_true, List.length_cons]
        rw [hnext.1] at hrow
        exact hrow.trans (Nat.le_succ _)
    · simp only [extractRow, hnext, if_false]
      exact ih j rest

/-- `max = i + (i < 128 ? 1 : -126)`. -/
def rowMax (i : UInt8) : ℕ := if i.toNat < 128 then i.toNat + 1 else i.toNat - 126

/-- The main loop of `rle_extract`: what it writes, and whether the file was whole. -/
def extractLoop : List UInt8 → List UInt8 × Bool
  | [] => ([], true)
  | [_] => ([], false)
  | i :: j :: rest =>
    let row := extractRow (decide (128 ≤ i.toNat)) (rowMax i) j rest
    have _hrow : row.2.2.length ≤ rest.length := length_extractRow (decide (128 ≤ i.toNat)) (rowMax i) j rest
    match row.2.1 with
    | none => (row.1, false)
    | some _ =>
      let later := extractLoop row.2.2
      (row.1 ++ later.1, later.2)
  termination_by source => source.length
  decreasing_by
    exact _hrow.trans_lt (by simp only [List.length_cons]; omega)

/-- What comes out of `rle_extract`, and whether it reports success. -/
def extract (source : List UInt8) : List UInt8 × Bool := extractLoop source

end CProgram.Rle
