import CProgram.Rle.Codec

/-! `rle_extract` on any file: which files are taken, what comes out of them, and what is reported for the others. -/
namespace CProgram.Rle

/-- What `errno` is set to for a file that is corrupted. -/
inductive Errno where
  | none | ebadmsg
  deriving DecidableEq

/-- `fgetc` on what is left of a file; nothing for EOF. -/
def fgetc : List UInt8 → Option UInt8 × List UInt8
  | [] => (none, [])
  | ch :: rest => (some ch, rest)

/-- `while (max--)` with the `j` that it is entered with: what is written, the last `j`, and what is left of the file.
Writing does not fail, so the loop is broken off by EOF alone. -/
def whileMax (i : UInt8) : ℕ → UInt8 → List UInt8 → List UInt8 × Option UInt8 × List UInt8
  | 0, j, rest => ([], some j, rest)
  | max + 1, j, rest =>
    if i.toNat < 128 ∧ max ≠ 0 then
      match fgetc rest with
      | (none, rest) => ([j], none, rest)
      | (some next, rest) =>
        let row := whileMax i max next rest
        (j :: row.1, row.2)
    else
      let row := whileMax i max j rest
      (j :: row.1, row.2)

theorem length_whileMax (i : UInt8) (max : ℕ) (j : UInt8) (rest : List UInt8) :
    (whileMax i max j rest).2.2.length ≤ rest.length := by
  induction max generalizing j rest with
  | zero => exact le_rfl
  | succ max ih =>
    rw [whileMax]
    split
    · cases rest with
      | nil => exact le_rfl
      | cons next rest => exact (ih next rest).trans (Nat.le_succ _)
    · exact ih j rest

/-- The main loop: what is written, and `i` and `j` behind it. -/
def whileRead (j : Option UInt8) (source : List UInt8) : List UInt8 × Option UInt8 × Option UInt8 :=
  match source with
  | [] => ([], none, j)
  | [i] => ([], some i, none)
  | i :: j :: rest =>
    let row := whileMax i (rowMax i) j rest
    have _hrow : row.2.2.length ≤ rest.length := length_whileMax i (rowMax i) j rest
    let later := whileRead row.2.1 row.2.2
    (row.1 ++ later.1, later.2)
  termination_by source.length
  decreasing_by
    exact _hrow.trans_lt (by simp only [List.length_cons]; omega)

/-- `rle_extract`: what it returns, `errno` and what it writes. -/
def rleExtract (source : List UInt8) : ℤ × Errno × List UInt8 :=
  let (out, i, j) := whileRead (some 0) source
  let errno := if j = none then Errno.ebadmsg else .none
  (if errno ≠ .none ∨ i ≠ none then -1 else 0, errno, out)

/-- Complete records, and what they stand for. -/
inductive Records : List UInt8 → List UInt8 → Prop
  | done : Records [] []
  | literal {n : UInt8} {bytes rest out : List UInt8} (hn : n.toNat < 128) (hlength : bytes.length = n.toNat + 1)
      (later : Records rest out) : Records (n :: bytes ++ rest) (bytes ++ out)
  | run {n ch : UInt8} {rest out : List UInt8} (hn : 128 ≤ n.toNat) (later : Records rest out) :
      Records (n :: ch :: rest) (List.replicate (n.toNat - 126) ch ++ out)

variable {i j ch : UInt8} {n : ℕ} {rest source out : List UInt8}

/-! ### One record -/

theorem whileMax_run (hi : 128 ≤ i.toNat) (n : ℕ) :
    whileMax i n j rest = (List.replicate n j, some j, rest) := by
  induction n with
  | zero => rfl
  | succ n ih => rw [whileMax, if_neg (by omega), ih, List.replicate_succ]

/-- The literals behind a count, if they are all there. -/
theorem whileMax_literal (hi : i.toNat < 128) (n : ℕ) (h : n ≤ rest.length) :
    whileMax i (n + 1) j rest = (j :: rest.take n, some ((j :: rest.take n).getLastD 0), rest.drop n) := by
  induction n generalizing j rest with
  | zero => rw [whileMax, if_neg (by simp)]; rfl
  | succ n ih =>
    cases rest with
    | nil => simp at h
    | cons next rest =>
      rw [whileMax, if_pos ⟨hi, by simp⟩, fgetc]
      dsimp only
      rw [ih (by simpa using h)]
      rfl

theorem whileMax_cut (hi : i.toNat < 128) (n : ℕ) (h : rest.length < n) :
    (whileMax i (n + 1) j rest).2 = (none, []) := by
  induction n generalizing j rest with
  | zero => omega
  | succ n ih =>
    rw [whileMax, if_pos ⟨hi, by simp⟩]
    cases rest with
    | nil => rfl
    | cons next rest => exact ih (by simpa using h)

/-! ### The file -/

theorem records_run (hi : 128 ≤ i.toNat) :
    Records (i :: ch :: rest) out ↔ ∃ later, Records rest later ∧ out = List.replicate (i.toNat - 126) ch ++ later := by
  constructor
  · generalize hsource : i :: ch :: rest = source
    intro h
    cases h with
    | done => cases hsource
    | literal hn hlength later =>
      rw [List.cons_append] at hsource
      obtain ⟨rfl, -⟩ := List.cons.inj hsource
      omega
    | run hn later =>
      cases hsource
      exact ⟨_, later, rfl⟩
  · rintro ⟨later, h, heq⟩
    rw [heq]
    exact .run hi h

theorem records_literal (hi : i.toNat < 128) :
    Records (i :: ch :: rest) out ↔ i.toNat ≤ rest.length ∧
      ∃ later, Records (rest.drop i.toNat) later ∧ out = ch :: rest.take i.toNat ++ later := by
  constructor
  · generalize hsource : i :: ch :: rest = source
    intro h
    cases h with
    | done => cases hsource
    | @literal n bytes behind later hn hlength h =>
      rw [List.cons_append] at hsource
      obtain ⟨rfl, hbytes⟩ := List.cons.inj hsource
      cases bytes with
      | nil =>
        rw [List.length_nil] at hlength
        omega
      | cons first bytes =>
        rw [List.cons_append] at hbytes
        obtain ⟨rfl, rfl⟩ := List.cons.inj hbytes
        have hcount : i.toNat = bytes.length := by
          rw [List.length_cons] at hlength
          omega
        rw [hcount, List.drop_left, List.take_left, List.length_append]
        exact ⟨Nat.le_add_right _ _, later, h, rfl⟩
    | run hn later =>
      cases hsource
      omega
  · rintro ⟨hlength, later, h, rfl⟩
    have hsplit : i :: ch :: rest = i :: (ch :: rest.take i.toNat) ++ rest.drop i.toNat := by
      simp
    rw [hsplit]
    exact .literal hi (by simp [hlength]) h

theorem not_records_singleton : ¬ Records [i] out := by
  generalize hsource : [i] = source
  intro h
  cases h with
  | done => cases hsource
  | literal hn hlength later =>
    rw [List.cons_append] at hsource
    have hnil := (List.append_eq_nil_iff.mp (List.cons.inj hsource).2.symm).1
    rw [hnil, List.length_nil] at hlength
    omega
  | run hn later => cases hsource

/-- The loop from a place where a record begins. -/
theorem whileRead_records (source : List UInt8) (j : UInt8) :
    (∃ out j', whileRead (some j) source = (out, none, some j') ∧ Records source out) ∨
      (whileRead (some j) source).2.2 = none ∧ ∀ out, ¬ Records source out := by
  induction hn : source.length using Nat.strong_induction_on generalizing source j with
  | _ n ih =>
    match source with
    | [] => exact .inl ⟨[], j, by rw [whileRead], .done⟩
    | [i] => exact .inr ⟨by rw [whileRead], fun out => not_records_singleton⟩
    | i :: ch :: rest =>
      simp only [List.length_cons] at hn
      rw [whileRead]
      dsimp only
      by_cases hi : i.toNat < 128
      · have hmax : rowMax i = i.toNat + 1 := if_pos hi
        rw [hmax]
        by_cases hlength : i.toNat ≤ rest.length
        · rw [whileMax_literal hi _ hlength]
          dsimp only
          obtain ⟨out, j', hloop, h⟩ | ⟨hnone, hno⟩ := ih (rest.drop i.toNat).length
            (by rw [List.length_drop]; omega) (rest.drop i.toNat) ((ch :: rest.take i.toNat).getLastD 0) rfl
          · rw [hloop]
            exact .inl ⟨_, j', rfl, (records_literal hi).mpr ⟨hlength, out, h, rfl⟩⟩
          · exact .inr ⟨hnone, fun out h => by
              obtain ⟨-, later, hlater, -⟩ := (records_literal hi).mp h
              exact hno later hlater⟩
        · have hcut := whileMax_cut (j := ch) hi i.toNat (not_le.mp hlength)
          rw [hcut]
          exact .inr ⟨by rw [whileRead], fun out h => hlength ((records_literal hi).mp h).1⟩
      · have hmax : rowMax i = i.toNat - 126 := if_neg hi
        rw [hmax, whileMax_run (not_lt.mp hi)]
        dsimp only
        obtain ⟨out, j', hloop, h⟩ | ⟨hnone, hno⟩ := ih rest.length (by omega) rest ch rfl
        · rw [hloop]
          exact .inl ⟨_, j', rfl, (records_run (not_lt.mp hi)).mpr ⟨out, h, rfl⟩⟩
        · exact .inr ⟨hnone, fun out h => by
            obtain ⟨later, hlater, -⟩ := (records_run (not_lt.mp hi)).mp h
            exact hno later hlater⟩

theorem records_unique (h : Records source out) {out' : List UInt8} (h' : Records source out') : out = out' := by
  induction h generalizing out' with
  | done =>
    generalize hsource : ([] : List UInt8) = source at h'
    cases h' with
    | done => rfl
    | literal hn hlength later => cases hsource
    | run hn later => cases hsource
  | @literal n bytes rest out hn hlength later ih =>
    cases bytes with
    | nil =>
      rw [List.length_nil] at hlength
      omega
    | cons ch bytes =>
      have hcount : n.toNat = bytes.length := by
        rw [List.length_cons] at hlength
        omega
      obtain ⟨-, later', hlater, heq⟩ := (records_literal hn).mp h'
      change Records ((bytes ++ rest).drop n.toNat) later' at hlater
      change out' = ch :: (bytes ++ rest).take n.toNat ++ later' at heq
      rw [hcount, List.drop_left] at hlater
      rw [heq, hcount, List.take_left, ih hlater]
  | run hn later ih =>
    obtain ⟨later', hlater, heq⟩ := (records_run hn).mp h'
    rw [heq, ih hlater]

/-- Exactly the files of complete records are taken, and what comes out is what the records stand for. -/
theorem rle_extract_records (source : List UInt8) :
    ((rleExtract source).1 = 0 ↔ ∃ out, Records source out) ∧
      (∀ out, Records source out → (rleExtract source).2.2 = out) ∧
      ((¬ ∃ out, Records source out) → (rleExtract source).1 = -1 ∧ (rleExtract source).2.1 = .ebadmsg) := by
  obtain ⟨out, j', hloop, h⟩ | ⟨hnone, hno⟩ := whileRead_records source 0
  · have hresult : rleExtract source = (0, .none, out) := by
      rw [rleExtract, hloop]
      rfl
    rw [hresult]
    exact ⟨⟨fun _ => ⟨out, h⟩, fun _ => rfl⟩, fun out' h' => records_unique h h', fun hnot => absurd ⟨out, h⟩ hnot⟩
  · have hcode : (rleExtract source).1 = -1 ∧ (rleExtract source).2.1 = .ebadmsg := by
      simp [rleExtract, hnone]
    refine ⟨⟨fun hzero => ?_, fun ⟨out, h⟩ => absurd h (hno out)⟩, fun out h => absurd h (hno out), fun _ => hcode⟩
    rw [hcode.1] at hzero
    cases hzero

end CProgram.Rle
