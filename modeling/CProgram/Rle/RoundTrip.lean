import CProgram.Rle.Codec

/-! The run-length tool reads back what it has written, but for the bytes 0xFF that EOF adds to the last run. -/
namespace CProgram.Rle

/-- How many bytes 0xFF a file ends in. -/
def trailing (source : List UInt8) : ℕ := (source.reverse.takeWhile (· == 0xFF)).length

/-- A file whose last run of 0xFF is filled up to a multiple of the longest run. -/
def padded (source : List UInt8) : List UInt8 :=
  source ++ List.replicate ((129 - trailing source % 129) % 129) 0xFF

theorem trailing_append (xs ys : List UInt8) :
    trailing (xs ++ ys) = if trailing ys = ys.length then ys.length + trailing xs else trailing ys := by
  rw [trailing, List.reverse_append, List.takeWhile_append, List.length_reverse]
  split <;> simp_all [trailing]

theorem trailing_le (xs : List UInt8) : trailing xs ≤ xs.length := by
  simpa [trailing] using (List.takeWhile_sublist (· == 0xFF) (l := xs.reverse)).length_le

theorem trailing_singleton (c : UInt8) : trailing [c] = if c = 0xFF then 1 else 0 := by
  by_cases hc : c = 0xFF <;> simp [trailing, hc]

theorem trailing_concat_of_ne (xs : List UInt8) (c : UInt8) (hc : c ≠ 0xFF) : trailing (xs ++ [c]) = 0 := by
  simp [trailing_append, trailing_singleton, hc]

theorem trailing_cons_of_ne (c : UInt8) (xs : List UInt8) (hc : c ≠ 0xFF) :
    trailing (c :: xs) ≠ (c :: xs).length := by
  have happ := trailing_append [c] xs
  have hle := trailing_le xs
  rw [List.singleton_append, trailing_singleton, if_neg hc] at happ
  rw [happ, List.length_cons]
  split <;> omega

theorem trailing_replicate (n : ℕ) (c : UInt8) :
    trailing (List.replicate n c) = if c = 0xFF then n else 0 := by
  by_cases hc : c = 0xFF <;> simp [trailing, hc]

theorem padded_append (xs ys : List UInt8) (h : 129 ∣ trailing xs ∨ trailing ys ≠ ys.length) :
    padded (xs ++ ys) = xs ++ padded ys := by
  rw [padded, padded, trailing_append, List.append_assoc]
  split
  · next hall =>
    have hdvd : 129 ∣ trailing xs := h.resolve_right (not_not_intro hall)
    rw [hall]
    congr 4
    omega
  · rfl

/-- What is written before a byte that differs takes no part in the last run. -/
theorem padded_of_ne (xs ys : List UInt8) (c d : UInt8) (hne : c ≠ d) :
    padded (xs ++ [c] ++ d :: ys) = xs ++ [c] ++ padded (d :: ys) := by
  apply padded_append
  by_cases hc : c = 0xFF
  · exact Or.inr (trailing_cons_of_ne d ys fun hd => hne (hc.trans hd.symm))
  · exact Or.inl (by simp [trailing_concat_of_ne xs c hc])

theorem padded_concat (xs : List UInt8) (c : UInt8) (hc : c ≠ 0xFF) : padded (xs ++ [c]) = xs ++ [c] := by
  simp [padded, trailing_concat_of_ne xs c hc]

theorem padded_fill (n : ℕ) (hpos : 0 < n) (hle : n ≤ 129) :
    padded (List.replicate n 0xFF) = List.replicate 129 0xFF := by
  rw [padded, trailing_replicate, if_pos rfl, ← List.replicate_add]
  congr 1
  omega

theorem padded_full (c : UInt8) (ys : List UInt8) :
    padded (List.replicate 129 c ++ ys) = List.replicate 129 c ++ padded ys := by
  apply padded_append
  rw [trailing_replicate]
  exact Or.inl (by split <;> simp)

/-- What is still to be compressed once `t[0]` has been read, as it comes out again. -/
def ahead (t0 : UInt8) (r : Reader) : List UInt8 := if r.feof then [] else padded (t0 :: r.rest)

theorem runLoop_eof (n : ℕ) : runLoop 0xFF ⟨[], true⟩ n = (130, 0xFF, ⟨[], true⟩) := by
  induction n with
  | zero => rfl
  | succ n ih => cases n <;> simp_all [runLoop, Reader.fgetc, kept]

theorem runLoop_bounds (t0 : UInt8) (r : Reader) (n : ℕ) (hpos : 0 < n) (hle : n ≤ 128) :
    131 - n ≤ (runLoop t0 r n).1 ∧ (runLoop t0 r n).1 ≤ 130 := by
  induction n generalizing r with
  | zero => omega
  | succ n ih =>
    rw [runLoop]
    dsimp only
    split
    · next hmore =>
      have hnext := ih r.fgetc.2 hmore.1 (by omega)
      omega
    · constructor <;> omega

/-- A run as it comes out again: the copies of `t[0]`, then what is ahead. -/
theorem runLoop_ahead (t0 : UInt8) (rest : List UInt8) (n : ℕ) (hpos : 0 < n) (hle : n ≤ 128) :
    padded (List.replicate (130 - n) t0 ++ rest) =
      List.replicate ((runLoop t0 ⟨rest, false⟩ n).1 - 1) t0 ++
        ahead (runLoop t0 ⟨rest, false⟩ n).2.1 (runLoop t0 ⟨rest, false⟩ n).2.2 := by
  induction n generalizing rest with
  | zero => omega
  | succ n ih =>
    have hcopies : 130 - (n + 1) = 129 - n := by omega
    cases rest with
    | nil =>
      by_cases ht0 : t0 = 0xFF
      · have hend : runLoop 0xFF ⟨[], false⟩ (n + 1) = (130, 0xFF, ⟨[], true⟩) := by
          cases n with
          | zero => rfl
          | succ n =>
            rw [runLoop]
            dsimp only [Reader.fgetc, kept, Option.getD_none]
            rw [if_pos ⟨Nat.succ_pos n, rfl⟩, runLoop_eof]
        rw [ht0, hend, List.append_nil, padded_fill _ (by omega) (by omega)]
        simp [ahead]
      · have hend : runLoop t0 ⟨[], false⟩ (n + 1) = (130 - n, 0xFF, ⟨[], true⟩) := by
          simp [runLoop, Reader.fgetc, kept, ht0]
        have hlast : List.replicate (129 - n) t0 = List.replicate (128 - n) t0 ++ [t0] := by
          rw [← List.replicate_succ']
          congr 1
          omega
        rw [hend, List.append_nil, hcopies, hlast, padded_concat _ _ ht0, ← hlast]
        simp only [ahead, if_true, List.append_nil]
        congr 1
        omega
    | cons ch rest =>
      by_cases hmore : 0 < n ∧ t0 = ch
      · have hnext : runLoop t0 ⟨ch :: rest, false⟩ (n + 1) = runLoop t0 ⟨rest, false⟩ n := by
          simp [runLoop, Reader.fgetc, kept, hmore]
        rw [hnext, ← ih rest hmore.1 (by omega), ← hmore.2, hcopies]
        have hsucc : 130 - n = 129 - n + 1 := by omega
        rw [hsucc, List.replicate_succ', List.append_assoc, List.singleton_append]
      · have hend : runLoop t0 ⟨ch :: rest, false⟩ (n + 1) = (130 - n, ch, ⟨rest, false⟩) := by
          simp [runLoop, Reader.fgetc, kept, hmore]
        have hpred : 130 - n - 1 = 129 - n := by omega
        rw [hend, hcopies, hpred]
        simp only [ahead, Bool.false_eq_true, if_false]
        by_cases hn : n = 0
        · rw [hn]
          exact padded_full t0 _
        · have hlast : List.replicate (129 - n) t0 = List.replicate (128 - n) t0 ++ [t0] := by
            rw [← List.replicate_succ']
            congr 1
            omega
          rw [hlast]
          exact padded_of_ne _ _ _ _ fun heq => hmore ⟨Nat.pos_of_ne_zero hn, heq⟩

/-- The loop over bytes that differ: its last two bytes tell whether a run begins, and what comes before them does not
end in the byte that follows. -/
theorem literalLoop_parts (xs : List UInt8) (w x : UInt8) (rest : List UInt8) (n : ℕ) (hne : w ≠ x)
    (hlength : xs.length + 2 + n = 129) (hpos : 0 < n) :
    ∃ ys v y z r', literalLoop (xs ++ [w, x]) ⟨rest, false⟩ n = (ys ++ [v] ++ [y, z], r') ∧ v ≠ y ∧
      ys.length + 3 ≤ 129 ∧
      (r'.feof = false → xs ++ [w, x] ++ rest = ys ++ [v] ++ y :: z :: r'.rest ∧ (y ≠ z → ys.length + 3 = 129)) ∧
      (r'.feof = true → r' = ⟨[], true⟩ ∧ z = 0xFF ∧ xs ++ [w, x] ++ rest = ys ++ [v, y]) := by
  induction n generalizing xs w x rest with
  | zero => omega
  | succ n ih =>
    have hlast : (xs ++ [w, x]).getLastD 0 = x := by simp
    cases rest with
    | nil =>
      refine ⟨xs, w, x, 0xFF, ⟨[], true⟩, ?_, hne, by omega, by simp, by simp⟩
      simp [literalLoop, Reader.fgetc, kept]
    | cons ch rest =>
      by_cases hmore : 0 < n ∧ ch ≠ x
      · have hnext : literalLoop (xs ++ [w, x]) ⟨ch :: rest, false⟩ (n + 1) =
            literalLoop (xs ++ [w] ++ [x, ch]) ⟨rest, false⟩ n := by
          rw [literalLoop]
          simp only [Reader.fgetc, kept, Option.getD_some, hlast]
          rw [if_pos ⟨trivial, hmore⟩]
          simp
        have hsplit : xs ++ [w, x] ++ ch :: rest = xs ++ [w] ++ [x, ch] ++ rest := by simp
        rw [hnext, hsplit]
        exact ih (xs ++ [w]) x ch rest (Ne.symm hmore.2) (by simp; omega) hmore.1
      · refine ⟨xs, w, x, ch, ⟨rest, false⟩, ?_, hne, by omega, ?_, by simp⟩
        · rw [literalLoop]
          simp only [Reader.fgetc, kept, Option.getD_some, hlast]
          rw [if_neg fun h => hmore h.2]
          simp
        · intro _
          refine ⟨by simp, fun hxch => ?_⟩
          have hn : ¬ 0 < n := fun hn => hmore ⟨hn, Ne.symm hxch⟩
          omega

theorem extractRow_literal (ps more : List UInt8) (p : UInt8) :
    ∃ last, extractRow false (ps.length + 1) p (ps ++ more) = (p :: ps, some last, more) := by
  induction ps generalizing p with
  | nil => exact ⟨p, by simp [extractRow]⟩
  | cons q ps ih =>
    obtain ⟨last, hlast⟩ := ih q
    refine ⟨last, ?_⟩
    rw [List.length_cons, List.cons_append, extractRow]
    simp [hlast]

theorem extractRow_run (n : ℕ) (j : UInt8) (rest : List UInt8) :
    extractRow true n j rest = (List.replicate n j, some j, rest) := by
  induction n with
  | zero => rfl
  | succ n ih => simp [extractRow, ih, List.replicate_succ]

/-- Bytes that differ, as they are written, come out as they are. -/
theorem extractLoop_literal (part more : List UInt8) (hpos : part ≠ []) (hle : part.length ≤ 128) :
    extractLoop (UInt8.ofNat (part.length - 1) :: part ++ more) =
      (part ++ (extractLoop more).1, (extractLoop more).2) := by
  cases part with
  | nil => exact absurd rfl hpos
  | cons p ps =>
    have hcode : (UInt8.ofNat ps.length).toNat = ps.length := by
      rw [UInt8.toNat_ofNat']
      exact Nat.mod_eq_of_lt (by simp only [List.length_cons] at hle; omega)
    have hsmall : ps.length < 128 := hle
    obtain ⟨last, hrow⟩ := extractRow_literal ps more p
    simp only [List.length_cons, Nat.add_sub_cancel, List.cons_append]
    rw [extractLoop]
    simp only [rowMax, hcode, if_pos hsmall, Nat.not_le.mpr hsmall, decide_false, hrow, List.cons_append]

/-- A run, as it is written, comes out as its copies. -/
theorem extractLoop_run (n : ℕ) (c : UInt8) (more : List UInt8) (hlow : 3 ≤ n) (hhigh : n ≤ 130) :
    extractLoop (UInt8.ofNat (n + 125) :: c :: more) =
      (List.replicate (n - 1) c ++ (extractLoop more).1, (extractLoop more).2) := by
  have hcode : (UInt8.ofNat (n + 125)).toNat = n + 125 := by
    rw [UInt8.toNat_ofNat']
    exact Nat.mod_eq_of_lt (by omega)
  have hmax : n + 125 - 126 = n - 1 := by omega
  have hbig : 128 ≤ n + 125 := by omega
  rw [extractLoop]
  simp only [rowMax, hcode, if_neg (Nat.not_lt.mpr hbig), hbig, decide_true, hmax, extractRow_run]

theorem literal_of_loop (t0 t1 : UInt8) (rest ys : List UInt8) (v y z : UInt8) (r' : Reader)
    (hloop : literalLoop [t0, t1] ⟨rest, false⟩ 127 = (ys ++ [v] ++ [y, z], r')) :
    literal t0 t1 ⟨rest, false⟩ =
      if z = y then (ys ++ [v], y, true, r') else (ys ++ [v] ++ [y], z, false, r') := by
  have hlength : (ys ++ [v] ++ [y, z]).length - 1 = ys.length + 2 := by simp
  have hlast : (ys ++ [v] ++ [y, z]).getD (ys.length + 2) 0 = z := by simp
  have hbefore : (ys ++ [v] ++ [y, z]).getD (ys.length + 1) 0 = y := by simp
  have hshort : (ys ++ [v] ++ [y, z]).take (ys.length + 1) = ys ++ [v] := by simp [List.take_append]
  have hlong : (ys ++ [v] ++ [y, z]).take (ys.length + 2) = ys ++ [v] ++ [y] := by simp [List.take_append]
  rw [literal]
  simp only [Bool.false_eq_true, if_false, hloop, hlength, hlast]
  have hpred : ys.length + 2 - 1 = ys.length + 1 := rfl
  by_cases hzy : z = y
  · rw [hzy] at hbefore hshort ⊢
    simp only [hpred, if_true, hbefore, hshort, decide_true]
  · simp only [hpred, hbefore, hzy, if_false, hlast, hlong, decide_false]

theorem compressLoop_eof (t0 : UInt8) (rest : List UInt8) : compressLoop t0 ⟨rest, true⟩ = [] := by
  rw [compressLoop]
  simp

/-- What is written for a run that begins with two bytes `t[0]`. -/
def runWritten (t0 : UInt8) (r : Reader) : List UInt8 :=
  UInt8.ofNat ((runLoop t0 r 128).1 + 125) :: t0 :: compressLoop (runLoop t0 r 128).2.1 (runLoop t0 r 128).2.2

theorem compressLoop_run (t0 : UInt8) (rest : List UInt8) (heq : t0 = kept (Reader.fgetc ⟨rest, false⟩).1) :
    compressLoop t0 ⟨rest, false⟩ = runWritten t0 (Reader.fgetc ⟨rest, false⟩).2 := by
  rw [compressLoop]
  simp only [Bool.false_eq_true, dite_false]
  rw [if_neg (not_not_intro heq)]
  rfl

theorem compressLoop_literal (t0 : UInt8) (rest part : List UInt8) (next : UInt8) (keep : Bool) (r : Reader)
    (hne : t0 ≠ kept (Reader.fgetc ⟨rest, false⟩).1)
    (hpart : literal t0 (kept (Reader.fgetc ⟨rest, false⟩).1) (Reader.fgetc ⟨rest, false⟩).2 = (part, next, keep, r)) :
    compressLoop t0 ⟨rest, false⟩ =
      UInt8.ofNat (part.length - 1) :: part ++ if keep then runWritten next r else compressLoop next r := by
  rw [compressLoop]
  simp only [Bool.false_eq_true, dite_false]
  rw [if_pos hne, hpart]
  rfl

/-- What is written for a run comes out as its copies and what is ahead. -/
theorem extractLoop_runWritten (t0 : UInt8) (r : Reader)
    (hnext : extractLoop (compressLoop (runLoop t0 r 128).2.1 (runLoop t0 r 128).2.2) =
      (ahead (runLoop t0 r 128).2.1 (runLoop t0 r 128).2.2, true)) :
    extractLoop (runWritten t0 r) = (List.replicate ((runLoop t0 r 128).1 - 1) t0 ++
      ahead (runLoop t0 r 128).2.1 (runLoop t0 r 128).2.2, true) := by
  obtain ⟨hlow, hhigh⟩ := runLoop_bounds t0 r 128 (by omega) le_rfl
  rw [runWritten, extractLoop_run _ _ _ hlow hhigh, hnext]

/-- The file has ended within a run of 0xFF, and it is filled up. -/
theorem extractLoop_fill : extractLoop (runWritten 0xFF ⟨[], true⟩) = (List.replicate 129 0xFF, true) := by
  have hrun := runLoop_eof 128
  rw [extractLoop_runWritten]
  · rw [hrun]
    simp [ahead]
  · rw [hrun]
    simp [ahead, compressLoop_eof, extractLoop]

/-- What `rle_compress` writes for `t[0]` and the rest of the file comes out as what is ahead. -/
theorem extractLoop_compressLoop (t0 : UInt8) (r : Reader) :
    extractLoop (compressLoop t0 r) = (ahead t0 r, true) := by
  induction hleft : r.left using Nat.strong_induction_on generalizing t0 r with
  | _ left ih =>
    obtain ⟨rest, feof⟩ := r
    cases feof with
    | true => simp [compressLoop_eof, ahead, extractLoop]
    | false =>
      have hrun (t : UInt8) (r' : Reader) (hless : r'.left < left) :
          extractLoop (runWritten t r') = (List.replicate ((runLoop t r' 128).1 - 1) t ++
            ahead (runLoop t r' 128).2.1 (runLoop t r' 128).2.2, true) :=
        extractLoop_runWritten t r' (ih _ ((left_runLoop t r' 128).trans_lt hless) _ _ rfl)
      have hcopies (t : UInt8) (rest' : List UInt8) (hless : Reader.left ⟨rest', false⟩ < left) :
          extractLoop (runWritten t ⟨rest', false⟩) = (padded (t :: t :: rest'), true) := by
        rw [hrun t _ hless, ← runLoop_ahead t rest' 128 (by omega) le_rfl]
        rfl
      cases rest with
      | nil =>
        by_cases ht0 : t0 = 0xFF
        · have hfill := padded_fill 1 (by omega) (by omega)
          rw [ht0, compressLoop_run 0xFF [] rfl]
          simp only [Reader.fgetc, extractLoop_fill, ahead, Bool.false_eq_true, if_false]
          rw [← hfill]
          rfl
        · have hpart : literal t0 0xFF ⟨[], true⟩ = ([t0], 0xFF, false, ⟨[], true⟩) := by
            simp [literal, Ne.symm ht0]
          have hone := padded_concat [] t0 ht0
          rw [compressLoop_literal t0 [] _ _ _ _ ht0 hpart, extractLoop_literal _ _ (by simp) (by simp)]
          simpa [compressLoop_eof, extractLoop, ahead] using hone.symm
      | cons t1 rest =>
        have hless : Reader.left ⟨rest, false⟩ < left := by simp [← hleft, Reader.left]
        by_cases ht0 : t0 = t1
        · rw [compressLoop_run t0 (t1 :: rest) ht0]
          simp only [Reader.fgetc, ahead, Bool.false_eq_true, if_false]
          rw [hcopies t0 rest hless, ht0]
        · obtain ⟨ys, v, y, z, r', hloop, hvy, hlength, hmore, hlast⟩ :=
            literalLoop_parts [] t0 t1 rest 127 ht0 rfl (by omega)
          have hless' : r'.left < left := by
            have hloop' := left_literalLoop [t0, t1] ⟨rest, false⟩ 127
            rw [List.nil_append] at hloop
            rw [hloop] at hloop'
            exact hloop'.trans_lt hless
          have hpart := literal_of_loop t0 t1 rest ys v y z r' hloop
          simp only [ahead, Bool.false_eq_true, if_false]
          by_cases hzy : z = y
          · rw [if_pos hzy] at hpart
            rw [compressLoop_literal t0 (t1 :: rest) _ _ _ _ ht0 hpart, if_pos rfl,
              extractLoop_literal _ _ (by simp) (by simp; omega)]
            cases hfeof : r'.feof with
            | true =>
              obtain ⟨hr', hz, hdata⟩ := hlast hfeof
              have hdata' : t0 :: t1 :: rest = ys ++ [v] ++ [0xFF] := by
                rw [← hz, hzy]
                simpa using hdata
              rw [hr', ← hzy, hz, extractLoop_fill, hdata', ← padded_fill 1 (by omega) (by omega)]
              have hne : v ≠ 0xFF := by
                rw [← hz, hzy]
                exact hvy
              exact congrArg (·, true) (padded_of_ne ys [] v 0xFF hne).symm
            | false =>
              obtain ⟨hdata, -⟩ := hmore hfeof
              have hr' : r' = ⟨r'.rest, false⟩ := by
                cases r'
                simp_all
              have hdata' : t0 :: t1 :: rest = ys ++ [v] ++ y :: y :: r'.rest := by
                rw [hzy] at hdata
                simpa using hdata
              rw [hdata', padded_of_ne _ _ _ _ hvy]
              rw [hr'] at hless' ⊢
              rw [hcopies y r'.rest hless']
          · rw [if_neg hzy] at hpart
            rw [compressLoop_literal t0 (t1 :: rest) _ _ _ _ ht0 hpart]
            simp only [Bool.false_eq_true, if_false]
            cases hfeof : r'.feof with
            | true =>
              obtain ⟨-, hz, hdata⟩ := hlast hfeof
              have hdata' : t0 :: t1 :: rest = ys ++ [v] ++ [y] := by simpa using hdata
              have hy : y ≠ 0xFF := fun hy => hzy (hz.trans hy.symm)
              rw [extractLoop_literal _ _ (by simp) (by simp; omega), ih r'.left hless' z r' rfl, hdata',
                padded_concat _ _ hy]
              simp [ahead, hfeof]
            | false =>
              obtain ⟨hdata, hfull⟩ := hmore hfeof
              have hdata' : t0 :: t1 :: rest = ys ++ [v] ++ [y] ++ z :: r'.rest := by simpa using hdata
              rw [extractLoop_literal _ _ (by simp) (by simp; omega), ih r'.left hless' z r' rfl, hdata',
                padded_of_ne _ _ _ _ (Ne.symm hzy)]
              simp [ahead, hfeof]

theorem extract_compress (source : List UInt8) : extract (compress source) = (padded source, true) := by
  cases source with
  | nil => simp [compress, Reader.fgetc, kept, compressLoop_eof, extract, extractLoop, padded, trailing]
  | cons t0 rest =>
    rw [extract, compress, extractLoop_compressLoop]
    rfl

/-- The tool gives a file back exactly when its last run of 0xFF, if any, is made of whole runs of 129. -/
theorem extract_compress_iff (source : List UInt8) :
    extract (compress source) = (source, true) ↔ 129 ∣ trailing source := by
  rw [extract_compress, Prod.mk.injEq, and_iff_left rfl, padded, List.append_right_eq_self, List.replicate_eq_nil_iff]
  omega

theorem not_extract_compress : ¬ ∀ source, extract (compress source) = (source, true) := by
  intro hall
  have hlength := congrArg (fun out => out.1.length) (hall [0xFF])
  simp [extract_compress, padded, trailing] at hlength

end CProgram.Rle
