import CProgram.Xmodem.Machine
import Mathlib.Data.List.DropRight

/-! The loop that takes the padding off a received file. The position that `ftell` reports runs one
byte behind the size after every cut, so each byte takes two rounds; the loop ends at a byte that is
not SUB, and never ends when there is none. -/
namespace CProgram.Xmodem.Tail

/-- The file without the SUBs at its end. -/
def strip (content : List UInt8) : List UInt8 := content.rdropWhile (· = cSub)

theorem prefix_strip (content : List UInt8) : strip content <+: content := List.rdropWhile_prefix _ _

theorem strip_concat (front : List UInt8) : strip (front ++ [cSub]) = strip front :=
  List.rdropWhile_concat_pos _ _ _ (by decide)

theorem strip_concat_of_ne (front : List UInt8) {ch : UInt8} (hch : ch ≠ cSub) :
    strip (front ++ [ch]) = front ++ [ch] :=
  List.rdropWhile_concat_neg _ _ _ (by simp [hch])

theorem strip_append_replicate (content : List UInt8) (k : ℕ) :
    strip (content ++ List.replicate k cSub) = strip content := by
  induction k with
  | zero => rw [List.replicate_zero, List.append_nil]
  | succ k ih => rw [List.replicate_succ', ← List.append_assoc, strip_concat, ih]

/-- Cutting the file anywhere behind the stripped part does not change that part. -/
theorem strip_take {content : List UInt8} {n : ℕ} (h : (strip content).length ≤ n) :
    strip (content.take n) = strip content := by
  induction content using List.reverseRecOn with
  | nil => rw [List.take_nil]
  | append_singleton front ch ih =>
    by_cases hch : ch = cSub
    · subst hch
      rw [strip_concat] at h ⊢
      by_cases hn : n ≤ front.length
      · rw [List.take_append_of_le_length hn, ih h]
      · rw [List.take_of_length_le (by simp; omega), strip_concat]
    · rw [strip_concat_of_ne front hch] at h
      rw [List.take_of_length_le h]

/-- What `ftell` reports: the size, or one more after a cut. -/
def Level (t : Tail) : Prop :=
  t.position = t.content.length ∨ t.filesize = t.content.length + 1

theorem bmod_le (n m : ℕ) : (n : ℤ).bmod m ≤ n := by
  have hmod : ((n % m : ℕ) : ℤ) ≤ n := by exact_mod_cast Nat.mod_le n m
  rw [Int.bmod_def, ← Int.natCast_emod]
  split <;> omega

theorem bmod_of_lt {n m : ℕ} (h : 2 * n < m) : (n : ℤ).bmod m = n :=
  Int.bmod_eq_of_le (by omega) (by omega)

theorem toInt_le (n : ℕ) : toInt n ≤ n := by
  unfold toInt
  exact bmod_le n _

theorem toInt_of_lt {n : ℕ} (h : n < 2147483648) : toInt n = n := by
  unfold toInt
  exact bmod_of_lt (by omega)

theorem Level.filesize_le {t : Tail} (h : t.Level) : t.filesize ≤ t.content.length + 1 := by
  rcases h with h | h
  · have hle : t.filesize ≤ (t.position : ℤ) := toInt_le t.position
    omega
  · exact h.le

theorem toInt_lt (n : ℕ) : toInt n < 2147483648 := by
  unfold toInt
  exact lt_of_lt_of_eq (Int.bmod_lt (by decide)) (by decide)

/-- The last byte is what is read from a file that has one. -/
theorem readLast {t : Tail} {front : List UInt8} {ch : UInt8} (h : t.content = front ++ [ch]) :
    t.seekLast.readByte = ⟨t.content, t.content.length, ch⟩ := by
  have hne : t.content ≠ [] := by simp [h]
  have hlength : t.content.length = front.length + 1 := by simp [h]
  rw [seekLast, if_neg hne, readByte, if_pos (by simp [hlength])]
  simp [h]

/-- An empty file has no byte before its end. -/
theorem readNothing {t : Tail} (h : t.content = []) : t.seekLast.readByte = t := by
  rw [seekLast, if_pos h, readByte, if_neg (by simp [h])]

theorem ftruncate_of_le {content : List UInt8} {size : ℤ} (h : size ≤ content.length) :
    ftruncate content size = if size < 0 then content else content.take size.toNat := by
  rw [ftruncate]
  split
  · rfl
  · exact List.takeD_eq_take _ (by omega)

/-- A SUB at the end: one round cuts the file to one byte less than `ftell` reported. -/
theorem round_of_sub {t : Tail} {front : List UInt8} (hlevel : t.Level)
    (h : t.content = front ++ [cSub]) :
    t.round = (⟨if t.filesize ≤ 0 then t.content else t.content.take (t.filesize - 1).toNat,
      t.content.length, cSub⟩, false) := by
  have hsize := hlevel.filesize_le
  have hcut : ftruncate t.content (t.filesize - 1) =
      if t.filesize ≤ 0 then t.content else t.content.take (t.filesize - 1).toNat := by
    rw [ftruncate_of_le (by omega)]
    by_cases hpos : t.filesize ≤ 0
    · rw [if_pos hpos, if_pos (by omega)]
    · rw [if_neg hpos, if_neg (by omega)]
  rw [round, readLast h, if_pos rfl]
  dsimp only
  rw [hcut]

/-- The round at the end of a file that has not been cut. -/
theorem round_of_level {content front : List UInt8} (h : content = front ++ [cSub]) (lastByte : UInt8) :
    round ⟨content, content.length, lastByte⟩ =
      (⟨if toInt content.length ≤ 0 then content else content.take (toInt content.length - 1).toNat,
        content.length, cSub⟩, false) :=
  round_of_sub (.inl rfl) h

theorem round_of_ne {t : Tail} {front : List UInt8} {ch : UInt8} (h : t.content = front ++ [ch])
    (hch : ch ≠ cSub) : t.round = (⟨t.content, t.content.length, ch⟩, true) := by
  rw [round, readLast h, if_neg hch]

theorem cleanUp_of_round {t t' : Tail} {rounds : ℕ} (h : t.round = (t', false)) :
    cleanUp (rounds + 1) t = cleanUp rounds t' := by
  rw [cleanUp, h]
  rfl

theorem cleanUp_of_ne {t : Tail} {front : List UInt8} {ch : UInt8} (h : t.content = front ++ [ch])
    (hch : ch ≠ cSub) (rounds : ℕ) : cleanUp (rounds + 1) t = some t.content := by
  rw [cleanUp, round_of_ne h hch]
  rfl

/-- The round behind a cut that left `ftell` one byte ahead brings the position back. -/
theorem cleanUp_behind (content : List UInt8) (position : ℕ)
    (hposition : toInt position = content.length + 1) (hne : strip content ≠ [])
    (hnext : ∃ rounds, cleanUp rounds ⟨content, content.length, cSub⟩ = some (strip content))
    (lastByte : UInt8) :
    ∃ rounds, cleanUp rounds ⟨content, position, lastByte⟩ = some (strip content) := by
  obtain rfl | ⟨front, ch, rfl⟩ := content.eq_nil_or_concat'
  · exact absurd (List.rdropWhile_nil _) hne
  by_cases hch : ch = cSub
  · subst hch
    have hfilesize : filesize ⟨front ++ [cSub], position, lastByte⟩ = (front ++ [cSub]).length + 1 :=
      hposition
    have hround := round_of_sub (t := ⟨front ++ [cSub], position, lastByte⟩) (.inr hfilesize) rfl
    rw [hfilesize, if_neg (by omega), Int.add_sub_cancel, Int.toNat_natCast, List.take_length] at hround
    obtain ⟨rounds, hrounds⟩ := hnext
    exact ⟨rounds + 1, (cleanUp_of_round hround).trans hrounds⟩
  · rw [strip_concat_of_ne front hch]
    exact ⟨1, cleanUp_of_ne rfl hch 0⟩

/-- A file below 2 GiB loses the SUBs at its end. -/
theorem cleanUp_of_short (content : List UInt8) (hne : strip content ≠ [])
    (hshort : content.length < 2147483648) (lastByte : UInt8) :
    ∃ rounds, cleanUp rounds ⟨content, content.length, lastByte⟩ = some (strip content) := by
  induction content using List.reverseRecOn generalizing lastByte with
  | nil => exact absurd (List.rdropWhile_nil _) hne
  | append_singleton front ch ih =>
    by_cases hch : ch = cSub
    · subst hch
      have hlength : (front ++ [cSub]).length = front.length + 1 := by simp
      have hfilesize : toInt (front ++ [cSub]).length = front.length + 1 := by
        rw [toInt_of_lt hshort, hlength]
        rfl
      have hround := round_of_level (rfl : front ++ [cSub] = front ++ [cSub]) lastByte
      rw [hfilesize, if_neg (by omega), Int.add_sub_cancel, Int.toNat_natCast, List.take_left] at hround
      rw [strip_concat] at hne ⊢
      obtain ⟨rounds, hrounds⟩ := cleanUp_behind front (front ++ [cSub]).length hfilesize hne
        (ih hne (by omega) cSub) cSub
      exact ⟨rounds + 1, (cleanUp_of_round hround).trans hrounds⟩
    · rw [strip_concat_of_ne front hch]
      exact ⟨1, cleanUp_of_ne rfl hch 0⟩

/-- A cut leaves `ftell` level, or one byte ahead. -/
theorem level_round {t : Tail} {front : List UInt8} (hlevel : t.Level)
    (h : t.content = front ++ [cSub]) : t.round.1.Level ∧ t.round.1.content <+: t.content := by
  rw [round_of_sub hlevel h]
  by_cases hpos : t.filesize ≤ 0
  · rw [if_pos hpos]
    exact ⟨.inl rfl, List.prefix_rfl⟩
  · have hsize := hlevel.filesize_le
    rw [if_neg hpos]
    refine ⟨?_, List.take_prefix _ _⟩
    have hlength : (t.content.take (t.filesize - 1).toNat).length = (t.filesize - 1).toNat := by
      rw [List.length_take]
      omega
    rcases hlevel with hposition | hahead
    · refine .inr ?_
      have hsame : toInt t.content.length = t.filesize := by rw [filesize, hposition]
      rw [filesize, hlength, hsame]
      omega
    · refine .inl ?_
      change t.content.length = (t.content.take (t.filesize - 1).toNat).length
      rw [hlength]
      omega

/-- What the loop ends with is cut from the file and does not end in SUB. -/
theorem cleanUp_some {rounds : ℕ} {t : Tail} {result : List UInt8} (hlevel : t.Level)
    (hempty : t.content = [] → t.lastByte = cSub) (h : cleanUp rounds t = some result) :
    result <+: t.content ∧ ∃ front ch, result = front ++ [ch] ∧ ch ≠ cSub := by
  induction rounds generalizing t with
  | zero => cases h
  | succ rounds ih =>
    obtain hnil | ⟨front, ch, hcontent⟩ := t.content.eq_nil_or_concat'
    · -- nothing is read, and `last_byte` keeps the SUB
      have hread := readNothing hnil
      have hround : t.round = (t, false) := by
        have hcut : ftruncate t.content (t.filesize - 1) = t.content := by
          have hsize := hlevel.filesize_le
          rw [ftruncate_of_le (by omega), hnil, List.take_nil]
          exact ite_self _
        rw [round, hread, if_pos (hempty hnil), hcut]
      rw [cleanUp_of_round hround] at h
      exact ih hlevel hempty h
    · by_cases hch : ch = cSub
      · subst hch
        have hnext := level_round hlevel hcontent
        have hround := round_of_sub hlevel hcontent
        rw [cleanUp_of_round hround] at h
        rw [hround] at hnext
        obtain ⟨hfront, hlast⟩ := ih hnext.1 (fun _ => rfl) h
        exact ⟨hfront.trans hnext.2, hlast⟩
      · rw [cleanUp_of_ne hcontent hch, Option.some_inj] at h
        exact h ▸ ⟨List.prefix_rfl, front, ch, hcontent, hch⟩

/-- A size that is no positive `int` is never cut. -/
theorem cleanUp_of_nonpos {content front : List UInt8} (hcontent : content = front ++ [cSub])
    (hsize : toInt content.length ≤ 0) (rounds : ℕ) (lastByte : UInt8) :
    cleanUp rounds ⟨content, content.length, lastByte⟩ = none := by
  induction rounds generalizing lastByte with
  | zero => rfl
  | succ rounds ih =>
    have hround := round_of_level hcontent lastByte
    rw [if_pos hsize] at hround
    rw [cleanUp_of_round hround, ih]

/-- The file has a byte other than SUB, and either none to strip, or a size that is still behind
that byte when it is read as an `int`. -/
def Cleans (content : List UInt8) : Prop :=
  strip content ≠ [] ∧
    (strip content = content ∨ ((strip content).length : ℤ) < toInt content.length)

/-- Exactly when the loop ends, and ends with the right file. -/
theorem cleanUp_iff {content : List UInt8} (hne : content ≠ []) (lastByte : UInt8) :
    (∃ rounds, cleanUp rounds ⟨content, content.length, lastByte⟩ = some (strip content)) ↔
      Cleans content := by
  obtain rfl | ⟨front, ch, hcontent⟩ := content.eq_nil_or_concat'
  · exact absurd rfl hne
  by_cases hch : ch = cSub
  case neg =>
    have hstrip : strip content = content := by
      rw [hcontent]
      exact strip_concat_of_ne front hch
    refine ⟨fun _ => ⟨by rwa [hstrip], .inl hstrip⟩, fun _ => ⟨1, ?_⟩⟩
    rw [hstrip]
    exact cleanUp_of_ne hcontent hch 0
  subst hch
  have hshorter : (strip content).length < content.length := by
    have hle := (prefix_strip front).length_le
    rw [hcontent, strip_concat, List.length_append]
    exact Nat.lt_succ_of_le hle
  have hround := round_of_level hcontent lastByte
  constructor
  · rintro ⟨rounds, hrounds⟩
    obtain ⟨-, last, ch, hlast, hch⟩ := cleanUp_some (.inl rfl) (fun h => absurd h hne) hrounds
    refine ⟨by simp [hlast], .inr (by_contra fun hsize => ?_)⟩
    by_cases hpos : toInt content.length ≤ 0
    · rw [cleanUp_of_nonpos hcontent hpos] at hrounds
      cases hrounds
    · cases rounds with
      | zero => cases hrounds
      | succ rounds =>
        rw [cleanUp_of_round hround] at hrounds
        have hlevel := (level_round (t := ⟨content, content.length, lastByte⟩) (.inl rfl) hcontent).1
        rw [hround, if_neg hpos] at hlevel
        rw [if_neg hpos] at hrounds
        have hfront := (cleanUp_some hlevel (fun _ => rfl) hrounds).1.length_le
        rw [List.length_take] at hfront
        omega
  · rintro ⟨hstrip, hsame | hsize⟩
    · rw [hsame] at hshorter
      exact absurd hshorter (lt_irrefl _)
    · have hle := toInt_le content.length
      have hlt := toInt_lt content.length
      have hcut : strip (content.take (toInt content.length - 1).toNat) = strip content :=
        strip_take (by omega)
      have hlength : (content.take (toInt content.length - 1).toNat).length =
          (toInt content.length - 1).toNat := by
        rw [List.length_take]
        omega
      rw [← hcut] at hstrip
      obtain ⟨rounds, hrounds⟩ := cleanUp_behind _ content.length (by omega) hstrip
        (cleanUp_of_short _ hstrip (by omega) cSub) cSub
      refine ⟨rounds + 1, (cleanUp_of_round hround).trans ?_⟩
      rw [if_neg (by omega), ← hcut]
      exact hrounds

end CProgram.Xmodem.Tail
