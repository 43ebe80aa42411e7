import CProgram.Lib.Numerals

/-! Text files line by line as `fgets` gives them, and what `sscanf` takes from a line with `%s` and
with the conversions of whole numbers. -/
namespace CProgram.Lines
open Bytes Numerals

/-- The lines that `fgets` gives one after the other, none longer than `room`, the first of them begun
already. -/
def fgets (room : ℕ) : List UInt8 → List UInt8 → List (List UInt8)
  | line, [] => if line = [] then [] else [line]
  | line, ch :: text =>
    if ch = 10 ∨ line.length + 1 = room then (line ++ [ch]) :: fgets room [] text
    else fgets room (line ++ [ch]) text

/-- `%s`, and what is left. -/
def word (text : List UInt8) : List UInt8 × List UInt8 :=
  let text := text.dropWhile isSpace
  (text.takeWhile (!isSpace ·), text.dropWhile (!isSpace ·))

/-- A sign, if there is one: whether it is a minus, and what is left. -/
def sign : List UInt8 → Bool × List UInt8
  | 45 :: text => (true, text)
  | 43 :: text => (false, text)
  | text => (false, text)

/-- `%ld` in base 10, `%lo` in base 8, and what is left. -/
def number (b : ℕ) (text : List UInt8) : Option (ℤ × List UInt8) :=
  let (minus, text) := sign (text.dropWhile isSpace)
  if isDigitIn b (text.headD 0) then
    some (if minus then -(value b text 0 : ℤ) else value b text 0, text.dropWhile (isDigitIn b))
  else none

/-- What `printf` makes of a `long` with `%ld`. -/
def decimal (z : ℤ) : List UInt8 := if z < 0 then 45 :: numeral 10 z.natAbs else numeral 10 z.natAbs

/-- Nothing that ends a word. -/
def Unbroken (text : List UInt8) : Prop := ∀ ch ∈ text, isSpace ch = false

instance (text : List UInt8) : Decidable (Unbroken text) :=
  inferInstanceAs (Decidable (∀ ch ∈ text, isSpace ch = false))

variable {b room : ℕ} {line text rest : List UInt8} {ch : UInt8}

theorem fgets_line (hends : ∀ ch ∈ text, ch ≠ 10) (hroom : line.length + text.length < room) :
    fgets room line (text ++ 10 :: rest) = (line ++ text ++ [10]) :: fgets room [] rest := by
  induction text generalizing line with
  | nil => rw [List.nil_append, fgets, if_pos (Or.inl rfl), List.append_nil]
  | cons ch text ih =>
    have hch : ch ≠ 10 := hends ch List.mem_cons_self
    have hshort : line.length + 1 ≠ room := by
      simp only [List.length_cons] at hroom
      omega
    have hrest : (line ++ [ch]).length + text.length < room := by
      simp only [List.length_append, List.length_cons, List.length_nil] at hroom ⊢
      omega
    rw [List.cons_append, fgets, if_neg (by simp [hch, hshort]),
      ih (fun x hx => hends x (List.mem_cons_of_mem _ hx)) hrest]
    simp

/-- A line that is too long by its end alone comes in two pieces. -/
theorem fgets_full (hends : ∀ ch ∈ text, ch ≠ 10) (htext : text ≠ []) (hroom : line.length + text.length = room) :
    fgets room line (text ++ rest) = (line ++ text) :: fgets room [] rest := by
  induction text generalizing line with
  | nil => exact absurd rfl htext
  | cons ch text ih =>
    have hch : ch ≠ 10 := hends ch List.mem_cons_self
    rw [List.length_cons] at hroom
    cases text with
    | nil =>
      have hfull : line.length + 1 = room := hroom
      rw [List.cons_append, List.nil_append, fgets, if_pos (Or.inr hfull)]
    | cons next text =>
      have hshort : line.length + 1 ≠ room := by
        simp only [List.length_cons] at hroom
        omega
      have hrest : (line ++ [ch]).length + (next :: text).length = room := by
        simp only [List.length_append, List.length_cons, List.length_nil] at hroom ⊢
        omega
      rw [List.cons_append, fgets, if_neg (by simp [hch, hshort]),
        ih (fun x hx => hends x (List.mem_cons_of_mem _ hx)) (List.cons_ne_nil _ _) hrest]
      simp

/-- No line is longer than the room. -/
theorem fgets_length (hline : line.length < room) : ∀ l ∈ fgets room line text, l.length ≤ room := by
  induction text generalizing line with
  | nil =>
    intro l hl
    rw [fgets] at hl
    split at hl
    · cases hl
    · rw [List.mem_singleton.mp hl]
      omega
  | cons ch text ih =>
    intro l hl
    have hempty : ([] : List UInt8).length < room := Nat.lt_of_le_of_lt (Nat.zero_le _) hline
    rw [fgets] at hl
    split at hl
    · rcases List.mem_cons.mp hl with rfl | hrest
      · rw [List.length_append, List.length_singleton]
        omega
      · exact ih hempty l hrest
    · next hmore =>
      apply ih _ l hl
      rw [List.length_append, List.length_singleton]
      omega

theorem digit_plain (hten : b ≤ 10) (h : isDigitIn b ch = true) :
    isSpace ch = false ∧ ch ≠ 45 ∧ ch ≠ 43 := by
  have hrange : 48 ≤ ch.toNat ∧ ch.toNat < 48 + b := by simpa [isDigitIn] using h
  have hplain : ∀ c : UInt8, 48 ≤ c.toNat → isSpace c = false ∧ c ≠ 45 ∧ c ≠ 43 :=
    forall_byte (by decide +kernel)
  exact hplain ch hrange.1

theorem unbroken_numeral (hb : 1 < b) (hten : b ≤ 10) (n : ℕ) : Unbroken (numeral b n) :=
  fun _ hch => (digit_plain hten (isDigitIn_of_mem hb hten hch)).1

theorem unbroken_decimal (z : ℤ) : Unbroken (decimal z) := by
  have hdigits := unbroken_numeral (by decide) (le_refl 10) z.natAbs
  rw [decimal]
  split
  · intro ch hch
    obtain rfl | hch := List.mem_cons.mp hch
    · rfl
    · exact hdigits ch hch
  · exact hdigits

theorem ne_newline (h : Unbroken text) : ∀ ch ∈ text, ch ≠ 10 := by
  intro ch hch hnew
  have hspace := h ch hch
  rw [hnew] at hspace
  cases hspace

theorem takeWhile_unbroken (h : Unbroken text) (hrest : isSpace (rest.headD 32) = true) :
    (text ++ rest).takeWhile (!isSpace ·) = text ∧ (text ++ rest).dropWhile (!isSpace ·) = rest := by
  have hall : ∀ ch ∈ text, (!isSpace ch) = true := fun ch hch => by rw [h ch hch]; rfl
  rw [List.takeWhile_append_of_pos hall, List.dropWhile_append_of_pos hall]
  cases rest with
  | nil => exact ⟨List.append_nil _, rfl⟩
  | cons c rest =>
    have hc : ¬ (!isSpace c) = true := by simpa using hrest
    rw [List.takeWhile_cons, List.dropWhile_cons, if_neg hc, if_neg hc, List.append_nil]
    exact ⟨rfl, rfl⟩

theorem dropWhile_unbroken (h : Unbroken text) (hne : text ≠ []) :
    (text ++ rest).dropWhile isSpace = text ++ rest := by
  obtain ⟨ch, text, rfl⟩ := List.exists_cons_of_ne_nil hne
  have hch := h ch List.mem_cons_self
  rw [List.cons_append, List.dropWhile_cons_of_neg (by simp [hch])]

/-- A word behind at most one blank is read, and what follows it is left. -/
theorem word_append (h : Unbroken text) (hne : text ≠ []) (hrest : isSpace (rest.headD 32) = true) :
    word (text ++ rest) = (text, rest) := by
  obtain ⟨htake, hdrop⟩ := takeWhile_unbroken h hrest
  rw [word]
  simp only [dropWhile_unbroken h hne, htake, hdrop]

theorem word_blank : word (32 :: text) = word text := by
  rw [word, word, List.dropWhile_cons_of_pos rfl]

theorem number_blank : number b (32 :: text) = number b text := by
  rw [number, number, List.dropWhile_cons_of_pos rfl]

/-- The digits of a number are read up to the first byte that is none. -/
theorem digits_append (hb : 1 < b) (hten : b ≤ 10) (n : ℕ) (hrest : isDigitIn b (rest.headD 0) = false) :
    isDigitIn b ((numeral b n ++ rest).headD 0) = true ∧ value b (numeral b n ++ rest) 0 = n ∧
      (numeral b n ++ rest).dropWhile (isDigitIn b) = rest := by
  have hdigits : ∀ ch ∈ numeral b n, isDigitIn b ch = true := fun ch hch => isDigitIn_of_mem hb hten hch
  have hend : value b rest n = n ∧ rest.dropWhile (isDigitIn b) = rest := by
    cases rest with
    | nil => exact ⟨rfl, rfl⟩
    | cons c rest =>
      have hc : ¬ isDigitIn b c = true := by simpa using hrest
      exact ⟨by rw [value, if_neg hc], List.dropWhile_cons_of_neg hc⟩
  constructor
  · obtain ⟨ch, front, hfront⟩ := List.exists_cons_of_ne_nil (numeral_ne_nil (b := b) n)
    have hhead := hdigits ch (by rw [hfront]; exact List.mem_cons_self)
    rw [hfront]
    exact hhead
  · rw [value_append hdigits, value_numeral hb hten, List.dropWhile_append_of_pos hdigits]
    exact hend

theorem sign_plain (h : text.headD 0 ≠ 45 ∧ text.headD 0 ≠ 43) : sign text = (false, text) := by
  cases text with
  | nil => rfl
  | cons ch text =>
    have hch : ch ≠ 45 ∧ ch ≠ 43 := h
    rw [sign]
    · intro rest heq
      exact hch.1 (List.cons.inj heq).1
    · intro rest heq
      exact hch.2 (List.cons.inj heq).1

theorem number_numeral (hb : 1 < b) (hten : b ≤ 10) (n : ℕ) (hrest : isDigitIn b (rest.headD 0) = false) :
    number b (numeral b n ++ rest) = some ((n : ℤ), rest) := by
  obtain ⟨hhead, hvalue, hdrop⟩ := digits_append hb hten n hrest
  have hplain := digit_plain hten hhead
  rw [number, dropWhile_unbroken (unbroken_numeral hb hten n) (numeral_ne_nil n), sign_plain hplain.2]
  simp only [hhead, hvalue, hdrop, if_true]
  rfl

theorem number_decimal (z : ℤ) (hrest : isDigitIn 10 (rest.headD 0) = false) :
    number 10 (decimal z ++ rest) = some (z, rest) := by
  obtain ⟨hhead, hvalue, hdrop⟩ := digits_append (by decide) (le_refl 10) z.natAbs hrest
  rw [decimal]
  split
  · next hneg =>
    rw [number, List.cons_append, List.dropWhile_cons_of_neg (by decide), sign]
    simp only [hhead, hvalue, hdrop, if_true]
    have habs : -(z.natAbs : ℤ) = z := by omega
    rw [habs]
  · next hpos =>
    have habs : (z.natAbs : ℤ) = z := by omega
    rw [number_numeral (by decide) le_rfl _ hrest, habs]

theorem length_decimal_le {z : ℤ} {k : ℕ} (hk : 0 < k) (h : z.natAbs < 10 ^ k) :
    (decimal z).length ≤ k + 1 := by
  have hdigits := length_numeral_le (b := 10) (by decide) hk h
  rw [decimal]
  split
  · simpa using hdigits
  · omega

end CProgram.Lines
