import CProgram.Lib.Bytes

/-! C strings that lie one behind the other in a buffer, `strtok` with one delimiter, and fields of
hexadecimal digits of a fixed width. -/
namespace CProgram.Strings
open Bytes

/-- The string that starts at a place of a buffer. -/
def cstr (buf : List UInt8) (p : ℕ) : List UInt8 := (buf.drop p).takeWhile (· ≠ 0)

/-- `p + strlen(p) + 1`. -/
def next (buf : List UInt8) (p : ℕ) : ℕ := p + (cstr buf p).length + 1

/-- The tokens that `strtok` gives one after the other, the first of them begun already. -/
def tokens (d : UInt8) : List UInt8 → List UInt8 → List (List UInt8)
  | tok, [] => if tok = [] then [] else [tok]
  | tok, ch :: s =>
    if ch = d then (if tok = [] then tokens d [] s else tok :: tokens d [] s)
    else tokens d (tok ++ [ch]) s

/-- What `strtok` leaves of its string: the delimiter behind a token is overwritten. -/
def cut (d : UInt8) : Bool → List UInt8 → List UInt8
  | _, [] => []
  | inToken, ch :: s =>
    if ch = d then (if inToken then 0 else d) :: cut d false s else ch :: cut d true s

/-- Words with one byte between them. -/
def joined (d : UInt8) : List (List UInt8) → List UInt8
  | [] => []
  | [w] => w
  | w :: rest => w ++ d :: joined d rest

/-- A string without a NUL. -/
def Text (s : List UInt8) : Prop := ∀ ch ∈ s, ch ≠ 0

theorem takeWhile_text {s rest : List UInt8} (hs : Text s) :
    (s ++ 0 :: rest).takeWhile (· ≠ 0) = s := by
  induction s with
  | nil => simp
  | cons ch s ih =>
    have hhead : ch ≠ 0 := hs ch List.mem_cons_self
    have htail : Text s := fun x hx => hs x (List.mem_cons_of_mem _ hx)
    rw [List.cons_append, List.takeWhile_cons_of_pos (by simpa using hhead), ih htail]

theorem cstr_at (pre : List UInt8) {s rest : List UInt8} (hs : Text s) :
    cstr (pre ++ (s ++ 0 :: rest)) pre.length = s := by
  rw [cstr, List.drop_left, takeWhile_text hs]

theorem next_at (pre : List UInt8) {s rest : List UInt8} (hs : Text s) :
    next (pre ++ (s ++ 0 :: rest)) pre.length = (pre ++ (s ++ [0])).length := by
  rw [next, cstr_at pre hs]
  simp [Nat.add_assoc]

/-- A word of a list to be cut apart. -/
def Word (d : UInt8) (w : List UInt8) : Prop := w ≠ [] ∧ d ∉ w

theorem tokens_word {d : UInt8} {w : List UInt8} (hw : d ∉ w) (tok rest : List UInt8) :
    tokens d tok (w ++ rest) = tokens d (tok ++ w) rest := by
  induction w generalizing tok with
  | nil => simp
  | cons ch w ih =>
    have hch : ch ≠ d := fun h => hw (h ▸ List.mem_cons_self)
    rw [List.cons_append, tokens, if_neg hch, ih fun h => hw (List.mem_cons_of_mem _ h)]
    simp

theorem tokens_joined {d : UInt8} (words : List (List UInt8)) (hwords : ∀ w ∈ words, Word d w) :
    tokens d [] (joined d words) = words := by
  induction words with
  | nil => rfl
  | cons w words ih =>
    have hw := hwords w List.mem_cons_self
    cases words with
    | nil =>
      have happend := tokens_word hw.2 [] []
      rw [List.append_nil] at happend
      rw [joined, happend, List.nil_append, tokens, if_neg hw.1]
    | cons v words =>
      rw [joined, tokens_word hw.2, List.nil_append, tokens, if_pos rfl, if_neg hw.1,
        ih fun x hx => hwords x (List.mem_cons_of_mem _ hx)]
      exact fun h => by cases h

theorem cut_word {d : UInt8} {w : List UInt8} (hw : d ∉ w) (b : Bool) (rest : List UInt8) :
    cut d b (w ++ rest) = w ++ cut d (b || !w.isEmpty) rest := by
  induction w generalizing b with
  | nil => simp
  | cons ch w ih =>
    have hch : ch ≠ d := fun h => hw (h ▸ List.mem_cons_self)
    rw [List.cons_append, cut, if_neg hch, ih fun h => hw (List.mem_cons_of_mem _ h)]
    simp

/-- Behind a run of `strtok` the words stand as strings one behind the other. -/
theorem cut_joined {d : UInt8} (words : List (List UInt8)) (hwords : ∀ w ∈ words, Word d w) :
    cut d false (joined d words) = joined 0 words := by
  induction words with
  | nil => rfl
  | cons w words ih =>
    have hw := hwords w List.mem_cons_self
    have hfull : w.isEmpty = false := by simpa using hw.1
    cases words with
    | nil =>
      have happend := cut_word hw.2 false []
      rw [List.append_nil] at happend
      rw [joined, joined, happend, cut, List.append_nil]
    | cons v words =>
      have hsplit (c : UInt8) : joined c (w :: v :: words) = w ++ c :: joined c (v :: words) := rfl
      rw [hsplit, hsplit, cut_word hw.2, cut, if_pos rfl, hfull,
        ih fun x hx => hwords x (List.mem_cons_of_mem _ hx)]
      simp

/-! Hexadecimal fields. -/

def hexDigit (n : ℕ) : UInt8 := if n < 10 then UInt8.ofNat (48 + n) else UInt8.ofNat (87 + n)

/-- `%0kx`, for what fits. -/
def hexField : ℕ → ℕ → List UInt8
  | 0, _ => []
  | k + 1, n => hexField k (n / 16) ++ [hexDigit (n % 16)]

def isHexDigit (ch : UInt8) : Bool :=
  isDigit ch || (decide (65 ≤ ch) && decide (ch ≤ 70)) || (decide (97 ≤ ch) && decide (ch ≤ 102))

def hexValue (ch : UInt8) : ℕ :=
  if isDigit ch then ch.toNat - 48 else if ch ≤ 70 then ch.toNat - 55 else ch.toNat - 87

/-- The digits at the front, no more than the width, and what follows them. -/
def takeHex : ℕ → List UInt8 → ℕ → ℕ × List UInt8
  | 0, s, n => (n, s)
  | _ + 1, [], n => (n, [])
  | k + 1, ch :: s, n => if isHexDigit ch then takeHex k s (16 * n + hexValue ch) else (n, ch :: s)

/-- `sscanf` with `%kx`: white space, then a sign and `0x` within the width, then digits. -/
def scanHex (width : ℕ) (text : List UInt8) : Option (ℤ × List UInt8) :=
  let signed : Bool × ℕ × List UInt8 :=
    match text.dropWhile isSpace with
    | 45 :: rest => (true, width - 1, rest)
    | 43 :: rest => (false, width - 1, rest)
    | rest => (false, width, rest)
  let body : ℕ × List UInt8 :=
    match signed.2.2 with
    | 48 :: 120 :: rest => (signed.2.1 - 2, rest)
    | 48 :: 88 :: rest => (signed.2.1 - 2, rest)
    | rest => (signed.2.1, rest)
  if isHexDigit (body.2.headD 0) then
    let read := takeHex body.1 body.2 0
    some (if signed.1 then -(read.1 : ℤ) else read.1, read.2)
  else none

theorem forall_digit {P : ℕ → Prop} (h : ∀ i : Fin 16, P i) {n : ℕ} (hn : n < 16) : P n :=
  h ⟨n, hn⟩

theorem hexDigit_facts {n : ℕ} (hn : n < 16) :
    isHexDigit (hexDigit n) = true ∧ hexValue (hexDigit n) = n ∧ isSpace (hexDigit n) = false ∧
      hexDigit n ≠ 0 ∧ hexDigit n ≠ 45 ∧ hexDigit n ≠ 43 ∧ hexDigit n ≠ 120 ∧ hexDigit n ≠ 88 := by
  refine forall_digit (P := fun n => isHexDigit (hexDigit n) = true ∧ hexValue (hexDigit n) = n ∧
    isSpace (hexDigit n) = false ∧ hexDigit n ≠ 0 ∧ hexDigit n ≠ 45 ∧ hexDigit n ≠ 43 ∧
      hexDigit n ≠ 120 ∧ hexDigit n ≠ 88) ?_ hn
  decide

theorem length_hexField (k n : ℕ) : (hexField k n).length = k := by
  induction k generalizing n with
  | zero => rfl
  | succ k ih => simp [hexField, ih]

theorem exists_of_mem_hexField {k n : ℕ} {ch : UInt8} (h : ch ∈ hexField k n) :
    ∃ m < 16, ch = hexDigit m := by
  induction k generalizing n with
  | zero => cases h
  | succ k ih =>
    rw [hexField, List.mem_append, List.mem_singleton] at h
    rcases h with hfront | hlast
    · exact ih hfront
    · exact ⟨n % 16, Nat.mod_lt n (by decide), hlast⟩

theorem text_hexField (k n : ℕ) : Text (hexField k n) := by
  intro ch hch
  obtain ⟨m, hm, rfl⟩ := exists_of_mem_hexField hch
  exact (hexDigit_facts hm).2.2.2.1

theorem takeHex_append (k j : ℕ) (s rest : List UInt8) (hlength : s.length = k)
    (hs : ∀ ch ∈ s, isHexDigit ch = true) (n : ℕ) :
    takeHex (k + j) (s ++ rest) n = takeHex j rest (takeHex k s n).1 := by
  induction s generalizing k n with
  | nil =>
    subst hlength
    simp [takeHex]
  | cons ch s ih =>
    subst hlength
    have hhead := hs ch List.mem_cons_self
    rw [List.length_cons, show s.length + 1 + j = (s.length + j) + 1 by omega, List.cons_append,
      takeHex, if_pos hhead, ih s.length rfl (fun x hx => hs x (List.mem_cons_of_mem _ hx)), takeHex,
      if_pos hhead]

theorem takeHex_hexField (k n m : ℕ) (hn : n < 16 ^ k) :
    (takeHex k (hexField k n) m).1 = 16 ^ k * m + n := by
  induction k generalizing n with
  | zero => simp only [pow_zero] at hn; simp [takeHex]; omega
  | succ k ih =>
    have hdigit := hexDigit_facts (Nat.mod_lt n (by decide : 0 < 16))
    have hsmall : n / 16 < 16 ^ k := by
      rw [pow_succ] at hn
      exact Nat.div_lt_of_lt_mul (by omega)
    rw [hexField, takeHex_append k 1 _ _ (length_hexField k _), ih (n / 16) hsmall]
    · simp only [takeHex, hdigit.1, if_true, hdigit.2.1]
      rw [pow_succ, Nat.mul_add]
      have hsplit := Nat.div_add_mod n 16
      calc 16 * (16 ^ k * m) + 16 * (n / 16) + n % 16 = 16 * (16 ^ k * m) + n := by omega
        _ = 16 ^ k * 16 * m + n := by ring
    · intro ch hch
      obtain ⟨i, hi, rfl⟩ := exists_of_mem_hexField hch
      exact (hexDigit_facts hi).1

theorem hexField_cons (k n : ℕ) : ∃ m < 16, ∃ rest, hexField (k + 1) n = hexDigit m :: rest ∧
    ∀ ch ∈ rest, ∃ i < 16, ch = hexDigit i := by
  cases h : hexField (k + 1) n with
  | nil =>
    have hlength := length_hexField (k + 1) n
    rw [h] at hlength
    cases hlength
  | cons ch rest =>
    obtain ⟨m, hm, rfl⟩ := exists_of_mem_hexField (h ▸ List.mem_cons_self : ch ∈ hexField (k + 1) n)
    exact ⟨m, hm, rest, rfl, fun x hx =>
      exists_of_mem_hexField (h ▸ List.mem_cons_of_mem _ hx : x ∈ hexField (k + 1) n)⟩

/-- A field of its full width is read back, with anything behind it. -/
theorem scanHex_hexField {k n : ℕ} (hk : 1 < k) (hn : n < 16 ^ k) (rest : List UInt8) :
    scanHex k (hexField k n ++ rest) = some ((n : ℤ), rest) := by
  obtain ⟨j, rfl⟩ : ∃ j, k = j + 1 + 1 := ⟨k - 2, by omega⟩
  have hall : ∀ ch ∈ hexField (j + 2) n, isHexDigit ch = true := by
    intro ch hch
    obtain ⟨i, hi, rfl⟩ := exists_of_mem_hexField hch
    exact (hexDigit_facts hi).1
  have hread : takeHex (j + 2) (hexField (j + 2) n ++ rest) 0 = (n, rest) := by
    have happend := takeHex_append (j + 2) 0 (hexField (j + 2) n) rest (length_hexField _ _) hall 0
    rw [Nat.add_zero] at happend
    rw [happend, takeHex, takeHex_hexField _ _ _ hn]
    simp
  obtain ⟨m, hm, tail, hfield, htail⟩ := hexField_cons (j + 1) n
  have hfacts := hexDigit_facts hm
  rw [show j + 1 + 1 = j + 2 from rfl] at hfield ⊢
  have hsecond : ∃ ch more, tail = ch :: more := by
    cases tail with
    | nil =>
      have hlength := length_hexField (j + 2) n
      rw [hfield] at hlength
      simp at hlength
    | cons ch more => exact ⟨ch, more, rfl⟩
  obtain ⟨ch, more, rfl⟩ := hsecond
  obtain ⟨i, hi, rfl⟩ := htail _ List.mem_cons_self
  have hother := hexDigit_facts hi
  rw [hfield] at hread ⊢
  have hdrop : ((hexDigit m :: hexDigit i :: more) ++ rest).dropWhile isSpace =
      hexDigit m :: hexDigit i :: (more ++ rest) := by
    rw [List.cons_append, List.dropWhile_cons_of_neg (by simp [hfacts.2.2.1]), List.cons_append]
  rw [List.cons_append, List.cons_append] at hread
  unfold scanHex
  rw [hdrop]
  generalize hexDigit m = a at *
  generalize hexDigit i = b at *
  have hsign : (match a :: b :: (more ++ rest) with
      | 45 :: rest => (true, j + 2 - 1, rest)
      | 43 :: rest => (false, j + 2 - 1, rest)
      | rest => (false, j + 2, rest)) = (false, j + 2, a :: b :: (more ++ rest)) := by
    split
    · next h => exact absurd (List.cons.inj h).1 hfacts.2.2.2.2.1
    · next h => exact absurd (List.cons.inj h).1 hfacts.2.2.2.2.2.1
    · rfl
  have hbody : (match a :: b :: (more ++ rest) with
      | 48 :: 120 :: rest => (j + 2 - 2, rest)
      | 48 :: 88 :: rest => (j + 2 - 2, rest)
      | rest => (j + 2, rest)) = (j + 2, a :: b :: (more ++ rest)) := by
    split
    · next h => exact absurd (List.cons.inj (List.cons.inj h).2).1 hother.2.2.2.2.2.2.1
    · next h => exact absurd (List.cons.inj (List.cons.inj h).2).1 hother.2.2.2.2.2.2.2
    · rfl
  simp only [hsign, hbody, List.headD_cons, hfacts.1, if_true, hread]
  simp

end CProgram.Strings
