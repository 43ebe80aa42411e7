import CProgram.Lib.Utf8

/-! QuickLearn: what is typed and received is turned into a Perl script as it goes. -/
namespace CProgram.Qodem
open CProgram.Bytes

/-! ### Perl's double-quoted strings -/

def hexValue (c : Char) : Option ℕ :=
  if '0' ≤ c ∧ c ≤ '9' then some (c.toNat - 48)
  else if 'a' ≤ c ∧ c ≤ 'f' then some (c.toNat - 87)
  else if 'A' ≤ c ∧ c ≤ 'F' then some (c.toNat - 55)
  else none

/-- The escapes of one letter that stand for one character. -/
def letterEscape : Char → Option Char
  | 'r' => some '\r'
  | 'n' => some '\n'
  | 't' => some '\t'
  | 'f' => some '\x0c'
  | 'b' => some '\x08'
  | 'a' => some '\x07'
  | 'e' => some '\x1b'
  | _ => none

/-- What a string denotes from behind its opening quote, and what follows its closing quote. There is no
result if it is not closed, if something is interpolated, and for an escape that stands for more than
a character. -/
def perlString : List Char → Option (List Char × List Char)
  | [] => none
  | '\\' :: 'x' :: high :: low :: rest =>
    match hexValue high, hexValue low with
    | some high, some low => (perlString rest).map fun s => (Char.ofNat (16 * high + low) :: s.1, s.2)
    | _, _ => none
  | '\\' :: c :: rest =>
    match letterEscape c with
    | some c => (perlString rest).map fun s => (c :: s.1, s.2)
    | none => if c.isAlphanum then none else (perlString rest).map fun s => (c :: s.1, s.2)
  | c :: rest =>
    if c = '"' then some ([], rest)
    else if c = '$' ∨ c = '@' ∨ c = '\\' then none
    else (perlString rest).map fun s => (c :: s.1, s.2)

/-! ### The buffers -/

/-- `quicklearn_buffer` and `quicklearn_send_buffer`. -/
structure Quicklearn where
  buffer : List Char
  sendBuffer : List UInt8
deriving DecidableEq

/-- A full buffer loses its first character. -/
def push {α : Type} (buffer : List α) (c : α) : List α :=
  if buffer.length = 32 then buffer.tail ++ [c] else buffer ++ [c]

/-- A buffer that is saved to the script. -/
inductive Save where
  | sendto (captured : List UInt8)
  | waitfor (captured : List Char)
deriving DecidableEq

def hexDigit (n : ℕ) : Char := if n < 10 then Char.ofNat (48 + n) else Char.ofNat (87 + n)

/-- The bytes as they stand in a `sendkeys`. -/
def sendtoByte (b : UInt8) : List UInt8 :=
  if b = 0x0D then utf8 ['\\', 'r']
  else if b = 0x0A then utf8 ['\\', 'x', '0', 'A']
  else if b < 0x20 then utf8 ['\\', 'x', hexDigit (b.toNat / 16), hexDigit (b.toNat % 16)]
  else if b = 0x40 then utf8 ['\\', '@']
  else if b = 0x24 then utf8 ['\\', '$']
  else [b]

/-- The characters as they stand in a `waitfor`. -/
def waitforChar (c : Char) : List Char :=
  if c = '@' then ['\\', '@'] else if c = '$' then ['\\', '$'] else [c]

/-- What is written to the script; `%lc` writes UTF-8. -/
def Save.text : Save → List UInt8
  | .sendto captured => utf8 "sendkeys(\"".toList ++ captured.flatMap sendtoByte ++ utf8 "\");\n".toList
  | .waitfor captured => utf8 ("waitfor(\"".toList ++ captured.flatMap waitforChar ++ "\");\n".toList)

namespace Quicklearn

/-- `quicklearn_print_character`. -/
def printCharacter (q : Quicklearn) (c : Char) : Quicklearn × List Save :=
  if c = '\r' ∨ c = '\n' then
    (⟨[], []⟩, if q.sendBuffer = [] then [] else [.sendto q.sendBuffer])
  else (⟨push q.buffer c, q.sendBuffer⟩, [])

/-- The prompt is saved before the first byte of an answer. -/
def savePrompt (q : Quicklearn) : Quicklearn × List Save :=
  if q.buffer ≠ [] ∧ q.sendBuffer = [] then (⟨[], q.sendBuffer⟩, [.waitfor q.buffer]) else (q, [])

/-- `quicklearn_send_byte`. -/
def sendByte (q : Quicklearn) (b : UInt8) : Quicklearn × List Save :=
  let sendBuffer := push q.savePrompt.1.sendBuffer b
  if b = 0x0D ∨ b = 0x0A then (⟨[], []⟩, q.savePrompt.2 ++ [.sendto sendBuffer])
  else (⟨q.savePrompt.1.buffer, sendBuffer⟩, q.savePrompt.2)

end Quicklearn

inductive Event where
  | received (c : Char)
  | sent (b : UInt8)
deriving DecidableEq

namespace Quicklearn

def step (q : Quicklearn) : Event → Quicklearn × List Save
  | .received c => q.printCharacter c
  | .sent b => q.sendByte b

/-- What a recording saves, in order. -/
def saves : Quicklearn → List Event → List Save
  | _, [] => []
  | q, event :: events => (q.step event).2 ++ saves (q.step event).1 events

end Quicklearn

/-! ### What the statements mean -/

namespace Save

/-- The statement is complete, and its string denotes what was captured. -/
def Means : Save → Prop
  | .sendto captured => ∃ body string, text (.sendto captured) = utf8 ("sendkeys(\"".toList ++ body) ∧
      perlString body = some (string, ");\n".toList) ∧ utf8 string = captured
  | .waitfor captured => ∃ body, text (.waitfor captured) = utf8 ("waitfor(\"".toList ++ body) ∧
      perlString body = some (captured, ");\n".toList)

/-- No quotes, no backslashes, and what was typed is UTF-8. -/
def Clean : Save → Prop
  | .sendto captured => (∃ string, utf8 string = captured) ∧ 0x22 ∉ captured ∧ 0x5C ∉ captured
  | .waitfor captured => '"' ∉ captured ∧ '\\' ∉ captured

end Save

/-! ### Reading back what was written -/

/-- The ways in which a character is written. -/
inductive Emission (c : Char) : List Char → Prop
  | plain (hat : c ≠ '@') (hdollar : c ≠ '$') : Emission c [c]
  | sigil (h : c = '@' ∨ c = '$') : Emission c ['\\', c]
  | letter (h : c = '\r') : Emission c ['\\', 'r']
  | hex {high low : Char} {m n : ℕ} (hhigh : hexValue high = some m) (hlow : hexValue low = some n)
      (hc : c = Char.ofNat (16 * m + n)) (hcontrol : c.toNat < 0x20) : Emission c ['\\', 'x', high, low]

variable {c : Char} {chars rest : List Char} {esc : Char → List Char}

theorem perlString_plain (h : c ≠ '"' ∧ c ≠ '$' ∧ c ≠ '@' ∧ c ≠ '\\') :
    perlString (c :: rest) = (perlString rest).map fun s => (c :: s.1, s.2) := by
  obtain ⟨hquote, hdollar, hat, hbackslash⟩ := h
  rw [perlString.eq_def]
  split
  · simp_all
  · simp_all
  · simp_all
  · simp_all

theorem perlString_sigil (h : c = '$' ∨ c = '@') : perlString (c :: rest) = none := by
  rcases h with rfl | rfl <;> rfl

/-- A backslash in front of what is neither a letter nor a digit. -/
theorem perlString_escape (h : c.isAlphanum = false) :
    perlString ('\\' :: c :: rest) = (perlString rest).map fun s => (c :: s.1, s.2) := by
  have hletter : letterEscape c = none := by
    unfold letterEscape
    split <;> first | rfl | (exfalso; revert h; decide)
  have hx : c ≠ 'x' := by
    rintro rfl
    revert h
    decide
  rw [perlString]
  · simp [hletter, h]
  · intro high low rest' hc
    exact absurd hc hx

theorem perlString_letter : perlString ('\\' :: 'r' :: rest) = (perlString rest).map fun s => ('\r' :: s.1, s.2) := by
  rfl

theorem perlString_hex {high low : Char} {m n : ℕ} (hhigh : hexValue high = some m)
    (hlow : hexValue low = some n) : perlString ('\\' :: 'x' :: high :: low :: rest) =
      (perlString rest).map fun s => (Char.ofNat (16 * m + n) :: s.1, s.2) := by
  rw [perlString, hhigh, hlow]

/-- What is free of quotes and backslashes is read back as it was. -/
theorem perlString_clean (hesc : ∀ c, Emission c (esc c)) (hquote : '"' ∉ chars) (hbackslash : '\\' ∉ chars) :
    perlString (chars.flatMap esc ++ '"' :: rest) = some (chars, rest) := by
  induction chars with
  | nil => rfl
  | cons c chars ih =>
    rw [List.mem_cons, not_or] at hquote hbackslash
    have htail := ih hquote.2 hbackslash.2
    rw [List.flatMap_cons]
    have hemission := hesc c
    generalize esc c = text at hemission ⊢
    cases hemission with
    | plain hat hdollar =>
      rw [List.singleton_append, List.cons_append,
        perlString_plain ⟨Ne.symm hquote.1, hdollar, hat, Ne.symm hbackslash.1⟩, htail]
      rfl
    | sigil h =>
      have halphanum : c.isAlphanum = false := by rcases h with rfl | rfl <;> decide
      simp only [List.cons_append, List.nil_append, perlString_escape halphanum, htail]
      rfl
    | letter h =>
      subst h
      simp only [List.cons_append, List.nil_append, perlString_letter, htail]
      rfl
    | hex hhigh hlow hc hcontrol =>
      simp only [List.cons_append, List.nil_append, perlString_hex hhigh hlow, htail, hc]
      rfl

/-- Backslashes and control characters count for what they can be written as. -/
def weight (c : Char) : ℕ := if c = '\\' then 10 else if c.toNat < 0x20 then 5 else 1

def total (chars : List Char) : ℕ := (chars.map weight).sum

theorem total_cons : total (c :: chars) = weight c + total chars := by simp [total]

theorem weight_pos : 0 < weight c := by
  unfold weight
  split
  · omega
  · split <;> omega

theorem weight_le (h : c ≠ '\\') : weight c ≤ 5 := by
  unfold weight
  rw [if_neg h]
  split <;> omega

theorem weight_hex {n : ℕ} (h : hexValue c = some n) : weight c = 1 ∧ c ≠ '"' ∧ c ≠ '\\' ∧ c ≠ '@' ∧ c ≠ '$' := by
  have hrange : 48 ≤ c.toNat ∧ c.toNat ≤ 57 ∨ 97 ≤ c.toNat ∧ c.toNat ≤ 102 ∨ 65 ≤ c.toNat ∧ c.toNat ≤ 70 := by
    unfold hexValue at h
    simp only [Char.le_def, UInt32.le_iff_toNat_le] at h
    unfold Char.toNat
    split at h
    · left
      simpa using by assumption
    · split at h
      · right
        left
        simpa using by assumption
      · split at h
        · right
          right
          simpa using by assumption
        · cases h
  have hne : ∀ d : Char, ¬ (48 ≤ d.toNat ∧ d.toNat ≤ 57 ∨ 97 ≤ d.toNat ∧ d.toNat ≤ 102 ∨
      65 ≤ d.toNat ∧ d.toNat ≤ 70) → c ≠ d := by
    rintro d hd rfl
    exact hd hrange
  refine ⟨?_, hne _ (by decide), hne _ (by decide), hne _ (by decide), hne _ (by decide)⟩
  unfold weight
  rw [if_neg (hne _ (by decide)), if_neg (by omega)]

theorem letterEscape_ne {d : Char} (h : letterEscape c = some d) : d ≠ '\\' := by
  unfold letterEscape at h
  split at h <;> first | (obtain rfl := Option.some.inj h; decide) | cases h

/-- The text of two hexadecimal digits comes from two characters. -/
theorem exists_hex (hesc : ∀ c, Emission c (esc c)) {high : Char} {m : ℕ} {text : List Char}
    (hhigh : hexValue high = some m) (h : chars.flatMap esc ++ '"' :: rest = high :: text) :
    ∃ chars', chars = high :: chars' ∧ text = chars'.flatMap esc ++ '"' :: rest := by
  obtain ⟨-, hquote, hbackslash, -, -⟩ := weight_hex hhigh
  cases chars with
  | nil =>
    injection h with hhead _
    exact absurd hhead.symm hquote
  | cons d chars =>
    rw [List.flatMap_cons] at h
    have hemission := hesc d
    generalize esc d = written at hemission h
    cases hemission with
    | plain =>
      injection h with hhead htail
      exact ⟨chars, by rw [hhead], htail.symm⟩
    | sigil | letter | hex =>
      injection h with hhead _
      exact absurd hhead.symm hbackslash

theorem map_cons_eq_some {o : Option (List Char × List Char)} {read : List Char} :
    (o.map fun s => (c :: s.1, s.2)) = some (read, rest) ↔ ∃ read', o = some (read', rest) ∧ read = c :: read' := by
  rw [Option.map_eq_some_iff]
  constructor
  · rintro ⟨⟨read', rest'⟩, ho, heq⟩
    obtain ⟨rfl, rfl⟩ := Prod.mk.inj heq
    exact ⟨read', ho, rfl⟩
  · rintro ⟨read', ho, rfl⟩
    exact ⟨(read', rest), ho, rfl⟩

/-- A character that is read back as itself. -/
theorem total_step {read : List Char} (hquote : c ≠ '"') (hbackslash : c ≠ '\\')
    (h : total read ≤ total chars ∧ ('"' ∈ chars ∨ '\\' ∈ chars → total read < total chars)) :
    total (c :: read) ≤ total (c :: chars) ∧
      ('"' ∈ c :: chars ∨ '\\' ∈ c :: chars → total (c :: read) < total (c :: chars)) := by
  obtain ⟨hle, hlt⟩ := h
  rw [total_cons, total_cons]
  refine ⟨by omega, fun hmem => ?_⟩
  have := hlt (by simpa [hquote.symm, hbackslash.symm] using hmem)
  omega

theorem total_nil : total [] = 0 := rfl

theorem total_escaped {x d : Char} {read : List Char} (hx : x ≠ '\\') (h : total read ≤ total chars) :
    total (x :: read) < 10 + total (d :: chars) := by
  have hweight := weight_le hx
  have hpos : 0 < weight d := weight_pos
  rw [total_cons, total_cons]
  omega

/-- A raw backslash and an `x`: two hexadecimal digits must follow. -/
theorem total_backslash_x (hesc : ∀ c, Emission c (esc c)) {read : List Char}
    (ih : ∀ chars' read', chars'.length < chars.length →
      perlString (chars'.flatMap esc ++ '"' :: ");\n".toList) = some (read', rest) → total read' ≤ total chars')
    (h : perlString ('\\' :: 'x' :: (chars.flatMap esc ++ '"' :: ");\n".toList)) = some (read, rest)) :
    total read < 10 + total ('x' :: chars) := by
  obtain ⟨high, text, htext⟩ : ∃ high text, chars.flatMap esc ++ '"' :: ");\n".toList = high :: text :=
    List.exists_cons_of_ne_nil (by simp)
  rw [htext] at h
  cases text with
  | nil => cases h
  | cons low text =>
    rw [perlString] at h
    cases hhigh : hexValue high with
    | none => simp [hhigh] at h
    | some m =>
      cases hlow : hexValue low with
      | none => simp [hhigh, hlow] at h
      | some n =>
        simp only [hhigh, hlow, map_cons_eq_some] at h
        obtain ⟨read', hread', rfl⟩ := h
        obtain ⟨chars', rfl, htext'⟩ := exists_hex hesc hhigh htext
        obtain ⟨chars'', rfl, rfl⟩ := exists_hex hesc hlow htext'.symm
        have hle := ih chars'' read' (by simp) hread'
        have hweight : weight (Char.ofNat (16 * m + n)) ≤ 10 := by
          unfold weight
          split
          · omega
          · split <;> omega
        rw [total_cons, total_cons, total_cons, total_cons, (weight_hex hhigh).1, (weight_hex hlow).1,
          show weight 'x' = 1 from rfl]
        omega

/-- A raw backslash takes the next character with it. -/
theorem total_backslash (hesc : ∀ c, Emission c (esc c)) {read : List Char}
    (ih : ∀ chars' read', chars'.length < chars.length →
      perlString (chars'.flatMap esc ++ '"' :: ");\n".toList) = some (read', rest) → total read' ≤ total chars')
    (h : perlString ('\\' :: (chars.flatMap esc ++ '"' :: ");\n".toList)) = some (read, rest)) :
    total read < 10 + total chars := by
  cases chars with
  | nil => cases h
  | cons d chars =>
    rw [List.flatMap_cons] at h
    have hemission := hesc d
    generalize esc d = text at hemission h
    cases hemission with
    | plain =>
      rw [List.singleton_append, List.cons_append] at h
      by_cases hx : d = 'x'
      · subst hx
        exact total_backslash_x hesc (fun chars' read' hlength => ih chars' read' (by simp; omega)) h
      · rw [perlString] at h
        · cases hletter : letterEscape d with
          | some x =>
            simp only [hletter, map_cons_eq_some] at h
            obtain ⟨read', hread', rfl⟩ := h
            exact total_escaped (letterEscape_ne hletter) (ih chars read' (by simp) hread')
          | none =>
            simp only [hletter] at h
            split at h
            · cases h
            · obtain ⟨read', hread', rfl⟩ := map_cons_eq_some.mp h
              have hle := ih chars read' (by simp) hread'
              rw [total_cons, total_cons]
              omega
        · intro high low rest' hd
          exact absurd hd hx
    | sigil hsigil =>
      simp only [List.cons_append, List.nil_append] at h
      rw [perlString_escape (by decide), perlString_sigil hsigil.symm] at h
      cases h
    | letter hletter =>
      subst hletter
      simp only [List.cons_append, List.nil_append] at h
      rw [perlString_escape (by decide), perlString_plain (by decide), map_cons_eq_some] at h
      obtain ⟨readR, hreadR, rfl⟩ := h
      obtain ⟨read', hread', rfl⟩ := map_cons_eq_some.mp hreadR
      have hle := ih chars read' (by simp) hread'
      rw [total_cons, total_cons, total_cons, show weight '\\' = 10 from rfl,
        show weight 'r' = 1 from rfl, show weight '\r' = 5 from rfl]
      omega
    | @hex high low m n hhigh hlow hd hcontrol =>
      obtain ⟨hhighWeight, hhighQuote, hhighBackslash, hhighAt, hhighDollar⟩ := weight_hex hhigh
      obtain ⟨hlowWeight, hlowQuote, hlowBackslash, hlowAt, hlowDollar⟩ := weight_hex hlow
      simp only [List.cons_append, List.nil_append] at h
      rw [perlString_escape (by decide), perlString_plain (by decide),
        perlString_plain ⟨hhighQuote, hhighDollar, hhighAt, hhighBackslash⟩,
        perlString_plain ⟨hlowQuote, hlowDollar, hlowAt, hlowBackslash⟩, map_cons_eq_some] at h
      obtain ⟨readX, hreadX, rfl⟩ := h
      obtain ⟨readHigh, hreadHigh, rfl⟩ := map_cons_eq_some.mp hreadX
      obtain ⟨readLow, hreadLow, rfl⟩ := map_cons_eq_some.mp hreadHigh
      obtain ⟨read', hread', rfl⟩ := map_cons_eq_some.mp hreadLow
      have hle := ih chars read' (by simp) hread'
      have hdWeight : weight d = 5 := by
        unfold weight
        rw [if_neg, if_pos hcontrol]
        rintro rfl
        exact absurd hcontrol (by decide)
      rw [total_cons, total_cons, total_cons, total_cons, total_cons, hhighWeight, hlowWeight, hdWeight,
        show weight '\\' = 10 from rfl, show weight 'x' = 1 from rfl]
      omega

/-- What is read back never counts for more than what was written, and for less where there was a quote
or a backslash. -/
theorem total_perlString (hesc : ∀ c, Emission c (esc c)) {read : List Char}
    (h : perlString (chars.flatMap esc ++ '"' :: ");\n".toList) = some (read, rest)) :
    total read ≤ total chars ∧ ('"' ∈ chars ∨ '\\' ∈ chars → total read < total chars) := by
  induction hn : chars.length using Nat.strong_induction_on generalizing chars read with
  | _ n ih =>
    cases chars with
    | nil =>
      obtain rfl : [] = read := by injection h with h; injection h
      simp
    | cons c chars =>
      have hlt : chars.length < n := by rw [← hn]; simp
      rw [List.flatMap_cons] at h
      have hemission := hesc c
      generalize esc c = text at hemission h
      cases hemission with
      | plain hat hdollar =>
        rw [List.singleton_append, List.cons_append] at h
        by_cases hquote : c = '"'
        · subst hquote
          obtain rfl : [] = read := by injection h with h; injection h
          have hpos : 0 < weight '"' := weight_pos
          rw [total_cons, total_nil]
          exact ⟨by omega, fun _ => by omega⟩
        · by_cases hbackslash : c = '\\'
          · subst hbackslash
            have hless : total read < total ('\\' :: chars) := by
              refine total_backslash hesc (fun chars' read' hlength h' => ?_) h
              exact (ih chars'.length (by omega) h' rfl).1
            exact ⟨hless.le, fun _ => hless⟩
          · rw [perlString_plain ⟨hquote, hdollar, hat, hbackslash⟩, map_cons_eq_some] at h
            obtain ⟨read', h, rfl⟩ := h
            exact total_step hquote hbackslash (ih chars.length hlt h rfl)
      | sigil hsigil =>
        have halphanum : c.isAlphanum = false := by rcases hsigil with rfl | rfl <;> decide
        simp only [List.cons_append, List.nil_append, perlString_escape halphanum, map_cons_eq_some] at h
        obtain ⟨read', h, rfl⟩ := h
        apply total_step _ _ (ih chars.length hlt h rfl)
        · rcases hsigil with rfl | rfl <;> decide
        · rcases hsigil with rfl | rfl <;> decide
      | letter hletter =>
        subst hletter
        simp only [List.cons_append, List.nil_append, perlString_letter, map_cons_eq_some] at h
        obtain ⟨read', h, rfl⟩ := h
        exact total_step (by decide) (by decide) (ih chars.length hlt h rfl)
      | hex hhigh hlow hc hcontrol =>
        simp only [List.cons_append, List.nil_append, perlString_hex hhigh hlow, map_cons_eq_some, ← hc] at h
        obtain ⟨read', h, rfl⟩ := h
        apply total_step _ _ (ih chars.length hlt h rfl)
        · rintro rfl
          exact absurd hcontrol (by decide)
        · rintro rfl
          exact absurd hcontrol (by decide)

/-- A string is read back as it was exactly if it has no quotes and no backslashes. -/
theorem perlString_iff (hesc : ∀ c, Emission c (esc c)) :
    perlString (chars.flatMap esc ++ "\");\n".toList) = some (chars, ");\n".toList) ↔
      '"' ∉ chars ∧ '\\' ∉ chars := by
  constructor
  · intro h
    have hnot := (total_perlString hesc h).2
    by_contra hdirty
    exact absurd (hnot (by tauto)) (lt_irrefl _)
  · rintro ⟨hquote, hbackslash⟩
    exact perlString_clean hesc hquote hbackslash

theorem emission_waitforChar (c : Char) : Emission c (waitforChar c) := by
  by_cases hat : c = '@'
  · subst hat
    exact Emission.sigil (Or.inl rfl)
  · by_cases hdollar : c = '$'
    · subst hdollar
      exact Emission.sigil (Or.inr rfl)
    · rw [waitforChar, if_neg hat, if_neg hdollar]
      exact Emission.plain hat hdollar

/-- The characters as they stand in a `sendkeys`. -/
def sendtoChar (c : Char) : List Char :=
  if c = '\r' then ['\\', 'r']
  else if c = '\n' then ['\\', 'x', '0', 'A']
  else if c.toNat < 0x20 then ['\\', 'x', hexDigit (c.toNat / 16), hexDigit (c.toNat % 16)]
  else if c = '@' then ['\\', '@']
  else if c = '$' then ['\\', '$']
  else [c]

theorem hexValue_hexDigit (n : Fin 16) : hexValue (hexDigit n) = some n.val := by
  revert n
  decide

theorem emission_sendtoChar (c : Char) : Emission c (sendtoChar c) := by
  by_cases hreturn : c = '\r'
  · subst hreturn
    exact Emission.letter rfl
  · by_cases hnewline : c = '\n'
    · subst hnewline
      exact Emission.hex (m := 0) (n := 10) rfl rfl rfl (by decide)
    · rw [sendtoChar, if_neg hreturn, if_neg hnewline]
      by_cases hcontrol : c.toNat < 0x20
      · rw [if_pos hcontrol]
        refine Emission.hex (hexValue_hexDigit ⟨c.toNat / 16, by omega⟩)
          (hexValue_hexDigit ⟨c.toNat % 16, by omega⟩) ?_ hcontrol
        show c = Char.ofNat (16 * (c.toNat / 16) + c.toNat % 16)
        rw [Nat.div_add_mod, Char.ofNat_toNat]
      · rw [if_neg hcontrol]
        exact emission_waitforChar c

/-- The bytes of a character, one after the other, are the bytes of what stands for it. -/
theorem sendtoByte_encode (c : Char) :
    (String.utf8EncodeChar c).flatMap sendtoByte = utf8 (sendtoChar c) := by
  rcases Nat.lt_or_ge c.toNat 0x80 with hlt | hge
  · have hall : ∀ n : Fin 128, (String.utf8EncodeChar (Char.ofNat n)).flatMap sendtoByte =
        utf8 (sendtoChar (Char.ofNat n)) := by decide +kernel
    have hc := hall ⟨c.toNat, hlt⟩
    rwa [Char.ofNat_toNat] at hc
  · have hplain : ∀ b : UInt8, 0x80 ≤ b.toNat → sendtoByte b = [b] := by
      intro b hb
      have hne : ∀ k : UInt8, k.toNat < 0x80 → b ≠ k := by
        rintro k hk rfl
        omega
      unfold sendtoByte
      rw [if_neg (hne _ (by decide)), if_neg (hne _ (by decide)), if_neg, if_neg (hne _ (by decide)),
        if_neg (hne _ (by decide))]
      rw [UInt8.lt_iff_toNat_lt]
      simp
      omega
    have hchar : sendtoChar c = [c] := by
      have hne : ∀ d : Char, d.toNat < 0x80 → c ≠ d := by
        rintro d hd rfl
        omega
      unfold sendtoChar
      rw [if_neg (hne _ (by decide)), if_neg (hne _ (by decide)), if_neg (by omega),
        if_neg (hne _ (by decide)), if_neg (hne _ (by decide))]
    rw [hchar, Utf8.cons, Utf8.nil, List.append_nil]
    calc (String.utf8EncodeChar c).flatMap sendtoByte
        = (String.utf8EncodeChar c).flatMap fun b => [b] :=
          List.flatMap_congr fun b hb => hplain b (Utf8.high_of_mem hge hb)
      _ = String.utf8EncodeChar c := by simp

theorem sendtoByte_utf8 (chars : List Char) :
    (utf8 chars).flatMap sendtoByte = utf8 (chars.flatMap sendtoChar) := by
  induction chars with
  | nil => rfl
  | cons c chars ih =>
    rw [Utf8.cons, List.flatMap_append, sendtoByte_encode, ih, List.flatMap_cons, Utf8.append]

/-! ### The script -/

theorem Save.means_iff (s : Save) : s.Means ↔ s.Clean := by
  cases s with
  | sendto captured =>
    constructor
    · rintro ⟨body, string, htext, hread, rfl⟩
      have hbody : body = string.flatMap sendtoChar ++ "\");\n".toList := by
        have hbytes : utf8 ("sendkeys(\"".toList ++ (string.flatMap sendtoChar ++ "\");\n".toList)) =
            utf8 ("sendkeys(\"".toList ++ body) := by
          rw [← htext, Save.text, sendtoByte_utf8, Utf8.append, Utf8.append, List.append_assoc]
        exact (List.append_cancel_left (Utf8.injective hbytes)).symm
      rw [hbody, perlString_iff emission_sendtoChar] at hread
      refine ⟨⟨string, rfl⟩, ?_, ?_⟩
      · rw [← Utf8.mem_ascii (by decide : '"'.toNat < 0x80)] at hread
        exact hread.1
      · rw [← Utf8.mem_ascii (by decide : '\\'.toNat < 0x80)] at hread
        exact hread.2
    · rintro ⟨⟨string, rfl⟩, hquote, hbackslash⟩
      refine ⟨string.flatMap sendtoChar ++ "\");\n".toList, string, ?_, ?_, rfl⟩
      · rw [Save.text, sendtoByte_utf8, Utf8.append, Utf8.append, List.append_assoc]
      · rw [perlString_iff emission_sendtoChar, ← Utf8.mem_ascii (by decide : '"'.toNat < 0x80),
          ← Utf8.mem_ascii (by decide : '\\'.toNat < 0x80)]
        exact ⟨hquote, hbackslash⟩
  | waitfor captured =>
    have htext : ∀ body, Save.text (.waitfor captured) = utf8 ("waitfor(\"".toList ++ body) ↔
        captured.flatMap waitforChar ++ "\");\n".toList = body := by
      intro body
      rw [Save.text, Utf8.injective.eq_iff, List.append_assoc, List.append_cancel_left_eq]
    simp only [Save.Means, htext, exists_eq_left', Save.Clean]
    exact perlString_iff emission_waitforChar

namespace Quicklearn

/-- What an event has saved from the buffers is clean. -/
def Keeps (q : Quicklearn) : Event → Prop
  | .received c => c = '\r' ∨ c = '\n' → q.sendBuffer = [] ∨ Save.Clean (.sendto q.sendBuffer)
  | .sent b =>
    (q.buffer = [] ∨ q.sendBuffer ≠ [] ∨ Save.Clean (.waitfor q.buffer)) ∧
    (b = 0x0D ∨ b = 0x0A → Save.Clean (.sendto (push q.sendBuffer b)))

/-- The condition on every step of a recording. -/
def Fits : Quicklearn → List Event → Prop
  | _, [] => True
  | q, event :: events => q.Keeps event ∧ Fits (q.step event).1 events

theorem savePrompt_sendBuffer (q : Quicklearn) : q.savePrompt.1.sendBuffer = q.sendBuffer := by
  unfold savePrompt
  split <;> rfl

/-- One step writes what means what it should, exactly under its condition. -/
theorem step_means_iff (q : Quicklearn) (event : Event) :
    (∀ s ∈ (q.step event).2, s.Means) ↔ q.Keeps event := by
  simp only [Save.means_iff]
  cases event with
  | received c =>
    by_cases hc : c = '\r' ∨ c = '\n'
    · by_cases hsend : q.sendBuffer = []
      · simp [step, printCharacter, Keeps, hc, hsend]
      · simp [step, printCharacter, Keeps, hc, hsend]
    · simp [step, printCharacter, Keeps, hc]
  | sent b =>
    have hprompt : (∀ s ∈ q.savePrompt.2, s.Clean) ↔
        q.buffer = [] ∨ q.sendBuffer ≠ [] ∨ Save.Clean (.waitfor q.buffer) := by
      unfold savePrompt
      split
      · simp_all
      · simp
        tauto
    by_cases hb : b = 0x0D ∨ b = 0x0A
    · have hstep : (q.step (.sent b)).2 = q.savePrompt.2 ++ [.sendto (push q.sendBuffer b)] := by
        rw [step, sendByte, if_pos hb, savePrompt_sendBuffer]
      rw [hstep, List.forall_mem_append, hprompt]
      simp [Keeps, hb]
    · have hstep : (q.step (.sent b)).2 = q.savePrompt.2 := by rw [step, sendByte, if_neg hb]
      rw [hstep, hprompt]
      simp [Keeps, hb]

/-- Every statement of a script means what was recorded exactly if no step saves a quote, a backslash or
broken UTF-8. -/
theorem records_iff (q : Quicklearn) (events : List Event) :
    (∀ s ∈ q.saves events, s.Means) ↔ q.Fits events := by
  induction events generalizing q with
  | nil => simp [saves, Fits]
  | cons event events ih =>
    rw [saves, List.forall_mem_append, step_means_iff, ih, Fits]

/-- A quotation mark is received, and a letter is typed. -/
theorem not_means_quote :
    ¬ ∀ s ∈ Quicklearn.saves ⟨[], []⟩ [.received '"', .sent 0x61], s.Means := by
  intro h
  have hmeans := h (.waitfor ['"']) (by decide)
  rw [Save.means_iff] at hmeans
  exact hmeans.1 (List.mem_singleton_self _)

end Quicklearn
end CProgram.Qodem
