import Mathlib.Data.List.GetD
import Mathlib.Data.UInt
import Mathlib.Tactic.IntervalCases

/-! The option `keepalive_bytes` in `load_options`: a scanner of four states over the value, with a counter that is kept
from one call to the next. -/
namespace CProgram.Qodem.Keepalive

/-- `sizeof(q_keepalive_bytes)` -/
def size : ℕ := 128
def backslash : UInt8 := 92

/-- In text, behind a backslash, and in front of the two digits. -/
inductive Place where
  | text | slash | high | low
  deriving DecidableEq

structure Scan where
  i : ℕ
  place : Place
  ch : UInt8
  n : ℕ
  bytes : ℕ → UInt8

def tolower (ch : UInt8) : UInt8 := if 65 ≤ ch ∧ ch ≤ 90 then ch + 32 else ch

/-- `q_keepalive_bytes[q_keepalive_bytes_n] = ch`, nothing past the end. -/
def Scan.store (s : Scan) (ch : UInt8) : Option Scan :=
  if s.n < size then some { s with bytes := Function.update s.bytes s.n ch, n := s.n + 1 } else none

/-- What is added for a digit, if it is taken for one. -/
def added (ch : UInt8) : Option UInt8 :=
  if 97 ≤ tolower ch ∧ tolower ch ≤ 102 then some (ch - 97 + 16)
  else if 48 ≤ ch ∧ ch ≤ 57 then some (ch - 48)
  else none

/-- The body of the loop with `i++` behind it. -/
def body (value : List UInt8) (s : Scan) : Option Scan :=
  let ch := value.getD s.i 0
  match s.place with
  | .text =>
    if ch = backslash then some { s with ch := 0, place := .slash, i := s.i + 1 }
    else (s.store ch).map fun s => { s with i := s.i + 1 }
  | .slash =>
    if tolower ch = 120 then some { s with ch := 0, place := .high, i := s.i + 1 }
    else (s.store backslash).map fun s => { s with place := .text, i := s.i + 1 }
  | .high =>
    match added ch with
    | some d => some { s with ch := s.ch * 16 + d, place := .low, i := s.i + 1 }
    | none => do
      -- the character is read once more
      let s ← s.store backslash
      let s ← if s.n < size then s.store (value.getD (s.i - 1) 0) else some s
      some { s with place := .text }
  | .low =>
    match added ch with
    | some d => (s.store (s.ch * 16 + d)).map fun s => { s with place := .text, i := s.i + 1 }
    | none => (s.store (s.ch * 16)).map fun s => { s with place := .text }

/-- So many rounds at most; nothing when they are not enough, or where a byte is stored past the end. -/
def scan (value : List UInt8) : ℕ → Scan → Option Scan
  | 0, _ => none
  | fuel + 1, s =>
    if value.length ≤ s.i ∨ s.n = size then some s else (body value s).bind (scan value fuel)

/-- The decoder with the counter and the bytes that the last call has left. -/
def load (fuel n : ℕ) (bytes : ℕ → UInt8) (value : List UInt8) : Option (ℕ × (ℕ → UInt8)) :=
  if value.length = 0 then some (n, bytes)
  else (scan value fuel ⟨0, .text, 0, n, fun k => if k < size then 0 else bytes k⟩).map fun s => (s.n, s.bytes)

/-! ### What is written in the option -/

def digits : List UInt8 :=
  [48, 49, 50, 51, 52, 53, 54, 55, 56, 57, 97, 98, 99, 100, 101, 102, 65, 66, 67, 68, 69, 70]

def numerals : List UInt8 := [48, 49, 50, 51, 52, 53, 54, 55, 56, 57]

/-- The value of a hexadecimal digit. -/
def digitValue (ch : UInt8) : UInt8 := if ch ≤ 57 then ch - 48 else if 97 ≤ ch then ch - 87 else ch - 55

/-- A byte as it is written: itself, or with two digits. -/
inductive Part where
  | plain (ch : UInt8) (h : ch ≠ backslash)
  | escaped (high low : UInt8) (hhigh : high ∈ digits) (hlow : low ∈ digits)

def Part.text : Part → List UInt8
  | .plain ch _ => [ch]
  | .escaped high low _ _ => [backslash, 120, high, low]

/-- The byte that is meant. -/
def Part.byte : Part → UInt8
  | .plain ch _ => ch
  | .escaped high low _ _ => digitValue high * 16 + digitValue low

/-- Nothing but numerals. -/
def Part.Numeral : Part → Prop
  | .plain _ _ => True
  | .escaped high low _ _ => high ∈ numerals ∧ low ∈ numerals

/-- The value of the option for these bytes. -/
def spelled (parts : List Part) : List UInt8 := parts.flatMap Part.text

/-- The decoder comes to an end inside the array. -/
def Ends (n : ℕ) (bytes : ℕ → UInt8) (value : List UInt8) : Prop :=
  ∃ fuel n' bytes', load fuel n bytes value = some (n', bytes') ∧ n' ≤ size

/-- The counter and the bytes are those that were written. -/
def Decoded (n : ℕ) (bytes : ℕ → UInt8) (parts : List Part) : Prop :=
  ∃ fuel bytes', load fuel n bytes (spelled parts) = some (parts.length, bytes') ∧
    ∀ k (hk : k < parts.length), bytes' k = (parts[k]).byte

/-- What the code makes of a part. -/
def Part.decoded : Part → UInt8
  | .plain ch _ => ch
  | .escaped high low _ _ => (0 * 16 + (added high).getD 0) * 16 + (added low).getD 0

variable {value : List UInt8} {s t : Scan} {parts : List Part} {n : ℕ} {bytes : ℕ → UInt8}

theorem decoded_facts : ∀ high ∈ digits, ∀ low ∈ digits,
    ((0 * 16 + (added high).getD 0) * 16 + (added low).getD 0 = digitValue high * 16 + digitValue low ↔
      high ∈ numerals ∧ low ∈ numerals) := by
  decide +kernel

theorem added_facts : ∀ ch ∈ digits, added ch = some ((added ch).getD 0) := by
  decide +kernel

theorem decoded_iff (p : Part) : p.decoded = p.byte ↔ p.Numeral := by
  cases p with
  | plain ch h => exact iff_of_true rfl trivial
  | escaped high low hhigh hlow => exact decoded_facts high hhigh low hlow

/-! ### The rounds -/

theorem store_eq (h : s.n < size) (ch : UInt8) :
    s.store ch = some { s with bytes := Function.update s.bytes s.n ch, n := s.n + 1 } := if_pos h

/-- How far the scanner still has to go. -/
def Scan.todo (s : Scan) (length : ℕ) : ℕ := 2 * (length - s.i) + if s.place = .high ∨ s.place = .low then 1 else 0

/-- A round stores inside the array and comes nearer to the end. -/
theorem body_spec (hn : s.n < size) (hi : s.i < value.length) :
    ∃ t, body value s = some t ∧ t.n ≤ size ∧ t.todo value.length < s.todo value.length := by
  unfold Scan.todo
  rw [body]
  cases hplace : s.place with
  | text =>
    dsimp only
    split
    · exact ⟨_, rfl, hn.le, by simp; omega⟩
    · rw [store_eq hn]
      exact ⟨_, rfl, hn, by simp [hplace]; omega⟩
  | slash =>
    dsimp only
    split
    · exact ⟨_, rfl, hn.le, by simp; omega⟩
    · rw [store_eq hn]
      exact ⟨_, rfl, hn, by simp; omega⟩
  | high =>
    dsimp only
    cases added (value.getD s.i 0) with
    | some d => exact ⟨_, rfl, hn.le, by simp; omega⟩
    | none =>
      rw [store_eq hn, Option.bind_eq_bind, Option.bind_some]
      dsimp only
      by_cases hmore : s.n + 1 < size
      · rw [if_pos hmore, store_eq hmore]
        exact ⟨_, rfl, hmore, by simp⟩
      · rw [if_neg hmore]
        exact ⟨_, rfl, hn, by simp⟩
  | low =>
    dsimp only
    cases added (value.getD s.i 0) with
    | some d =>
      dsimp only
      rw [store_eq hn]
      exact ⟨_, rfl, hn, by simp; omega⟩
    | none =>
      dsimp only
      rw [store_eq hn]
      exact ⟨_, rfl, hn, by simp⟩

theorem scan_ends (hn : s.n ≤ size) : ∃ fuel t, scan value fuel s = some t ∧ t.n ≤ size := by
  induction htodo : s.todo value.length using Nat.strong_induction_on generalizing s with
  | _ m ih =>
    by_cases hstop : value.length ≤ s.i ∨ s.n = size
    · exact ⟨1, s, by rw [scan, if_pos hstop], hn⟩
    · obtain ⟨hi, hroom⟩ := not_or.mp hstop
      obtain ⟨t, hbody, ht, hless⟩ := body_spec (lt_of_le_of_ne hn hroom) (not_le.mp hi)
      obtain ⟨fuel, u, hscan, hu⟩ := ih _ (htodo ▸ hless) ht rfl
      exact ⟨fuel + 1, u, by rw [scan, if_neg hstop, hbody, Option.bind_some, hscan], hu⟩

theorem ends (hn : n ≤ size) (bytes : ℕ → UInt8) (value : List UInt8) : Ends n bytes value := by
  by_cases hnil : value.length = 0
  · exact ⟨0, n, bytes, if_pos hnil, hn⟩
  · obtain ⟨fuel, t, hscan, ht⟩ := scan_ends
      (s := ⟨0, .text, 0, n, fun k => if k < size then 0 else bytes k⟩) hn
    exact ⟨fuel, t.n, t.bytes, by rw [load, if_neg hnil, hscan]; rfl, ht⟩

/-! ### Parts -/

/-- Behind a part: a byte more. -/
def Scan.behind (s : Scan) (p : Part) (ch : UInt8) : Scan :=
  ⟨s.i + p.text.length, .text, ch, s.n + 1, Function.update s.bytes s.n p.decoded⟩

/-- A part is scanned in as many rounds as it has characters. -/
theorem scan_part (p : Part) {front back : List UInt8} (hvalue : value = front ++ p.text ++ back)
    (hi : s.i = front.length) (hplace : s.place = .text) (hn : s.n < size) :
    ∃ ch, ∀ fuel, scan value (fuel + p.text.length) s = scan value fuel (s.behind p ch) := by
  obtain ⟨i, place, ch, n, bytes⟩ := s
  dsimp only at hi hplace hn
  subst hi hplace
  have hgo (k : ℕ) (hk : k < p.text.length) (t : Scan) (ht : t.i = front.length + k) (htn : t.n = n) (fuel : ℕ) :
      scan value (fuel + 1) t = (body value t).bind (scan value fuel) := by
    refine if_neg (not_or.mpr ⟨?_, by rw [htn]; exact hn.ne⟩)
    rw [hvalue, List.length_append, List.length_append, ht]
    omega
  have hget (k : ℕ) (hk : k < p.text.length) : value.getD (front.length + k) 0 = (p.text).getD k 0 := by
    rw [hvalue, List.append_assoc, List.getD_append_right _ _ _ _ (Nat.le_add_right _ _), Nat.add_sub_cancel_left,
      List.getD_append _ _ _ _ hk]
  cases p with
  | plain d h =>
    have hbody : body value ⟨front.length, .text, ch, n, bytes⟩ =
        some (Scan.behind ⟨front.length, .text, ch, n, bytes⟩ (.plain d h) ch) := by
      have hd : value.getD front.length 0 = d := hget 0 Nat.one_pos
      unfold body
      dsimp only
      rw [hd, if_neg h, store_eq hn]
      rfl
    refine ⟨ch, fun fuel => ?_⟩
    rw [show fuel + (Part.plain d h).text.length = fuel + 1 from rfl, hgo 0 Nat.one_pos _ rfl rfl, hbody, Option.bind_some]
  | escaped high low hhigh hlow =>
    have hfirst : body value ⟨front.length, .text, ch, n, bytes⟩ = some ⟨front.length + 1, .slash, 0, n, bytes⟩ := by
      have hd : value.getD front.length 0 = backslash := hget 0 (show 0 < 4 by decide)
      unfold body
      dsimp only
      rw [hd, if_pos rfl]
    have hsecond : body value ⟨front.length + 1, .slash, 0, n, bytes⟩ = some ⟨front.length + 2, .high, 0, n, bytes⟩ := by
      have hd : value.getD (front.length + 1) 0 = 120 := hget 1 (show 1 < 4 by decide)
      unfold body
      dsimp only
      rw [hd, if_pos (by decide)]
    have hthird : body value ⟨front.length + 2, .high, 0, n, bytes⟩ =
        some ⟨front.length + 3, .low, 0 * 16 + (added high).getD 0, n, bytes⟩ := by
      have hd : value.getD (front.length + 2) 0 = high := hget 2 (show 2 < 4 by decide)
      unfold body
      dsimp only
      rw [hd, added_facts high hhigh]
      rfl
    have hfourth : body value ⟨front.length + 3, .low, 0 * 16 + (added high).getD 0, n, bytes⟩ =
        some (Scan.behind ⟨front.length, .text, ch, n, bytes⟩ (.escaped high low hhigh hlow)
          (0 * 16 + (added high).getD 0)) := by
      have hd : value.getD (front.length + 3) 0 = low := hget 3 (show 3 < 4 by decide)
      unfold body
      dsimp only
      rw [hd, added_facts low hlow]
      dsimp only
      rw [store_eq hn]
      rfl
    refine ⟨0 * 16 + (added high).getD 0, fun fuel => ?_⟩
    rw [show fuel + (Part.escaped high low hhigh hlow).text.length = fuel + 1 + 1 + 1 + 1 from rfl,
      hgo 0 (show 0 < 4 by decide) _ rfl rfl, hfirst, Option.bind_some, hgo 1 (show 1 < 4 by decide) _ rfl rfl, hsecond, Option.bind_some,
      hgo 2 (show 2 < 4 by decide) _ rfl rfl, hthird, Option.bind_some, hgo 3 (show 3 < 4 by decide) _ rfl rfl, hfourth, Option.bind_some]

/-- All of the parts, as far as there is room. -/
theorem scan_parts (parts : List Part) (front : List UInt8) (hvalue : value = front ++ spelled parts)
    (hi : s.i = front.length) (hplace : s.place = .text) (hn : s.n ≤ size) :
    ∃ fuel t, scan value fuel s = some t ∧ t.n = min size (s.n + parts.length) ∧
      ∀ k, k < size → t.bytes k = if k < s.n then s.bytes k else (parts.map Part.decoded).getD (k - s.n) (s.bytes k) := by
  induction parts generalizing front s with
  | nil =>
    refine ⟨1, s, ?_, ?_, fun k _ => ?_⟩
    · refine if_pos (.inl ?_)
      rw [hvalue, hi]
      simp [spelled]
    · rw [List.length_nil, Nat.add_zero, min_eq_right hn]
    · simp
  | cons p parts ih =>
    by_cases hfull : s.n = size
    · refine ⟨1, s, if_pos (.inr hfull), ?_, fun k hk => (if_pos (hfull ▸ hk)).symm⟩
      rw [hfull, min_eq_left (Nat.le_add_right _ _)]
    · have hroom : s.n < size := lt_of_le_of_ne hn hfull
      have hvalue' : value = front ++ p.text ++ spelled parts := by
        rw [hvalue, List.append_assoc]
        rfl
      obtain ⟨ch, hpart⟩ := scan_part p hvalue' hi hplace hroom
      obtain ⟨fuel, t, hscan, hcount, hbytes⟩ := ih (s := s.behind p ch) (front ++ p.text) hvalue'
        (by rw [List.length_append, ← hi]; rfl) rfl hroom
      refine ⟨fuel + p.text.length, t, (hpart fuel).trans hscan, ?_, fun k hk => ?_⟩
      · rw [hcount, List.length_cons, Scan.behind, Nat.add_assoc, Nat.add_comm 1]
      · rw [hbytes k hk]
        change (if k < s.n + 1 then Function.update s.bytes s.n p.decoded k
          else (parts.map Part.decoded).getD (k - (s.n + 1)) (Function.update s.bytes s.n p.decoded k)) = _
        rcases lt_trichotomy k s.n with hlow | rfl | hhigh
        · rw [if_pos (by omega), if_pos hlow, Function.update_of_ne hlow.ne]
        · rw [if_pos (Nat.lt_add_one _), if_neg (lt_irrefl _), Function.update_self, Nat.sub_self]
          rfl
        · have hsub : k - s.n = (k - (s.n + 1)) + 1 := by omega
          rw [if_neg (by omega), if_neg (by omega), Function.update_of_ne hhigh.ne', hsub, List.map_cons,
            List.getD_cons_succ]

/-! ### The option -/

theorem scan_mono {fuel : ℕ} (h : scan value fuel s = some t) (more : ℕ) : scan value (fuel + more) s = some t := by
  induction fuel generalizing s with
  | zero => cases h
  | succ fuel ih =>
    rw [Nat.add_right_comm, scan]
    rw [scan] at h
    split
    · next hstop => rwa [if_pos hstop] at h
    · next hgo =>
      rw [if_neg hgo] at h
      obtain ⟨u, hbody, hu⟩ := Option.bind_eq_some_iff.mp h
      rw [hbody, Option.bind_some]
      exact ih hu

theorem scan_unique {fuel fuel' : ℕ} {t' : Scan} (h : scan value fuel s = some t) (h' : scan value fuel' s = some t') :
    t = t' := by
  have hfirst := scan_mono h fuel'
  have hsecond := scan_mono h' fuel
  rw [Nat.add_comm, hsecond] at hfirst
  exact (Option.some.inj hfirst).symm

/-- The bytes that are there in the end, in front of the new ones those that `memset` has left. -/
def decodedAt (n : ℕ) (parts : List Part) (k : ℕ) : UInt8 := if k < n then 0 else (parts.map Part.decoded).getD (k - n) 0

theorem decoded_eq (hn : n ≤ size) (hfit : parts.length ≤ size) (hparts : parts ≠ []) : Decoded n bytes parts ↔
    min size (n + parts.length) = parts.length ∧ ∀ k (hk : k < parts.length), decodedAt n parts k = (parts[k]).byte := by
  have hnil : (spelled parts).length ≠ 0 := by
    cases parts with
    | nil => exact absurd rfl hparts
    | cons p parts =>
      cases p with
      | plain ch h => simp [spelled, Part.text]
      | escaped high low hhigh hlow => simp [spelled, Part.text]
  obtain ⟨fuel, t, hscan, hcount, hbytes⟩ := scan_parts
    (s := ⟨0, .text, 0, n, fun k => if k < size then 0 else bytes k⟩) parts [] (rfl : spelled parts = [] ++ spelled parts) rfl rfl hn
  have hat (k : ℕ) (hk : k < parts.length) : t.bytes k = decodedAt n parts k := by
    have hsize := hk.trans_le hfit
    rw [hbytes k hsize]
    simp only [if_pos hsize, decodedAt]
  constructor
  · rintro ⟨fuel', bytes', hload, hall⟩
    rw [load, if_neg hnil, Option.map_eq_some_iff] at hload
    obtain ⟨t', hscan', heq⟩ := hload
    obtain rfl := scan_unique hscan hscan'
    obtain ⟨hlength, rfl⟩ := Prod.mk.inj heq
    exact ⟨hcount.symm.trans hlength, fun k hk => (hat k hk).symm.trans (hall k hk)⟩
  · rintro ⟨hlength, hall⟩
    refine ⟨fuel, t.bytes, ?_, fun k hk => (hat k hk).trans (hall k hk)⟩
    rw [load, if_neg hnil, hscan, Option.map_some, hcount, hlength]

theorem zero_facts : ∀ high ∈ digits, ∀ low ∈ digits, digitValue high * 16 + digitValue low = 0 →
    high ∈ numerals ∧ low ∈ numerals := by
  decide +kernel

theorem numeral_of_zero {p : Part} (h : p.byte = 0) : p.Numeral := by
  cases p with
  | plain ch hch => trivial
  | escaped high low hhigh hlow => exact zero_facts high hhigh low hlow h

/-- Every value of the option is read inside the array and to an end; and for every row of bytes that fits, in every
spelling, the bytes are those that were written if and only if no digit is a letter and the counter was zero before, or
else all of the array is written with zeros. -/
theorem keepalive_decoded_iff (n : ℕ) (hn : n ≤ size) (bytes : ℕ → UInt8) (parts : List Part)
    (hfit : parts.length ≤ size) : ((∀ value, Ends n bytes value) ∧ Decoded n bytes parts) ↔
      (∀ p ∈ parts, p.Numeral) ∧ (n = 0 ∨ parts.length = size ∧ ∀ p ∈ parts, p.byte = 0) := by
  rw [and_iff_right fun value => ends hn bytes value]
  by_cases hparts : parts = []
  · subst hparts
    constructor
    · rintro ⟨fuel, bytes', hload, -⟩
      exact ⟨fun p hp => absurd hp List.not_mem_nil, .inl (Prod.mk.inj (Option.some.inj hload)).1⟩
    · rintro ⟨-, rfl | ⟨hlength, -⟩⟩
      · exact ⟨0, bytes, rfl, fun k hk => absurd hk (Nat.not_lt_zero k)⟩
      · cases hlength
  rw [decoded_eq hn hfit hparts]
  constructor
  · rintro ⟨hlength, hall⟩
    rcases Nat.eq_zero_or_pos n with rfl | hpos
    · refine ⟨fun p hp => ?_, .inl rfl⟩
      obtain ⟨k, hk, rfl⟩ := List.getElem_of_mem hp
      have hbyte := hall k hk
      simp only [decodedAt, Nat.not_lt_zero, if_false, Nat.sub_zero] at hbyte
      rw [List.getD_eq_getElem _ _ (by rwa [List.length_map]), List.getElem_map] at hbyte
      exact (decoded_iff _).mp hbyte
    · have hsize : parts.length = size := by omega
      -- by induction on the place: in front of the counter is zero, and behind it what stands `n` places earlier
      have hzero : ∀ k (hk : k < parts.length), (parts[k]).byte = 0 := by
        intro k
        induction k using Nat.strong_induction_on with
        | _ k ih =>
          intro hk
          have hbyte := hall k hk
          by_cases hfront : k < n
          · rw [decodedAt, if_pos hfront] at hbyte
            exact hbyte.symm
          · have hback : k - n < parts.length := by omega
            rw [decodedAt, if_neg hfront, List.getD_eq_getElem _ _ (by rwa [List.length_map]), List.getElem_map] at hbyte
            have hearlier := ih (k - n) (by omega) hback
            rw [← hbyte, (decoded_iff _).mpr (numeral_of_zero hearlier), hearlier]
      have hall' : ∀ p ∈ parts, p.byte = 0 := by
        intro p hp
        obtain ⟨k, hk, rfl⟩ := List.getElem_of_mem hp
        exact hzero k hk
      exact ⟨fun p hp => numeral_of_zero (hall' p hp), .inr ⟨hsize, hall'⟩⟩
  · rintro ⟨hnumeral, rfl | ⟨hsize, hzero⟩⟩
    · refine ⟨by omega, fun k hk => ?_⟩
      simp only [decodedAt, Nat.not_lt_zero, if_false, Nat.sub_zero]
      rw [List.getD_eq_getElem _ _ (by rwa [List.length_map]), List.getElem_map]
      exact (decoded_iff _).mpr (hnumeral _ (List.getElem_mem hk))
    · refine ⟨by omega, fun k hk => ?_⟩
      rw [hzero _ (List.getElem_mem hk), decodedAt]
      split
      · rfl
      · have hback : k - n < parts.length := by omega
        have hmem := List.getElem_mem hback
        rw [List.getD_eq_getElem _ _ (by rwa [List.length_map]), List.getElem_map,
          (decoded_iff _).mpr (hnumeral _ hmem), hzero _ hmem]

/-- `ab` and a zero, with the counter at zero. -/
theorem keepalive_decoded_ab : ((∀ value, Ends 0 (fun _ => 0) value) ∧
    Decoded 0 (fun _ => 0) [.plain 97 (by decide), .plain 98 (by decide), .escaped 48 48 (by decide) (by decide)]) ↔
      (∀ p ∈ [Part.plain 97 (by decide), .plain 98 (by decide), .escaped 48 48 (by decide) (by decide)], p.Numeral) ∧
        (0 = 0 ∨ 3 = size ∧
          ∀ p ∈ [Part.plain 97 (by decide), .plain 98 (by decide), .escaped 48 48 (by decide) (by decide)], p.byte = 0) :=
  keepalive_decoded_iff 0 (by decide) (fun _ => 0)
    [.plain 97 (by decide), .plain 98 (by decide), .escaped 48 48 (by decide) (by decide)] (by decide)

/-- A line feed in hexadecimal, `\x0a`, is read as 0x10. -/
theorem not_keepalive_decoded : ¬ ∀ (n : ℕ), n ≤ size → ∀ (bytes : ℕ → UInt8) (parts : List Part), parts.length ≤ size →
    (∀ value, Ends n bytes value) ∧ Decoded n bytes parts := by
  intro h
  obtain ⟨-, fuel, bytes', hload, hall⟩ := h 0 (by decide) (fun _ => 0) [.escaped 48 97 (by decide) (by decide)] (by decide)
  have hbyte : bytes' 0 = 10 := hall 0 (by decide)
  obtain ⟨t, hscan, heq⟩ := Option.map_eq_some_iff.mp hload
  have hrun : scan [92, 120, 48, 97] 5 ⟨0, .text, 0, 0, fun k => if k < size then 0 else 0⟩ = some
      ⟨4, .text, 0, 1, Function.update (fun k => if k < size then 0 else 0) 0 16⟩ := by rfl
  obtain rfl := scan_unique hscan hrun
  obtain ⟨-, rfl⟩ := Prod.mk.inj heq
  exact absurd hbyte (by decide)

end CProgram.Qodem.Keepalive
