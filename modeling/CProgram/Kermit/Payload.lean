import CProgram.Kermit.Parse

/-! What the payload of a good packet does: `process_file_header`, `process_attributes`,
`process_error_packet`, and the buffer the payload is kept in. -/
namespace CProgram.Kermit
open Bytes

/-- The file collision options. -/
inductive Access where
  | new
  | supersede
  | append
  | warn
deriving DecidableEq, Repr

/-- The part of `status` that an Attributes packet can set. -/
structure Attributes where
  fileSize : Nat
  fileSizeK : Nat
  textMode : Bool
  doResend : Bool
  access : Access
deriving DecidableEq, Repr

def atoi (s : List UInt8) : Int :=
  match s.dropWhile isSpace with
  | 45 :: rest => -(digits rest 0 : Int)
  | 43 :: rest => digits rest 0
  | rest => digits rest 0

/-- An `int` stored into an `unsigned int`. -/
def toUnsigned (i : Int) : Nat := (i % 2 ^ 32).toNat

/-- One attribute: `rest` is the payload behind its length, `length` how much of it is its
value. A letter is read without looking at the length. -/
def processAttribute (convertText : Bool) (a : Attributes) (type : UInt8) (length : Nat)
    (rest : List UInt8) : Attributes :=
  let letter := rest.headD 0
  if type = 33 then { a with fileSizeK := toUnsigned (atoi (rest.take length)) }
  else if type = 34 then
    if 0 < length ∧ letter = 65 ∧ convertText then { a with textMode := true } else a
  else if type = 41 then
    if letter = 78 then { a with access := .new }
    else if letter = 83 then { a with access := .supersede }
    else if letter = 65 then { a with access := .append }
    else if letter = 87 then { a with access := .warn }
    else a
  else if type = 43 then if letter = 82 then { a with doResend := true } else a
  else if type = 49 then { a with fileSize := toUnsigned (atoi (rest.take length)) }
  else a

/-- The loop of `process_attributes`, at most `fuel` rounds; the flag is false for a payload that
is not well formed. -/
def attributesLoop (convertText : Bool) : Nat → List UInt8 → Attributes → Bool × Attributes
  | fuel + 1, type :: length :: rest, a =>
    let length := (unchar length).toNat
    if rest.length < length then (false, a)
    else attributesLoop convertText fuel (rest.drop length)
      (processAttribute convertText a type length rest)
  | _, data, a => (data.isEmpty, a)

/-- `process_attributes`. -/
def processAttributes (convertText : Bool) (data : List UInt8) (a : Attributes) :
    Bool × Attributes :=
  attributesLoop convertText data.length data a

def isLower (ch : UInt8) : Bool := decide (97 ≤ ch) && decide (ch ≤ 122)

def isUpper (ch : UInt8) : Bool := decide (65 ≤ ch) && decide (ch ≤ 90)

def toLower (ch : UInt8) : UInt8 := if isUpper ch then ch + 32 else ch

/-- The payload of a File-Header after `process_file_header`: a name without any lower case letter
is turned into lower case. -/
def lowerFileName (data : List UInt8) : List UInt8 :=
  if data.any isLower then data else data.map toLower

/-- `status.file_name`: the payload as a C string. -/
def processFileHeader (data : List UInt8) : List UInt8 :=
  (lowerFileName data).takeWhile (· ≠ 0)

namespace ParseContext
variable (c : ParseContext)

/-- `input_packet.parsed_ok` after the payload has been processed. -/
def parsedOk (convertText : Bool) (a : Attributes) (type : Option PacketType)
    (data : List UInt8) : Bool :=
  match type with
  | some .ksinit => (processSendInit data).isSome
  | some .kattributes => (processAttributes convertText data a).1
  | some .kreserved1 => false
  | some .kreserved2 => false
  | some .knak =>
    !(c.sending && c.session.streaming && (decide (c.state = .kmSDW) || decide (c.state = .kmSZ)))
  | _ => true

end ParseContext

/-- `input_packet.data` after the payload has been processed. -/
def processedData (type : Option PacketType) (data : List UInt8) : List UInt8 :=
  if type = some .kfile then lowerFileName data else data

/-- The packets whose payload is terminated by a NUL. -/
def terminated (type : Option PacketType) : Bool :=
  decide (type = some .kfile) || decide (type = some .kattributes) ||
    decide (type = some .kerror)

/-- `data_max` once `k` bytes are in the payload buffer: it is doubled when the next byte does
not fit. -/
def growMax (dataMax : Nat) : Nat → Nat
  | 0 => dataMax
  | k + 1 => if k = growMax dataMax k then 2 * growMax dataMax k else growMax dataMax k

/-- What `vsprintf` makes of a C string given as its format; `none` when a directive asks for an
argument, and there is none. -/
def formatPlain : List UInt8 → Option (List UInt8)
  | [] => some []
  | 37 :: 37 :: rest => (formatPlain rest).map (37 :: ·)
  | ch :: rest =>
    if ch = 0 then some [] else if ch = 37 then none else (formatPlain rest).map (ch :: ·)

/-- `process_error_packet` hands the text of the peer to `set_transfer_stats_last_message`, which
formats it into a buffer of 128 bytes. -/
def messageFits (data : List UInt8) : Bool :=
  match formatPlain data with
  | some text => decide (text.length < 128)
  | none => false

/-- The buffer has always been doubled some number of times. -/
theorem growMax_spec (dataMax : Nat) (h : 0 < dataMax) (k : Nat) :
    ∃ i, growMax dataMax k = dataMax * 2 ^ i ∧ k ≤ dataMax * 2 ^ i ∧
      ∀ j, j < i → dataMax * 2 ^ j < k := by
  induction k with
  | zero => exact ⟨0, by simp [growMax], Nat.zero_le _, by simp⟩
  | succ k ih =>
    obtain ⟨i, hg, hk, hj⟩ := ih
    simp only [growMax]
    by_cases he : k = growMax dataMax k
    · have hpos : 0 < dataMax * 2 ^ i := Nat.mul_pos h (Nat.two_pow_pos i)
      have hdouble : dataMax * 2 ^ (i + 1) = 2 * (dataMax * 2 ^ i) := by
        rw [Nat.pow_succ]
        ring
      refine ⟨i + 1, ?_, ?_, fun j hji => ?_⟩
      · rw [if_pos he, hg, hdouble]
      · omega
      · rcases Nat.lt_succ_iff_lt_or_eq.mp hji with hlt | rfl
        · exact (hj j hlt).trans (Nat.lt_succ_self k)
        · omega
    · rw [if_neg he]
      refine ⟨i, hg, by omega, fun j hji => (hj j hji).trans (Nat.lt_succ_self k)⟩

/-- Every byte of the payload is stored inside the buffer. -/
theorem lt_growMax (dataMax : Nat) (h : 0 < dataMax) (k : Nat) : k < growMax dataMax (k + 1) := by
  obtain ⟨i, hg, hk, -⟩ := growMax_spec dataMax h (k + 1)
  omega

/-- A payload fills its buffer exactly when it is as long as the buffer doubled some times. -/
theorem growMax_eq_self (dataMax : Nat) (h : 0 < dataMax) (k : Nat) :
    growMax dataMax k = k ↔ ∃ i, k = dataMax * 2 ^ i := by
  obtain ⟨i, hg, hk, hj⟩ := growMax_spec dataMax h k
  constructor
  · intro he
    exact ⟨i, by omega⟩
  · rintro ⟨i', rfl⟩
    rcases Nat.lt_trichotomy i i' with hlt | rfl | hgt
    · have := hj
      rw [hg] at *
      have hlt' : dataMax * 2 ^ i < dataMax * 2 ^ i' :=
        Nat.mul_lt_mul_of_pos_left (Nat.pow_lt_pow_right (by decide) hlt) h
      omega
    · exact hg
    · exact absurd (hj i' hgt) (lt_irrefl _)

end CProgram.Kermit
