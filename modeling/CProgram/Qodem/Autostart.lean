import CProgram.Lib.Matching
import Mathlib.Tactic.IntervalCases

/-! The console looks for the strings that a Zmodem or a Kermit sender starts with. -/
namespace CProgram.Qodem.Autostart
open Matching

/-- `ZRQINIT_STRING`. -/
def zrqinitString : List UInt8 :=
  [0x2A, 0x2A, 0x3F, 0x42, 0x30, 0x30, 0x30, 0x30, 0x30, 0x30, 0x30, 0x30, 0x30, 0x30]

/-- `KERMIT_AUTOSTART_STRING`. -/
def kermitAutostartString : List UInt8 :=
  [0x01, 0x3F, 0x20, 0x53, 0x3F, 0x3F, 0x3F, 0x40, 0x2D, 0x23]

/-- The flags that are looked at. -/
structure Flags where
  readOnly : Bool
  /-- `q_console_flood`. -/
  consoleFlood : Bool
  zmodemAutostart : Bool
  kermitAutostart : Bool
deriving DecidableEq, Repr

/-- A buffer and the number of bytes in it. -/
structure Buffer where
  bytes : List UInt8
  n : ℕ
deriving DecidableEq, Repr

/-- `reset_zmodem_autostart` and `reset_kermit_autostart`. -/
def Buffer.reset : Buffer := ⟨List.replicate 32 0, 0⟩

/-- A character of a start string, where a question mark stands for any. -/
def Takes (place fromModem : UInt8) : Prop := place = fromModem ∨ place = 0x3F

instance (place fromModem : UInt8) : Decidable (Takes place fromModem) := inferInstanceAs (Decidable (_ ∨ _))

/-- The comparison behind the flags. -/
def Buffer.compare (string : List UInt8) (b : Buffer) (fromModem : UInt8) : Bool × Buffer :=
  if Takes (string.getD b.n 0) fromModem then
    (decide (b.n + 1 = string.length), ⟨b.bytes.set b.n fromModem, b.n + 1⟩)
  else (false, .reset)

def checkZmodemAutostart (f : Flags) (b : Buffer) (fromModem : UInt8) : Bool × Buffer :=
  if f.readOnly then (false, b)
  else if f.consoleFlood then (false, b)
  else if ¬ f.zmodemAutostart then (false, b)
  else b.compare zrqinitString fromModem

def checkKermitAutostart (f : Flags) (b : Buffer) (fromModem : UInt8) : Bool × Buffer :=
  if f.readOnly then (false, b)
  else if f.consoleFlood then (false, b)
  else if ¬ f.kermitAutostart then (false, b)
  else b.compare kermitAutostartString fromModem

inductive Report where
  | zmodem
  | kermit
deriving DecidableEq, Repr

/-- Both buffers. -/
structure Console where
  zrqinitBuffer : Buffer
  kermitBuffer : Buffer
deriving DecidableEq, Repr

/-- As the program starts. -/
def Console.start : Console := ⟨.reset, .reset⟩

/-- A byte in `console_process_incoming_data`. -/
def Console.receive (f : Flags) (c : Console) (fromModem : UInt8) : Option Report × Console :=
  let (found, zrqinitBuffer) := checkZmodemAutostart f c.zrqinitBuffer fromModem
  if found then (some .zmodem, { c with zrqinitBuffer := .reset })
  else
    let (found, kermitBuffer) := checkKermitAutostart f c.kermitBuffer fromModem
    (if found then some .kermit else none,
      ⟨zrqinitBuffer, if found then .reset else kermitBuffer⟩)

/-- What is reported at each byte of a stream. -/
def Console.reports (f : Flags) : Console → List UInt8 → List (Option Report)
  | _, [] => []
  | c, fromModem :: stream =>
    (c.receive f fromModem).1 :: reports f (c.receive f fromModem).2 stream

/-- Both protocols are looked for. -/
def Flags.watching : Flags := ⟨false, false, true, true⟩

variable {b : Buffer} {c : Console} {ch : UInt8} {string stream : List UInt8} {n : ℕ}

/-- The buffer's counter is the matcher's, which a report sets back. -/
theorem compare_step (ch : UInt8) (hn : b.n < string.length) : (b.compare string ch).1 = (step Takes string b.n ch).2 ∧
    (if (b.compare string ch).1 then 0 else (b.compare string ch).2.n) = (step Takes string b.n ch).1 := by
  have hcontinues : Continues Takes string b.n ch ↔ Takes (string.getD b.n 0) ch := by
    simp [Continues, List.getElem?_eq_getElem hn]
  unfold Buffer.compare step
  by_cases htakes : Takes (string.getD b.n 0) ch
  · rw [if_pos htakes, if_pos (hcontinues.mpr htakes)]
    by_cases hwhole : b.n + 1 = string.length
    · simp [hwhole]
    · simp [hwhole]
  · rw [if_neg htakes, if_neg (mt hcontinues.mp htakes)]
    exact ⟨rfl, rfl⟩

/-- No part of a Kermit start string is left behind a long part of a Zmodem one, which ends in zeros. -/
def Apart (z k : ℕ) : Prop := 5 ≤ z → k = 0 ∨ (k = 2 ∧ z = 5) ∨ (z ≤ k ∧ k ≤ 7)

instance {z k : ℕ} : Decidable (Apart z k) := inferInstanceAs (Decidable (_ → _))

theorem apart_step (ch : UInt8) {z k : ℕ} (hz : z < zrqinitString.length) (hk : k < kermitAutostartString.length)
    (h : Apart z k) :
    Apart (step Takes zrqinitString z ch).1 (step Takes kermitAutostartString k ch).1 := by
  by_cases hzero : ch = 0x30
  · have hall : ∀ z < zrqinitString.length, ∀ k < kermitAutostartString.length, Apart z k →
        Apart (step Takes zrqinitString z 0x30).1 (step Takes kermitAutostartString k 0x30).1 := by decide
    rw [hzero]
    exact hall z hz k hk h
  · -- only zeros get the counter past the B
    have hzeros : ∀ z < zrqinitString.length, 4 ≤ z → zrqinitString[z]? = some 0x30 := by decide
    intro hlong
    rw [step] at hlong
    split_ifs at hlong with hcontinues hwhole
    · simp at hlong
    · obtain ⟨p, hp, htakes⟩ := hcontinues
      dsimp only at hlong
      rw [hzeros z hz (by omega)] at hp
      cases hp
      rcases htakes with htakes | htakes
      · exact absurd htakes.symm hzero
      · exact absurd htakes (by decide)
    · simp at hlong

/-- The byte that completes a Zmodem start string is nothing to the Kermit buffer, which does not see it. -/
theorem step_kermit_of_zmodem {z k : ℕ} (hz : z < zrqinitString.length) (hk : k < kermitAutostartString.length)
    (h : Apart z k) (hfound : (step Takes zrqinitString z ch).2 = true) :
    k = 0 ∧ step Takes kermitAutostartString k ch = (0, false) := by
  rw [step] at hfound
  split_ifs at hfound with hcontinues hwhole
  have hz13 : z = 13 := Nat.succ.inj hwhole
  subst hz13
  obtain ⟨p, hp, htakes⟩ := hcontinues
  cases hp
  have hch : ch = 0x30 := by
    rcases htakes with htakes | htakes
    · exact htakes.symm
    · exact absurd htakes (by decide)
  have hnone : k = 0 := by
    have := h (by decide)
    omega
  subst hch hnone
  exact ⟨rfl, by decide⟩

theorem step_lt (ch : UInt8) (hn : n < string.length) : (step Takes string n ch).1 < string.length := by
  rw [step]
  split_ifs with hcontinues hwhole
  · omega
  · dsimp only
    omega
  · omega

/-- What the console reports, for each of the protocols on its own. -/
theorem reports_eq (stream : List UInt8) (hz : c.zrqinitBuffer.n < zrqinitString.length)
    (hk : c.kermitBuffer.n < kermitAutostartString.length) (h : Apart c.zrqinitBuffer.n c.kermitBuffer.n) :
    (c.reports .watching stream).map (fun r => decide (r = some .zmodem)) =
        reports Takes zrqinitString c.zrqinitBuffer.n stream ∧
      (c.reports .watching stream).map (fun r => decide (r = some .kermit)) =
        reports Takes kermitAutostartString c.kermitBuffer.n stream := by
  induction stream generalizing c with
  | nil => exact ⟨rfl, rfl⟩
  | cons ch stream ih =>
    obtain ⟨hzfound, hznext⟩ := compare_step ch hz
    obtain ⟨hkfound, hknext⟩ := compare_step ch hk
    have hapart := apart_step ch hz hk h
    have hzlt := step_lt ch hz
    have hklt := step_lt ch hk
    have hcheck : c.receive .watching ch =
        if (c.zrqinitBuffer.compare zrqinitString ch).1 then (some .zmodem, { c with zrqinitBuffer := .reset })
        else (if (c.kermitBuffer.compare kermitAutostartString ch).1 then some .kermit else none,
          ⟨(c.zrqinitBuffer.compare zrqinitString ch).2, if (c.kermitBuffer.compare kermitAutostartString ch).1 then .reset
            else (c.kermitBuffer.compare kermitAutostartString ch).2⟩) := rfl
    rw [Console.reports, List.map_cons, List.map_cons, reports, reports, ← hzfound, ← hkfound]
    cases hfound : (c.zrqinitBuffer.compare zrqinitString ch).1 with
    | true =>
      rw [hfound] at hzfound hznext
      obtain ⟨hnone, hstay⟩ := step_kermit_of_zmodem hz hk h hzfound.symm
      rw [if_pos rfl] at hznext
      rw [hstay] at hkfound
      have hzlt0 : Buffer.reset.n < zrqinitString.length := by decide
      have hrest := ih (c := { c with zrqinitBuffer := .reset }) hzlt0 hk fun hlong => absurd hlong (by simp [Buffer.reset])
      have hempty : reports Takes kermitAutostartString c.kermitBuffer.n stream =
          reports Takes kermitAutostartString 0 stream := by rw [hnone]
      rw [hcheck, if_pos hfound, hkfound, hstay, ← hznext]
      exact ⟨congrArg (true :: ·) hrest.1, congrArg (false :: ·) (hrest.2.trans hempty)⟩
    | false =>
      rw [hfound] at hznext
      simp only [Bool.false_eq_true, if_false] at hznext
      rw [hcheck, if_neg (by rw [hfound]; exact Bool.false_ne_true)]
      cases hkermit : (c.kermitBuffer.compare kermitAutostartString ch).1 with
      | true =>
        rw [hkermit, if_pos rfl] at hknext
        rw [← hznext] at hzlt hapart ⊢
        rw [← hknext] at hapart ⊢
        have hklt0 : Buffer.reset.n < kermitAutostartString.length := by decide
        have hrest := ih (c := ⟨(c.zrqinitBuffer.compare zrqinitString ch).2, .reset⟩) hzlt hklt0 hapart
        exact ⟨congrArg (false :: ·) hrest.1, congrArg (true :: ·) hrest.2⟩
      | false =>
        rw [hkermit, if_neg Bool.false_ne_true] at hknext
        rw [← hznext] at hzlt hapart ⊢
        rw [← hknext] at hklt hapart ⊢
        have hrest := ih (c := ⟨(c.zrqinitBuffer.compare zrqinitString ch).2,
          (c.kermitBuffer.compare kermitAutostartString ch).2⟩) hzlt hklt hapart
        exact ⟨congrArg (false :: ·) hrest.1, congrArg (false :: ·) hrest.2⟩

/-- The reports are those of the start strings in a stream. -/
def Finds (report : Report) (string stream : List UInt8) : Prop :=
  (Console.start.reports .watching stream).map (fun r => decide (r = some report)) = starts Takes string [] stream

/-- The console finds the start strings of a protocol just where nothing but false starts stands before each of them. -/
theorem finds_iff (stream : List UInt8) :
    (Finds .zmodem zrqinitString stream ↔ Clean Takes zrqinitString [] stream) ∧
      (Finds .kermit kermitAutostartString stream ↔ Clean Takes kermitAutostartString [] stream) := by
  obtain ⟨hzmodem, hkermit⟩ := reports_eq (c := .start) stream (by decide) (by decide)
    fun hlong => absurd hlong (by decide)
  constructor
  · rw [Finds, hzmodem]
    exact (counted_nil (by decide)).reports_eq_starts_iff (by decide)
  · rw [Finds, hkermit]
    exact (counted_nil (by decide)).reports_eq_starts_iff (by decide)

/-- A third asterisk before the string is enough. -/
theorem not_finds : ¬ ∀ stream, Finds .zmodem zrqinitString stream ∧ Finds .kermit kermitAutostartString stream := by
  intro hall
  have hfinds := (hall (0x2A :: 0x2A :: 0x2A :: 0x18 :: zrqinitString.drop 3)).1
  revert hfinds
  unfold Finds
  decide

end CProgram.Qodem.Autostart
