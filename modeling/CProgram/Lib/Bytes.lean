import Mathlib.Data.List.Basic
import Mathlib.Tactic

/-! Eight-bit bytes and lists of them: facts over all bytes are checked by running through
the 256 values, 32-bit unsigned subtraction is written out as it wraps, and the C library's
reading of decimal digits. -/
namespace CProgram.Bytes

/-- A property of every byte, from its 256 instances. -/
theorem forall_byte {P : UInt8 → Prop} (h : ∀ i : Fin 256, P (UInt8.ofNat i)) (b : UInt8) :
    P b := by
  have hb := h ⟨b.toNat, b.toNat_lt⟩
  simpa using hb

/-- `a - b` of two `unsigned int`. -/
def sub32 (a b : Nat) : Nat := (a + 2 ^ 32 - b) % 2 ^ 32

theorem sub32_of_le {a b : Nat} (h : b ≤ a) (ha : a < 2 ^ 32) : sub32 a b = a - b := by
  unfold sub32
  have he : a + 2 ^ 32 - b = (a - b) + 2 ^ 32 := by omega
  rw [he, Nat.add_mod_right, Nat.mod_eq_of_lt (by omega)]

theorem sub32_of_lt {a b : Nat} (h : a < b) :
    sub32 a b = a + 2 ^ 32 - b := by
  unfold sub32
  rw [Nat.mod_eq_of_lt (by omega)]

def isDigit (ch : UInt8) : Bool := decide (48 ≤ ch) && decide (ch ≤ 57)

/-- The digits at the front of a string, as a number. -/
def digits : List UInt8 → Nat → Nat
  | [], n => n
  | ch :: rest, n => if isDigit ch then digits rest (10 * n + (ch.toNat - 48)) else n

def isSpace (ch : UInt8) : Bool := decide (ch = 32) || (decide (9 ≤ ch) && decide (ch ≤ 13))

end CProgram.Bytes
