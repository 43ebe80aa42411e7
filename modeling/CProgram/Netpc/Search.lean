import Mathlib.Data.List.Basic
import Mathlib.Data.List.Infix
import Mathlib.Data.UInt
import Mathlib.Logic.Function.Basic
import Mathlib.Tactic.Common

/-! The search path of the NET tools: PATH cut into a vector of 17 slots, an entry of it changed, and the slots
joined again in a buffer of 256 bytes. -/
namespace CProgram.Netpc

abbrev Text := List UInt8

/-- `SEARCH_VECTOR_ENTRY`. -/
structure Slot where
  drivenummer : ℕ
  flags : UInt8
  dospath : Text
  deriving DecidableEq

/-- The drive number behind the last entry, and the one of an entry without a drive. -/
def lastOfList : ℕ := 0xff
def onlyDospath : ℕ := 0xfe

def semicolon : UInt8 := 59
def colon : UInt8 := 58

inductive PathMode where
  | replace | delete | insert
  deriving DecidableEq

/-- `dospath` is an array of so many bytes with its NUL. -/
def dospathSize : ℕ := 65

/-- A drive letter with its colon in front. -/
def hasDrive (text : Text) : Bool := (text[1]? = some colon) ∧ 65 ≤ text.headD 0 ∧ text.headD 0 ≤ 90

/-- The text of a slot in PATH, if it has one. -/
def textOf (v : Slot) : Option Text :=
  if v.drivenummer < 26 then
    some (UInt8.ofNat (v.drivenummer + 65) :: colon :: if v.dospath = [] then [46] else v.dospath)
  else if v.dospath = [] then none
  else some v.dospath

/-- The slots up to the end of the list. -/
def listed (drives : ℕ → Slot) : ℕ → ℕ → List Slot
  | 0, _ => []
  | maxcount + 1, i =>
    if (drives i).drivenummer = lastOfList then [] else drives i :: listed drives maxcount (i + 1)

def joined (texts : List Text) : Text := [semicolon].intercalate texts

/-- `set_search_drive_vektor`: the value that PATH gets, nothing when it is written past the end of the buffer. -/
def setSearchDriveVektor (drives : ℕ → Slot) : Option Text :=
  let value := joined ((listed drives 16 0).filterMap textOf)
  if 5 + value.length + 1 ≤ 256 then some value else none

/-- The loop of `set_search` over the vector: the slots with the equal ones emptied, and how many there are. -/
def emptyEqual (dir : Text) (drives : ℕ → Slot) : ℕ → ℕ → (ℕ → Slot) × ℕ
  | 0, j => (drives, j)
  | n + 1, j =>
    let v := drives j
    if v.drivenummer = lastOfList then (drives, j)
    else
      let drives := if v.drivenummer + 65 = (dir.headD 0).toNat ∧ dir[1]? = some colon ∧ dir.drop 2 = v.dospath then
        Function.update drives j { v with drivenummer := onlyDospath, dospath := [] } else drives
      emptyEqual dir drives n (j + 1)

/-- `while (k--) memcpy(p, p-1, ..), --p`, nothing when it leaves the vector. -/
def moveUp : ℕ → ℕ → (ℕ → Slot) → Option (ℕ → Slot)
  | 0, _, drives => some drives
  | k + 1, p, drives => if p < 17 then moveUp k (p - 1) (Function.update drives p (drives (p - 1))) else none

/-- The slot that is written, nothing when the directory is longer than its field. -/
def written (v : Slot) (mode : PathMode) (dir : Text) : Option Slot :=
  match mode with
  | .delete => some ⟨onlyDospath, 0, []⟩
  | _ => if dir.length + 1 ≤ dospathSize then some { v with drivenummer := onlyDospath, flags := 0, dospath := dir } else none

/-- `set_search` on the entry with a number, in front of the join. -/
def changed (drives : ℕ → Slot) (entry : ℕ) (mode : PathMode) (dir : Text) : Option (ℕ → Slot) :=
  let (drives, j) := emptyEqual dir drives 16 0
  let entry := min entry 16
  let moved :=
    if mode = .insert ∧ entry ≤ j ∧ entry < 16 then
      if j < 16 then (moveUp (j + 2 - entry) (j + 1) drives).map fun drives => (drives, j + 1)
      else (moveUp (j + 1 - entry) j drives).map fun drives => (drives, j)
    else some (drives, j)
  moved.bind fun (drives, j') =>
    let (drives, p) :=
      if entry - 1 < j' then (drives, entry - 1)
      else (Function.update drives (j' + 1) { drives (j' + 1) with drivenummer := lastOfList }, j')
    (written (drives p) mode dir).map fun v => Function.update drives p v

/-- A slot whose drive is one of the network. -/
def isNetwork (v : Slot) : Bool := v.flags ≠ 0 ∧ v.flags &&& 0x80 = 0

/-- The entries with the numbered one changed; entries equal to the directory give way to it. -/
def edited (texts : List Text) (number : ℕ) (mode : PathMode) (dir : Text) : List Text :=
  let others := texts.map fun text => if text = dir then none else some text
  (match mode with
    | .insert => others.take (number - 1) ++ some dir :: others.drop (number - 1)
    | .replace => if number ≤ texts.length then others.set (number - 1) (some dir) else others ++ [some dir]
    | .delete => others.set (number - 1) none).filterMap id

end CProgram.Netpc
