import Mathlib.Data.List.Basic
import Mathlib.Tactic

/-! A directory: names and what the files hold, and names with a numeric suffix. -/
namespace CProgram

/-- The files of a directory. -/
abbrev Disk := List (List UInt8 × List UInt8)

namespace Disk

def put (d : Disk) (name content : List UInt8) : Disk :=
  (name, content) :: d.filter fun f => f.1 ≠ name

@[simp] theorem lookup_put (d : Disk) (name content : List UInt8) :
    (d.put name content).lookup name = some content := by
  simp [put]

/-- A numeric suffix as `.%04d` prints it. -/
def numbered (name : List UInt8) (i : Nat) : List UInt8 :=
  let digits := (Nat.toDigits 10 i).map fun ch => UInt8.ofNat ch.toNat
  name ++ [46] ++ List.replicate (4 - digits.length) 48 ++ digits

/-- The first suffix that no file has or for which `fails` holds; one of the first
`d.length + 1` is free. -/
def freeName (d : Disk) (fails : List UInt8 → Bool) (name : List UInt8) : List UInt8 :=
  numbered name <| ((List.range (d.length + 1)).find? fun i =>
    fails (numbered name i) || (d.lookup (numbered name i)).isNone).getD 0

end Disk
end CProgram
