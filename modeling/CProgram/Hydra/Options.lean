import CProgram.Lib.Strings

/-! Link options of a Hydra session, their bits and their names, and how a list of names is put
together and taken apart again. -/
namespace CProgram.Hydra
open Strings

abbrev Dword := BitVec 32

def hoptXonxoff : Dword := 0x001
def hoptTelenet : Dword := 0x002
def hoptCtlchrs : Dword := 0x004
def hoptHighctl : Dword := 0x008
def hoptHighbit : Dword := 0x010
def hoptCanbrk : Dword := 0x020
def hoptCanasc : Dword := 0x040
def hoptCanuue : Dword := 0x080
def hoptCrc32 : Dword := 0x100
def hoptDevice : Dword := 0x200
def hoptFpt : Dword := 0x400

def hcanOptions : Dword :=
  hoptXonxoff ||| hoptTelenet ||| hoptCtlchrs ||| hoptHighctl ||| hoptHighbit ||| hoptCanasc |||
    hoptCanuue ||| hoptCrc32 ||| hoptDevice
/-- Vital when asked for. -/
def hnecOptions : Dword :=
  hoptXonxoff ||| hoptTelenet ||| hoptCtlchrs ||| hoptHighctl ||| hoptHighbit ||| hoptCanbrk
def hunnOptions : Dword := hoptCanasc ||| hoptCanuue ||| hoptCrc32 ||| hoptDevice
def hrxiOptions : Dword :=
  hoptXonxoff ||| hoptTelenet ||| hoptCtlchrs ||| hoptHighctl ||| hoptHighbit
def htxiOptions : Dword := 0

structure Flag where
  str : List UInt8
  val : Dword

/-- `h_flags`: XON, TLN, CTL, HIC, HI8, BRK, ASC, UUE, C32, DEV, FPT. -/
def hFlags : List Flag :=
  [⟨[88, 79, 78], hoptXonxoff⟩, ⟨[84, 76, 78], hoptTelenet⟩, ⟨[67, 84, 76], hoptCtlchrs⟩,
    ⟨[72, 73, 67], hoptHighctl⟩, ⟨[72, 73, 56], hoptHighbit⟩, ⟨[66, 82, 75], hoptCanbrk⟩,
    ⟨[65, 83, 67], hoptCanasc⟩, ⟨[85, 85, 69], hoptCanuue⟩, ⟨[67, 51, 50], hoptCrc32⟩,
    ⟨[68, 69, 86], hoptDevice⟩, ⟨[70, 80, 84], hoptFpt⟩]

/-- One turn of the loop of `put_flags`, with what is written so far. -/
def putFlag (val : Dword) (p : List UInt8) (flag : Flag) : List UInt8 :=
  if val &&& flag.val ≠ 0 then (if p ≠ [] then p ++ [44] else p) ++ flag.str else p

def putFlags (val : Dword) : List UInt8 := hFlags.foldl (putFlag val) []

/-- One turn of the loop of `get_flags`. -/
def getFlag (val : Dword) (p : List UInt8) : Dword :=
  match hFlags.find? fun flag => flag.str = p with
  | some flag => val ||| flag.val
  | none => val

/-- The options in the string at `p`, and the buffer as `strtok` leaves it. -/
def getFlags (buf : List UInt8) (p : ℕ) : Dword × List UInt8 :=
  let s := cstr buf p
  ((tokens 44 [] s).foldl getFlag 0, buf.take p ++ (cut 44 false s ++ buf.drop (p + s.length)))

/-- The names that `put_flags` writes. -/
def names (val : Dword) : List (List UInt8) :=
  (hFlags.filter fun flag => val &&& flag.val ≠ 0).map (·.str)

theorem joined_snoc (d : UInt8) (words : List (List UInt8)) (w : List UInt8) :
    joined d (words ++ [w]) = if words = [] then w else joined d words ++ d :: w := by
  induction words with
  | nil => rfl
  | cons v words ih =>
    cases words with
    | nil => rfl
    | cons u words =>
      have hsplit (rest : List (List UInt8)) :
          joined d (v :: u :: rest) = v ++ d :: joined d (u :: rest) := rfl
      rw [List.cons_append, List.cons_append, hsplit, hsplit, ← List.cons_append, ih,
        if_neg (by simp), if_neg (by simp)]
      simp

theorem joined_ne_nil {d : UInt8} {words : List (List UInt8)} (hwords : words ≠ [])
    (hfull : ∀ w ∈ words, w ≠ []) : joined d words ≠ [] := by
  cases words with
  | nil => exact absurd rfl hwords
  | cons w words =>
    have hw := hfull w List.mem_cons_self
    cases words with
    | nil => exact hw
    | cons v words => simp [joined]

theorem foldl_putFlag (val : Dword) (flags : List Flag) (hflags : ∀ f ∈ flags, f.str ≠ [])
    (words : List (List UInt8)) (hwords : ∀ w ∈ words, w ≠ []) :
    flags.foldl (putFlag val) (joined 44 words) =
      joined 44 (words ++ (flags.filter fun flag => val &&& flag.val ≠ 0).map (·.str)) := by
  induction flags generalizing words with
  | nil => simp
  | cons flag flags ih =>
    have hrest : ∀ f ∈ flags, f.str ≠ [] := fun f hf => hflags f (List.mem_cons_of_mem _ hf)
    rw [List.foldl_cons]
    by_cases hset : val &&& flag.val ≠ 0
    · have hput : putFlag val (joined 44 words) flag = joined 44 (words ++ [flag.str]) := by
        rw [putFlag, if_pos hset, joined_snoc]
        by_cases hwords' : words = []
        · subst hwords'
          rfl
        · rw [if_pos (joined_ne_nil hwords' hwords), if_neg hwords']
          simp
      rw [hput, ih hrest, List.filter_cons_of_pos (by simpa using hset)]
      · simp
      · intro w hw
        rcases List.mem_append.mp hw with hold | hnew
        · exact hwords w hold
        · rw [List.mem_singleton.mp hnew]
          exact hflags flag List.mem_cons_self
    · rw [putFlag, if_neg hset, ih hrest words hwords,
        List.filter_cons_of_neg (by simpa using hset)]

theorem putFlags_eq (val : Dword) : putFlags val = joined 44 (names val) := by
  have hflags : ∀ f ∈ hFlags, f.str ≠ [] := by decide
  exact foldl_putFlag val hFlags hflags [] (by simp)

theorem mem_names {val : Dword} {w : List UInt8} (hw : w ∈ names val) :
    Word 44 w ∧ Text w ∧ w.length = 3 := by
  have hall : ∀ f ∈ hFlags, (f.str ≠ [] ∧ (44 : UInt8) ∉ f.str) ∧ (∀ ch ∈ f.str, ch ≠ 0) ∧
      f.str.length = 3 := by decide +kernel
  obtain ⟨f, hf, rfl⟩ := List.mem_map.mp hw
  exact hall f (List.mem_filter.mp hf).1

theorem text_putFlags (val : Dword) : Text (putFlags val) := by
  have hjoined (words : List (List UInt8)) (hwords : ∀ w ∈ words, Text w) : Text (joined 44 words) := by
    induction words with
    | nil => intro ch hch; cases hch
    | cons w words ih =>
      have hw := hwords w List.mem_cons_self
      have hrest := ih fun v hv => hwords v (List.mem_cons_of_mem _ hv)
      cases words with
      | nil => exact hw
      | cons v words =>
        intro ch hch
        rcases List.mem_append.mp hch with hfront | hlater
        · exact hw ch hfront
        · rcases List.mem_cons.mp hlater with rfl | hmore
          · decide
          · exact hrest ch hmore
  rw [putFlags_eq]
  exact hjoined _ fun w hw => (mem_names hw).2.1

/-- `get_flags` on a string of `put_flags`: the names one by one, and a NUL behind each of them. -/
theorem getFlags_putFlags (pre : List UInt8) (val : Dword) (rest : List UInt8) :
    getFlags (pre ++ (putFlags val ++ 0 :: rest)) pre.length =
      ((names val).foldl getFlag 0, pre ++ (joined 0 (names val) ++ 0 :: rest)) := by
  have hwords : ∀ w ∈ names val, Word 44 w := fun w hw => (mem_names hw).1
  have hdrop : (pre ++ (putFlags val ++ 0 :: rest)).drop (pre.length + (putFlags val).length) =
      0 :: rest := by
    rw [← List.append_assoc, ← List.length_append, List.drop_left]
  rw [getFlags, cstr_at pre (text_putFlags val), List.take_left, hdrop, putFlags_eq,
    tokens_joined _ hwords, cut_joined _ hwords]

end CProgram.Hydra
