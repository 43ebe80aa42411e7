import CProgram.Lib.Bytes
import Mathlib.Data.List.DropRight

/-! The bindery passwords of the NetWare client: the hash of a password, the answer to a login key, and the block
cipher under which a new hash goes to the server. -/
namespace CProgram.Netpc.Passwords
open CProgram.Bytes

/-- `buf8`. -/
abbrev Buf8 := Fin 8 → UInt8

/-! ### Half bytes -/

def low (b : UInt8) : UInt8 := b &&& 0x0f

def high (b : UInt8) : UInt8 := (b >>> 4) &&& 0x0f

/-- The half bytes of a buffer, the low one of each byte first. -/
def nibble (buf : Buf8) (n : Fin 16) : UInt8 :=
  if n.val % 2 = 1 then high (buf ⟨n / 2, by omega⟩) else low (buf ⟨n / 2, by omega⟩)

/-- `out[n/2] |= ((n&1) ? ch<<4 : ch)`. -/
def orInto (buf : Buf8) (n : Fin 16) (ch : UInt8) : Buf8 :=
  Function.update buf ⟨n / 2, by omega⟩ (buf ⟨n / 2, by omega⟩ ||| if n.val % 2 = 1 then ch <<< 4 else ch)

/-! ### The tables -/

/-- In rows of 16. -/
def newshuffle : List (List ℕ) := [
  [0xf, 0x8, 0x5, 0x7, 0xc, 0x2, 0xe, 0x9, 0x0, 0x1, 0x6, 0xd, 0x3, 0x4, 0xb, 0xa],
  [0x2, 0xc, 0xe, 0x6, 0xf, 0x0, 0x1, 0x8, 0xd, 0x3, 0xa, 0x4, 0x9, 0xb, 0x5, 0x7],
  [0x5, 0x2, 0x9, 0xf, 0xc, 0x4, 0xd, 0x0, 0xe, 0xa, 0x6, 0x8, 0xb, 0x1, 0x3, 0x7],
  [0xf, 0xd, 0x2, 0x6, 0x7, 0x8, 0x5, 0x9, 0x0, 0x4, 0xc, 0x3, 0x1, 0xa, 0xb, 0xe],
  [0x5, 0xe, 0x2, 0xb, 0xd, 0xa, 0x7, 0x0, 0x8, 0x6, 0x4, 0x1, 0xf, 0xc, 0x3, 0x9],
  [0x8, 0x2, 0xf, 0xa, 0x5, 0x9, 0x6, 0xc, 0x0, 0xb, 0x1, 0xd, 0x7, 0x3, 0x4, 0xe],
  [0xe, 0x8, 0x0, 0x9, 0x4, 0xb, 0x2, 0x7, 0xc, 0x3, 0xa, 0x5, 0xd, 0x1, 0x6, 0xf],
  [0x1, 0x4, 0x8, 0xa, 0xd, 0xb, 0x7, 0xe, 0x5, 0xf, 0x3, 0x9, 0x0, 0x2, 0x6, 0xc],
  [0x5, 0x3, 0xc, 0x8, 0xb, 0x2, 0xe, 0xa, 0x4, 0x1, 0xd, 0x0, 0x6, 0x7, 0xf, 0x9],
  [0x6, 0x0, 0xb, 0xe, 0xd, 0x4, 0xc, 0xf, 0x7, 0x2, 0x8, 0xa, 0x1, 0x5, 0x3, 0x9],
  [0xb, 0x5, 0xa, 0xe, 0xf, 0x1, 0xc, 0x0, 0x6, 0x4, 0x2, 0x9, 0x3, 0xd, 0x7, 0x8],
  [0x7, 0x2, 0xa, 0x0, 0xe, 0x8, 0xf, 0x4, 0xc, 0xb, 0x9, 0x1, 0x5, 0xd, 0x3, 0x6],
  [0x7, 0x4, 0xf, 0x9, 0x5, 0x1, 0xc, 0xb, 0x0, 0x3, 0x8, 0xe, 0x2, 0xa, 0x6, 0xd],
  [0x9, 0x4, 0x8, 0x0, 0xa, 0x3, 0x1, 0xc, 0x5, 0xf, 0x7, 0x2, 0xb, 0xe, 0x6, 0xd],
  [0x9, 0x5, 0x4, 0x7, 0xe, 0x8, 0x3, 0x1, 0xd, 0xb, 0xc, 0x2, 0x0, 0xf, 0x6, 0xa],
  [0x9, 0xa, 0xb, 0xd, 0x5, 0x3, 0xf, 0x0, 0x1, 0xc, 0x8, 0x7, 0x6, 0x4, 0xe, 0x2],
  [0x3, 0xe, 0xf, 0x2, 0xd, 0xc, 0x4, 0x5, 0x9, 0x6, 0x0, 0x1, 0xb, 0x7, 0xa, 0x8]]

/-- `invshuffle[i+newshuffle[i+j]]=j`, for one `i`. -/
def inverse (row : List ℕ) : List ℕ :=
  (List.range 16).foldl (fun inv j => inv.set (row.getD j 0) j) (List.replicate 16 0)

def invshuffle : List (List ℕ) := newshuffle.map inverse

def entry (table : List (List ℕ)) (row n : ℕ) : ℕ := (table.getD row []).getD n 0

/-- The half byte that goes to the half byte `n`. -/
def source (n : Fin 16) : Fin 16 := Fin.ofNat 16 (entry newshuffle 16 n)

/-! ### The cipher -/

/-- A byte through its two rows of `newshuffle`. -/
def substitute (table : List (List ℕ)) (di : Fin 8) (b : UInt8) : UInt8 :=
  UInt8.ofNat (entry table (2 * di + 1) (high b).toNat) <<< 4 ||| UInt8.ofNat (entry table (2 * di) (low b).toNat)

/-- `old`, one half byte on. -/
def rotate (old : Buf8) : Buf8 := fun k => high (old (k - 1)) ||| old k <<< 4

/-- `oldpwd`, one half byte back. -/
def rotateBack (old : Buf8) : Buf8 := fun k => old (k + 1) <<< 4 ||| high (old k)

/-- A loop over half bytes that are put together in a buffer. -/
def assemble (target : Fin 16 → Fin 16) (ch : Fin 16 → UInt8) (js : List (Fin 16)) (out : Buf8) : Buf8 :=
  js.foldl (fun out j => orInto out (target j) (ch j)) out

/-- `copy` and `old` after one round of `newpassencrypt`. -/
def encryptRound (s : Buf8 × Buf8) : Buf8 × Buf8 :=
  let copy := fun di => substitute newshuffle di (s.1 di ^^^ s.2 di)
  (assemble id (fun di => nibble copy (source di)) (List.finRange 16) fun _ => 0, rotate s.2)

/-- `newpwd` and `oldpwd` after one round of `nw_decrypt_newpass`. -/
def decryptRound (s : Buf8 × Buf8) : Buf8 × Buf8 :=
  let copy := assemble source (fun j => nibble s.1 j) (List.finRange 16) fun _ => 0
  let old := rotateBack s.2
  (fun j => substitute invshuffle j (copy j) ^^^ old j, old)

/-- `out`, and what is in `old` then. -/
def newpassencrypt (old new : Buf8) : Buf8 × Buf8 := encryptRound^[16] (new, old)

/-- `undecr`, which is in `newpwd` too, and what is in `oldpwd` then. -/
def nwDecryptNewpass (oldpwd newpwd : Buf8) : Buf8 × Buf8 := decryptRound^[16] (newpwd, oldpwd)

/-! ### The hash -/

abbrev Buf16 := Fin 16 → UInt8

abbrev Buf32 := Fin 32 → UInt8

def encrypttable : List ℕ := [
  0x7, 0x8, 0x0, 0x8, 0x6, 0x4, 0xE, 0x4, 0x5, 0xC, 0x1, 0x7, 0xB, 0xF, 0xA, 0x8,
  0xF, 0x8, 0xC, 0xC, 0x9, 0x4, 0x1, 0xE, 0x4, 0x6, 0x2, 0x4, 0x0, 0xA, 0xB, 0x9,
  0x2, 0xF, 0xB, 0x1, 0xD, 0x2, 0x1, 0x9, 0x5, 0xE, 0x7, 0x0, 0x0, 0x2, 0x6, 0x6,
  0x0, 0x7, 0x3, 0x8, 0x2, 0x9, 0x3, 0xF, 0x7, 0xF, 0xC, 0xF, 0x6, 0x4, 0xA, 0x0,
  0x2, 0x3, 0xA, 0xB, 0xD, 0x8, 0x3, 0xA, 0x1, 0x7, 0xC, 0xF, 0x1, 0x8, 0x9, 0xD,
  0x9, 0x1, 0x9, 0x4, 0xE, 0x4, 0xC, 0x5, 0x5, 0xC, 0x8, 0xB, 0x2, 0x3, 0x9, 0xE,
  0x7, 0x7, 0x6, 0x9, 0xE, 0xF, 0xC, 0x8, 0xD, 0x1, 0xA, 0x6, 0xE, 0xD, 0x0, 0x7,
  0x7, 0xA, 0x0, 0x1, 0xF, 0x5, 0x4, 0xB, 0x7, 0xB, 0xE, 0xC, 0x9, 0x5, 0xD, 0x1,
  0xB, 0xD, 0x1, 0x3, 0x5, 0xD, 0xE, 0x6, 0x3, 0x0, 0xB, 0xB, 0xF, 0x3, 0x6, 0x4,
  0x9, 0xD, 0xA, 0x3, 0x1, 0x4, 0x9, 0x4, 0x8, 0x3, 0xB, 0xE, 0x5, 0x0, 0x5, 0x2,
  0xC, 0xB, 0xD, 0x5, 0xD, 0x5, 0xD, 0x2, 0xD, 0x9, 0xA, 0xC, 0xA, 0x0, 0xB, 0x3,
  0x5, 0x3, 0x6, 0x9, 0x5, 0x1, 0xE, 0xE, 0x0, 0xE, 0x8, 0x2, 0xD, 0x2, 0x2, 0x0,
  0x4, 0xF, 0x8, 0x5, 0x9, 0x6, 0x8, 0x6, 0xB, 0xA, 0xB, 0xF, 0x0, 0x7, 0x2, 0x8,
  0xC, 0x7, 0x3, 0xA, 0x1, 0x4, 0x2, 0x5, 0xF, 0x7, 0xA, 0xC, 0xE, 0x5, 0x9, 0x3,
  0xE, 0x7, 0x1, 0x2, 0xE, 0x1, 0xF, 0x4, 0xA, 0x6, 0xC, 0x6, 0xF, 0x4, 0x3, 0x0,
  0xC, 0x0, 0x3, 0x6, 0xF, 0x8, 0x7, 0xB, 0x2, 0xD, 0xC, 0x6, 0xA, 0xA, 0x8, 0xD]

def encryptkeys : List ℕ := [
  0x48, 0x93, 0x46, 0x67, 0x98, 0x3d, 0xe6, 0x8d, 0xb7, 0x10, 0x7a, 0x26, 0x5a, 0xb9, 0xb1, 0x35,
  0x6b, 0x0f, 0xd5, 0x70, 0xae, 0xfb, 0xad, 0x11, 0xf4, 0x47, 0xdc, 0xa7, 0xec, 0xcf, 0x50, 0xc0]

def encryptkey (s : Fin 32) : UInt8 := UInt8.ofNat (encryptkeys.getD s 0)

/-- One byte of `shuffle1`, with `b4`. It stays below the end of a `short`. -/
def shuffleByte (state : Buf32 × ℕ) (s : Fin 32) : Buf32 × ℕ :=
  let temp := state.1
  let b4 := state.2
  let b3 := (temp s + UInt8.ofNat b4) ^^^ (temp (Fin.ofNat 32 (s + b4)) - encryptkey s)
  (Function.update temp s b3, b4 + b3.toNat)

def tableByte (b : UInt8) : UInt8 := UInt8.ofNat (encrypttable.getD b.toNat 0)

def shuffle1 (temp : Buf32) : Buf16 :=
  let temp := ((List.finRange 32 ++ List.finRange 32).foldl shuffleByte (temp, 0)).1
  fun i => tableByte (temp ⟨2 * i, by omega⟩) ||| tableByte (temp ⟨2 * i + 1, by omega⟩) <<< 4

/-- The loop over whole 32 bytes: what is in `temp`, and what is left. -/
def shuffleBlocks (temp : Buf32) (buf : List UInt8) : Buf32 × List UInt8 :=
  if _ : 32 ≤ buf.length then shuffleBlocks (fun s => temp s ^^^ buf.getD s 0) (buf.drop 32) else (temp, buf)
termination_by buf.length
decreasing_by
  simp only [List.length_drop]
  omega

/-- One byte of what is left, which is taken again and again with a key byte between; `b2` is counted from `d`. -/
def shuffleRest (buf : List UInt8) (state : Buf32 × ℕ) (s : Fin 32) : Buf32 × ℕ :=
  if buf.length = state.2 then (Function.update state.1 s (state.1 s ^^^ encryptkey s), 0)
  else (Function.update state.1 s (state.1 s ^^^ buf.getD state.2 0), state.2 + 1)

def shuffle (lon : Fin 4 → UInt8) (buf : List UInt8) : Buf16 :=
  let blocks := shuffleBlocks (fun _ => 0) (buf.rdropWhile fun ch => ch = 0)
  let temp := if blocks.2 = [] then blocks.1 else ((List.finRange 32).foldl (shuffleRest blocks.2) (blocks.1, 0)).1
  shuffle1 fun s => temp s ^^^ lon ⟨s % 4, by omega⟩

/-- `til`, for `fra` and the 16 bytes of `buf`. -/
def nwEncrypt (fra : Buf8) (buf : Buf16) : Buf8 :=
  let first := shuffle (fun s => fra ⟨s, by omega⟩) (List.ofFn buf)
  let second := shuffle (fun s => fra ⟨4 + s, by omega⟩) (List.ofFn buf)
  let k : Buf16 := fun s => first s ^^^ second ⟨15 - s, by omega⟩
  fun s => k ⟨s, by omega⟩ ^^^ k ⟨15 - s, by omega⟩

/-! ### The requests -/

/-- What goes to the server with a new password. -/
structure Change where
  encrypted : Buf8
  length : UInt8
  newcryptpasswd : Buf8 × Buf8

def front (buf : Buf16) : Buf8 := fun k => buf ⟨k, by omega⟩

def back (buf : Buf16) : Buf8 := fun k => buf ⟨8 + k, by omega⟩

/-- `do_change_object_passwd`, with the login key and the object id from the server. The passwords have no NUL. -/
def doChangeObjectPasswd (key : Buf8) (tmpid : Fin 4 → UInt8) (oldpassword newpassword : List UInt8) : Change :=
  let buffO := shuffle tmpid oldpassword
  let buffN := shuffle tmpid newpassword
  { encrypted := nwEncrypt key buffO
    length := (UInt8.ofNat newpassword.length ^^^ oldpassword.getD 0 0 ^^^ oldpassword.getD 1 0) &&& 0x7f ||| 0x40
    newcryptpasswd := ((newpassencrypt (front buffO) (front buffN)).1, (newpassencrypt (back buffO) (back buffN)).1) }

/-- `do_object_login`. -/
def doObjectLogin (key : Buf8) (tmpid : Fin 4 → UInt8) (password : List UInt8) : Buf8 :=
  nwEncrypt key (shuffle tmpid password)

/-- The hash that is sent, for one who has the hash of the old password. -/
def received (hash : Buf16) (newcryptpasswd : Buf8 × Buf8) : Buf16 := fun k =>
  if h : k.val < 8 then (nwDecryptNewpass (front hash) newcryptpasswd.1).1 ⟨k, h⟩
  else (nwDecryptNewpass (back hash) newcryptpasswd.2).1 ⟨k - 8, by omega⟩

/-! ### One round back and forth -/

theorem entries : ∀ row < 17, ∀ n < 16,
    (entry newshuffle row n < 16 ∧ entry invshuffle row (entry newshuffle row n) = n) ∧
      entry invshuffle row n < 16 ∧ entry newshuffle row (entry invshuffle row n) = n := by
  decide +kernel

theorem low_or (a c : UInt8) : low (a ||| c) = low a ||| low c := by
  apply UInt8.eq_of_toBitVec_eq
  simp [low, BitVec.and_or_distrib_right]

theorem high_or (a c : UInt8) : high (a ||| c) = high a ||| high c := by
  rw [high, UInt8.shiftRight_or]
  exact low_or _ _

/-- A byte that is a half byte. -/
def Half (c : UInt8) : Prop := low c = c

theorem half_bytes (b : UInt8) : low (low b) = low b ∧ (low b).toNat < 16 ∧ high (low b) = 0 ∧ low (b <<< 4) = 0 ∧
    high (b <<< 4) = low b ∧ high b <<< 4 ||| low b = b := by
  revert b
  exact forall_byte (by decide +kernel)

theorem half_low (b : UInt8) : Half (low b) := (half_bytes b).1

theorem half_high (b : UInt8) : Half (high b) := half_low _

theorem half_ofNat : ∀ n < 16, Half (UInt8.ofNat n) ∧ (UInt8.ofNat n).toNat = n := by
  unfold Half
  decide

theorem Half.lt {c : UInt8} (h : Half c) : c.toNat < 16 := by
  rw [← h]
  exact (half_bytes c).2.1

theorem high_half {c : UInt8} (h : Half c) : high c = 0 := by
  rw [← h]
  exact (half_bytes c).2.2.1

theorem low_shift (c : UInt8) : low (c <<< 4) = 0 := (half_bytes c).2.2.2.1

theorem high_shift (c : UInt8) : high (c <<< 4) = low c := (half_bytes c).2.2.2.2.1

theorem joined (b : UInt8) : high b <<< 4 ||| low b = b := (half_bytes b).2.2.2.2.2

theorem low_join {c : UInt8} (b : UInt8) (h : Half c) : low (b <<< 4 ||| c) = c := by
  rw [low_or, low_shift, h, UInt8.zero_or]

theorem high_join {c : UInt8} (b : UInt8) (h : Half c) : high (b <<< 4 ||| c) = low b := by
  rw [high_or, high_shift, high_half h, UInt8.or_zero]

/-- Two tables that undo each other. -/
theorem substitute_substitute {table back : List (List ℕ)}
    (h : ∀ row < 17, ∀ n < 16, entry table row n < 16 ∧ entry back row (entry table row n) = n) (di : Fin 8)
    (b : UInt8) : substitute back di (substitute table di b) = b := by
  obtain ⟨hhigh, hhigh'⟩ := h (2 * di + 1) (by omega) _ (half_high b).lt
  obtain ⟨hlow, hlow'⟩ := h (2 * di) (by omega) _ (half_low b).lt
  obtain ⟨hhalf, hvalue⟩ := half_ofNat _ hhigh
  obtain ⟨hhalf', hvalue'⟩ := half_ofNat _ hlow
  rw [substitute, substitute, high_join _ hhalf', low_join _ hhalf', hhalf, hvalue, hvalue', hhigh', hlow',
    UInt8.ofNat_toNat, UInt8.ofNat_toNat, joined]

theorem half_nibble (buf : Buf8) (n : Fin 16) : Half (nibble buf n) := by
  rw [nibble]
  split
  · exact half_high _
  · exact half_low _

theorem eq_of_nibble {a b : Buf8} (h : ∀ n, nibble a n = nibble b n) : a = b := by
  funext k
  have hlow := h ⟨2 * k, by omega⟩
  have hhigh := h ⟨2 * k + 1, by omega⟩
  simp only [nibble, Nat.mul_mod_right, zero_ne_one, if_false, Nat.mul_add_mod, Nat.one_mod, if_true,
    Nat.mul_div_cancel_left _ (show 0 < 2 by decide), Nat.mul_add_div (show 0 < 2 by decide), Nat.reduceDiv,
    Nat.add_zero] at hlow hhigh
  rw [← joined (a k), ← joined (b k), hlow, hhigh]

theorem nibble_orInto {c : UInt8} (h : Half c) (buf : Buf8) (n m : Fin 16) :
    nibble (orInto buf n c) m = if m = n then nibble buf m ||| c else nibble buf m := by
  by_cases hbyte : m.val / 2 = n.val / 2
  · have hindex : (⟨m / 2, by omega⟩ : Fin 8) = ⟨n / 2, by omega⟩ := Fin.ext hbyte
    have heq : m = n ↔ m.val % 2 = n.val % 2 := by
      rw [Fin.ext_iff]
      omega
    simp only [nibble, orInto, hindex, Function.update_self, heq]
    rcases Nat.mod_two_eq_zero_or_one n with hn | hn <;> rcases Nat.mod_two_eq_zero_or_one m with hm | hm
    · simp [hn, hm, low_or, show low c = c from h]
    · simp [hn, hm, high_or, high_half h]
    · simp [hn, hm, low_or, low_shift]
    · simp [hn, hm, high_or, high_shift, show low c = c from h]
  · have hne : m ≠ n := fun heq => hbyte (by rw [heq])
    have hindex : (⟨m / 2, by omega⟩ : Fin 8) ≠ ⟨n / 2, by omega⟩ := fun heq => hbyte (Fin.ext_iff.1 heq)
    simp only [nibble, orInto, Function.update_of_ne hindex, if_neg hne]

theorem nibble_assemble {target : Fin 16 → Fin 16} (htarget : Function.Injective target) {ch : Fin 16 → UInt8}
    (hch : ∀ j, Half (ch j)) {js : List (Fin 16)} (hjs : js.Nodup) (out : Buf8) (j : Fin 16) :
    nibble (assemble target ch js out) (target j) =
      if j ∈ js then nibble out (target j) ||| ch j else nibble out (target j) := by
  induction js generalizing out with
  | nil => rfl
  | cons i js ih =>
    obtain ⟨hi, hjs⟩ := List.nodup_cons.1 hjs
    have hfirst := ih hjs (orInto out (target i) (ch i))
    rw [assemble, List.foldl_cons]
    refine hfirst.trans ?_
    rw [nibble_orInto (hch i)]
    by_cases hji : j = i
    · subst hji
      simp [hi]
    · have hne : target j ≠ target i := fun heq => hji (htarget heq)
      simp [hji, hne]

theorem nibble_assembled {target : Fin 16 → Fin 16} (htarget : Function.Injective target) {ch : Fin 16 → UInt8}
    (hch : ∀ j, Half (ch j)) (j : Fin 16) :
    nibble (assemble target ch (List.finRange 16) fun _ => 0) (target j) = ch j := by
  have hzero : ∀ n, nibble (fun _ => 0) n = 0 := by decide
  rw [nibble_assemble htarget hch (List.nodup_finRange 16), if_pos (List.mem_finRange j), hzero, UInt8.zero_or]

theorem source_injective : Function.Injective source := by
  intro a b
  revert a b
  decide

theorem nibble_rotate (old : Buf8) (n : Fin 16) : nibble (rotate old) n = nibble old (n - 1) := by
  have hjoin (b c : UInt8) : high b ||| c <<< 4 = c <<< 4 ||| high b := UInt8.or_comm _ _
  have hlow (b c : UInt8) : low (high b ||| c <<< 4) = high b := by rw [hjoin, low_join _ (half_high b)]
  have hhigh (b c : UInt8) : high (high b ||| c <<< 4) = low c := by rw [hjoin, high_join _ (half_high b)]
  fin_cases n <;> simp [nibble, rotate, hlow, hhigh]
  all_goals rfl

theorem nibble_rotateBack (old : Buf8) (n : Fin 16) : nibble (rotateBack old) n = nibble old (n + 1) := by
  fin_cases n <;> simp [nibble, rotateBack, low_join _ (half_high _), high_join _ (half_high _)]

theorem rotateBack_rotate (old : Buf8) : rotateBack (rotate old) = old :=
  eq_of_nibble fun n => by rw [nibble_rotateBack, nibble_rotate, add_sub_cancel_right]

theorem rotate_rotateBack (old : Buf8) : rotate (rotateBack old) = old :=
  eq_of_nibble fun n => by rw [nibble_rotate, nibble_rotateBack, sub_add_cancel]

theorem decryptRound_encryptRound (s : Buf8 × Buf8) : decryptRound (encryptRound s) = s := by
  obtain ⟨x, old⟩ := s
  have hcopy : assemble source (fun j => nibble (encryptRound (x, old)).1 j) (List.finRange 16) (fun _ => 0) =
      fun di => substitute newshuffle di (x di ^^^ old di) := by
    refine eq_of_nibble fun n => ?_
    obtain ⟨j, rfl⟩ := Finite.surjective_of_injective source_injective n
    rw [nibble_assembled source_injective fun j => half_nibble _ j]
    exact nibble_assembled Function.injective_id (fun _ => half_nibble _ _) j
  have hold : rotateBack (encryptRound (x, old)).2 = old := rotateBack_rotate old
  refine Prod.ext (funext fun di => ?_) hold
  have hback := substitute_substitute (fun row hrow n hn => (entries row hrow n hn).1) di (x di ^^^ old di)
  rw [decryptRound, hcopy, hold]
  dsimp only
  rw [hback, UInt8.xor_assoc, UInt8.xor_self, UInt8.xor_zero]

theorem encryptRound_decryptRound (s : Buf8 × Buf8) : encryptRound (decryptRound s) = s := by
  obtain ⟨y, old⟩ := s
  have hold : (decryptRound (y, old)).2 = rotateBack old := rfl
  have hcopy : (fun di => substitute newshuffle di ((decryptRound (y, old)).1 di ^^^ rotateBack old di)) =
      assemble source (fun j => nibble y j) (List.finRange 16) fun _ => 0 := by
    funext di
    have hback := substitute_substitute (fun row hrow n hn => (entries row hrow n hn).2) di
      (assemble source (fun j => nibble y j) (List.finRange 16) (fun _ => 0) di)
    rw [decryptRound]
    dsimp only
    rw [UInt8.xor_assoc, UInt8.xor_self, UInt8.xor_zero, hback]
  refine Prod.ext (eq_of_nibble fun n => ?_) ?_
  · rw [encryptRound, hold, hcopy]
    exact (nibble_assembled Function.injective_id (fun _ => half_nibble _ _) n).trans
      (nibble_assembled source_injective (fun j => half_nibble _ j) n)
  · rw [encryptRound, hold]
    exact rotate_rotateBack old

/-! ### The whole cipher -/

theorem nibble_iterate_rotate (m : ℕ) (old : Buf8) (n : Fin 16) :
    nibble (rotate^[m] old) n = nibble old (n - Fin.ofNat 16 m) := by
  induction m generalizing n with
  | zero => rw [Function.iterate_zero_apply, show Fin.ofNat 16 0 = 0 from rfl, sub_zero]
  | succ m ih =>
    rw [Function.iterate_succ_apply', nibble_rotate, ih]
    congr 1
    ext
    simp only [Fin.sub_def, Fin.ofNat]
    omega

/-- Behind 16 rounds the key is where it was. -/
theorem iterate_rotate (old : Buf8) : rotate^[16] old = old :=
  eq_of_nibble fun n => by rw [nibble_iterate_rotate, show Fin.ofNat 16 16 = 0 from rfl, sub_zero]

theorem iterate_encryptRound_snd (m : ℕ) (s : Buf8 × Buf8) : (encryptRound^[m] s).2 = rotate^[m] s.2 := by
  induction m with
  | zero => rfl
  | succ m ih => rw [Function.iterate_succ_apply', Function.iterate_succ_apply', ← ih, encryptRound]

theorem newpassencrypt_snd (old new : Buf8) : (newpassencrypt old new).2 = old := by
  rw [newpassencrypt, iterate_encryptRound_snd]
  exact iterate_rotate old

/-- What `newpassencrypt` makes of a hash is made that hash again, and no two hashes are made the same. -/
theorem nwDecryptNewpass_eq_iff (old new out : Buf8) :
    nwDecryptNewpass old out = (new, old) ↔ newpassencrypt old new = (out, old) := by
  have hdecrypt : Function.LeftInverse decryptRound^[16] encryptRound^[16] :=
    Function.LeftInverse.iterate decryptRound_encryptRound 16
  have hencrypt : Function.LeftInverse encryptRound^[16] decryptRound^[16] :=
    Function.LeftInverse.iterate encryptRound_decryptRound 16
  constructor
  · intro h
    rw [newpassencrypt, ← h]
    exact hencrypt (out, old)
  · intro h
    rw [nwDecryptNewpass, ← h]
    exact hdecrypt (new, old)

theorem newpassencrypt_fst (old new : Buf8) : nwDecryptNewpass old (newpassencrypt old new).1 = (new, old) :=
  (nwDecryptNewpass_eq_iff old new _).2 (Prod.ext rfl (newpassencrypt_snd old new))

/-- A new password goes to the server unharmed: the change is acknowledged like a login with the old password, the hash
of the new one comes out under the hash of the old one, it answers every later login with the new password, and another
password gives the same message only if it has the same hash. -/
theorem change_then_login (key key' : Buf8) (tmpid : Fin 4 → UInt8) (oldpassword newpassword other : List UInt8) :
    let change := doChangeObjectPasswd key tmpid oldpassword newpassword
    let hash := received (shuffle tmpid oldpassword) change.newcryptpasswd
    change.encrypted = doObjectLogin key tmpid oldpassword ∧
      hash = shuffle tmpid newpassword ∧
      nwEncrypt key' hash = doObjectLogin key' tmpid newpassword ∧
      ((doChangeObjectPasswd key tmpid oldpassword other).newcryptpasswd = change.newcryptpasswd ↔
        shuffle tmpid other = shuffle tmpid newpassword) := by
  intro change hash
  have hreceived (password : List UInt8) : received (shuffle tmpid oldpassword)
      (doChangeObjectPasswd key tmpid oldpassword password).newcryptpasswd = shuffle tmpid password := by
    funext k
    rw [received, doChangeObjectPasswd]
    dsimp only
    rw [newpassencrypt_fst, newpassencrypt_fst]
    by_cases hk : k.val < 8
    · rw [dif_pos hk]
      rfl
    · rw [dif_neg hk]
      exact congrArg (shuffle tmpid password) (Fin.ext (show 8 + (k.val - 8) = k.val by omega))
  have hhash : hash = shuffle tmpid newpassword := hreceived newpassword
  refine ⟨rfl, hhash, by rw [hhash, doObjectLogin], fun h => ?_, fun h => ?_⟩
  · rw [← hreceived other, h]
    exact hhash
  · dsimp only [change, doChangeObjectPasswd]
    rw [h]

end CProgram.Netpc.Passwords
