import CProgram.Hydra.Chat
import CProgram.Hydra.RoundTrip
import CProgram.Lib.InPlace

/-! `txpkt` on `txbuf` itself: the payload, the type and the checksum are in the buffer from `txbufin`
on, and the packet is encoded from there to its start. -/
namespace CProgram.Hydra
open InPlace

/-- `txbufin - txbuf`. -/
def hTxbufin : ℕ := (hMaxblklen + 8 + 5) * 2

/-- `put_binbyte`, with `txlastc`. -/
def putBinbyte (opts : Dword) (txlastc : UInt8) (t : Cursor UInt8) (c : UInt8) : UInt8 × Cursor UInt8 :=
  (control opts c, if escapes opts txlastc c then (t.put hDle).put (c ^^^ 0x40) else t.put c)

def hexRound (t : Cursor UInt8) : Cursor UInt8 :=
  let t :=
    if t.get 0 &&& 0x80 ≠ 0 then
      let t := t.put 92
      let t := t.put (hexdigit ((t.get 0 >>> 4) &&& 0x0f))
      t.put (hexdigit (t.get 0 &&& 0x0f))
    else if t.get 0 < 32 ∨ t.get 0 = 127 then
      let t := t.put hDle
      t.put (t.get 0 ^^^ 0x40)
    else if t.get 0 = 92 then (t.put 92).put 92
    else t.put (t.get 0)
  t.skip 1

def binRound (opts : Dword) (txlastc : UInt8) (t : Cursor UInt8) : UInt8 × Cursor UInt8 :=
  putBinbyte opts txlastc (t.skip 1) (t.get 0)

/-- The count `n`, the word `c` and `txlastc`. -/
def ascRound (opts : Dword) (s : ℕ × ℕ × UInt8) (t : Cursor UInt8) : (ℕ × ℕ × UInt8) × Cursor UInt8 :=
  let c := s.2.1 ||| ((t.get 0).toNat <<< s.1)
  let r := putBinbyte opts s.2.2 (t.skip 1) (UInt8.ofNat (c &&& 0x7f))
  let c := c >>> 7
  if 7 ≤ s.1 + 1 then
    let q := putBinbyte opts r.1 r.2 (UInt8.ofNat (c &&& 0x7f))
    ((0, 0, q.1), q.2)
  else ((s.1 + 1, c, r.1), r.2)

def uueRound (t : Cursor UInt8) : Cursor UInt8 :=
  let t := t.put (uuenc ((t.get 0).toNat >>> 2))
  let t := t.put (uuSplit (t.get 0) (t.get 1))
  let t := t.put (uuenc ((((t.get 1).toNat <<< 2) &&& 0x3c) ||| (((t.get 2).toNat >>> 6) &&& 0x03)))
  let t := t.put (uuenc ((t.get 2).toNat &&& 0x3f))
  t.skip 3

/-- Behind the loop of the uuencoded format, with `len` bytes left. -/
def uueRest (len : ℕ) (t : Cursor UInt8) : Cursor UInt8 :=
  if 0 < len then
    let t := t.put (uuenc ((t.get 0).toNat >>> 2))
    let t := t.put (uuSplit (t.get 0) (t.get 1))
    if len = 2 then t.put (uuenc (((t.get 1).toNat <<< 2) &&& 0x3c)) else t
  else t

/-- The loops of the four formats. -/
def encodeIn (opts : Dword) (format : UInt8) (len : ℕ) (t : Cursor UInt8) : Cursor UInt8 :=
  if format = hchrHexpkt then (rounds (fun _ t => ((), hexRound t)) len () t).2
  else if format = hchrBinpkt then (rounds (binRound opts) len 0 t).2
  else if format = hchrAscpkt then
    let r := rounds (ascRound opts) len (0, 0, 0) t
    if 0 < r.1.1 then (putBinbyte opts r.1.2.2 r.2 (UInt8.ofNat (r.1.2.1 &&& 0x7f))).2 else r.2
  else uueRest (len % 3) (rounds (fun _ t => ((), uueRound t)) (len / 3) () t).2

/-- `txbufin[len++]`, once for the type and once for every byte of the checksum. -/
def frameIn (opts : Dword) (type : UInt8) (len : ℕ) (m : ℕ → UInt8) : Cursor UInt8 :=
  let t : Cursor UInt8 := ⟨m, hTxbufin, hTxbufin + len, []⟩
  let t := t.put type
  let data := stretch (fun i => t.buf (hTxbufin + i)) (len + 1)
  if wide opts (txFormat opts type) then t.puts (lowFirst (~~~(crc32block data)) 4)
  else t.puts (lowFirst (~~~(crc16block data)) 2)

/-- The rest of `txpkt` up to the prefix, with a buffer that `frameIn` has left. -/
def packIn (opts : Dword) (type : UInt8) (framed : Cursor UInt8) : Cursor UInt8 :=
  let format := txFormat opts type
  let t : Cursor UInt8 := ⟨framed.buf, hTxbufin, 0, []⟩
  let t := (t.put hDle).put format
  let t := encodeIn opts format (framed.out - hTxbufin) t
  let t := (t.put hDle).put hchrPktend
  if type ≠ hpktData ∧ format ≠ hchrBinpkt then (t.put 13).put 10 else t

section
variable {opts : Dword} {m : ℕ → UInt8} {base stop : ℕ} {o : List UInt8} {t : Cursor UInt8}

/-! ### A round -/

def binbyte (opts : Dword) (txlastc c : UInt8) : List UInt8 :=
  if escapes opts txlastc c then [hDle, c ^^^ 0x40] else [c]

theorem putBinbyte_eq (txlastc : UInt8) (t : Cursor UInt8) (c : UInt8) :
    putBinbyte opts txlastc t c = (control opts c, t.puts (binbyte opts txlastc c)) := by
  unfold putBinbyte binbyte
  split <;> rfl

theorem length_binbyte (opts : Dword) (txlastc c : UInt8) : (binbyte opts txlastc c).length ≤ 2 := by
  unfold binbyte
  split <;> simp

theorem putBin_cons (txlastc c : UInt8) (rest : List UInt8) :
    putBin opts txlastc (c :: rest) = binbyte opts txlastc c ++ putBin opts (control opts c) rest := rfl

theorem length_putHex (c : UInt8) : (putHex c).length ≤ 3 := by
  unfold putHex
  split_ifs <;> simp

/-- `*in` is read again after a store, so the stores of a round must not go there. -/
theorem hexRound_eq (hroom : t.out + (putHex (t.get 0)).length ≤ t.inp) :
    hexRound t = (t.puts (putHex (t.get 0))).skip 1 := by
  unfold putHex at hroom
  unfold hexRound putHex
  split_ifs at hroom ⊢ with hhigh hlow hback
  · simp only [List.length_cons, List.length_nil] at hroom
    simp (disch := (try simp only [Cursor.put_out, Cursor.put_inp]); omega) only [Cursor.get_put]
    rfl
  · simp only [List.length_cons, List.length_nil] at hroom
    simp (disch := omega) only [Cursor.get_put]
    rfl
  · rfl
  · rfl

def hexEmit (_ : Unit) (x : ℕ → UInt8) : Unit × List UInt8 := ((), putHex (x 0))

theorem codes_hex : Codes m base stop 1 (fun _ t => ((), hexRound t)) hexEmit := by
  intro s t o h hroom
  have hget : t.get 0 = m (t.inp + 0) := h.get 0
  have hround := hexRound_eq (t := t) (by rw [hget]; exact hroom)
  rw [hget] at hround
  refine ⟨rfl, ?_, ?_⟩
  · simp [hround]
  · show Kept m base stop _ (hexRound t)
    rw [hround]
    exact (h.puts _ hroom).skip 1

def binEmit (opts : Dword) (txlastc : UInt8) (x : ℕ → UInt8) : UInt8 × List UInt8 :=
  (control opts (x 0), binbyte opts txlastc (x 0))

theorem codes_bin (opts : Dword) : Codes m base stop 1 (binRound opts) (binEmit opts) := by
  intro s t o h hroom
  have hget : t.get 0 = m (t.inp + 0) := h.get 0
  rw [binRound, putBinbyte_eq, hget]
  refine ⟨rfl, by simp, (h.skip 1).puts _ ?_⟩
  exact Nat.le_succ_of_le hroom

def ascEmit (opts : Dword) (s : ℕ × ℕ × UInt8) (x : ℕ → UInt8) : (ℕ × ℕ × UInt8) × List UInt8 :=
  let c := s.2.1 ||| ((x 0).toNat <<< s.1)
  let low := UInt8.ofNat (c &&& 0x7f)
  let high := UInt8.ofNat ((c >>> 7) &&& 0x7f)
  if 7 ≤ s.1 + 1 then
    ((0, 0, control opts high), binbyte opts s.2.2 low ++ binbyte opts (control opts low) high)
  else ((s.1 + 1, c >>> 7, control opts low), binbyte opts s.2.2 low)

theorem codes_asc (opts : Dword) : Codes m base stop 1 (ascRound opts) (ascEmit opts) := by
  intro s t o h hroom
  have hget : t.get 0 = m (t.inp + 0) := h.get 0
  simp only [ascRound, putBinbyte_eq, hget]
  unfold ascEmit at hroom ⊢
  by_cases hfull : 7 ≤ s.1 + 1
  · simp only [if_pos hfull] at hroom ⊢
    refine ⟨trivial, by simp, ?_⟩
    rw [List.length_append] at hroom
    rw [← List.append_assoc]
    refine ((h.skip 1).puts _ ?_).puts _ ?_
    · simp only [Cursor.skip_out, Cursor.skip_inp]
      omega
    · rw [((h.skip 1).puts _ (by simp only [Cursor.skip_out, Cursor.skip_inp]; omega)).out, List.length_append,
        ← Nat.add_assoc, ← h.out]
      simp only [Cursor.puts_inp, Cursor.skip_inp]
      omega
  · simp only [if_neg hfull] at hroom ⊢
    exact ⟨trivial, by simp, (h.skip 1).puts _ (Nat.le_succ_of_le hroom)⟩

def uueEmit (_ : Unit) (x : ℕ → UInt8) : Unit × List UInt8 :=
  ((), [uuenc ((x 0).toNat >>> 2), uuSplit (x 0) (x 1),
    uuenc ((((x 1).toNat <<< 2) &&& 0x3c) ||| (((x 2).toNat >>> 6) &&& 0x03)), uuenc ((x 2).toNat &&& 0x3f)])

theorem uueRound_eq (hroom : t.out + 4 ≤ t.inp) : uueRound t = (t.puts (uueEmit () t.get).2).skip 3 := by
  unfold uueRound
  simp (disch := (try simp only [Cursor.put_out, Cursor.put_inp]); omega) only [Cursor.get_put]
  rfl

theorem codes_uue : Codes m base stop 3 (fun _ t => ((), uueRound t)) uueEmit := by
  intro s t o h hroom
  have hget : t.get = fun i => m (t.inp + i) := funext h.get
  have hround := uueRound_eq (t := t) hroom
  rw [hget] at hround
  refine ⟨rfl, by simp [hround], ?_⟩
  show Kept m base stop _ (uueRound t)
  rw [hround]
  exact (h.puts _ hroom).skip 3

def restEmit (len : ℕ) (x : ℕ → UInt8) : List UInt8 :=
  if 0 < len then
    [uuenc ((x 0).toNat >>> 2), uuSplit (x 0) (x 1)] ++
      (if len = 2 then [uuenc (((x 1).toNat <<< 2) &&& 0x3c)] else [])
  else []

theorem length_restEmit (len : ℕ) (x : ℕ → UInt8) : (restEmit len x).length ≤ 3 := by
  unfold restEmit
  split_ifs <;> simp

theorem uueRest_eq (len : ℕ) (hroom : t.out + 3 ≤ t.inp) : uueRest len t = t.puts (restEmit len t.get) := by
  unfold uueRest restEmit
  simp (disch := (try simp only [Cursor.put_out, Cursor.put_inp]); omega) only [Cursor.get_put]
  split_ifs <;> rfl

/-! ### What the loops give -/

theorem emitted_hex (n : ℕ) (x : ℕ → UInt8) :
    (emitted hexEmit 1 n () x).2 = (stretch x n).flatMap putHex ∧ (emitted hexEmit 1 n () x).2.length ≤ 3 * n := by
  induction n generalizing x with
  | zero => exact ⟨rfl, Nat.zero_le _⟩
  | succ n ih =>
    obtain ⟨htext, hlen⟩ := ih fun i => x (1 + i)
    have hone := length_putHex (x 0)
    rw [emitted, stretch_succ, List.flatMap_cons, List.length_append, ← htext]
    refine ⟨rfl, ?_⟩
    show (putHex (x 0)).length + _ ≤ _
    exact (Nat.add_le_add hone hlen).trans (by omega)

theorem emitted_bin (opts : Dword) (n : ℕ) (txlastc : UInt8) (x : ℕ → UInt8) :
    (emitted (binEmit opts) 1 n txlastc x).2 = putBin opts txlastc (stretch x n) ∧
      (emitted (binEmit opts) 1 n txlastc x).2.length ≤ 2 * n := by
  induction n generalizing txlastc x with
  | zero => exact ⟨rfl, Nat.zero_le _⟩
  | succ n ih =>
    obtain ⟨htext, hlen⟩ := ih (control opts (x 0)) fun i => x (1 + i)
    have hone := length_binbyte opts txlastc (x 0)
    rw [emitted, stretch_succ, putBin_cons, List.length_append, ← htext]
    refine ⟨rfl, ?_⟩
    show (binbyte opts txlastc (x 0)).length + _ ≤ _
    exact (Nat.add_le_add hone hlen).trans (by omega)

/-- Behind the loop of the seven bit format, from the state it leaves. -/
def ascLast (opts : Dword) (s : ℕ × ℕ × UInt8) : List UInt8 :=
  if 0 < s.1 then binbyte opts s.2.2 (UInt8.ofNat (s.2.1 &&& 0x7f)) else []

theorem length_ascLast (opts : Dword) (s : ℕ × ℕ × UInt8) : (ascLast opts s).length ≤ 2 := by
  unfold ascLast
  split
  · exact length_binbyte _ _ _
  · exact Nat.zero_le 2

theorem putBin_ascGroups (k : ℕ) (s : ℕ × ℕ × UInt8) (x : ℕ → UInt8) :
    (emitted (ascEmit opts) 1 k s x).2 ++ ascLast opts (emitted (ascEmit opts) 1 k s x).1 =
      putBin opts s.2.2 (ascGroups s.1 s.2.1 (stretch x k)) := by
  induction k generalizing s x with
  | zero =>
    show ascLast opts s = putBin opts s.2.2 (if 0 < s.1 then [UInt8.ofNat (s.2.1 &&& 0x7f)] else [])
    unfold ascLast
    by_cases hleft : 0 < s.1
    · rw [if_pos hleft, if_pos hleft, putBin_cons]
      exact (List.append_nil _).symm
    · rw [if_neg hleft, if_neg hleft]
      rfl
  | succ k ih =>
    rw [emitted, stretch_succ, ascGroups, List.append_assoc, ih]
    unfold ascEmit
    by_cases hfull : 7 ≤ s.1 + 1
    · simp only [if_pos hfull, putBin_cons, List.append_assoc]
    · simp only [if_neg hfull, putBin_cons]

/-- Two bytes for each group of seven bits, of which eight are in seven bytes. -/
theorem length_asc (opts : Dword) (k : ℕ) (s : ℕ × ℕ × UInt8) (x : ℕ → UInt8) :
    2 * (emitted (ascEmit opts) 1 k s x).2.length + (emitted (ascEmit opts) 1 k s x).1.1 ≤ 5 * k + s.1 := by
  induction k generalizing s x with
  | zero => simp [emitted]
  | succ k ih =>
    have hone : 2 * (ascEmit opts s x).2.length + (ascEmit opts s x).1.1 ≤ 5 + s.1 := by
      unfold ascEmit
      by_cases hfull : 7 ≤ s.1 + 1
      · simp only [if_pos hfull, List.length_append]
        have hlow := length_binbyte opts s.2.2 (UInt8.ofNat ((s.2.1 ||| (x 0).toNat <<< s.1) &&& 0x7f))
        have hhigh := length_binbyte opts
          (control opts (UInt8.ofNat ((s.2.1 ||| (x 0).toNat <<< s.1) &&& 0x7f)))
          (UInt8.ofNat (((s.2.1 ||| (x 0).toNat <<< s.1) >>> 7) &&& 0x7f))
        omega
      · simp only [if_neg hfull]
        have hlow := length_binbyte opts s.2.2 (UInt8.ofNat ((s.2.1 ||| (x 0).toNat <<< s.1) &&& 0x7f))
        omega
    have hrest := ih (ascEmit opts s x).1 fun i => x (1 + i)
    simp only [emitted, List.length_append]
    omega

theorem putUue_stretch (q r : ℕ) (hr : r < 3) (x : ℕ → UInt8) :
    (emitted uueEmit 3 q () x).2 ++ restEmit r (fun i => x (3 * q + i)) = putUue (x (3 * q + r)) (stretch x (3 * q + r)) := by
  induction q generalizing x with
  | zero =>
    interval_cases r
    · rfl
    · rfl
    · rfl
  | succ q ih =>
    have hstretch : stretch x (3 * (q + 1) + r) = x 0 :: x 1 :: x 2 :: stretch (fun i => x (3 + i)) (3 * q + r) := by
      rw [show 3 * (q + 1) + r = 3 + (3 * q + r) by ring, stretch_append]
      rfl
    have hplace (i : ℕ) : 3 * (q + 1) + i = 3 + (3 * q + i) := by ring
    rw [hstretch, putUue, emitted, List.append_assoc]
    simp only [hplace]
    rw [ih fun i => x (3 + i)]
    rfl

theorem length_uue (q : ℕ) (x : ℕ → UInt8) : (emitted uueEmit 3 q () x).2.length = 4 * q := by
  induction q generalizing x with
  | zero => rfl
  | succ q ih =>
    rw [emitted, List.length_append, ih]
    show 4 + _ = _
    ring

/-! ### The packet -/

/-- `o` is in front of the buffer, and there is room for the trailer. -/
def Packed (stop : ℕ) (o : List UInt8) (t : Cursor UInt8) : Prop :=
  Wrote 0 stop o t ∧ (t.out + 4 ≤ t.inp ∨ stop ≤ t.inp) ∧ t.out + 4 ≤ hBuflen

section
variable {len : ℕ} (h : Kept m 0 (hTxbufin + len) o t) (hinp : t.inp = hTxbufin) (hout : t.out = 2)
include h hinp hout

theorem packed_hex (hlen : len ≤ hMaxblklen + 11) : Packed (hTxbufin + len)
    (o ++ (stretch (fun i => m (hTxbufin + i)) len).flatMap putHex)
      (rounds (fun _ t => ((), hexRound t)) len () t).2 := by
  have hlens (j : ℕ) := (emitted_hex j fun i => m (t.inp + i)).2
  have hrun := codes_hex.run len () h fun j hj => by
    have hj' := hlens (j + 1)
    simp only [hinp, hout, hTxbufin, hMaxblklen] at hj' hlen ⊢
    omega
  have hall := hlens len
  have hend := h.out_append hrun.2.2.toWrote
  rw [(emitted_hex len _).1, hinp] at hrun
  refine ⟨hrun.2.2.toWrote, Or.inr (by rw [hrun.2.1, Nat.one_mul]), ?_⟩
  simp only [hout, hMaxblklen, hBuflen, hMaxpktlen] at hend hlen ⊢
  omega

theorem packed_bin (hlen : len ≤ hMaxblklen + 13) : Packed (hTxbufin + len)
    (o ++ putBin opts 0 (stretch (fun i => m (hTxbufin + i)) len)) (rounds (binRound opts) len 0 t).2 := by
  have hlens (j : ℕ) := (emitted_bin opts j 0 fun i => m (t.inp + i)).2
  have hrun := (codes_bin opts).run len 0 h fun j hj => by
    have hj' := hlens (j + 1)
    simp only [hinp, hout, hTxbufin, hMaxblklen] at hj' hlen ⊢
    omega
  have hall := hlens len
  have hend := h.out_append hrun.2.2.toWrote
  rw [(emitted_bin opts len 0 _).1, hinp] at hrun
  refine ⟨hrun.2.2.toWrote, Or.inr (by rw [hrun.2.1, Nat.one_mul]), ?_⟩
  simp only [hout, hMaxblklen, hBuflen, hMaxpktlen] at hend hlen ⊢
  omega

theorem packed_asc (hlen : len ≤ hMaxblklen + 13) : Packed (hTxbufin + len)
    (o ++ putBin opts 0 (ascGroups 0 0 (stretch (fun i => m (hTxbufin + i)) len)))
      (encodeIn opts hchrAscpkt len t) := by
  have hlens (j : ℕ) := length_asc opts j (0, 0, 0) fun i => m (t.inp + i)
  have hrun := (codes_asc opts).run len (0, 0, 0) h fun j hj => by
    have hj' := hlens (j + 1)
    simp only [hinp, hout, hTxbufin, hMaxblklen] at hj' hlen ⊢
    omega
  have hlast : encodeIn opts hchrAscpkt len t = (rounds (ascRound opts) len (0, 0, 0) t).2.puts
      (ascLast opts (rounds (ascRound opts) len (0, 0, 0) t).1) := by
    rw [encodeIn, if_neg (by decide), if_neg (by decide), if_pos rfl]
    simp only [putBinbyte_eq, ascLast]
    split <;> rfl
  have hall := hlens len
  have hstop : (rounds (ascRound opts) len (0, 0, 0) t).2.inp = hTxbufin + len := by
    rw [hrun.2.1, hinp, Nat.one_mul]
  have hwrote := hrun.2.2.toWrote.puts (ascLast opts (rounds (ascRound opts) len (0, 0, 0) t).1)
    (Or.inr (Nat.le_of_eq hstop.symm))
  have hrest := hrun.2.2.toWrote.out_append hwrote
  have hend := h.out_append hrun.2.2.toWrote
  have htwo := length_ascLast opts (rounds (ascRound opts) len (0, 0, 0) t).1
  rw [← hlast] at hrest hwrote
  rw [hrun.1, List.append_assoc, putBin_ascGroups, hinp] at hwrote
  refine ⟨hwrote, Or.inr ?_, ?_⟩
  · rw [hlast, Cursor.puts_inp, hstop]
  · simp only [hout, hMaxblklen, hBuflen, hMaxpktlen] at hend hlen ⊢
    omega

theorem packed_uue (hlen : len ≤ hMaxblklen + 13) : Packed (hTxbufin + len)
    (o ++ putUue (m (hTxbufin + len)) (stretch (fun i => m (hTxbufin + i)) len))
      (uueRest (len % 3) (rounds (fun _ t => ((), uueRound t)) (len / 3) () t).2) := by
  have hlens (j : ℕ) := length_uue j fun i => m (t.inp + i)
  have hrun := codes_uue.run (len / 3) () h fun j hj => by
    have hj' := hlens (j + 1)
    simp only [hinp, hout, hTxbufin, hMaxblklen] at hj' hlen ⊢
    omega
  have hend := h.out_append hrun.2.2.toWrote
  rw [hlens, hout] at hend
  have hplace := hrun.2.1
  rw [hinp] at hplace
  have hroom : (rounds (fun _ t => ((), uueRound t)) (len / 3) () t).2.out + 7 ≤ hTxbufin + 3 * (len / 3) := by
    simp only [hTxbufin, hMaxblklen] at hlen ⊢
    omega
  have hget : (rounds (fun _ t => ((), uueRound t)) (len / 3) () t).2.get =
      fun i => m (hTxbufin + (3 * (len / 3) + i)) := by
    funext i
    rw [hrun.2.2.get, hplace, Nat.add_assoc]
  have hrest := length_restEmit (len % 3) fun i => m (hTxbufin + (3 * (len / 3) + i))
  have hlast := hrun.2.2.toWrote.puts (restEmit (len % 3) fun i => m (hTxbufin + (3 * (len / 3) + i)))
    (Or.inl (by omega))
  rw [uueRest_eq _ (by omega), hget]
  have hout' := hrun.2.2.toWrote.out_append hlast
  have hstretch := putUue_stretch (len / 3) (len % 3) (Nat.mod_lt _ (by decide)) fun i => m (hTxbufin + i)
  rw [Nat.div_add_mod] at hstretch
  rw [List.append_assoc, hinp, hstretch] at hlast
  refine ⟨hlast, Or.inl ?_, ?_⟩
  · rw [Cursor.puts_inp]
    omega
  · have hbuf : hTxbufin + 3 * (len / 3) ≤ hBuflen := by
      simp only [hTxbufin, hMaxblklen, hBuflen, hMaxpktlen] at hlen ⊢
      omega
    omega

end

theorem packed_encodeIn (type : UInt8) {len : ℕ} (h : Kept m 0 (hTxbufin + len) o t) (hinp : t.inp = hTxbufin)
    (hout : t.out = 2) (hlen : len ≤ hMaxblklen + 9 + if wide opts (txFormat opts type) then 4 else 2) :
    Packed (hTxbufin + len) (o ++ encoded opts (m (hTxbufin + len)) (txFormat opts type)
      (stretch (fun i => m (hTxbufin + i)) len)) (encodeIn opts (txFormat opts type) len t) := by
  have hmost : len ≤ hMaxblklen + 13 := by
    split at hlen <;> omega
  rcases txFormat_cases opts type with hformat | ⟨hformat, -⟩ | hformat | hformat
  · have hnarrow : wide opts hchrHexpkt = false := by simp [wide]
    rw [hformat, hnarrow] at hlen
    rw [hformat, encoded_hex, encodeIn, if_pos rfl]
    exact packed_hex h hinp hout hlen
  · rw [hformat, encoded_bin, encodeIn, if_neg (by decide), if_pos rfl]
    exact packed_bin h hinp hout hmost
  · rw [hformat, encoded_asc]
    exact packed_asc h hinp hout hmost
  · rw [hformat, encoded_uue, encodeIn, if_neg (by decide), if_neg (by decide), if_neg (by decide)]
    exact packed_uue h hinp hout hmost

theorem wrote_frameIn (opts : Dword) (type : UInt8) (len : ℕ) (m : ℕ → UInt8) :
    Wrote hTxbufin 0 (framed opts (stretch (fun i => m (hTxbufin + i)) len) type) (frameIn opts type len m) := by
  have hstart : Wrote hTxbufin 0 (stretch (fun i => m (hTxbufin + i)) len) ⟨m, hTxbufin, hTxbufin + len, []⟩ :=
    ⟨by rw [length_stretch], by rw [length_stretch], fun _ hs => nomatch hs⟩
  have htyped := hstart.put type (Or.inr (Nat.zero_le _))
  have htext := htyped.text
  rw [List.length_append, length_stretch] at htext
  unfold frameIn framed
  simp only [List.length_singleton] at htext
  simp only [htext]
  split
  · exact htyped.puts _ (Or.inr (Nat.zero_le _))
  · exact htyped.puts _ (Or.inr (Nat.zero_le _))

theorem wrote_packIn {type : UInt8} {framed : Cursor UInt8} {data : List UInt8}
    (h : Wrote hTxbufin 0 data framed)
    (hlen : data.length ≤ hMaxblklen + 9 + if wide opts (txFormat opts type) then 4 else 2) :
    Wrote 0 framed.out ([hDle, txFormat opts type] ++ (encoded opts (framed.buf framed.out) (txFormat opts type) data ++
      ([hDle, hchrPktend] ++ if type ≠ hpktData ∧ txFormat opts type ≠ hchrBinpkt then [13, 10] else [])))
        (packIn opts type framed) ∧ (packIn opts type framed).out ≤ hBuflen := by
  have hempty : Kept framed.buf 0 (hTxbufin + data.length) [] ⟨framed.buf, hTxbufin, 0, []⟩ :=
    ⟨⟨rfl, rfl, fun _ hs => nomatch hs⟩, fun _ _ => rfl⟩
  have hhead := (hempty.put hDle (show 0 < hTxbufin by decide)).put (txFormat opts type)
    (show 1 < hTxbufin by decide)
  have hpacked := packed_encodeIn type hhead rfl rfl hlen
  rw [h.text, ← h.out] at hpacked
  obtain ⟨hwrote, hfree, hroom⟩ := hpacked
  generalize htrailer : [hDle, hchrPktend] ++
    (if type ≠ hpktData ∧ txFormat opts type ≠ hchrBinpkt then [13, 10] else []) = trailer
  have hfour : trailer.length ≤ 4 := by
    rw [← htrailer]
    split <;> decide
  have hpack : packIn opts type framed = (encodeIn opts (txFormat opts type) data.length
      ((Cursor.put ⟨framed.buf, hTxbufin, 0, []⟩ hDle).put (txFormat opts type))).puts trailer := by
    have hcount : framed.out - hTxbufin = data.length := by
      rw [h.out]
      omega
    rw [packIn, ← htrailer, hcount]
    split <;> rfl
  have hall := hwrote.puts trailer (by omega)
  have hend := hwrote.out_append hall
  rw [← hpack] at hall hend
  refine ⟨by simpa using hall, by omega⟩

/-- No store of `txpkt` into its buffer goes outside, none of those that encode goes to input that is
still to be read, and the packet is what the input as it was gives. -/
theorem txpkt_in_place (opts : Dword) (type : UInt8) (len : ℕ) (m : ℕ → UInt8)
    (hlen : len ≤ 4 + hFlaglen + 1 + hMaxblklen) :
    (∀ s ∈ (frameIn opts type len m).stores, hTxbufin ≤ s.1 ∧ s.1 < hBuflen) ∧
      (∀ s ∈ (packIn opts type (frameIn opts type len m)).stores,
        s.1 < hBuflen ∧ ¬ (s.2 ≤ s.1 ∧ s.1 < (frameIn opts type len m).out)) ∧
      (packIn opts type (frameIn opts type len m)).out ≤ hBuflen ∧
      stretch (packIn opts type (frameIn opts type len m)).buf (packIn opts type (frameIn opts type len m)).out =
        txpkt opts ((frameIn opts type len m).buf (frameIn opts type len m).out)
          (stretch (fun i => m (hTxbufin + i)) len) type := by
  have hframe := wrote_frameIn opts type len m
  obtain ⟨crc, hframed, hcrc⟩ := framed_eq opts (stretch (fun i => m (hTxbufin + i)) len) type
  have hlength := congrArg List.length hframed
  rw [List.length_append, List.length_cons, hcrc, length_stretch] at hlength
  have hsmall : (framed opts (stretch (fun i => m (hTxbufin + i)) len) type).length ≤
      hMaxblklen + 9 + if wide opts (txFormat opts type) then 4 else 2 := by
    simp only [hFlaglen] at hlen
    omega
  have hend : (frameIn opts type len m).out ≤ hBuflen := by
    rw [hframe.out]
    simp only [hTxbufin, hMaxblklen, hBuflen, hMaxpktlen] at hsmall ⊢
    split at hsmall <;> omega
  obtain ⟨hpack, hroom⟩ := wrote_packIn hframe hsmall
  refine ⟨fun s hs => ?_, fun s hs => ?_, hroom, ?_⟩
  · have hplace := (hframe.stores s hs).1
    exact ⟨hplace.1, hplace.2.trans_le hend⟩
  · have hplace := hpack.stores s hs
    exact ⟨hplace.1.2.trans_le hroom, hplace.2⟩
  · have htext := hpack.text
    rw [← Nat.zero_add (List.length _), ← hpack.out] at htext
    simp only [Nat.zero_add] at htext
    exact htext

/-- The longest data packet, in the hexadecimal format with three bytes for each of its own. -/
theorem txpkt_in_place_data :
    (∀ s ∈ (packIn hoptHighbit hpktData (frameIn hoptHighbit hpktData 2056 fun _ => 0xff)).stores, s.1 < hBuflen ∧
        ¬ (s.2 ≤ s.1 ∧ s.1 < (frameIn hoptHighbit hpktData 2056 fun _ => 0xff).out)) ∧
      (packIn hoptHighbit hpktData (frameIn hoptHighbit hpktData 2056 fun _ => 0xff)).out ≤ hBuflen :=
  have h := txpkt_in_place hoptHighbit hpktData 2056 (fun _ => 0xff) (by decide)
  ⟨h.2.1, h.2.2.1⟩

end
end CProgram.Hydra
