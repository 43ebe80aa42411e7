import CProgram.Zmodem.Subpacket

/-! `decode_zdata_bytes` over the memory that it reads: the received bytes, and what stands behind them. -/
namespace CProgram.Zmodem

/-- The memory from `input` on; nothing where it ends. -/
abbrev Memory := ℕ → Option UInt8

/-- What the big loop has collected. -/
structure Collecting where
  output : List UInt8
  doingCrc : Bool
  crcType : UInt8
  crcBuffer : List UInt8
deriving DecidableEq, Repr

def Collecting.put (d : Collecting) (ch : UInt8) : Collecting :=
  if d.doingCrc then { d with crcBuffer := d.crcBuffer ++ [ch] } else { d with output := d.output ++ [ch] }

/-- `memmove` of `n` bytes from `input + i`. -/
def moveDown (input : Memory) (i : ℕ) : ℕ → Option (List UInt8)
  | 0 => some []
  | n + 1 => do
    let ch ← input i
    let rest ← moveDown input (i + 1) n
    some (ch :: rest)

/-- What `decode_zdata_bytes` leaves; the new `*input_n` is an `unsigned int`. -/
inductive Taken where
  | incomplete
  | cancelled
  | subpacket (d : Collecting) (remaining : List UInt8) (inputN : ℕ)
deriving DecidableEq, Repr

/-- The bytes that have been stored in `crc_buffer`. -/
def Taken.crcBuffer : Taken → List UInt8
  | .subpacket d _ _ => d.crcBuffer
  | _ => []

/-- `*input_n` after the call. -/
def Taken.inputN (n : ℕ) : Taken → ℕ
  | .subpacket _ _ inputN => inputN
  | _ => n

/-- Bytes that stand for `k` bytes, with no CRC escape among them. -/
inductive Items : ℕ → List UInt8 → Prop
  | nil : Items 0 []
  | plain {k : ℕ} {bytes : List UInt8} {ch : UInt8} : ch ≠ can → Items k bytes → Items (k + 1) (ch :: bytes)
  | escaped {k : ℕ} {bytes : List UInt8} {ch : UInt8} : isCrcEscape ch = false → (unescape ch).isSome →
      Items k bytes → Items (k + 1) (can :: ch :: bytes)
  | idle {k : ℕ} {bytes : List UInt8} {ch : UInt8} : isCrcEscape ch = false → unescape ch = none → ch ≠ can →
      Items k bytes → Items k (can :: ch :: bytes)

/-- Bytes that stand for one byte, none of them idle. -/
inductive Item : List UInt8 → Prop
  | plain {ch : UInt8} : ch ≠ can → Item [ch]
  | escaped {ch : UInt8} : isCrcEscape ch = false → (unescape ch).isSome → Item [can, ch]

/-- The received bytes begin with a whole subpacket of that CRC escape, and `rest` comes behind it. -/
def Whole (size : ℕ) (crcType : UInt8) (received rest : List UInt8) : Prop :=
  ∃ k data crc last, Items k data ∧ isCrcEscape crcType = true ∧ Items (size - 2) crc ∧ Item last ∧
    received = data ++ [can, crcType] ++ crc ++ last ++ rest

variable {size : ℕ} {e : Decoding} {received rest : List UInt8} {w : UInt8}

theorem Item.items {bytes : List UInt8} (h : Item bytes) : Items 1 bytes := by
  cases h with
  | plain hch => exact .plain hch .nil
  | escaped hcrc hch => exact .escaped hcrc hch .nil

/-- Before the CRC escape, items go into the payload. -/
theorem decodeLoop_data {k : ℕ} {data : List UInt8} (h : Items k data) (hsize : size ≠ 0) (hcrc : e.crcBuffer = []) :
    ∃ output, decodeLoop size false e (data ++ rest) = decodeLoop size false ⟨output, []⟩ rest := by
  induction h generalizing e with
  | nil =>
    refine ⟨e.output, ?_⟩
    rw [List.nil_append, ← hcrc]
  | plain hch _ ih =>
    rename_i ch _
    obtain ⟨output, hloop⟩ := ih (e := e.put ch) (by simp [Decoding.put, hcrc])
    refine ⟨output, ?_⟩
    rw [List.cons_append, decodeLoop, if_neg hch, if_neg (by simp [Decoding.put, hcrc, hsize.symm])]
    exact hloop
  | escaped hescape hch _ ih =>
    obtain ⟨ch', hch'⟩ := Option.isSome_iff_exists.mp hch
    obtain ⟨output, hloop⟩ := ih (e := e.put ch') (by simp [Decoding.put, hcrc])
    refine ⟨output, ?_⟩
    simp only [List.cons_append, decodeLoop, if_true, hescape, Bool.false_eq_true, if_false, hch']
    rw [if_neg (by simp [Decoding.put, hcrc, hsize.symm])]
    exact hloop
  | idle hescape hch hcan _ ih =>
    obtain ⟨output, hloop⟩ := ih hcrc
    refine ⟨output, ?_⟩
    simp only [List.cons_append, decodeLoop, if_true, hescape, Bool.false_eq_true, if_false, hch, if_neg hcan]
    exact hloop

/-- Behind the CRC escape, items go into the CRC buffer. -/
theorem decodeLoop_items_crc {k : ℕ} {crc : List UInt8} (h : Items k crc) (hcrc : e.crcBuffer ≠ [])
    (hroom : e.crcBuffer.length + k < size) :
    ∃ more, more.length = k ∧
      decodeLoop size false e (crc ++ rest) = decodeLoop size false ⟨e.output, e.crcBuffer ++ more⟩ rest := by
  induction h generalizing e with
  | nil => exact ⟨[], rfl, by simp⟩
  | plain hch _ ih =>
    rename_i ch _
    obtain ⟨more, hmore, hloop⟩ := ih (e := e.put ch) (by simp [Decoding.put, hcrc])
      (by simp [Decoding.put, hcrc]; omega)
    refine ⟨ch :: more, by simp [hmore], ?_⟩
    rw [List.cons_append, decodeLoop, if_neg hch, if_neg (by simp [Decoding.put, hcrc]; omega), hloop]
    simp [Decoding.put, hcrc]
  | escaped hescape hch _ ih =>
    obtain ⟨ch', hch'⟩ := Option.isSome_iff_exists.mp hch
    obtain ⟨more, hmore, hloop⟩ := ih (e := e.put ch') (by simp [Decoding.put, hcrc])
      (by simp [Decoding.put, hcrc]; omega)
    refine ⟨ch' :: more, by simp [hmore], ?_⟩
    simp only [List.cons_append, decodeLoop, if_true, hescape, Bool.false_eq_true, if_false, hch']
    rw [if_neg (by simp [Decoding.put, hcrc]; omega), hloop]
    simp [Decoding.put, hcrc]
  | idle hescape hch hcan _ ih =>
    obtain ⟨more, hmore, hloop⟩ := ih hcrc hroom
    refine ⟨more, hmore, ?_⟩
    simp only [List.cons_append, decodeLoop, if_true, hescape, Bool.false_eq_true, if_false, hch, if_neg hcan]
    exact hloop

/-- The item that fills the CRC buffer ends the loop. -/
theorem decodeLoop_last {last : List UInt8} (h : Item last) (hcrc : e.crcBuffer ≠ [])
    (hfull : e.crcBuffer.length + 1 = size) :
    ∃ ch, decodeLoop size false e (last ++ rest) = .subpacket e.output (e.crcBuffer ++ [ch]) rest := by
  cases h with
  | plain hch =>
    rename_i ch
    refine ⟨ch, ?_⟩
    rw [List.cons_append, decodeLoop, if_neg hch, if_pos (by simp [Decoding.put, hcrc, hfull])]
    simp [Decoding.put, hcrc]
  | escaped hescape hch =>
    obtain ⟨ch', hch'⟩ := Option.isSome_iff_exists.mp hch
    refine ⟨ch', ?_⟩
    simp only [List.cons_append, decodeLoop, if_true, hescape, Bool.false_eq_true, if_false, hch']
    rw [if_pos (by simp [Decoding.put, hcrc, hfull])]
    simp [Decoding.put, hcrc]

theorem hasCrcEscape_plain {ch : UInt8} (hch : ch ≠ can) : hasCrcEscape (ch :: rest) = hasCrcEscape rest := by
  rw [hasCrcEscape.eq_def]
  exact if_neg hch

theorem hasCrcEscape_items {k : ℕ} {data : List UInt8} (h : Items k data) :
    hasCrcEscape (data ++ rest) = hasCrcEscape rest := by
  induction h with
  | nil => rfl
  | plain hch _ ih => rw [List.cons_append, hasCrcEscape_plain hch, ih]
  | escaped hescape _ _ ih => simp only [List.cons_append, hasCrcEscape, if_true, hescape, Bool.false_or, ih]
  | idle hescape hch hcan _ ih =>
    simp only [List.cons_append, hasCrcEscape, if_true, hescape, Bool.false_or, ih]

/-- A whole subpacket is taken off. -/
theorem Whole.decoded {useCrc32 : Bool} (h : Whole (if useCrc32 then 5 else 3) w received rest) :
    ∃ output crcBuffer, decodeZdataBytes useCrc32 received = .subpacket output crcBuffer rest ∧
      crcBuffer.headD 0 = w := by
  obtain ⟨k, data, crc, last, hdata, hw, hcrc, hlast, rfl⟩ := h
  have hscan : hasCrcEscape (data ++ [can, w] ++ crc ++ last ++ rest) = true := by
    simp only [List.append_assoc]
    rw [hasCrcEscape_items hdata]
    simp [hasCrcEscape, hw]
  rw [decodeZdataBytes, if_pos hscan]
  have hsize : 3 ≤ if useCrc32 then 5 else 3 := by split <;> omega
  generalize (if useCrc32 then 5 else 3) = size at *
  simp only [List.append_assoc]
  have hroom : [w].length + (size - 2) < size := by
    rw [List.length_singleton]
    omega
  obtain ⟨output, hdata⟩ := decodeLoop_data (e := ⟨[], []⟩) hdata (show size ≠ 0 by omega) rfl
  obtain ⟨more, hmore, hcrc⟩ := decodeLoop_items_crc (e := ⟨output, [w]⟩) hcrc (by simp) hroom
  have hfull : ([w] ++ more).length + 1 = size := by
    simp only [List.length_append, List.length_singleton]
    omega
  obtain ⟨ch, hlast⟩ : ∃ ch, decodeLoop size false ⟨output, [w] ++ more⟩ (last ++ rest) =
      .subpacket output ([w] ++ more ++ [ch]) rest := decodeLoop_last hlast (by simp) hfull
  refine ⟨output, [w] ++ more ++ [ch], ?_, rfl⟩
  rw [hdata]
  simp only [List.cons_append, List.nil_append, decodeLoop, if_true, hw]
  rw [hcrc]
  exact hlast

variable {input : Memory} {i : ℕ}

section received
variable {useCrc32 : Bool}

end received

end CProgram.Zmodem
