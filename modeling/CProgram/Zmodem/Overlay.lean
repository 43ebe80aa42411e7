import CProgram.Zmodem.HeaderFrame

/-! Where `build_packet` puts a header: at the start of the output, or behind what is there already. -/
namespace CProgram.Zmodem
open Bytes

/-- An output buffer, and how much of it is in use. -/
structure Output where
  bytes : ℕ → UInt8
  n : ℕ

/-- Some bytes in a row from an index on. -/
def writeAt (start : ℕ) (data : List UInt8) (bytes : ℕ → UInt8) : ℕ → UInt8 := fun i =>
  if start ≤ i ∧ i < start + data.length then data.getD (i - start) 0 else bytes i

namespace Output

/-- Bytes at `output[*output_n]`, which counts them. -/
def push (data : List UInt8) (o : Output) : Output := ⟨writeAt o.n data o.bytes, o.n + data.length⟩

/-- `encode_byte` with its assertion. -/
def encodeByte (flags : UInt32) (outputMax : ℕ) (o : Output) (ch : UInt8) : Option Output :=
  if o.n + 2 ≤ outputMax then some (o.push (Zmodem.encodeByte flags ch)) else none

/-- Whether the bytes from an index on are these. -/
def Holds (o : Output) (start : ℕ) (data : List UInt8) : Prop := ∀ i < data.length, o.bytes (start + i) = data.getD i 0

end Output

namespace Link
variable (c : Link)

/-- `build_packet` on an output buffer; the header's first part goes to fixed indexes. -/
def buildPacketInto (tab : List UInt32) (type : PacketType) (argument : UInt32) (dataPacketMax : ℕ) (o : Output) :
    Option Output := do
  let header := headerOf type argument
  let o ←
    if c.doHex type then
      let bytes := writeAt 0 [zpad, zpad, can, 66] o.bytes
      let bytes := writeAt 4 (hexifyString header) bytes
      let bytes := writeAt 14 (hexifyString (bigEndianBytes16 (computeCrc16 0 header))) bytes
      let bytes := writeAt 18 [13, 0x8A] bytes
      let o : Output := ⟨bytes, o.n + 20⟩
      pure (if type = .zfin ∨ type = .zack then o else o.push [xon])
    else
      let bytes := writeAt 0 [zpad, can, if c.useCrc32 then 67 else 65] o.bytes
      (header ++ c.headerCrcBytes tab header).foldlM (Output.encodeByte (c.headerFlags type) dataPacketMax)
        ⟨bytes, o.n + 3⟩
  if o.n ≤ dataPacketMax then some o else none

/-- The part of a header that goes to fixed indexes. -/
def fixedPart (type : PacketType) (argument : UInt32) : List UInt8 :=
  if c.doHex type then
    [zpad, zpad, can, 66] ++ hexifyString (headerOf type argument) ++
      hexifyString (bigEndianBytes16 (computeCrc16 0 (headerOf type argument))) ++ [13, 0x8A]
  else [zpad, can, if c.useCrc32 then 67 else 65]

/-- The part of a header that goes behind what is there. -/
def pushedPart (tab : List UInt32) (type : PacketType) (argument : UInt32) : List UInt8 :=
  if c.doHex type then if type = .zfin ∨ type = .zack then [] else [xon]
  else (headerOf type argument ++ c.headerCrcBytes tab (headerOf type argument)).flatMap
    (Zmodem.encodeByte (c.headerFlags type))

end Link

/-! ### Writing into a buffer -/

section writing
variable {bytes : ℕ → UInt8} {data more : List UInt8} {start i : ℕ}

theorem writeAt_inside (h : start ≤ i ∧ i < start + data.length) : writeAt start data bytes i = data.getD (i - start) 0 :=
  if_pos h

theorem writeAt_outside (h : ¬ (start ≤ i ∧ i < start + data.length)) : writeAt start data bytes i = bytes i := if_neg h

theorem writeAt_append (start : ℕ) (data more : List UInt8) (bytes : ℕ → UInt8) :
    writeAt (start + data.length) more (writeAt start data bytes) = writeAt start (data ++ more) bytes := by
  funext i
  simp only [writeAt, List.length_append]
  split_ifs <;> try first | rfl | omega
  · rw [List.getD_eq_getElem?_getD, List.getD_eq_getElem?_getD, List.getElem?_append_right (by omega), Nat.sub_sub]
  · rw [List.getD_eq_getElem?_getD, List.getD_eq_getElem?_getD, List.getElem?_append_left (by omega)]

theorem push_push {o : Output} : (o.push data).push more = o.push (data ++ more) := by
  simp only [Output.push, writeAt_append, List.length_append, Nat.add_assoc]

theorem push_nil {o : Output} : o.push [] = o := by
  have hbytes : writeAt o.n [] o.bytes = o.bytes := by
    funext i
    exact writeAt_outside (by simp)
  simp [Output.push, hbytes]

end writing

theorem length_encodeByte_le (flags : UInt32) (ch : UInt8) : (encodeByte flags ch).length ≤ 2 := by
  unfold encodeByte
  split_ifs <;> simp

theorem length_flatMap_encodeByte_le (flags : UInt32) (data : List UInt8) :
    (data.flatMap (encodeByte flags)).length ≤ 2 * data.length := by
  induction data with
  | nil => simp
  | cons ch data ih =>
    have hch := length_encodeByte_le flags ch
    rw [List.flatMap_cons, List.length_append, List.length_cons]
    omega

/-- With room for two bytes each, no assertion fails. -/
theorem foldlM_encodeByte (flags : UInt32) (outputMax : ℕ) (data : List UInt8) {o : Output}
    (hroom : o.n + 2 * data.length ≤ outputMax) :
    data.foldlM (Output.encodeByte flags outputMax) o = some (o.push (data.flatMap (encodeByte flags))) := by
  induction data generalizing o with
  | nil => simp [push_nil]
  | cons ch data ih =>
    have hch := length_encodeByte_le flags ch
    simp only [List.length_cons] at hroom
    rw [List.foldlM_cons, Output.encodeByte, if_pos (by omega)]
    show data.foldlM (Output.encodeByte flags outputMax) (o.push (encodeByte flags ch)) = _
    rw [ih (by simp only [Output.push]; omega), push_push, List.flatMap_cons]

/-! ### What `build_packet` leaves -/

/-- The first part of a header over the start of the buffer, the other behind what is in use. -/
def Output.overlaid (first pushed : List UInt8) (o : Output) : Output :=
  Output.push pushed ⟨writeAt 0 first o.bytes, o.n + first.length⟩

section overlay
variable {first pushed : List UInt8} {o : Output} {i : ℕ}

theorem overlaid_first (h : i < first.length) (hpushed : i < o.n + first.length) :
    (o.overlaid first pushed).bytes i = first.getD i 0 := by
  simp only [Output.overlaid, Output.push]
  rw [writeAt_outside (by omega), writeAt_inside (by omega), Nat.sub_zero]

theorem overlaid_kept (h : first.length ≤ i) (hpushed : i < o.n + first.length) :
    (o.overlaid first pushed).bytes i = o.bytes i := by
  simp only [Output.overlaid, Output.push]
  rw [writeAt_outside (by omega), writeAt_outside (by omega)]

theorem overlaid_pushed (h : i < pushed.length) :
    (o.overlaid first pushed).bytes (o.n + (first.length + i)) = pushed.getD i 0 := by
  simp only [Output.overlaid, Output.push]
  rw [writeAt_inside (by omega)]
  congr 1
  omega

theorem getD_first (h : i < first.length) : (first ++ pushed).getD i 0 = first.getD i 0 := by
  rw [List.getD_eq_getElem?_getD, List.getD_eq_getElem?_getD, List.getElem?_append_left h]

theorem getD_pushed : (first ++ pushed).getD (first.length + i) 0 = pushed.getD i 0 := by
  rw [List.getD_eq_getElem?_getD, List.getD_eq_getElem?_getD, List.getElem?_append_right (by omega), Nat.add_sub_cancel_left]

/-- A header whose first part does not overlap with itself ends up behind what is in use if the buffer is empty, or if
that part stood in both places before. -/
theorem overlaid_appends_iff (pushed : List UInt8)
    (hshift : ∀ k, 0 < k → k < first.length → ∃ i, k + i < first.length ∧ first.getD (k + i) 0 ≠ first.getD i 0) :
    ((∀ i < o.n, (o.overlaid first pushed).bytes i = o.bytes i) ∧ (o.overlaid first pushed).Holds o.n (first ++ pushed)) ↔
      o.n = 0 ∨ first.length ≤ o.n ∧ o.Holds 0 first ∧ o.Holds o.n first := by
  constructor
  · rintro ⟨hkept, hheld⟩
    by_cases hempty : o.n = 0
    · exact Or.inl hempty
    · have hlong : first.length ≤ o.n := by
        by_contra hshort
        obtain ⟨i, hi, hne⟩ := hshift o.n (by omega) (by omega)
        have hthere := hheld i (by rw [List.length_append]; omega)
        rw [overlaid_first hi (by omega), getD_first (by omega)] at hthere
        exact hne hthere
      refine Or.inr ⟨hlong, fun i hi => ?_, fun i hi => ?_⟩
      · have hthere := hkept i (by omega)
        rw [overlaid_first hi (by omega)] at hthere
        rw [Nat.zero_add]
        exact hthere.symm
      · have hthere := hheld i (by rw [List.length_append]; omega)
        rwa [overlaid_kept (by omega) (by omega), getD_first hi] at hthere
  · intro hcases
    have hpushed : ∀ i < (first ++ pushed).length, first.length ≤ i →
        (o.overlaid first pushed).bytes (o.n + i) = (first ++ pushed).getD i 0 := by
      intro i hi hle
      rw [List.length_append] at hi
      obtain ⟨j, rfl⟩ := Nat.exists_eq_add_of_le hle
      rw [overlaid_pushed (by omega), getD_pushed]
    cases hcases with
    | inl hempty =>
      refine ⟨fun i hi => by omega, fun i hi => ?_⟩
      by_cases hlt : i < first.length
      · rw [getD_first hlt, overlaid_first (by omega) (by omega), hempty, Nat.zero_add]
      · exact hpushed i hi (by omega)
    | inr hstands =>
      obtain ⟨hlong, hstart, hbehind⟩ := hstands
      refine ⟨fun i hi => ?_, fun i hi => ?_⟩
      · by_cases hlt : i < first.length
        · have hthere := hstart i hlt
          rw [Nat.zero_add] at hthere
          rw [overlaid_first hlt (by omega), hthere]
        · exact overlaid_kept (by omega) (by omega)
      · by_cases hlt : i < first.length
        · rw [getD_first hlt, overlaid_kept (by omega) (by omega)]
          exact hbehind i hlt
        · exact hpushed i hi (by omega)

end overlay

theorem not_zpad_hexifyString (data : List UInt8) : zpad ∉ hexifyString data := by
  have hdigits : ∀ ch : UInt8, zpad ∉ hexifyString [ch] := Bytes.forall_byte (by decide +kernel)
  induction data with
  | nil => simp [hexifyString]
  | cons ch data ih =>
    have hcons : hexifyString (ch :: data) = hexifyString [ch] ++ hexifyString data := hexifyString_append [ch] data
    rw [hcons, List.mem_append]
    exact fun h => h.elim (hdigits ch) ih

namespace Link
variable (c : Link) (tab : List UInt32) (type : PacketType) (argument : UInt32)

theorem buildPacket_eq : c.buildPacket tab type argument = c.fixedPart type argument ++ c.pushedPart tab type argument := by
  unfold buildPacket fixedPart pushedPart
  split_ifs <;> simp

theorem length_pushedPart : (c.pushedPart tab type argument).length ≤ 18 := by
  unfold pushedPart
  split_ifs
  · simp
  · simp
  · have hheader := length_headerOf type argument
    have hcrc : (c.headerCrcBytes tab (headerOf type argument)).length ≤ 4 := by
      unfold headerCrcBytes
      split_ifs <;> simp [littleEndianBytes, bigEndianBytes16]
    have hflat := length_flatMap_encodeByte_le (c.headerFlags type)
      (headerOf type argument ++ c.headerCrcBytes tab (headerOf type argument))
    rw [List.length_append] at hflat
    omega

theorem length_fixedPart : (c.fixedPart type argument).length = if c.doHex type then 20 else 3 := by
  unfold fixedPart
  split_ifs <;> simp [length_hexifyString, length_headerOf, bigEndianBytes16]

theorem buildPacketInto_eq {dataPacketMax : ℕ} {o : Output} (hroom : o.n + 21 ≤ dataPacketMax) :
    c.buildPacketInto tab type argument dataPacketMax o =
      some (o.overlaid (c.fixedPart type argument) (c.pushedPart tab type argument)) := by
  have hpushed := c.length_pushedPart tab type argument
  have hfixed := c.length_fixedPart type argument
  unfold buildPacketInto
  by_cases hhex : c.doHex type
  · have hheader : (hexifyString (headerOf type argument)).length = 10 := by
      rw [length_hexifyString, length_headerOf]
    have hcrc : (hexifyString (bigEndianBytes16 (computeCrc16 0 (headerOf type argument)))).length = 4 := by
      rw [length_hexifyString]
      rfl
    have hbytes : writeAt 18 [13, 0x8A] (writeAt 14 (hexifyString (bigEndianBytes16 (computeCrc16 0 (headerOf type argument))))
        (writeAt 4 (hexifyString (headerOf type argument)) (writeAt 0 [zpad, zpad, can, 66] o.bytes))) =
        writeAt 0 (c.fixedPart type argument) o.bytes := by
      have hfour := writeAt_append 0 [zpad, zpad, can, 66] (hexifyString (headerOf type argument)) o.bytes
      have hfourteen := writeAt_append 0 ([zpad, zpad, can, 66] ++ hexifyString (headerOf type argument))
        (hexifyString (bigEndianBytes16 (computeCrc16 0 (headerOf type argument)))) o.bytes
      have height := writeAt_append 0 ([zpad, zpad, can, 66] ++ hexifyString (headerOf type argument) ++
          hexifyString (bigEndianBytes16 (computeCrc16 0 (headerOf type argument)))) [13, 0x8A] o.bytes
      simp only [List.length_append, hheader, hcrc] at hfour hfourteen height
      rw [fixedPart, if_pos hhex, ← height, ← hfourteen, ← hfour]
      rfl
    rw [if_pos hhex] at hfixed
    simp only [hhex, if_true, hbytes, Output.overlaid, hfixed, pushedPart]
    split_ifs with hlast
    · rw [push_nil]
      exact if_pos (by simp only; omega)
    · exact if_pos (by simp only [Output.push, List.length_singleton]; omega)
  · have hdata : (headerOf type argument ++ c.headerCrcBytes tab (headerOf type argument)).length ≤ 9 := by
      have hheader := length_headerOf type argument
      have hcrc : (c.headerCrcBytes tab (headerOf type argument)).length ≤ 4 := by
        unfold headerCrcBytes
        split_ifs <;> simp [littleEndianBytes, bigEndianBytes16]
      rw [List.length_append]
      omega
    rw [if_neg hhex] at hfixed
    have hloop := foldlM_encodeByte (c.headerFlags type) dataPacketMax
      (headerOf type argument ++ c.headerCrcBytes tab (headerOf type argument))
      (o := ⟨writeAt 0 (c.fixedPart type argument) o.bytes, o.n + 3⟩) (by simp only; omega)
    have hpart : c.fixedPart type argument = [zpad, can, if c.useCrc32 then 67 else 65] := if_neg hhex
    have hpush : c.pushedPart tab type argument =
      (headerOf type argument ++ c.headerCrcBytes tab (headerOf type argument)).flatMap
        (Zmodem.encodeByte (c.headerFlags type)) := if_neg hhex
    rw [hpart] at hloop
    simp only [hhex, Bool.false_eq_true, if_false, hloop, Option.bind_eq_bind, Option.bind_some]
    rw [hpush] at hpushed
    rw [Output.overlaid, hfixed, hpart, hpush]
    exact if_pos (by simp only [Output.push]; omega)

/-- A header begins with ZPAD, and nowhere behind its first two bytes is there another. -/
theorem fixedPart_shift (k : ℕ) (hpos : 0 < k) (hk : k < (c.fixedPart type argument).length) :
    ∃ i, k + i < (c.fixedPart type argument).length ∧
      (c.fixedPart type argument).getD (k + i) 0 ≠ (c.fixedPart type argument).getD i 0 := by
  have hlength := c.length_fixedPart type argument
  by_cases hhex : c.doHex type
  · rw [if_pos hhex] at hlength
    have hparts : c.fixedPart type argument = zpad :: zpad :: ([can, 66] ++ hexifyString (headerOf type argument) ++
        hexifyString (bigEndianBytes16 (computeCrc16 0 (headerOf type argument))) ++ [13, 0x8A]) := by
      rw [fixedPart, if_pos hhex]
      rfl
    have hnone : zpad ∉ [can, 66] ++ hexifyString (headerOf type argument) ++
        hexifyString (bigEndianBytes16 (computeCrc16 0 (headerOf type argument))) ++ [13, 0x8A] := by
      simp only [List.mem_append, not_or]
      exact ⟨⟨⟨by decide, not_zpad_hexifyString _⟩, not_zpad_hexifyString _⟩, by decide⟩
    rw [hparts] at hlength hk ⊢
    generalize [can, 66] ++ hexifyString (headerOf type argument) ++
        hexifyString (bigEndianBytes16 (computeCrc16 0 (headerOf type argument))) ++ [13, 0x8A] = rest at *
    simp only [List.length_cons] at hlength hk ⊢
    have hrest (j : ℕ) (hj : j < rest.length) : rest.getD j 0 ≠ zpad := by
      rw [List.getD_eq_getElem?_getD, List.getElem?_eq_getElem hj, Option.getD_some]
      exact fun h => hnone (h ▸ List.getElem_mem hj)
    cases k with
    | zero => omega
    | succ k =>
      cases k with
      | zero => exact ⟨1, by omega, hrest 0 (by omega)⟩
      | succ k => exact ⟨0, by omega, hrest k (by omega)⟩
  · rw [if_neg hhex] at hlength
    have hparts : c.fixedPart type argument = [zpad, can, if c.useCrc32 then 67 else 65] := if_neg hhex
    rw [hlength] at hk ⊢
    rw [hparts]
    refine ⟨0, by omega, ?_⟩
    cases c.useCrc32 <;> interval_cases k <;> decide

/-- `build_packet` into a buffer in use leaves that as it is, and puts behind it what it puts into an empty one. -/
def AppendsHeader (dataPacketMax : ℕ) (o : Output) : Prop :=
  ∃ t empty, c.buildPacketInto tab type argument dataPacketMax o = some t ∧
    c.buildPacketInto tab type argument dataPacketMax ⟨o.bytes, 0⟩ = some empty ∧
    t.n = o.n + empty.n ∧ (∀ i < o.n, t.bytes i = o.bytes i) ∧ ∀ i < empty.n, t.bytes (o.n + i) = empty.bytes i

/-- Into an empty buffer go the bytes of the header. -/
theorem overlaid_empty (bytes : ℕ → UInt8) :
    (Output.overlaid (c.fixedPart type argument) (c.pushedPart tab type argument) ⟨bytes, 0⟩).Holds 0
      (c.buildPacket tab type argument) := by
  rw [buildPacket_eq]
  exact ((overlaid_appends_iff _ (c.fixedPart_shift type argument)).mpr (Or.inl rfl)).2

theorem appendsHeader_iff {dataPacketMax : ℕ} {o : Output} (hroom : o.n + 21 ≤ dataPacketMax) :
    c.AppendsHeader tab type argument dataPacketMax o ↔ o.n = 0 ∨
      (c.fixedPart type argument).length ≤ o.n ∧ o.Holds 0 (c.fixedPart type argument) ∧
        o.Holds o.n (c.fixedPart type argument) := by
  have hempty := c.overlaid_empty tab type argument o.bytes
  have hlength : (Output.overlaid (c.fixedPart type argument) (c.pushedPart tab type argument) ⟨o.bytes, 0⟩).n =
      (c.buildPacket tab type argument).length := by
    rw [buildPacket_eq, List.length_append]
    simp only [Output.overlaid, Output.push, Nat.zero_add]
  rw [← overlaid_appends_iff (c.pushedPart tab type argument) (c.fixedPart_shift type argument),
    ← c.buildPacket_eq tab type argument, AppendsHeader, c.buildPacketInto_eq tab type argument hroom,
    c.buildPacketInto_eq tab type argument (o := ⟨o.bytes, 0⟩) (by simp only; omega)]
  constructor
  · rintro ⟨t, empty, ht, he, -, hkept, hbehind⟩
    rw [Option.some.injEq] at ht he
    rw [← ht] at hkept hbehind
    rw [← he] at hbehind
    refine ⟨hkept, fun i hi => ?_⟩
    rw [hbehind i (hlength ▸ hi), ← hempty i hi, Nat.zero_add]
  · rintro ⟨hkept, hbehind⟩
    refine ⟨_, _, rfl, rfl, ?_, hkept, fun i hi => ?_⟩
    · simp only [Output.overlaid, Output.push]
      omega
    · rw [hlength] at hi
      rw [hbehind i hi, ← hempty i hi, Nat.zero_add]

theorem appendsHeader_empty : AppendsHeader ⟨true, 0, false⟩ makecrc .zack 0 64 ⟨fun _ => 0, 0⟩ :=
  (appendsHeader_iff ⟨true, 0, false⟩ makecrc .zack 0 (by decide)).mpr (Or.inl rfl)

/-- A ZACK behind 21 bytes, which another header takes up. -/
theorem not_appendsHeader : ¬ ∀ (c : Link) (tab : List UInt32) (type : PacketType) (argument : UInt32)
    (dataPacketMax : ℕ) (o : Output), o.n + 21 ≤ dataPacketMax → c.AppendsHeader tab type argument dataPacketMax o := by
  intro hall
  obtain ⟨t, empty, ht, -, -, hkept, -⟩ := hall ⟨true, 0, false⟩ [] .zack 0 64 ⟨fun _ => 0, 21⟩ (by decide)
  rw [buildPacketInto_eq _ _ _ _ (by decide), Option.some.injEq] at ht
  have hfirst := hkept 0 (by decide)
  rw [← ht, overlaid_first (by decide) (by decide)] at hfirst
  exact absurd hfirst (by decide)

end Link

end CProgram.Zmodem
