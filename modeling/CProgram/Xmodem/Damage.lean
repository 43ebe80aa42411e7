import CProgram.Xmodem.BlockZero

/-! Which damaged blocks are accepted. The CRC differs after every burst of up to sixteen bits, but
the receiver refuses a block only when both CRC bytes are wrong. -/
namespace CProgram.Xmodem
open Zmodem Bytes Crc Sender

/-- Everything about the block is right. -/
structure Receiver.BlockRight (r : Receiver) : Prop where
  header : r.headerPasses = true
  length : r.currentBlock.length = payloadSize r.currentBlock + 5
  sequence : byteAt r.currentBlock 1 = r.currentBlockSequenceI
  complement : byteAt r.currentBlock 2 = 0xFF - byteAt r.currentBlock 1
  high : crcHighRight r.currentBlock (payloadSize r.currentBlock) = true
  low : crcLowRight r.currentBlock (payloadSize r.currentBlock) = true

/-- The numbers are right, but one CRC byte is wrong and the other is not, or the CRC is that of
the other block size. -/
structure Receiver.HalfRight (r : Receiver) : Prop where
  size : r.sizePasses = true
  header : r.headerPasses = true
  sequence : byteAt r.currentBlock 1 = r.currentBlockSequenceI
  complement : byteAt r.currentBlock 2 = 0xFF - byteAt r.currentBlock 1
  half : crcHighRight r.currentBlock (payloadSize r.currentBlock) ≠
      crcLowRight r.currentBlock (payloadSize r.currentBlock) ∨
    r.currentBlock.length ≠ payloadSize r.currentBlock + 5 ∧
      crcLowRight r.currentBlock (payloadSize r.currentBlock) = true

/-- A change within sixteen bits that follow each other. -/
def Burst (data changed : List UInt8) : Prop :=
  ∃ front x y back : List Bool, bits data = front ++ x ++ back ∧ bits changed = front ++ y ++ back ∧
    x.length = y.length ∧ x.length ≤ 16 ∧ x ≠ y

/-- What the line makes of a block, when it changes a burst of the payload, or the CRC bytes. -/
inductive Damage : List UInt8 → List UInt8 → Prop
  | payload (header number : UInt8) {data changed check : List UInt8} (hcheck : check.length = 2)
      (hburst : Burst data changed) :
      Damage (layout header number data check) (layout header number changed check)
  | check (header number : UInt8) (data : List UInt8) {check changed : List UInt8}
      (hcheck : check.length = 2) (hchanged : changed.length = 2) (hne : changed ≠ check) :
      Damage (layout header number data check) (layout header number data changed)

/-- The receiver that `s` sends to, with `block` read from the line. -/
def Receiver.expecting (r : Receiver) (s : Sender) (block : List UInt8) : Receiver :=
  { r with flavor := s.flavor, currentBlock := block, currentBlockSequenceI := s.currentBlockSequenceI }

/-- Neither the file nor the expected number has changed. -/
def Receiver.Unmoved (r r' : Receiver) : Prop :=
  r'.file = r.file ∧ r'.currentBlockSequenceI = r.currentBlockSequenceI

/-- The two CRC bytes are both wrong. -/
def bothWrong (block : List UInt8) : Prop :=
  crcHighRight block (payloadSize block) = false ∧ crcLowRight block (payloadSize block) = false

theorem complement_iff (x y : UInt8) : x.toNat + y.toNat = 0xFF ↔ y = 0xFF - x := by
  have hx := x.toNat_lt
  have hall : (0xFF : UInt8).toNat = 255 := rfl
  rw [← UInt8.toNat_inj, UInt8.toNat_sub, hall]
  omega

theorem Receiver.sequencePasses_iff (r : Receiver) :
    r.sequencePasses = true ↔ byteAt r.currentBlock 1 = r.currentBlockSequenceI := by
  rw [sequencePasses, decide_eq_true_eq, eq_comm]

theorem Receiver.complementPasses_iff (r : Receiver) :
    r.complementPasses = true ↔ byteAt r.currentBlock 2 = 0xFF - byteAt r.currentBlock 1 := by
  rw [complementPasses, decide_eq_true_eq, complement_iff]

theorem crcPasses_iff (block : List UInt8) (count : ℕ) :
    crcPasses block count = true ↔ crcHighRight block count = true ∨ crcLowRight block count = true := by
  rw [crcPasses]
  cases crcHighRight block count <;> cases crcLowRight block count <;> decide

/-- The number that is expected is no duplicate, so that check never applies. -/
theorem Receiver.isDuplicate_eq_false {r : Receiver} (h : r.sequencePasses = true) :
    r.isDuplicate = false := by
  rw [r.sequencePasses_iff] at h
  rw [isDuplicate, decide_eq_false_iff_not, h]
  omega

/-- The short flavors have passed the header check with SOH. -/
theorem Receiver.checkPasses_eq {r : Receiver} (hcrc : r.flavor.hasChecksum = false)
    (hheader : r.headerPasses = true) :
    r.checkPasses = crcPasses r.currentBlock (payloadSize r.currentBlock) := by
  rw [checkPasses, if_neg (by simp [hcrc])]
  split
  · next hflavor =>
    rw [headerPasses, hflavor] at hheader
    have hsoh : byteAt r.currentBlock 0 = cSoh := by simpa [Flavor.isShort] using hheader
    rw [payloadSize, if_pos hsoh]
  · rfl

theorem Receiver.unmoved_statsIncrementErrors (r : Receiver) : r.Unmoved r.statsIncrementErrors :=
  ⟨rfl, rfl⟩

/-- What `verify_block` accepts when there is a CRC. -/
theorem Receiver.verifyBlock_snd_iff {r : Receiver} (hcrc : r.flavor.hasChecksum = false) :
    r.verifyBlock.2 = true ↔ r.sizePasses = true ∧ r.headerPasses = true ∧ r.sequencePasses = true ∧
      r.complementPasses = true ∧ crcPasses r.currentBlock (payloadSize r.currentBlock) = true := by
  unfold verifyBlock
  cases hsize : r.sizePasses
  · simp
  cases hheader : r.headerPasses
  · simp
  cases hsequence : r.sequencePasses
  · simp
  cases hcomplement : r.complementPasses
  · simp
  rw [checkPasses_eq hcrc hheader, isDuplicate_eq_false hsequence]
  cases crcPasses r.currentBlock (payloadSize r.currentBlock) <;> simp

/-- A refused block leaves everything but the error count. -/
theorem Receiver.verifyBlock_refused {r : Receiver} (h : r.verifyBlock.2 = false) :
    r.verifyBlock.1 = r.statsIncrementErrors := by
  unfold verifyBlock at h ⊢
  split_ifs at h ⊢
  all_goals rfl

/-- The length that passes and is not that of the header byte is that of the other block. -/
theorem Receiver.halfRight_iff (r : Receiver) :
    r.HalfRight ↔ (r.sizePasses = true ∧ r.headerPasses = true ∧ r.sequencePasses = true ∧
      r.complementPasses = true ∧ crcPasses r.currentBlock (payloadSize r.currentBlock) = true) ∧
      ¬ r.BlockRight := by
  rw [sequencePasses_iff, complementPasses_iff, crcPasses_iff]
  constructor
  · intro h
    refine ⟨⟨h.size, h.header, h.sequence, h.complement, ?_⟩, fun hright => ?_⟩
    · rcases h.half with hne | ⟨-, hlow⟩
      · cases hhigh : crcHighRight r.currentBlock (payloadSize r.currentBlock)
        · rw [hhigh] at hne
          exact .inr (by simpa using hne.symm)
        · exact .inl rfl
      · exact .inr hlow
    · rcases h.half with hne | ⟨hlength, -⟩
      · exact hne (hright.high.trans hright.low.symm)
      · exact hlength hright.length
  · rintro ⟨⟨hsize, hheader, hsequence, hcomplement, hcrc⟩, hnot⟩
    refine ⟨hsize, hheader, hsequence, hcomplement, ?_⟩
    by_cases heq : crcHighRight r.currentBlock (payloadSize r.currentBlock) =
        crcLowRight r.currentBlock (payloadSize r.currentBlock)
    · have hlow : crcLowRight r.currentBlock (payloadSize r.currentBlock) = true := by
        rcases hcrc with hhigh | hlow
        · rw [← heq, hhigh]
        · exact hlow
      exact .inr ⟨fun hlength =>
        hnot ⟨hheader, hlength, hsequence, hcomplement, heq.trans hlow, hlow⟩, hlow⟩
    · exact .inl heq

theorem Receiver.verifyBlock_sound_iff {r : Receiver} (hcrc : r.flavor.hasChecksum = false) :
    (r.verifyBlock.2 = true → r.BlockRight) ↔ ¬ r.HalfRight := by
  rw [verifyBlock_snd_iff hcrc, halfRight_iff]
  exact ⟨fun h hhalf => hhalf.2 (h hhalf.1), fun h hpass => by_contra fun hnot => h ⟨hpass, hnot⟩⟩

theorem Receiver.unmoved_of_refused {r : Receiver} (h : r.verifyBlock.2 = false) :
    r.Unmoved r.verifyBlock.1 := by
  rw [verifyBlock_refused h]
  exact r.unmoved_statsIncrementErrors

/-! ### Bursts -/

theorem length_byteBits (ch : UInt8) : (byteBits ch).length = 8 := by simp [byteBits]

theorem length_bits (data : List UInt8) : (bits data).length = 8 * data.length := by
  induction data with
  | nil => rfl
  | cons ch data ih =>
    rw [bits, List.flatMap_cons, List.length_append, length_byteBits, ← bits, ih, List.length_cons]
    omega

theorem Burst.length_eq {data changed : List UInt8} (h : Burst data changed) :
    changed.length = data.length := by
  obtain ⟨front, x, y, back, hdata, hchanged, hxy, -, -⟩ := h
  have hsum := congrArg List.length hdata
  have hsum' := congrArg List.length hchanged
  rw [length_bits, List.length_append, List.length_append] at hsum hsum'
  omega

/-- The two bytes are the whole register. -/
theorem calcrc_inj {x y : List UInt8} (hhigh : crcHigh (calcrc x) = crcHigh (calcrc y))
    (hlow : crcLow (calcrc x) = crcLow (calcrc y)) :
    low16 (calcrc x) = low16 (calcrc y) := by
  have hhigh' := congrArg UInt8.toNat hhigh
  have hlow' := congrArg UInt8.toNat hlow
  simp only [crcHigh, crcLow, UInt32.toNat_toUInt8, UInt32.toNat_shiftRight] at hhigh' hlow'
  apply BitVec.eq_of_toNat_eq
  rw [toNat_low16, toNat_low16]
  have hshift : (8 : UInt32).toNat % 32 = 8 := rfl
  rw [hshift, Nat.shiftRight_eq_div_pow, Nat.shiftRight_eq_div_pow] at hhigh'
  omega

theorem Burst.calcrc_ne {data changed : List UInt8} (h : Burst data changed) :
    low16 (calcrc data) ≠ low16 (calcrc changed) := by
  obtain ⟨front, x, y, back, hdata, hchanged, hxy, hlength, hne⟩ := h
  rw [calcrc, calcrc, low16_computeCrc16, low16_computeCrc16, hdata, hchanged]
  exact feed_ne_of_burst (by decide) hxy hlength hne _

/-! ### The blocks that are sent -/

section Layout
variable (header number : UInt8) (data check : List UInt8)

theorem byteAt_layout_zero : byteAt (layout header number data check) 0 = header := rfl

theorem length_layout : (layout header number data check).length = 3 + data.length + check.length := by
  simp only [layout, List.length_append, List.length_cons, List.length_nil]

theorem payload_layout : payload (layout header number data check) data.length = data := by
  have hdrop : (layout header number data check).drop 3 = data ++ check := rfl
  rw [payload, hdrop, List.takeD_left]

theorem byteAt_layout_check (hdata : 0 < data.length) (i : ℕ) :
    byteAt (layout header number data check) (data.length - 1 + (4 + i)) = check.getD i 0 := by
  have hindex : data.length - 1 + (4 + i) = ([header, number, 0xFF - number] ++ data).length + i := by
    simp only [List.length_append, List.length_cons, List.length_nil]
    omega
  rw [byteAt, layout, hindex, List.getD_eq_getElem?_getD,
    List.getElem?_append_right (Nat.le_add_right ..), Nat.add_sub_cancel_left,
    ← List.getD_eq_getElem?_getD]

end Layout

/-- A header byte and a payload of its size. -/
def Fits (header : UInt8) (data : List UInt8) : Prop :=
  header = cSoh ∧ data.length = 128 ∨ header = cStx ∧ data.length = 1024

theorem payloadSize_layout {header : UInt8} {data : List UInt8} (h : Fits header data)
    (number : UInt8) (check : List UInt8) :
    payloadSize (layout header number data check) = data.length := by
  rw [payloadSize, byteAt_layout_zero]
  rcases h with ⟨rfl, hlength⟩ | ⟨rfl, hlength⟩
  · rw [if_pos rfl, hlength]
  · rw [if_neg (by decide), hlength]

theorem Fits.pos {header : UInt8} {data : List UInt8} (h : Fits header data) : 0 < data.length := by
  rcases h with ⟨-, h⟩ | ⟨-, h⟩ <;> omega

theorem crcHighRight_layout {header : UInt8} {data : List UInt8} (h : Fits header data)
    (number : UInt8) (check : List UInt8) :
    crcHighRight (layout header number data check) data.length =
      decide (check.getD 0 0 = crcHigh (calcrc data)) := by
  rw [crcHighRight, payload_layout, ← byteAt_layout_check header number data check h.pos 0]

theorem crcLowRight_layout {header : UInt8} {data : List UInt8} (h : Fits header data)
    (number : UInt8) (check : List UInt8) :
    crcLowRight (layout header number data check) data.length =
      decide (check.getD 1 0 = crcLow (calcrc data)) := by
  rw [crcLowRight, payload_layout, ← byteAt_layout_check header number data check h.pos 1]

theorem length_padded (read : List UInt8) (count : ℕ) : (padded read count).length = count :=
  List.takeD_length ..

/-- A block of a flavor with a CRC. -/
theorem constructBlock_eq {s : Sender} (file : List UInt8) (hcrc : s.flavor.hasChecksum = false) :
    ∃ header data, Fits header data ∧ (s.flavor.isShort = true → header = cSoh) ∧
      (s.constructBlock file).currentBlock = layout header s.currentBlockSequenceI data (crcBytes data) := by
  have hsoh (read : List UInt8) : Fits cSoh (padded read 128) := .inl ⟨rfl, length_padded ..⟩
  have hstx (read : List UInt8) : Fits cStx (padded read 1024) := .inr ⟨rfl, length_padded ..⟩
  unfold constructBlock blockAround
  dsimp only
  rw [if_neg (by simp [hcrc])]
  split
  · exact ⟨_, _, hsoh _, fun _ => rfl, rfl⟩
  · next hlong =>
    refine ⟨_, _, hstx _, fun hshort => ?_, rfl⟩
    simp [hshort] at hlong

theorem blockZero_eq (s : Sender) :
    ∃ header data, Fits header data ∧
      s.ymodemConstructBlock0.currentBlock =
        layout header s.currentBlockSequenceI data (crcBytes data) := by
  unfold ymodemConstructBlock0 blockZero
  dsimp only
  split
  · exact ⟨_, _, .inr ⟨rfl, List.takeD_length ..⟩, rfl⟩
  · exact ⟨_, _, .inl ⟨rfl, List.takeD_length ..⟩, rfl⟩

theorem layout_inj {header header' number number' : UInt8} {data data' check check' : List UInt8}
    (hcheck : check.length = check'.length)
    (h : layout header number data check = layout header' number' data' check') :
    header = header' ∧ number = number' ∧ data = data' ∧ check = check' := by
  have hlength := congrArg List.length h
  rw [length_layout, length_layout] at hlength
  obtain ⟨hfront, rfl⟩ := List.append_inj h (by simp; omega)
  injection hfront with hheader hrest
  injection hrest with hnumber hrest
  injection hrest with _ hdata
  exact ⟨hheader, hnumber, hdata, rfl⟩

/-- A damaged block has the same shape, and not the CRC of its payload. -/
theorem Damage.exists_layout {header number : UInt8} {data sent damaged : List UInt8}
    (h : Damage sent damaged) (hfits : Fits header data)
    (hsent : sent = layout header number data (crcBytes data)) :
    ∃ data' check', damaged = layout header number data' check' ∧ Fits header data' ∧
      check'.length = 2 ∧
      ¬ (check'.getD 0 0 = crcHigh (calcrc data') ∧ check'.getD 1 0 = crcLow (calcrc data')) := by
  cases h with
  | payload header₁ number₁ hcheck hburst =>
    obtain ⟨rfl, rfl, rfl, rfl⟩ := layout_inj (by rw [hcheck]; rfl) hsent
    refine ⟨_, _, rfl, ?_, rfl, fun ⟨hhigh, hlow⟩ => hburst.calcrc_ne (calcrc_inj hhigh hlow)⟩
    rw [Fits, hburst.length_eq]
    exact hfits
  | check header₁ number₁ data₁ hcheck hchanged hne =>
    obtain ⟨rfl, rfl, rfl, rfl⟩ := layout_inj (by rw [hcheck]; rfl) hsent
    refine ⟨_, _, rfl, hfits, hchanged, fun ⟨hhigh, hlow⟩ => hne ?_⟩
    obtain ⟨high, low, rfl⟩ := List.length_eq_two.mp hchanged
    rw [crcBytes, ← hhigh, ← hlow]
    rfl

theorem bothWrong_iff (block : List UInt8) :
    bothWrong block ↔ crcPasses block (payloadSize block) = false := by
  rw [bothWrong, crcPasses]
  cases crcHighRight block (payloadSize block) <;> cases crcLowRight block (payloadSize block) <;> decide

/-- The numbers of a block with the shape of the one that is expected are right. -/
theorem expecting_passes (r : Receiver) {s : Sender} {header : UInt8} {data check : List UInt8}
    (hfits : Fits header data) (hcheck : check.length = 2) (hcrc : s.flavor.hasChecksum = false)
    (hshort : s.flavor.isShort = true → header = cSoh) :
    let e := r.expecting s (layout header s.currentBlockSequenceI data check)
    e.sizePasses = true ∧ e.headerPasses = true ∧ e.sequencePasses = true ∧ e.complementPasses = true := by
  intro e
  have hlength : e.currentBlock.length = 3 + data.length + 2 := by
    rw [← hcheck]
    exact length_layout ..
  have hflavor : e.flavor = s.flavor := rfl
  refine ⟨?_, ?_, e.sequencePasses_iff.mpr rfl, e.complementPasses_iff.mpr rfl⟩
  · rw [Receiver.sizePasses, hflavor, hcrc, if_neg (by decide), hlength]
    split
    · next hxcrc =>
      have hsoh := hshort (by rw [hxcrc]; rfl)
      rcases hfits with ⟨-, h⟩ | ⟨hstx, -⟩
      · simp [h]
      · rw [hsoh] at hstx
        exact absurd hstx (by decide)
    · rcases hfits with ⟨-, h⟩ | ⟨-, h⟩ <;> simp [h]
  · have hbyte : byteAt e.currentBlock 0 = header := rfl
    rw [Receiver.headerPasses, hflavor, hbyte]
    split
    · next h => simpa using hshort h
    · rcases hfits with ⟨rfl, -⟩ | ⟨rfl, -⟩ <;> decide

theorem not_blockRight_expecting (r : Receiver) (s : Sender) {header : UInt8} {data check : List UInt8}
    (hfits : Fits header data)
    (hwrong : ¬ (check.getD 0 0 = crcHigh (calcrc data) ∧ check.getD 1 0 = crcLow (calcrc data))) :
    ¬ (r.expecting s (layout header s.currentBlockSequenceI data check)).BlockRight := by
  intro hright
  have hsize := payloadSize_layout hfits s.currentBlockSequenceI check
  have hhigh := hright.high
  have hlow := hright.low
  simp only [Receiver.expecting, hsize, crcHighRight_layout hfits, decide_eq_true_eq] at hhigh
  simp only [Receiver.expecting, hsize, crcLowRight_layout hfits, decide_eq_true_eq] at hlow
  exact hwrong ⟨hhigh, hlow⟩

/-- The block is refused, and neither the file nor the expected number changes. -/
def Receiver.Refuses (r : Receiver) : Prop := r.verifyBlock.2 = false ∧ r.Unmoved r.verifyBlock.1

/-- The same for a block 0, whatever can be opened. -/
def Receiver.RefusesZero (r : Receiver) : Prop :=
  ∀ opens, ∃ r', r.ymodemDecodeBlock0 opens = .ok (r', false) ∧ r.Unmoved r'

/-- Damage is refused when it leaves no CRC byte right; it never leaves both. -/
theorem damaged_block (r : Receiver) {s : Sender} {file damaged : List UInt8}
    (hcrc : s.flavor.hasChecksum = false) (h : Damage (s.constructBlock file).currentBlock damaged) :
    ((r.expecting s damaged).Refuses ↔ bothWrong damaged) ∧ ¬ (r.expecting s damaged).BlockRight := by
  obtain ⟨header, data, hfits, hshort, hsent⟩ := constructBlock_eq file hcrc
  obtain ⟨data', check', rfl, hfits', hcheck', hwrong⟩ := h.exists_layout hfits hsent
  have hpasses := expecting_passes r hfits' hcheck' hcrc hshort
  refine ⟨?_, not_blockRight_expecting r s hfits' hwrong⟩
  · rw [bothWrong_iff, Receiver.Refuses]
    have hsnd := Receiver.verifyBlock_snd_iff
      (r := r.expecting s (layout header s.currentBlockSequenceI data' check')) hcrc
    obtain ⟨h1, h2, h3, h4⟩ := hpasses
    simp only [h1, h2, h3, h4, true_and] at hsnd
    constructor
    · rintro ⟨hfalse, -⟩
      rw [hfalse] at hsnd
      simpa [Receiver.expecting] using hsnd
    · intro hfalse
      have hsecond := hsnd.not.mpr (by simp [Receiver.expecting, hfalse])
      rw [Bool.not_eq_true] at hsecond
      exact ⟨hsecond, Receiver.unmoved_of_refused hsecond⟩

/-! ### Block 0 -/

/-- The path of the file that the block names can be put together. -/
def Receiver.PathFits (r : Receiver) : Prop :=
  (readBlockZero r.currentBlock).filename = [] ∨
    (fullFilename r.downloadPath (readBlockZero r.currentBlock).filename).length < filenameSize

/-- The checks that both functions make. -/
def Receiver.Passes (r : Receiver) : Prop :=
  r.sizePasses = true ∧ r.headerPasses = true ∧ r.sequencePasses = true ∧
    r.complementPasses = true ∧ crcPasses r.currentBlock (payloadSize r.currentBlock) = true

theorem hasChecksum_of_isYmodem {flavor : Flavor} (h : flavor.isYmodem = true) :
    flavor.hasChecksum = false := by
  cases flavor <;> first | rfl | cases h

theorem isShort_of_isYmodem {flavor : Flavor} (h : flavor.isYmodem = true) :
    flavor.isShort = false := by
  cases flavor <;> first | rfl | cases h

section DecodeBlockZero
variable {r : Receiver} (hflavor : r.flavor.isYmodem = true) (opens : List UInt8 → Bool)
include hflavor

theorem sizePasses_ymodem :
    r.sizePasses = (decide (r.currentBlock.length = 1024 + 5) || decide (r.currentBlock.length = 128 + 5)) := by
  rw [Receiver.sizePasses]
  cases hf : r.flavor <;> first | rfl | (rw [hf] at hflavor; cases hflavor)

theorem headerPasses_ymodem :
    r.headerPasses =
      (decide (byteAt r.currentBlock 0 = cSoh) || decide (byteAt r.currentBlock 0 = cStx)) := by
  rw [Receiver.headerPasses]
  cases hf : r.flavor <;> first | rfl | (rw [hf] at hflavor; cases hflavor)

theorem ymodemDecodeBlock0_of_not_passes (h : ¬ r.Passes) :
    r.ymodemDecodeBlock0 opens = .ok (r.statsIncrementErrors, false) := by
  unfold Receiver.ymodemDecodeBlock0
  dsimp only
  rw [← sizePasses_ymodem hflavor, ← headerPasses_ymodem hflavor]
  split_ifs with h1 h2 h3 h4 h5
  all_goals first | rfl | skip
  all_goals
    refine absurd ⟨?_, ?_, ?_, ?_, ?_⟩ h
    all_goals simp_all

theorem ymodemDecodeBlock0_of_passes (h : r.Passes) :
    r.ymodemDecodeBlock0 opens = r.openBlockZero opens := by
  obtain ⟨h1, h2, h3, h4, h5⟩ := h
  unfold Receiver.ymodemDecodeBlock0
  dsimp only
  rw [← sizePasses_ymodem hflavor, ← headerPasses_ymodem hflavor, h1, h2, h3, h4, h5]
  rfl

end DecodeBlockZero

/-- Behind the checks it is the path that decides. -/
theorem openBlockZero_of_fits {r : Receiver} (h : r.PathFits) :
    ∃ r', r.openBlockZero (fun _ => true) = .ok (r', true) := by
  unfold Receiver.openBlockZero
  by_cases hempty : (readBlockZero r.currentBlock).filename = []
  · exact ⟨_, if_pos hempty⟩
  · have hshort : ¬ filenameSize ≤
        (fullFilename r.downloadPath (readBlockZero r.currentBlock).filename).length := by
      rcases h with h | h
      · exact absurd h hempty
      · omega
    exact ⟨_, (if_neg hempty).trans ((if_neg hshort).trans (if_neg Bool.false_ne_true))⟩

theorem openBlockZero_of_not_fits {r : Receiver} (h : ¬ r.PathFits) (opens : List UInt8 → Bool) :
    r.openBlockZero opens = .error .overflow := by
  rw [Receiver.PathFits, not_or, not_lt] at h
  unfold Receiver.openBlockZero
  exact (if_neg h.1).trans (if_pos h.2)

theorem ymodemDecodeBlock0_sound_iff {r : Receiver} (hflavor : r.flavor.isYmodem = true) :
    (∀ opens r', r.ymodemDecodeBlock0 opens = .ok (r', true) → r.BlockRight) ↔
      ¬ (r.HalfRight ∧ r.PathFits) := by
  rw [r.halfRight_iff]
  constructor
  · rintro h ⟨⟨hpasses, hnot⟩, hpath⟩
    obtain ⟨r', haccept⟩ := openBlockZero_of_fits hpath
    exact hnot (h _ _ ((ymodemDecodeBlock0_of_passes hflavor _ hpasses).trans haccept))
  · intro h opens r' haccept
    by_contra hnot
    by_cases hpasses : r.Passes
    · rw [ymodemDecodeBlock0_of_passes hflavor opens hpasses] at haccept
      refine h ⟨⟨hpasses, hnot⟩, by_contra fun hpath => ?_⟩
      rw [openBlockZero_of_not_fits hpath] at haccept
      cases haccept
    · rw [ymodemDecodeBlock0_of_not_passes hflavor opens hpasses] at haccept
      cases haccept

theorem damaged_blockZero (r : Receiver) {s : Sender} {damaged : List UInt8}
    (hflavor : s.flavor.isYmodem = true) (h : Damage s.ymodemConstructBlock0.currentBlock damaged) :
    ((r.expecting s damaged).RefusesZero ↔ bothWrong damaged) ∧
      ¬ (r.expecting s damaged).BlockRight := by
  obtain ⟨header, data, hfits, hsent⟩ := blockZero_eq s
  obtain ⟨data', check', rfl, hfits', hcheck', hwrong⟩ := h.exists_layout hfits hsent
  have hcrc := hasChecksum_of_isYmodem hflavor
  have hshort : s.flavor.isShort = true → header = cSoh := by
    simp [isShort_of_isYmodem hflavor]
  obtain ⟨h1, h2, h3, h4⟩ := expecting_passes r hfits' hcheck' hcrc hshort
  refine ⟨?_, not_blockRight_expecting r s hfits' hwrong⟩
  · rw [bothWrong_iff]
    constructor
    · intro hrefuses
      by_contra hcrc'
      rw [Bool.not_eq_false] at hcrc'
      obtain ⟨r', hrefused, -⟩ := hrefuses fun _ => true
      rw [ymodemDecodeBlock0_of_passes hflavor (fun _ => true) ⟨h1, h2, h3, h4, hcrc'⟩] at hrefused
      by_cases hpath : (r.expecting s (layout header s.currentBlockSequenceI data' check')).PathFits
      · obtain ⟨r'', haccept⟩ := openBlockZero_of_fits hpath
        rw [haccept] at hrefused
        cases hrefused
      · rw [openBlockZero_of_not_fits hpath] at hrefused
        cases hrefused
    · intro hcrc' opens
      refine ⟨_, ymodemDecodeBlock0_of_not_passes hflavor opens fun hp => ?_,
        Receiver.unmoved_statsIncrementErrors _⟩
      exact Bool.false_ne_true (hcrc'.symm.trans hp.2.2.2.2)

/-- Exactly which wrong blocks are accepted: those of which half is right, and of the damaged ones
those that keep a CRC byte right. -/
theorem accepted_blocks (r : Receiver) (s : Sender) (file damaged : List UInt8) :
    (r.flavor.hasChecksum = false → ((r.verifyBlock.2 = true → r.BlockRight) ↔ ¬ r.HalfRight)) ∧
    (r.flavor.isYmodem = true →
      ((∀ opens r', r.ymodemDecodeBlock0 opens = .ok (r', true) → r.BlockRight) ↔
        ¬ (r.HalfRight ∧ r.PathFits))) ∧
    (s.flavor.hasChecksum = false → Damage (s.constructBlock file).currentBlock damaged →
      ((r.expecting s damaged).Refuses ↔ bothWrong damaged) ∧ ¬ (r.expecting s damaged).BlockRight) ∧
    (s.flavor.isYmodem = true → Damage s.ymodemConstructBlock0.currentBlock damaged →
      ((r.expecting s damaged).RefusesZero ↔ bothWrong damaged) ∧
        ¬ (r.expecting s damaged).BlockRight) :=
  ⟨Receiver.verifyBlock_sound_iff, ymodemDecodeBlock0_sound_iff, damaged_block r, damaged_blockZero r⟩

/-- A receiver that waits for its first block. -/
def Receiver.fresh (flavor : Flavor) (block : List UInt8) : Receiver :=
  ⟨flavor, .block, .block, block, 1, 1, 67, 0, 10, 0, some [], [], [], 0, 0, false, []⟩

def Sender.fresh (flavor : Flavor) : Sender :=
  ⟨flavor, .block, .block, [], 1, 1, 67, 0, 10, 0, some [], none, []⟩

/-- Zeros with the CRC 0001, where it should be 0000. -/
def halfRightBlock : List UInt8 := layout cSoh 1 (List.replicate 128 0) [0, 1]

theorem calcrc_zeros (n : ℕ) : calcrc (List.replicate n 0) = 0 := by
  have hfold : (List.replicate n (0 : UInt8)).foldl crc16Byte 0 = 0 := by
    induction n with
    | zero => rfl
    | succ n ih =>
      have hbyte : crc16Byte 0 0 = 0 := by decide
      rw [List.replicate_succ, List.foldl_cons, hbyte, ih]
  rw [calcrc, computeCrc16, hfold]
  rfl

theorem halfRight_halfRightBlock : (Receiver.fresh .xCrc halfRightBlock).HalfRight := by
  have hfits : Fits cSoh (List.replicate 128 0) := .inl ⟨rfl, rfl⟩
  have hhigh : crcHighRight halfRightBlock 128 = true :=
    (crcHighRight_layout hfits 1 [0, 1]).trans (by rw [calcrc_zeros]; decide)
  have hlow : crcLowRight halfRightBlock 128 = false :=
    (crcLowRight_layout hfits 1 [0, 1]).trans (by rw [calcrc_zeros]; decide)
  have hsize : payloadSize halfRightBlock = 128 := payloadSize_layout hfits 1 [0, 1]
  obtain ⟨hpasses, hheader, -, -⟩ := expecting_passes (Receiver.fresh .xCrc [])
    hfits (show [0, 1].length = 2 from rfl) (show (Sender.fresh .xCrc).flavor.hasChecksum = false from rfl)
    fun _ => rfl
  refine ⟨hpasses, hheader, rfl, rfl, .inl ?_⟩
  change crcHighRight halfRightBlock (payloadSize halfRightBlock) ≠
    crcLowRight halfRightBlock (payloadSize halfRightBlock)
  rw [hsize, hhigh, hlow]
  decide

theorem not_blockRight_of_accepted :
    (Receiver.fresh .xCrc halfRightBlock).verifyBlock.2 = true ∧
      ¬ (Receiver.fresh .xCrc halfRightBlock).BlockRight := by
  have h := (Receiver.fresh .xCrc halfRightBlock).halfRight_iff.mp halfRight_halfRightBlock
  exact ⟨(Receiver.verifyBlock_snd_iff rfl).mpr h.1, h.2⟩

theorem accepted_blocks_example :
    ¬ ((Receiver.fresh .xCrc halfRightBlock).verifyBlock.2 = true →
      (Receiver.fresh .xCrc halfRightBlock).BlockRight) := by
  rw [(accepted_blocks (Receiver.fresh .xCrc halfRightBlock) (Sender.fresh .xCrc) [] []).1 rfl,
    not_not]
  exact halfRight_halfRightBlock

end CProgram.Xmodem
