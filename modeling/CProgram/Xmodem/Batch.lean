import CProgram.Xmodem.Delivery

/-! A Ymodem batch on a perfect line: block 0 tells the receiver name, length and time of a file, the
blocks follow, and the file is cut to its length. -/
namespace CProgram.Xmodem
open Sender Exchange Numerals

/-! ### Block 0 -/

theorem byteAt_of_drop {block rest : List UInt8} {n : ℕ} {ch : UInt8} (h : block.drop n = ch :: rest) :
    byteAt block n = ch := by
  have hget : block[n]? = some ch := by
    have hdrop : (block.drop n)[0]? = block[n + 0]? := List.getElem?_drop
    rw [h, Nat.add_zero] at hdrop
    exact hdrop.symm
  rw [byteAt, List.getD_eq_getElem?_getD, hget]
  rfl

/-- A field is read up to the byte that ends it. -/
theorem fieldFrom_eq {stop : UInt8 → Bool} {block rest : List UInt8} {last : UInt8}
    (hlast : stop last = true) (field : List UInt8) (hfield : ∀ ch ∈ field, stop ch = false)
    (hne : field ≠ []) {room n : ℕ} (hroom : field.length ≤ room)
    (h : block.drop n = field ++ last :: rest) :
    fieldFrom stop block room n = (field, n + field.length) := by
  induction field generalizing room n with
  | nil => exact absurd rfl hne
  | cons ch field ih =>
    obtain ⟨room, rfl⟩ : ∃ k, room = k + 1 := ⟨room - 1, by simp at hroom; omega⟩
    have hch : byteAt block n = ch := byteAt_of_drop h
    have hdrop : block.drop (n + 1) = field ++ last :: rest := by
      rw [← List.drop_drop, h]
      rfl
    rw [fieldFrom, hch]
    cases field with
    | nil =>
      rw [byteAt_of_drop hdrop, if_pos hlast]
      rfl
    | cons ch' field =>
      have hnext : stop (byteAt block (n + 1)) = false := by
        rw [byteAt_of_drop hdrop]
        exact hfield ch' (by simp)
      have hrest := ih (fun x hx => hfield x (List.mem_cons_of_mem _ hx)) (List.cons_ne_nil _ _)
        (by simpa using hroom) hdrop
      rw [if_neg (by simp [hnext])]
      dsimp only
      rw [hrest]
      simp only [List.length_cons, Prod.mk.injEq, true_and]
      omega

theorem cString_eq {field : List UInt8} (h : ∀ ch ∈ field, ch ≠ 0) : cString field = field :=
  List.takeWhile_eq_self_iff.mpr fun ch hch => by simpa using h ch hch

theorem not_stop_numeral {b n : ℕ} (hb : 1 < b) (hten : b ≤ 10) {ch : UInt8} (h : ch ∈ numeral b n) :
    ch ≠ 0 ∧ ch ≠ 32 := by
  have hdigit := isDigitIn_of_mem hb hten h
  rw [isDigitIn, Bool.and_eq_true, decide_eq_true_eq] at hdigit
  constructor <;> rintro rfl <;> exact absurd hdigit.1 (by decide)

/-- What `ymodem_decode_block_0` reads is what `ymodem_construct_block_0` has written. -/
theorem readBlockZero_eq {block name rest : List UInt8} {entry : FileInfo} (hname : name ≠ [])
    (hnul : ∀ ch ∈ name, ch ≠ 0) (hshort : name.length ≤ 255) (hsize : entry.content.length < 2147483648)
    (h : block.drop 3 = blockZeroFields name entry ++ rest) :
    readBlockZero block = ⟨name, numeral 10 entry.content.length, numeral 8 entry.mtime.toNat⟩ := by
  obtain ⟨length, hlength⟩ : ∃ l, l = numeral 10 entry.content.length := ⟨_, rfl⟩
  obtain ⟨time, htime⟩ : ∃ t, t = numeral 8 entry.mtime.toNat := ⟨_, rfl⟩
  have hstopLength : ∀ ch ∈ length, isNulOrBlank ch = false := by
    intro ch hch
    rw [hlength] at hch
    have hne := not_stop_numeral (by omega) (by omega) hch
    simp [isNulOrBlank, hne.1, hne.2]
  have hstopTime : ∀ ch ∈ time, isNulOrBlank ch = false := by
    intro ch hch
    rw [htime] at hch
    have hne := not_stop_numeral (by omega) (by omega) hch
    simp [isNulOrBlank, hne.1, hne.2]
  have hroomLength : length.length ≤ 255 := by
    rw [hlength]
    exact (length_numeral_le (by omega) (by omega : 0 < 10) (by omega)).trans (by omega)
  have hroomTime : time.length ≤ 255 := by
    rw [htime]
    exact (length_numeral_le (by omega) (by omega : 0 < 22)
      (entry.mtime.toNat_lt.trans (by norm_num))).trans (by omega)
  rw [blockZeroFields, ← hlength, ← htime] at h
  have hdropName : block.drop 3 = name ++ 0 :: (length ++ [32] ++ time ++ [0] ++ rest) := by
    rw [h]
    simp
  have hdropLength : block.drop (3 + name.length + 1) = length ++ 32 :: (time ++ [0] ++ rest) := by
    rw [Nat.add_assoc, ← List.drop_drop, hdropName, ← List.drop_drop, List.drop_left]
    simp
  have hdropTime : block.drop (3 + name.length + 1 + length.length + 1) = time ++ 0 :: rest := by
    rw [Nat.add_assoc (3 + name.length + 1), ← List.drop_drop, hdropLength, ← List.drop_drop,
      List.drop_left]
    simp
  have hreadName : fieldFrom isNul block 255 3 = (name, 3 + name.length) :=
    fieldFrom_eq (by decide : isNul 0 = true) name (fun ch hch => by simp [isNul, hnul ch hch]) hname
      hshort hdropName
  have hreadLength := fieldFrom_eq (by decide : isNulOrBlank 32 = true) length hstopLength
    (by rw [hlength]; exact numeral_ne_nil _) hroomLength hdropLength
  have hreadTime := fieldFrom_eq (by decide : isNulOrBlank 0 = true) time hstopTime
    (by rw [htime]; exact numeral_ne_nil _) hroomTime hdropTime
  have hfilename : filenameSize - 1 = 255 := rfl
  unfold readBlockZero
  rw [hfilename, hreadName]
  dsimp only
  rw [hreadLength]
  dsimp only
  rw [hreadTime]
  dsimp only
  rw [cString_eq hnul, cString_eq fun ch hch => ?_, cString_eq fun ch hch => ?_, hlength, htime]
  · rw [htime] at hch
    exact (not_stop_numeral (by omega) (by omega) hch).1
  · rw [hlength] at hch
    exact (not_stop_numeral (by omega) (by omega) hch).1

theorem fileLength_numeral {n : ℕ} (h : n < 2147483648) : fileLength (numeral 10 n) = n := by
  rw [fileLength, atol, scan_numeral (by omega) (by omega), Option.getD_some]
  have hmax : max (-2 ^ 63) (min (n : ℤ) (2 ^ 63 - 1)) = n := by omega
  rw [hmax]
  exact Int.bmod_eq_of_le (by omega) (by omega)

theorem toNat_ofInt {n : ℕ} (h : n < 2 ^ 64) : (UInt64.ofInt (n : ℤ)).toNat = n := by
  have hmod : ((n : ℤ) % 2 ^ 64).toNat = n := by omega
  rw [UInt64.ofInt, hmod]
  exact UInt64.toNat_ofNat_of_lt h

theorem scanOctal_numeral (m : UInt64) : scanOctal (numeral 8 m.toNat) = some m := by
  have hlt := m.toNat_lt
  rw [scanOctal, scan_numeral (by omega) (by omega), Option.map_some, if_pos (by simpa using hlt)]
  congr 1
  exact UInt64.toNat.inj (toNat_ofInt hlt)

/-! ### The receiver -/

namespace Receiver

/-- The receiver waits for block 0. -/
structure Begins (path : List UInt8) (directory : List (List UInt8 × List UInt8 × UInt64))
    (r : Receiver) : Prop where
  flavor_eq : r.flavor = .yNormal
  state_eq : r.state = .block
  block_eq : r.currentBlock = []
  sequence_eq : r.currentBlockSequenceI = 0
  number_eq : r.currentBlockNumber = 1
  byte_eq : r.firstByte = 67
  seen_eq : r.block0HasBeenSeen = false
  path_eq : r.downloadPath = path
  directory_eq : r.directory = directory

/-- The receiver behind a block 0. -/
def headed (r : Receiver) (block : List UInt8) : Receiver :=
  (((r.append block).setFilename (readBlockZero block).filename).startFile (readBlockZero block)).seenBlockZero

/-- The receiver behind the terminator block. -/
def ended (r : Receiver) (block : List UInt8) : Receiver :=
  ((r.append block).setFilename (readBlockZero block).filename).seenBlockZero.setState .complete

variable {path : List UInt8} {directory : List (List UInt8 × List UInt8 × UInt64)} {r : Receiver}
  {header : UInt8} {data : List UInt8}

theorem append_passes (hr : r.Begins path directory) (hfits : Fits header data) :
    (r.append (layout header 0 data (crcBytes data))).Passes := by
  have hpasses := expecting_passes r (s := { Sender.fresh .yNormal with currentBlockSequenceI := 0 })
    hfits (rfl : (crcBytes data).length = 2) rfl fun h => by cases h
  have hsame : r.expecting { Sender.fresh .yNormal with currentBlockSequenceI := 0 }
      (layout header 0 data (crcBytes data)) = r.append (layout header 0 data (crcBytes data)) := by
    obtain ⟨hflavor, -, hblock, hsequence, -, -, -, -, -⟩ := hr
    cases r
    cases hflavor
    cases hblock
    cases hsequence
    rfl
  have hcrc : crcPasses (layout header 0 data (crcBytes data))
      (payloadSize (layout header 0 data (crcBytes data))) = true := by
    rw [payloadSize_layout hfits, crcPasses_iff, crcHighRight_layout hfits]
    exact .inl (decide_eq_true rfl)
  have hblock : (r.append (layout header 0 data (crcBytes data))).currentBlock =
      layout header 0 data (crcBytes data) := congrArg (· ++ _) hr.block_eq
  rw [← hsame] at hblock ⊢
  exact ⟨hpasses.1, hpasses.2.1, hpasses.2.2.1, hpasses.2.2.2, by rw [hblock]; exact hcrc⟩

/-- Everything about a block 0 but its path is right: the file is opened, or it is the end. -/
theorem xmodemReceive_blockZero (hr : r.Begins path directory) (hfits : Fits header data) (h : Host) :
    r.xmodemReceive h (layout header 0 data (crcBytes data)) [] =
      (r.append (layout header 0 data (crcBytes data))).receiveBlockZero h [] := by
  obtain ⟨block, hblock⟩ : ∃ b, b = layout header 0 data (crcBytes data) := ⟨_, rfl⟩
  have hlength : 133 ≤ block.length ∧ block.length ≤ 1029 := by
    rw [hblock, length_layout]
    have hcheck : (crcBytes data).length = 2 := rfl
    rcases hfits with ⟨-, h⟩ | ⟨-, h⟩ <;> omega
  have hne : block ≠ [] := by
    rw [hblock]
    exact List.cons_ne_nil _ _
  rw [← hblock, xmodemReceive, hr.state_eq]
  dsimp only
  rw [if_neg hne]
  have hplain : ¬ r.flavor.isG = true := by rw [hr.flavor_eq]; decide
  have hroom : ¬ xmodemMaxBlockSize < r.currentBlock.length + block.length := by
    rw [hr.block_eq, xmodemMaxBlockSize, List.length_nil]
    omega
  have hnotEot : (r.append block).currentBlock ≠ [cEot] := fun h => by
    have happend : (r.append block).currentBlock = block := congrArg (· ++ block) hr.block_eq
    rw [happend] at h
    rw [h] at hlength
    exact absurd hlength.1 (by decide)
  have hstart : (r.append block).flavor.isYmodem = true ∧
      (r.currentBlockSequenceI = 0 ∧ r.currentBlockNumber = 1) ∧
      ¬ (r.append block).block0HasBeenSeen = true := by
    refine ⟨?_, ⟨hr.sequence_eq, hr.number_eq⟩, ?_⟩
    · rw [append, hr.flavor_eq]
      rfl
    · rw [append, hr.seen_eq]
      decide
  unfold receiveBlock
  dsimp only
  rw [if_neg fun h => hroom h.1, if_neg fun h => hplain h.1, if_neg hroom, if_neg hnotEot, if_pos hstart]

/-- A block 0 without damage is decided on by its path. -/
theorem xmodemReceive_open (hr : r.Begins path directory) (hfits : Fits header data) (h : Host) :
    r.xmodemReceive h (layout header 0 data (crcBytes data)) [] =
      ((r.append (layout header 0 data (crcBytes data))).openBlockZero h.opens).map (answerBlockZero []) := by
  have hpasses := append_passes hr hfits
  have hflavor : (r.append (layout header 0 data (crcBytes data))).flavor.isYmodem = true := by
    rw [append, hr.flavor_eq]
    rfl
  have hblock : (r.append (layout header 0 data (crcBytes data))).currentBlock =
      layout header 0 data (crcBytes data) := congrArg (· ++ _) hr.block_eq
  have hthere : ((byteAt (layout header 0 data (crcBytes data)) 0 = cStx &&
      decide (xmodemMaxBlockSize ≤ (layout header 0 data (crcBytes data)).length)) ||
      (byteAt (layout header 0 data (crcBytes data)) 0 = cSoh &&
      decide (128 + 5 ≤ (layout header 0 data (crcBytes data)).length))) = true := by
    rw [byteAt_layout_zero, length_layout, xmodemMaxBlockSize]
    rcases hfits with ⟨rfl, h⟩ | ⟨rfl, h⟩ <;> rw [h] <;> rfl
  rw [xmodemReceive_blockZero hr hfits, receiveBlockZero, hblock, if_pos hthere,
    ymodemDecodeBlock0_of_passes hflavor h.opens hpasses]

variable {name : List UInt8} {entry : FileInfo}

/-- A file name and a size that block 0 can carry. -/
structure Names (name : List UInt8) (entry : FileInfo) : Prop where
  ne_nil : name ≠ []
  nul : ∀ ch ∈ name, ch ≠ 0
  short : name.length ≤ 255
  size : entry.content.length < 2147483648

/-- A block 0 for `name`, as `body` carries it behind the header bytes. -/
theorem openBlockZero_append (hr : r.Begins path directory) {block rest : List UInt8}
    (hblock : block.drop 3 = blockZeroFields name entry ++ rest) (hname : Names name entry)
    (opens : List UInt8 → Bool) (hopens : ∀ path, opens path = true) :
    (r.append block).openBlockZero opens =
      if filenameSize ≤ (fullFilename path name).length then .error .overflow
      else .ok (((r.append block).setFilename name).startFile (readBlockZero block), true) := by
  have hread := readBlockZero_eq hname.ne_nil hname.nul hname.short hname.size hblock
  have happend : (r.append block).currentBlock = block := congrArg (· ++ block) hr.block_eq
  have hpath : (r.append block).downloadPath = path := hr.path_eq
  rw [openBlockZero, happend, hpath, hread]
  dsimp only
  rw [if_neg hname.ne_nil, hopens]
  rfl

theorem drop_layout {fields zeros : List UInt8} (check : List UInt8) (hdata : data = fields ++ zeros) :
    (layout header 0 data check).drop 3 = fields ++ (zeros ++ check) := by
  rw [← List.append_assoc, ← hdata]
  rfl

/-- The path fits: the file is opened. -/
theorem xmodem_headed (hr : r.Begins path directory) (hfits : Fits header data) {zeros : List UInt8}
    (hdata : data = blockZeroFields name entry ++ zeros) (hname : Names name entry)
    (hpath : (fullFilename path name).length < filenameSize) (h : Host)
    (hopens : ∀ path, h.opens path = true) :
    r.xmodem h (layout header 0 data (crcBytes data)) [] =
      .ok (r.headed (layout header 0 data (crcBytes data)), [cAck, 67]) := by
  have hdrop : (layout header 0 data (crcBytes data)).drop 3 = _ := drop_layout (crcBytes data) hdata
  have hread := readBlockZero_eq hname.ne_nil hname.nul hname.short hname.size hdrop
  refine xmodem_of_xmodemReceive (by rw [hr.state_eq]; decide) ?_
  rw [xmodemReceive_open hr hfits, openBlockZero_append hr hdrop hname h.opens hopens,
    if_neg (by omega), headed, hread, ← hr.byte_eq]
  exact congrArg Except.ok (if_neg hname.ne_nil)

/-- It does not: `full_filename` is written past its end. -/
theorem xmodem_overflow (hr : r.Begins path directory) (hfits : Fits header data) {zeros : List UInt8}
    (hdata : data = blockZeroFields name entry ++ zeros) (hname : Names name entry)
    (hpath : filenameSize ≤ (fullFilename path name).length) (h : Host)
    (hopens : ∀ path, h.opens path = true) :
    r.xmodem h (layout header 0 data (crcBytes data)) [] = .error .overflow := by
  rw [xmodem, if_neg (by rw [hr.state_eq]; decide), receiveAll, xmodemReceive_open hr hfits,
    openBlockZero_append hr (drop_layout (crcBytes data) hdata) hname h.opens hopens, if_pos hpath]
  rfl

theorem xmodem_ended (hr : r.Begins path directory) (hfits : Fits header data)
    (hdata : data = List.replicate data.length 0) (h : Host) :
    r.xmodem h (layout header 0 data (crcBytes data)) [] =
      .ok (r.ended (layout header 0 data (crcBytes data)), [cAck]) := by
  obtain ⟨block, hblock⟩ : ∃ b, b = layout header 0 data (crcBytes data) := ⟨_, rfl⟩
  have hempty : (readBlockZero block).filename = [] := by
    have hbyte (i : ℕ) (hi : i < 128) : byteAt block (3 + i) = 0 := by
      have hlength : 128 ≤ data.length := by rcases hfits with ⟨-, h⟩ | ⟨-, h⟩ <;> omega
      rw [hblock, byteAt, layout, List.append_assoc, List.getD_eq_getElem?_getD,
        List.getElem?_append_right (by simp), List.getElem?_append_left (by simp; omega), hdata,
        List.getElem?_replicate]
      split <;> rfl
    rw [readBlockZero]
    change cString (fieldFrom isNul block 255 3).1 = []
    rw [fieldFrom, hbyte 1 (by omega), if_pos (by decide), hbyte 0 (by omega)]
    rfl
  have hread : (r.append block).currentBlock = block := congrArg (· ++ block) hr.block_eq
  refine xmodem_of_xmodemReceive (by rw [hr.state_eq]; decide) ?_
  rw [xmodemReceive_open hr hfits, ← hblock, openBlockZero, hread, if_pos hempty, ended]
  exact congrArg Except.ok (if_pos hempty)

/-- The receiver of an open file. -/
structure Opened (path : List UInt8) (directory : List (List UInt8 × List UInt8 × UInt64))
    (name : List UInt8) (entry : FileInfo) (r : Receiver) : Prop where
  byte_eq : r.firstByte = 67
  name_eq : r.filename = name
  path_eq : r.downloadPath = path
  time_eq : r.downloadFileModtime = entry.mtime
  total_eq : r.bytesTotal.toNat = entry.content.length
  seen_eq : r.block0HasBeenSeen = true
  directory_eq : r.directory = directory

theorem Begins.headed (hr : r.Begins path directory) {block rest : List UInt8}
    (hblock : block.drop 3 = blockZeroFields name entry ++ rest) (hname : Names name entry) :
    (r.headed block).Ready .yNormal 1 [] ∧ (r.headed block).Opened path directory name entry := by
  have hread := readBlockZero_eq hname.ne_nil hname.nul hname.short hname.size hblock
  refine ⟨⟨hr.flavor_eq, .inl hr.state_eq, congrArg (· + 1) hr.sequence_eq, rfl, rfl⟩,
    ⟨hr.byte_eq, by rw [Receiver.headed, hread]; rfl, hr.path_eq, ?_, ?_, rfl, hr.directory_eq⟩⟩
  · rw [Receiver.headed, hread]
    change (scanOctal (numeral 8 entry.mtime.toNat)).getD _ = _
    rw [scanOctal_numeral, Option.getD_some]
  · rw [Receiver.headed, hread]
    change (UInt64.ofInt (fileLength (numeral 10 entry.content.length))).toNat = _
    have hsize := hname.size
    rw [fileLength_numeral hsize, toNat_ofInt (by omega)]

/-- The directory with one file put into it. -/
def put (directory : List (List UInt8 × List UInt8 × UInt64)) (name : List UInt8) (entry : FileInfo) :
    List (List UInt8 × List UInt8 × UInt64) :=
  (name, entry.content, entry.mtime) :: directory.filter fun e => e.1 ≠ name

theorem xmodem_eot_ymodem {number : UInt8} (hr : r.Ready .yNormal number (image .yNormal entry.content))
    (ho : r.Opened path directory name entry) (hsize : entry.content.length < 2147483648)
    (hpath : (fullFilename path name).length < filenameSize) (h : Host) :
    ∃ r', r.xmodem h [cEot] [] = .ok (r', [cAck, 67]) ∧ r'.Begins path (put directory name entry) := by
  have hfile : (r.inBlock.append [cEot]).file = some (image .yNormal entry.content) := hr.file_eq
  have hflavor : (r.inBlock.append [cEot]).flavor.isYmodem = true := by
    rw [append, inBlock, hr.flavor_eq]
    rfl
  have hfull : ¬ filenameSize ≤ (fullFilename (r.inBlock.append [cEot]).downloadPath
      (r.inBlock.append [cEot]).filename).length := by
    rw [append, inBlock, ho.path_eq, ho.name_eq]
    omega
  have hstate : r.state ≠ .abort := by rcases hr.state_eq with h | h <;> rw [h] <;> decide
  refine ⟨(r.inBlock.append [cEot]).clearBlock.closeFile (image .yNormal entry.content), ?_, ?_⟩
  · refine xmodem_of_xmodemReceive hstate ?_
    rw [xmodemReceive_eot hr rfl, receiveEot, hfile]
    dsimp only
    rw [if_pos hflavor, if_neg hfull, ← ho.byte_eq]
    rfl
  · have hcut : ftruncate (image .yNormal entry.content) ((r.bytesTotal.toNat : ℤ).bmod (2 ^ 64)) =
        entry.content := by
      have hlength : (entry.content.length : ℤ).bmod (2 ^ 64) = entry.content.length :=
        Int.bmod_eq_of_le (by omega) (by omega)
      rw [ho.total_eq, hlength, ftruncate, if_neg (by omega), Int.toNat_natCast, image, List.takeD_left]
    refine ⟨hr.flavor_eq, rfl, rfl, rfl, rfl, ho.byte_eq, rfl, ho.path_eq, ?_⟩
    change (r.filename, ftruncate (image .yNormal entry.content) _, r.downloadFileModtime) ::
      r.directory.filter (fun e => e.1 ≠ r.filename) = _
    change (r.filename, ftruncate (image .yNormal entry.content) ((r.bytesTotal.toNat : ℤ).bmod (2 ^ 64)),
      r.downloadFileModtime) :: r.directory.filter (fun e => e.1 ≠ r.filename) = _
    rw [hcut, ho.name_eq, ho.time_eq, ho.directory_eq]
    rfl

end Receiver
/-! ### The sender -/

namespace Sender

/-- The sender waits for the first byte of a file, or of the terminator block. -/
structure Begins (files : List FileInfo) (s : Sender) : Prop where
  flavor_eq : s.flavor = .yNormal
  state_eq : s.state = .init
  sequence_eq : s.currentBlockSequenceI = 0
  byte_eq : s.firstByte = 67
  list_eq : s.uploadFileList = files
  name_eq : s.filename = files.head?.map fun entry => basename entry.name
  file_eq : s.file = files.head?.map fun entry => entry.content

/-- The sender behind its block 0. -/
def headed (s : Sender) : Sender :=
  ((s.setState .ymodemBlock0).ymodemConstructBlock0).setState .ymodemBlock0Ack1

variable {files : List FileInfo} {s : Sender}

theorem xmodemSend_first (hs : s.Begins files) :
    s.xmodemSend false [67] [] = .ok (s.headed, [], s.headed.currentBlock) := by
  have hinit : s.sendInit false [67] [] = .fall (s.setState .ymodemBlock0) [67] := by
    unfold sendInit
    rw [hs.flavor_eq, hs.byte_eq]
    rfl
  rw [xmodemSend, if_neg (by decide), if_pos hs.state_eq, hinit]
  rfl

theorem xmodem_blockZero (hs : s.Begins files) :
    s.xmodem false [67] [] = .ok (s.headed, s.headed.currentBlock) :=
  xmodem_of_xmodemSend (by rw [hs.state_eq]; decide) (xmodemSend_first hs)

/-- `xmodem_send` goes on behind the part for the state `ymodemBlock0Ack1`. -/
theorem xmodemSend_ack1 {s' : Sender} {input input' : List UInt8} (hcan : input.head? ≠ some cCan)
    (hstate : s.state = .ymodemBlock0Ack1) (hfall : s.sendAck1 false input [] = .fall s' input') :
    s.xmodemSend false input [] = s'.sendFromAck2 false input' [] := by
  rw [xmodemSend, if_neg hcan, if_neg (by rw [hstate]; decide), sendFromBlockZero,
    if_neg (by rw [hstate]; decide), sendFromAck1, if_pos hstate, hfall]

theorem sendFromAck2_eq {s' : Sender} {input input' : List UInt8} (hstate : s.state = .ymodemBlock0Ack2)
    (hfall : s.sendAck2 false input [] = .fall s' input') :
    s.sendFromAck2 false input [] = s'.sendBody false input' [] := by
  rw [sendFromAck2, if_pos hstate, hfall]

theorem xmodemSend_ack2 {input : List UInt8} (hcan : input.head? ≠ some cCan)
    (hstate : s.state = .ymodemBlock0Ack2) :
    s.xmodemSend false input [] = s.sendFromAck2 false input [] := by
  rw [xmodemSend, if_neg hcan, if_neg (by rw [hstate]; decide), sendFromBlockZero,
    if_neg (by rw [hstate]; decide), sendFromAck1, if_neg (by rw [hstate]; decide)]

theorem xmodem_congr {s s' : Sender} {input input' : List UInt8} (hs : s.state ≠ .abort)
    (hs' : s'.state ≠ .abort) (h : s.xmodemSend false input [] = s'.xmodemSend false input' []) :
    s.xmodem false input [] = s'.xmodem false input' [] := by
  rw [xmodem, xmodem, if_neg hs, if_neg hs', sendAll, sendAll, h]

theorem xmodemSend_block : (s.setState .block).xmodemSend false [cAck] [] =
    (s.setState .block).sendBlock false [cAck] [] :=
  xmodemSend_of_body (by decide) (by simp [setState])

theorem not_yG (hflavor : s.flavor = .yNormal) : ¬ (s.flavor = .yG ∧ s.filename = none) := by
  rintro ⟨h, -⟩
  rw [hflavor] at h
  cases h

/-- ACK and first byte together start the blocks. -/
theorem xmodem_together (hstate : s.state = .ymodemBlock0Ack1) (hflavor : s.flavor = .yNormal)
    (hname : s.filename ≠ none) (hbyte : s.firstByte = 67) :
    s.xmodem false [cAck, 67] [] = (s.setState .block).xmodem false [cAck] [] := by
  refine xmodem_congr (by rw [hstate]; decide) (by simp [setState]) ?_
  have hack : s.sendAck1 false [cAck, 67] [] = .fall (s.setState .block) [cAck] := by
    rw [sendAck1, if_neg (not_yG hflavor), if_neg (by decide), if_pos (.inl ⟨rfl, hflavor⟩),
      if_neg hname, if_pos hflavor, hbyte]
    rfl
  rw [xmodemSend_ack1 (by decide) hstate hack, xmodemSend_block]
  rfl

/-- The ACK alone. -/
theorem xmodem_ack1 (hstate : s.state = .ymodemBlock0Ack1) (hflavor : s.flavor = .yNormal)
    (hname : s.filename ≠ none) (hbyte : s.firstByte = 67) :
    s.xmodem false [cAck] [] = .ok (s.setState .ymodemBlock0Ack2, []) := by
  refine xmodem_of_xmodemSend (by rw [hstate]; decide) ?_
  have hack : s.sendAck1 false [cAck] [] = .fall (s.setState .ymodemBlock0Ack2) [cAck] := by
    rw [sendAck1, if_neg (not_yG hflavor), if_neg (by decide), if_pos (.inl ⟨rfl, hflavor⟩),
      if_neg hname, if_pos hflavor, if_neg (by simp)]
  have hack2 : (s.setState .ymodemBlock0Ack2).sendAck2 false [cAck] [] =
      .fall (s.setState .ymodemBlock0Ack2) [cAck] := by
    rw [sendAck2, if_neg (by decide), if_neg]
    rw [setState, hbyte]
    decide
  rw [xmodemSend_ack1 (by decide) hstate hack, sendFromAck2_eq rfl hack2]
  rfl

/-- The first byte behind it. -/
theorem xmodem_ack2 (hstate : s.state = .ymodemBlock0Ack2) (hbyte : s.firstByte = 67) :
    s.xmodem false [67] [] = (s.setState .block).xmodem false [cAck] [] := by
  refine xmodem_congr (by rw [hstate]; decide) (by simp [setState]) ?_
  have hack : s.sendAck2 false [67] [] = .fall (s.setState .block) [cAck] := by
    rw [sendAck2, if_neg (by decide), if_pos (by rw [hbyte])]
  rw [xmodemSend_ack2 (by decide) hstate, sendFromAck2_eq hstate hack, xmodemSend_block]
  rfl

/-- The ACK to the terminator block. -/
theorem xmodem_done (hstate : s.state = .ymodemBlock0Ack1) (hflavor : s.flavor = .yNormal)
    (hname : s.filename = none) : s.xmodem false [cAck] [] = .ok (s.setState .complete, []) := by
  refine xmodem_of_xmodemSend (by rw [hstate]; decide) ?_
  have hack : s.sendAck1 false [cAck] [] = .leave (s.setState .complete) [] [] := by
    rw [sendAck1, if_neg (not_yG hflavor), if_neg (by decide), if_pos (.inl ⟨rfl, hflavor⟩),
      if_pos hname]
  rw [xmodemSend, if_neg (by decide), if_neg (by rw [hstate]; decide), sendFromBlockZero,
    if_neg (by rw [hstate]; decide), sendFromAck1, if_pos hstate, hack]

theorem nextFile_begins (hflavor : s.flavor = .yNormal) (hbyte : s.firstByte = 67)
    (hlist : s.uploadFileList.tail = files) : s.nextFile.Begins files := by
  have hkept : ({ s with uploadFileList := files } : Sender).setupForNextFile.flavor = .yNormal ∧
      ({ s with uploadFileList := files } : Sender).setupForNextFile.firstByte = 67 ∧
      ({ s with uploadFileList := files } : Sender).setupForNextFile.uploadFileList = files ∧
      ({ s with uploadFileList := files } : Sender).setupForNextFile.filename =
        files.head?.map (fun entry => basename entry.name) ∧
      ({ s with uploadFileList := files } : Sender).setupForNextFile.file =
        files.head?.map (fun entry => entry.content) := by
    cases files with
    | nil => exact ⟨hflavor, hbyte, rfl, rfl, rfl⟩
    | cons entry rest => exact ⟨hflavor, hbyte, rfl, rfl, rfl⟩
  rw [nextFile, hlist]
  exact ⟨hkept.1, rfl, rfl, hkept.2.1, hkept.2.2.1, hkept.2.2.2.1, hkept.2.2.2.2⟩

theorem xmodemSend_eotAck {rest : List UInt8} (hstate : s.state = .eotAck) (hfile : s.file ≠ none)
    (hflavor : s.flavor = .yNormal) :
    s.xmodemSend false (cAck :: rest) [] =
      .ok (s.nextFile, if rest = [] then cAck :: rest else rest, []) := by
  rw [xmodemSend_of_body (by simp [cAck, cCan]) (by rw [hstate]; decide), sendBody, hstate]
  change s.sendEotAck false (cAck :: rest) [] = _
  unfold sendEotAck
  dsimp only
  rw [if_neg (by simp), if_neg hfile, if_pos (by rw [hflavor]; rfl)]

/-- ACK and first byte together: block 0 of the next file goes out. -/
theorem xmodem_next (hstate : s.state = .eotAck) (hfile : s.file ≠ none) (hflavor : s.flavor = .yNormal)
    (hbegins : s.nextFile.Begins files) :
    s.xmodem false [cAck, 67] [] = .ok (s.nextFile.headed, s.nextFile.headed.currentBlock) := by
  have hnext : s.xmodemSend false [cAck, 67] [] = .ok (s.nextFile, [67], []) :=
    xmodemSend_eotAck hstate hfile hflavor
  rw [xmodem, if_neg (by rw [hstate]; decide), sendAll, hnext]
  change sendAll false 2 s.nextFile [67] [] = _
  rw [sendAll, xmodemSend_first hbegins]

/-- The ACK alone: the sender is back at its start. -/
theorem xmodem_next_ack (hstate : s.state = .eotAck) (hfile : s.file ≠ none)
    (hflavor : s.flavor = .yNormal) (hbegins : s.nextFile.Begins files) :
    s.xmodem false [cAck] [] = .ok (s.nextFile, []) := by
  have hnext : s.xmodemSend false [cAck] [] = .ok (s.nextFile, [cAck], []) :=
    xmodemSend_eotAck hstate hfile hflavor
  have hinit : s.nextFile.sendInit false [cAck] [] = .fall s.nextFile [cAck] := by
    unfold sendInit
    rw [hbegins.flavor_eq, hbegins.byte_eq]
    rfl
  have hsecond : s.nextFile.xmodemSend false [cAck] [] = .ok (s.nextFile, [], []) := by
    rw [xmodemSend, if_neg (by decide), if_pos hbegins.state_eq, hinit]
    rfl
  rw [xmodem, if_neg (by rw [hstate]; decide), sendAll, hnext]
  change sendAll false 2 s.nextFile [cAck] [] = _
  rw [sendAll, hsecond]

/-- A block 0 carries its fields and zeros. -/
theorem blockZero_eq_layout (number : UInt8) {body : List UInt8} (hbody : body.length ≤ 1024) :
    ∃ header zeros, Fits header (body ++ zeros) ∧ zeros = List.replicate zeros.length 0 ∧
      blockZero number body = layout header number (body ++ zeros) (crcBytes (body ++ zeros)) := by
  rw [blockZero]
  split
  · next hlong =>
    refine ⟨cStx, List.replicate (1024 - body.length) 0, .inr ⟨rfl, ?_⟩, by simp, ?_⟩
    · rw [List.length_append, List.length_replicate]
      omega
    · rw [takeD_eq_append body hbody]
  · next hshort =>
    refine ⟨cSoh, List.replicate (128 - body.length) 0, .inl ⟨rfl, ?_⟩, by simp, ?_⟩
    · rw [List.length_append, List.length_replicate]
      omega
    · rw [takeD_eq_append body (by omega)]

end Sender
/-! ### The batch -/

/-- The next call of the sender is that of `s` on a first byte. -/
structure AtBegin (path : List UInt8) (directory : List (List UInt8 × List UInt8 × UInt64))
    (files : List FileInfo) (s : Sender) (c : Line) : Prop where
  begins : s.Begins files
  ready : c.receiver.Begins path directory
  send : c.sender.xmodem false (c.toSender.headD []) [] = .ok (s.headed, s.headed.currentBlock)
  toSender : c.toSender.tail = []
  toReceiver : c.toReceiver = []

/-- The receiver has been called for the last time. -/
def Stuck (h : Host) (apart : ℕ → Bool) (c : Line) : Prop :=
  WaitsFor (Line.call h apart) false c ∧ ∀ t, Line.call h apart t false c = none

structure Done (directory : List (List UInt8 × List UInt8 × UInt64)) (c : Line) : Prop where
  toSender : c.toSender = []
  toReceiver : c.toReceiver = []
  sender_eq : c.sender.state = .complete
  plain : c.sender.flavor.isG = false
  receiver_eq : c.receiver.state = .complete
  directory_eq : c.receiver.directory = directory

section Batch
variable {h : Host} {apart : ℕ → Bool} {path : List UInt8}
  {directory : List (List UInt8 × List UInt8 × UInt64)} {files : List FileInfo} {entry : FileInfo}
  {s : Sender} {c : Line} {goal : Line → Prop}

/-- Block 0 is under way to the receiver. -/
theorem leads_of_begin (hexpired : h.expired = false) (hc : AtBegin path directory files s c)
    (hnext : Leads (Line.call h apart) goal ⟨s.headed, c.receiver, [], [s.headed.currentBlock]⟩) :
    Leads (Line.call h apart) goal c := by
  have hne : s.headed.currentBlock ≠ [] := by
    change blockZero _ _ ≠ []
    rw [blockZero]
    split <;> exact List.cons_ne_nil _ _
  refine .turn true (fun _ => ⟨s.headed, c.receiver, [], [s.headed.currentBlock]⟩)
    (Line.waitsFor_sender hexpired hc.toReceiver (.inl hc.ready.state_eq)) (fun t => ?_) fun _ => hnext
  exact (Line.callSender_eq hc.send).trans
    (by rw [Line.messages_of_ne_nil hne, hc.toSender, hc.toReceiver]; rfl)

/-- The body of block 0 for the files that are left. -/
theorem headed_currentBlock (hs : s.Begins files) :
    s.headed.currentBlock = blockZero 0 (match files with
      | [] => []
      | entry :: _ => blockZeroFields (basename entry.name) entry) := by
  change blockZero s.currentBlockSequenceI (s.setState .ymodemBlock0).blockZeroBody = _
  have hlist : (s.setState .ymodemBlock0).uploadFileList = files := hs.list_eq
  have hname : (s.setState .ymodemBlock0).filename = s.filename := rfl
  rw [hs.sequence_eq, blockZeroBody, hlist, hname, hs.name_eq]
  cases files <;> rfl

theorem length_blockZeroFields (hname : Receiver.Names (basename entry.name) entry) :
    (blockZeroFields (basename entry.name) entry).length ≤ 1024 := by
  have hsize := hname.size
  have hlength : (numeral 10 entry.content.length).length ≤ 10 :=
    length_numeral_le (by omega) (by omega) (by omega)
  have htime : (numeral 8 entry.mtime.toNat).length ≤ 22 :=
    length_numeral_le (by omega) (by omega) (entry.mtime.toNat_lt.trans (by norm_num))
  have hshort := hname.short
  simp only [blockZeroFields, List.length_append, List.length_cons, List.length_nil]
  omega

/-- With a path that fits, the file goes through to its EOT. -/
theorem leads_eot_of_begin (hexpired : h.expired = false) (hopens : ∀ path, h.opens path = true)
    (hc : AtBegin path directory (entry :: files) s c)
    (hname : Receiver.Names (basename entry.name) entry)
    (hpath : (fullFilename path (basename entry.name)).length < filenameSize)
    (hnext : ∀ c' r, r.Opened path directory (basename entry.name) entry →
      AtEot .yNormal (image .yNormal entry.content) (s.headed.setState .block) r c' →
      Leads (Line.call h apart) goal c') :
    Leads (Line.call h apart) goal c := by
  obtain ⟨header, zeros, hfits, -, hlayout⟩ := blockZero_eq_layout 0 (length_blockZeroFields hname)
  have hblock := headed_currentBlock hc.begins
  dsimp only at hblock
  obtain ⟨rest, hdrop⟩ : ∃ rest,
      s.headed.currentBlock.drop 3 = blockZeroFields (basename entry.name) entry ++ rest := by
    rw [hblock, hlayout]
    exact ⟨_, Receiver.drop_layout _ rfl⟩
  have hopened := hc.ready.headed hdrop hname
  have hreceive := Receiver.xmodem_headed hc.ready hfits rfl hname hpath h hopens
  rw [← hlayout, ← hblock] at hreceive
  obtain ⟨r, hr⟩ : ∃ r, r = c.receiver.headed s.headed.currentBlock := ⟨_, rfl⟩
  rw [← hr] at hreceive
  have hready : r.Ready .yNormal 1 [] ∧ r.Opened path directory (basename entry.name) entry := by
    rw [hr]
    exact hopened
  have hfirst : (s.headed.setState .block).Ready .yNormal 1 entry.content := by
    refine ⟨hc.begins.flavor_eq, rfl, ?_, ?_⟩
    · change s.currentBlockSequenceI + 1 = 1
      rw [hc.begins.sequence_eq]
      rfl
    · change s.file = some entry.content
      rw [hc.begins.file_eq]
      rfl
  have hstate : s.headed.state = .ymodemBlock0Ack1 := rfl
  have hflavor : s.headed.flavor = .yNormal := hc.begins.flavor_eq
  have hfilename : s.headed.filename ≠ none := by
    change s.filename ≠ none
    rw [hc.begins.name_eq]
    exact Option.some_ne_none _
  have hbyte : s.headed.firstByte = 67 := hc.begins.byte_eq
  have hblocks {c' : Line} (hreceiver : c'.receiver = r)
      (hack : c'.sender.xmodem false (c'.toSender.headD []) [] = (s.headed.setState .block).xmodem false [cAck] [])
      (hto : c'.toSender.tail = []) (hto' : c'.toReceiver = []) : Leads (Line.call h apart) goal c' := by
    have hleads : Leads (Line.call h apart)
        (AtEot .yNormal ([] ++ image .yNormal entry.content) (s.headed.setState .block) c'.receiver) c' :=
      leads_atEot hexpired (rfl : Flavor.yNormal.isG = false) entry.content hfirst
        (by rw [hreceiver]; exact hready.1) (fun _ => by rw [hreceiver]; exact hready.2.seen_eq)
        hack hto hto'
    rw [hreceiver] at hleads
    exact hleads.trans fun c'' hc'' => hnext c'' r hready.2 hc''
  refine leads_of_begin hexpired hc ?_
  refine .turn false (fun t => ⟨s.headed, r, Line.messages (apart t) [cAck, 67], []⟩)
    (Line.waitsFor_receiver rfl (.ack1 hstate) (by rw [hflavor]; rfl)) (fun t => ?_) fun t => ?_
  · exact Line.callReceiver_eq (c := ⟨s.headed, c.receiver, [], [s.headed.currentBlock]⟩) hreceive
  cases apart t with
  | false => exact hblocks rfl (Sender.xmodem_together hstate hflavor hfilename hbyte) rfl rfl
  | true =>
    refine .turn true (fun _ => ⟨s.headed.setState .ymodemBlock0Ack2, r, [[67]], []⟩)
      (Line.waitsFor_sender hexpired rfl (.inl (hready.1.state_eq.resolve_right ?_))) (fun _ => ?_) fun _ => ?_
    · rw [hr]
      change c.receiver.state ≠ .firstBlock
      rw [hc.ready.state_eq]
      decide
    · exact Line.callSender_eq (c := ⟨s.headed, r, [[cAck], [67]], []⟩)
        (Sender.xmodem_ack1 hstate hflavor hfilename hbyte)
    · exact hblocks rfl (Sender.xmodem_ack2 rfl hbyte) rfl rfl

/-- The EOT of a file: the receiver closes it, and the next begins. -/
theorem leads_next_of_eot (hexpired : h.expired = false) {r : Receiver}
    (hname : Receiver.Names (basename entry.name) entry)
    (hpath : (fullFilename path (basename entry.name)).length < filenameSize)
    (ho : r.Opened path directory (basename entry.name) entry)
    (hs : s.flavor = .yNormal ∧ s.firstByte = 67 ∧ s.uploadFileList.tail = files)
    (hc : AtEot .yNormal (image .yNormal entry.content) s r c)
    (hnext : ∀ c' s', AtBegin path (Receiver.put directory (basename entry.name) entry) files s' c' →
      Leads (Line.call h apart) goal c') :
    Leads (Line.call h apart) goal c := by
  obtain ⟨number, hready⟩ := hc.ready
  have hkept := hc.receiver_kept
  have hopened : c.receiver.Opened path directory (basename entry.name) entry :=
    ⟨hkept.firstByte.trans ho.byte_eq, hkept.filename.trans ho.name_eq, hkept.downloadPath.trans ho.path_eq,
      hkept.downloadFileModtime.trans ho.time_eq, by rw [hkept.bytesTotal, ho.total_eq],
      hkept.block0HasBeenSeen.trans ho.seen_eq, hkept.directory.trans ho.directory_eq⟩
  obtain ⟨r', hreceive, hr'⟩ := Receiver.xmodem_eot_ymodem hready hopened hname.size hpath h
  have hflavor : c.sender.flavor = .yNormal := hc.sender_kept.flavor.trans hs.1
  have hbegins : c.sender.nextFile.Begins files :=
    Sender.nextFile_begins hflavor (hc.sender_kept.firstByte.trans hs.2.1)
      (by rw [hc.sender_kept.uploadFileList, hs.2.2])
  refine .turn false (fun t => ⟨c.sender, r', Line.messages (apart t) [cAck, 67], []⟩)
    (Line.waitsFor_receiver hc.toSender (.eotAck hc.state_eq) (by rw [hflavor]; rfl)) (fun t => ?_) fun t => ?_
  · have hcall : c.receiver.xmodem h (c.toReceiver.headD []) [] = .ok (r', [cAck, 67]) := by
      rw [hc.toReceiver]
      exact hreceive
    exact (Line.callReceiver_eq hcall).trans (by rw [hc.toSender, hc.toReceiver]; rfl)
  cases apart t with
  | false =>
    exact hnext _ c.sender.nextFile ⟨hbegins, hr', Sender.xmodem_next hc.state_eq hc.file_ne hflavor hbegins,
      rfl, rfl⟩
  | true =>
    refine .turn true (fun _ => ⟨c.sender.nextFile, r', [[67]], []⟩)
      (Line.waitsFor_sender hexpired rfl (.inl hr'.state_eq)) (fun _ => ?_) fun _ => ?_
    · exact Line.callSender_eq (c := ⟨c.sender, r', [[cAck], [67]], []⟩)
        (Sender.xmodem_next_ack hc.state_eq hc.file_ne hflavor hbegins)
    · exact hnext _ c.sender.nextFile ⟨hbegins, hr', Sender.xmodem_blockZero hbegins, rfl, rfl⟩

/-- The terminator block ends the batch. -/
theorem leads_done (hexpired : h.expired = false) (hc : AtBegin path directory [] s c) :
    Leads (Line.call h apart) (Done directory) c := by
  obtain ⟨header, zeros, hfits, hzeros, hlayout⟩ := blockZero_eq_layout 0 (show ([] : List UInt8).length ≤ 1024 by simp)
  have hblock := headed_currentBlock hc.begins
  dsimp only at hblock
  have hreceive := Receiver.xmodem_ended hc.ready hfits hzeros h
  rw [← hlayout, ← hblock] at hreceive
  have hflavor : s.headed.flavor = .yNormal := hc.begins.flavor_eq
  have hfilename : s.headed.filename = none := hc.begins.name_eq
  refine leads_of_begin hexpired hc ?_
  refine .turn false (fun _ => ⟨s.headed, c.receiver.ended s.headed.currentBlock, [[cAck]], []⟩)
    (Line.waitsFor_receiver rfl (.ack1 rfl) (by rw [hflavor]; rfl)) (fun t => ?_) fun _ => ?_
  · exact (Line.callReceiver_eq (c := ⟨s.headed, c.receiver, [], [s.headed.currentBlock]⟩) hreceive).trans
      (by rw [Line.messages_singleton]; rfl)
  · refine .turn true (fun _ => ⟨s.headed.setState .complete, c.receiver.ended s.headed.currentBlock, [], []⟩)
      (Line.waitsFor_sender hexpired rfl (.inr (.inr rfl))) (fun _ => ?_) fun _ => .here ?_
    · exact Line.callSender_eq (c := ⟨s.headed, c.receiver.ended s.headed.currentBlock, [[cAck]], []⟩)
        (Sender.xmodem_done rfl hflavor hfilename)
    · exact ⟨rfl, rfl, rfl, by change s.headed.flavor.isG = false; rw [hflavor]; rfl, rfl,
        hc.ready.directory_eq⟩

/-- The directory with the files of a batch put into it. -/
def putAll (directory : List (List UInt8 × List UInt8 × UInt64)) (files : List FileInfo) :
    List (List UInt8 × List UInt8 × UInt64) :=
  files.foldl (fun d entry => Receiver.put d (basename entry.name) entry) directory

theorem headed_tail (hs : s.Begins (entry :: files)) :
    (s.headed.setState .block).flavor = .yNormal ∧ (s.headed.setState .block).firstByte = 67 ∧
      (s.headed.setState .block).uploadFileList.tail = files := by
  refine ⟨hs.flavor_eq, hs.byte_eq, ?_⟩
  change s.uploadFileList.tail = files
  rw [hs.list_eq]
  rfl

/-- A batch whose paths all fit comes to its end. -/
theorem leads_batch (hexpired : h.expired = false) (hopens : ∀ path, h.opens path = true)
    (files : List FileInfo) (hnames : ∀ entry ∈ files, Receiver.Names (basename entry.name) entry)
    (hpaths : ∀ entry ∈ files, (fullFilename path (basename entry.name)).length < filenameSize)
    (hc : AtBegin path directory files s c) :
    Leads (Line.call h apart) (Done (putAll directory files)) c := by
  induction files generalizing directory s c with
  | nil => exact leads_done hexpired hc
  | cons entry files ih =>
    have hname := hnames entry List.mem_cons_self
    have hpath := hpaths entry List.mem_cons_self
    refine leads_eot_of_begin hexpired hopens hc hname hpath fun c' r ho heot => ?_
    refine leads_next_of_eot hexpired hname hpath ho (headed_tail hc.begins) heot fun c'' s'' hbegin => ?_
    exact ih (fun e he => hnames e (List.mem_cons_of_mem _ he))
      (fun e he => hpaths e (List.mem_cons_of_mem _ he)) hbegin

/-- The first path that does not fit stops the receiver. -/
theorem leads_stuck (hexpired : h.expired = false) (hopens : ∀ path, h.opens path = true)
    (files : List FileInfo) (hnames : ∀ entry ∈ files, Receiver.Names (basename entry.name) entry)
    (hpaths : ∃ entry ∈ files, filenameSize ≤ (fullFilename path (basename entry.name)).length)
    (hc : AtBegin path directory files s c) :
    Leads (Line.call h apart) (Stuck h apart) c := by
  induction files generalizing directory s c with
  | nil => exact absurd hpaths (by simp)
  | cons entry files ih =>
    have hname := hnames entry List.mem_cons_self
    by_cases hpath : (fullFilename path (basename entry.name)).length < filenameSize
    · refine leads_eot_of_begin hexpired hopens hc hname hpath fun c' r ho heot => ?_
      refine leads_next_of_eot hexpired hname hpath ho (headed_tail hc.begins) heot fun c'' s'' hbegin => ?_
      refine ih (fun e he => hnames e (List.mem_cons_of_mem _ he)) ?_ hbegin
      obtain ⟨e, he, hlong⟩ := hpaths
      rcases List.mem_cons.mp he with rfl | he
      · omega
      · exact ⟨e, he, hlong⟩
    · obtain ⟨header, zeros, hfits, -, hlayout⟩ := blockZero_eq_layout 0 (length_blockZeroFields hname)
      have hblock := headed_currentBlock hc.begins
      dsimp only at hblock
      have hreceive := Receiver.xmodem_overflow hc.ready hfits rfl hname (by omega) h hopens
      rw [← hlayout, ← hblock] at hreceive
      have hflavor : s.headed.flavor = .yNormal := hc.begins.flavor_eq
      refine leads_of_begin hexpired hc (.here ⟨?_, fun t => ?_⟩)
      · exact Line.waitsFor_receiver rfl (.ack1 rfl) (by rw [hflavor]; rfl)
      · change Line.callReceiver h (apart t) _ = none
        rw [Line.callReceiver]
        dsimp only [List.headD_cons]
        rw [hreceive]

end Batch
/-! ### What the batch leaves in the directory -/

theorem lookup_filter {β : Type*} (l : List (List UInt8 × β)) {name other : List UInt8} (h : other ≠ name) :
    (l.filter fun e => e.1 ≠ name).lookup other = l.lookup other := by
  induction l with
  | nil => rfl
  | cons e l ih =>
    obtain ⟨key, value⟩ := e
    by_cases hkey : key = name
    · have hother : (other == key) = false := by
        rw [hkey]
        exact beq_false_of_ne h
      rw [List.filter_cons_of_neg (by simp [hkey]), ih, List.lookup_cons, hother]
    · rw [List.filter_cons_of_pos (by simp [hkey]), List.lookup_cons, List.lookup_cons, ih]

theorem lookup_putAll_of_not_mem {files : List FileInfo} {name : List UInt8}
    (h : name ∉ files.map fun entry => basename entry.name)
    (directory : List (List UInt8 × List UInt8 × UInt64)) :
    (putAll directory files).lookup name = directory.lookup name := by
  induction files generalizing directory with
  | nil => rfl
  | cons entry files ih =>
    rw [List.map_cons, List.mem_cons, not_or] at h
    rw [putAll, List.foldl_cons, ← putAll, ih h.2, Receiver.put, List.lookup_cons,
      beq_false_of_ne h.1]
    exact lookup_filter directory h.1

theorem lookup_putAll_of_mem {files : List FileInfo} {entry : FileInfo} (hentry : entry ∈ files)
    (hnodup : (files.map fun entry => basename entry.name).Nodup)
    (directory : List (List UInt8 × List UInt8 × UInt64)) :
    (putAll directory files).lookup (basename entry.name) = some (entry.content, entry.mtime) := by
  induction files generalizing directory with
  | nil => cases hentry
  | cons head files ih =>
    rw [List.map_cons, List.nodup_cons] at hnodup
    rw [putAll, List.foldl_cons, ← putAll]
    rcases List.mem_cons.mp hentry with rfl | hmem
    · rw [lookup_putAll_of_not_mem hnodup.1, Receiver.put, List.lookup_cons, beq_self_eq_true]
    · exact ih hmem hnodup.2 _

section Ymodem
variable (files : List FileInfo) (path : List UInt8) (s : Sender) (r : Receiver)

/-- The two parties that `ymodem_start` sets up, whatever went before. -/
def ymodemLine : Line := ⟨s.ymodemStart .yNormal files, r.ymodemStart .yNormal path, [], []⟩

/-- Both parties finish under every fair schedule, whichever answers arrive byte by byte, and the
directory has gained the files of the batch and nothing else. -/
def BatchDelivered (h : Host) : Prop :=
  ∀ turn apart, Fair turn → ∃ n c,
    (∀ k, n ≤ k → run (Line.call h apart) turn (ymodemLine files path s r) k = some c) ∧
    c.sender.state = .complete ∧ c.receiver.state = .complete ∧
    (∀ entry ∈ files, c.receiver.directory.lookup (basename entry.name) = some (entry.content, entry.mtime)) ∧
    ∀ name, name ∉ files.map (fun entry => basename entry.name) →
      c.receiver.directory.lookup name = r.directory.lookup name

variable {files path} {h : Host} {apart : ℕ → Bool}

theorem leads_begin {goal : Line → Prop}
    (hnext : ∀ c s', AtBegin path r.directory files s' c → Leads (Line.call h apart) goal c) :
    Leads (Line.call h apart) goal (ymodemLine files path s r) := by
  have hbegins : (s.ymodemStart .yNormal files).Begins files := by
    cases files with
    | nil => exact ⟨rfl, rfl, rfl, rfl, rfl, rfl, rfl⟩
    | cons entry files => exact ⟨rfl, rfl, rfl, rfl, rfl, rfl, rfl⟩
  have hready : (r.ymodemStart .yNormal path).receiveInit.Begins path r.directory :=
    ⟨rfl, rfl, rfl, rfl, rfl, rfl, rfl, rfl, rfl⟩
  refine .turn false (fun _ => ⟨s.ymodemStart .yNormal files,
    (r.ymodemStart .yNormal path).receiveInit, [[67]], []⟩)
    (Line.waitsFor_receiver rfl (.init rfl) rfl) (fun t => ?_) fun _ => ?_
  · exact (Line.callReceiver_eq (c := ymodemLine files path s r) (Receiver.xmodem_init h [] rfl)).trans
      (by rw [Line.messages_singleton]; rfl)
  · exact hnext _ _ ⟨hbegins, hready, Sender.xmodem_blockZero hbegins, rfl, rfl⟩

theorem batchDelivered_of_paths (hexpired : h.expired = false) (hopens : ∀ path, h.opens path = true)
    (hnodup : (files.map fun entry => basename entry.name).Nodup)
    (hnames : ∀ entry ∈ files, Receiver.Names (basename entry.name) entry)
    (hpaths : ∀ entry ∈ files, (fullFilename path (basename entry.name)).length < filenameSize) :
    BatchDelivered files path s r h := by
  intro turn apart hfair
  have hleads : Leads (Line.call h apart) (Done (putAll r.directory files)) (ymodemLine files path s r) :=
    leads_begin s r fun c s' hc => leads_batch hexpired hopens files hnames hpaths hc
  obtain ⟨n, c, -, hrun, hdone⟩ := hleads.reached hfair
    (show run (Line.call h apart) turn (ymodemLine files path s r) 0 = some _ from rfl)
  refine ⟨n, c, fun k hk => run_of_still (fun t b => ?_) hrun hk, hdone.sender_eq, hdone.receiver_eq,
    fun entry hentry => ?_, fun name hname => ?_⟩
  · cases b
    · exact Line.waitsFor_sender hexpired hdone.toReceiver (.inr (.inr hdone.receiver_eq)) t
    · exact Line.waitsFor_receiver hdone.toSender (.complete hdone.sender_eq) hdone.plain t
  · rw [hdone.directory_eq, lookup_putAll_of_mem hentry hnodup]
  · rw [hdone.directory_eq, lookup_putAll_of_not_mem hname]

theorem not_batchDelivered_of_path (hexpired : h.expired = false) (hopens : ∀ path, h.opens path = true)
    (hnames : ∀ entry ∈ files, Receiver.Names (basename entry.name) entry)
    (hpaths : ∃ entry ∈ files, filenameSize ≤ (fullFilename path (basename entry.name)).length) :
    ¬ BatchDelivered files path s r h := by
  intro hdelivered
  obtain ⟨n, c, hrun, -⟩ := hdelivered _ (fun _ => false) fair_alternate
  have hleads : Leads (Line.call h fun _ => false) (Stuck h fun _ => false) (ymodemLine files path s r) :=
    leads_begin s r fun c s' hc => leads_stuck hexpired hopens files hnames hpaths hc
  obtain ⟨m, c', -, hstuck, hwaits, hnone⟩ := hleads.reached fair_alternate
    (show run (Line.call h fun _ => false) _ (ymodemLine files path s r) 0 = some _ from rfl)
  obtain ⟨k, hk⟩ := exists_run_none fair_alternate hwaits hnone hstuck
  have hsome := hrun (max n k) (le_max_left ..)
  rw [hk (max n k) (le_max_right ..)] at hsome
  cases hsome

/-- A batch is delivered exactly when the path of each of its files fits into `full_filename`. -/
theorem batchDelivered_iff (hexpired : h.expired = false) (hopens : ∀ path, h.opens path = true)
    (hnodup : (files.map fun entry => basename entry.name).Nodup)
    (hnames : ∀ entry ∈ files, Receiver.Names (basename entry.name) entry) :
    BatchDelivered files path s r h ↔
      ∀ entry ∈ files, (fullFilename path (basename entry.name)).length < filenameSize := by
  refine ⟨fun hdelivered => by_contra fun hnot => ?_, fun hpaths =>
    batchDelivered_of_paths s r hexpired hopens hnodup hnames hpaths⟩
  push Not at hnot
  exact not_batchDelivered_of_path s r hexpired hopens hnames hnot hdelivered

end Ymodem

/-- A file with a letter in it arrives in the current directory. -/
theorem batchDelivered_letter :
    BatchDelivered [⟨[65], [66], 0⟩] [46] (Sender.fresh .yNormal) (Receiver.fresh .yNormal [])
      (perfect 0 0) :=
  (batchDelivered_iff (Sender.fresh .yNormal) (Receiver.fresh .yNormal []) rfl (fun _ => rfl)
    (by simp) (by
      intro entry hentry
      rw [List.mem_singleton] at hentry
      subst hentry
      exact ⟨by decide +kernel, by decide +kernel, by decide +kernel, by decide +kernel⟩)).mpr (by
      intro entry hentry
      rw [List.mem_singleton] at hentry
      subst hentry
      decide)

/-- An empty file with a name of 255 letters: its path takes 258 bytes with the NUL. -/
theorem not_batchDelivered_long :
    ¬ BatchDelivered [⟨List.replicate 255 65, [], 0⟩] [46] (Sender.fresh .yNormal)
      (Receiver.fresh .yNormal []) (perfect 0 0) := by
  have hbase : basename (List.replicate 255 65) = List.replicate 255 65 := by
    rw [basename, List.reverse_replicate, List.takeWhile_replicate, if_pos (by decide),
      List.reverse_replicate]
  refine not_batchDelivered_of_path _ _ rfl (fun _ => rfl) (fun entry hentry => ?_)
    ⟨_, List.mem_cons_self, ?_⟩
  · rw [List.mem_singleton] at hentry
    subst hentry
    rw [hbase]
    exact ⟨by decide, fun ch hch => by rw [List.eq_of_mem_replicate hch]; decide,
      (List.length_replicate).le, by decide⟩
  · rw [hbase, fullFilename, List.length_append, List.length_append, List.length_replicate]
    decide

end CProgram.Xmodem
