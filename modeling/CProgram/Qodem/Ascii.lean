import Mathlib.Tactic

/-! ASCII transfers: the policies for CR and LF, the translate tables, and the buffers in between. -/
namespace CProgram.Qodem.Ascii

/-- `ASCII_XFER_CRLF_POLICY`. -/
inductive Policy where
  | none | strip | add
deriving DecidableEq, Repr

/-- The text of an option that is a policy. -/
inductive PolicyText where
  | strip | add | other
deriving DecidableEq, Repr

def cCr : UInt8 := 0x0D
def cLf : UInt8 := 0x0A

/-- The settings of one direction. -/
structure Settings where
  useXlateTable : Bool
  crHandling : Policy
  lfHandling : Policy
deriving DecidableEq, Repr

/-- The statics. -/
structure Statics where
  upload : Settings
  download : Settings
deriving DecidableEq, Repr

/-- Before the first transfer. -/
def Statics.initial : Statics := ⟨⟨false, .none, .none⟩, ⟨false, .none, .none⟩⟩

/-- The options of one direction; a table is used if its option is `true`. -/
structure Choice where
  useTranslateTable : Bool
  crPolicy : PolicyText
  lfPolicy : PolicyText
deriving DecidableEq, Repr

structure Options where
  upload : Choice
  download : Choice
deriving DecidableEq, Repr

/-- A policy is set where the option says so. -/
def Policy.pull (old : Policy) : PolicyText → Policy
  | .strip => .strip
  | .add => .add
  | .other => old

def Settings.pull (s : Settings) (c : Choice) : Settings where
  useXlateTable := if c.useTranslateTable then true else s.useXlateTable
  crHandling := s.crHandling.pull c.crPolicy
  lfHandling := s.lfHandling.pull c.lfPolicy

/-- The options that `ascii_transfer_start` pulls. -/
def asciiTransferStart (s : Statics) (o : Options) : Statics := ⟨s.upload.pull o.upload, s.download.pull o.download⟩

/-- What is in the statics when a transfer begins. -/
def settings (earlier : List Options) (now : Options) : Statics :=
  asciiTransferStart (earlier.foldl asciiTransferStart .initial) now

/-- What the options of one direction mean. -/
def Choice.meant (c : Choice) : Settings := Settings.pull ⟨false, .none, .none⟩ c

/-- The loop of `ascii_transfer_crlf_handling`. -/
def crlfLoop (cr lf : Policy) : List UInt8 → List UInt8
  | [] => []
  | ch :: input =>
    if ch = cCr ∧ cr = .strip then crlfLoop cr lf input
    else if ch = cCr ∧ cr = .add then ch :: cLf :: crlfLoop cr lf input
    else if ch = cLf ∧ lf = .strip then crlfLoop cr lf input
    else if ch = cLf ∧ lf = .add then cCr :: ch :: crlfLoop cr lf input
    else ch :: crlfLoop cr lf input

def asciiTransferCrlfHandling (cr lf : Policy) (input : List UInt8) : List UInt8 :=
  if cr = .none ∧ lf = .none then input else crlfLoop cr lf input

/-- `Q_BUFFER_SIZE`. -/
def bufferSize : ℕ := 4096

/-- An upload: what has not been read, what is in the output, what the line has taken, and whether the transfer is
over. -/
structure Upload where
  file : List UInt8
  output : List UInt8
  sent : List UInt8
  ended : Bool
deriving DecidableEq, Repr

/-- The sending side of `ascii_transfer`; nothing comes back where a buffer is overrun. -/
def sendSome (s : Settings) (out : UInt8 → UInt8) (outputMax : ℕ) (u : Upload) : Option Upload :=
  if u.ended then some u
  else if outputMax - u.output.length < bufferSize then some u
  else
    let working := u.file.take (outputMax / 2 - 1)
    let output := asciiTransferCrlfHandling s.crHandling s.lfHandling working
    if 2 * bufferSize < working.length ∨ outputMax < output.length then none
    else some {
      file := u.file.drop (outputMax / 2 - 1)
      output := if s.useXlateTable then output.map out else output
      sent := u.sent
      ended := decide (working.length < outputMax / 2 - 1) }

/-- One round of the transfer loop of `process_incoming_data`: what is new in the output is translated. -/
def round (s : Settings) (out : UInt8 → UInt8) (u : Upload) : Option Upload := do
  let v ← sendSome s out bufferSize u
  some { v with output := v.output.take u.output.length ++ (v.output.drop u.output.length).map out }

/-- The transfer loop, until the output does not grow any more. -/
def loop (s : Settings) (out : UInt8 → UInt8) : ℕ → Upload → Option Upload
  | 0, _ => none
  | fuel + 1, u => do
    let v ← round s out u
    if u.output.length = v.output.length then some v else loop s out fuel v

/-- `process_incoming_data`; two rounds are enough. -/
def processIncomingData (s : Settings) (out : UInt8 → UInt8) (u : Upload) : Option Upload := loop s out 2 u

/-- The line takes so many bytes of the output. -/
def Upload.write (n : ℕ) (u : Upload) : Upload :=
  { u with sent := u.sent ++ u.output.take n, output := u.output.drop n }

/-- What happens during an upload. -/
inductive Step where
  | process
  | write (n : ℕ)
deriving DecidableEq, Repr

def uploadRun (s : Settings) (out : UInt8 → UInt8) : List Step → Upload → Option Upload
  | [], u => some u
  | .process :: steps, u => do uploadRun s out steps (← processIncomingData s out u)
  | .write n :: steps, u => uploadRun s out steps (u.write n)

/-- An upload begins. -/
def Upload.begin (file : List UInt8) : Upload := ⟨file, [], [], false⟩

/-- The image of a byte under the policies. -/
def Settings.image (s : Settings) (ch : UInt8) : List UInt8 :=
  if ch = cCr then
    match s.crHandling with
    | .none => [cCr]
    | .strip => []
    | .add => [cCr, cLf]
  else if ch = cLf then
    match s.lfHandling with
    | .none => [cLf]
    | .strip => []
    | .add => [cCr, cLf]
  else [ch]

/-- The table is used if it is selected. -/
def Settings.translate (s : Settings) (table : UInt8 → UInt8) (ch : UInt8) : UInt8 :=
  if s.useXlateTable then table ch else ch

/-- An upload is the image of the file under the policies, and then under the table. -/
def Settings.uploaded (s : Settings) (out : UInt8 → UInt8) (file : List UInt8) : List UInt8 :=
  (file.flatMap s.image).map (s.translate out)

/-- A download is the image of what is received under the table, and then under the policies. -/
def Settings.downloaded (s : Settings) (inTable : UInt8 → UInt8) (received : List UInt8) : List UInt8 :=
  (received.map (s.translate inTable)).flatMap s.image

/-- The settings left by earlier transfers agree with the options, and neither a second translation of what is sent nor
a table that is still selected for what is received makes a difference. -/
structure Agrees (earlier : List Options) (now : Options) (inTable out : UInt8 → UInt8) : Prop where
  cr : (settings earlier now).upload.crHandling = now.upload.meant.crHandling
  lf : (settings earlier now).upload.lfHandling = now.upload.meant.lfHandling
  out : ∀ ch, ∀ sent ∈ now.upload.meant.image ch,
    out ((settings earlier now).upload.translate out sent) = now.upload.meant.translate out sent
  download : ∀ ch, (settings earlier now).download.image ((settings earlier now).download.translate inTable ch) =
    now.download.meant.image (now.download.meant.translate inTable ch)

variable {s : Settings} {out inTable : UInt8 → UInt8} {u : Upload} {file input written : List UInt8} {ch : UInt8}

/-! ### The policies -/

theorem crlfLoop_eq : crlfLoop s.crHandling s.lfHandling input = input.flatMap s.image := by
  induction input with
  | nil => rfl
  | cons ch input ih =>
    rw [crlfLoop, ih, List.flatMap_cons, Settings.image]
    have hne : cLf ≠ cCr := by decide
    by_cases hcr : ch = cCr
    · subst hcr
      cases s.crHandling <;> simp [hne.symm]
    · by_cases hlf : ch = cLf
      · subst hlf
        cases s.lfHandling <;> simp [hne]
      · simp [hcr, hlf]

theorem asciiTransferCrlfHandling_eq :
    asciiTransferCrlfHandling s.crHandling s.lfHandling input = input.flatMap s.image := by
  unfold asciiTransferCrlfHandling
  split_ifs with hnone
  · rw [← crlfLoop_eq, hnone.1, hnone.2]
    induction input with
    | nil => rfl
    | cons ch input ih => simp [crlfLoop, ← ih]
  · exact crlfLoop_eq

theorem length_image : (s.image ch).length ≤ 2 := by
  unfold Settings.image
  split_ifs
  · cases s.crHandling <;> decide
  · cases s.lfHandling <;> decide
  · exact Nat.le_succ 1

theorem length_flatMap_image : (input.flatMap s.image).length ≤ 2 * input.length := by
  induction input with
  | nil => simp
  | cons ch input ih =>
    have hch := @length_image s ch
    rw [List.flatMap_cons, List.length_append, List.length_cons]
    omega

/-! ### Uploads -/

/-- What the line gets for the rest of the file. -/
def transmitted (s : Settings) (out : UInt8 → UInt8) (file : List UInt8) : List UInt8 :=
  (file.flatMap s.image).map fun ch => out (s.translate out ch)

theorem transmitted_append {rest : List UInt8} :
    transmitted s out (file ++ rest) = transmitted s out file ++ transmitted s out rest := by
  simp [transmitted]

/-- What holds during an upload of `file`. -/
structure Upload.Sound (s : Settings) (out : UInt8 → UInt8) (file : List UInt8) (u : Upload) : Prop where
  total : u.sent ++ u.output ++ transmitted s out u.file = transmitted s out file
  ended : u.ended = true → u.file = []

/-- Nothing is read while there is output, or behind the end of the file. -/
theorem round_idle (h : u.ended = true ∨ u.output ≠ []) : round s out u = some u := by
  have hsend : sendSome s out bufferSize u = some u := by
    unfold sendSome
    rcases h with hended | houtput
    · rw [if_pos hended]
    · have hlength := List.length_pos_iff.mpr houtput
      rw [if_pos (show bufferSize - u.output.length < bufferSize by unfold bufferSize; omega)]
      split_ifs <;> rfl
  rw [round, hsend]
  change some { u with output := u.output.take _ ++ (u.output.drop _).map out } = some u
  rw [List.take_length, List.drop_length, List.map_nil, List.append_nil]

/-- A piece of the file is read, and put into the empty output. -/
theorem round_reads (hended : u.ended = false) (houtput : u.output = []) : round s out u = some {
    file := u.file.drop 2047
    output := transmitted s out (u.file.take 2047)
    sent := u.sent
    ended := decide (u.file.length < 2047) } := by
  have hin : (u.file.take 2047).length ≤ 2047 := List.length_take_le _ _
  have himage : ((u.file.take 2047).flatMap s.image).length ≤ 4096 := by
    have := @length_flatMap_image s (u.file.take 2047)
    omega
  have hsend : sendSome s out bufferSize u = some {
      file := u.file.drop 2047
      output := ((u.file.take 2047).flatMap s.image).map (s.translate out)
      sent := u.sent
      ended := decide (u.file.length < 2047) } := by
    have hroom : ¬ bufferSize - u.output.length < bufferSize := by rw [houtput]; decide
    have hfits : ¬ (2 * bufferSize < (u.file.take 2047).length ∨
        bufferSize < ((u.file.take 2047).flatMap s.image).length) := by
      unfold bufferSize
      omega
    have hsize : bufferSize / 2 - 1 = 2047 := by decide
    unfold sendSome
    rw [if_neg (by simp [hended]), if_neg hroom]
    dsimp only
    rw [hsize, asciiTransferCrlfHandling_eq, if_neg hfits]
    have htranslate : (if s.useXlateTable = true then ((u.file.take 2047).flatMap s.image).map out
        else (u.file.take 2047).flatMap s.image) = ((u.file.take 2047).flatMap s.image).map (s.translate out) := by
      unfold Settings.translate
      split_ifs <;> simp
    have hlast : ((u.file.take 2047).length < 2047) = (u.file.length < 2047) := by
      rw [List.length_take]
      exact propext (by omega)
    simp only [htranslate, hlast]
  rw [round, hsend]
  simp [houtput, transmitted, Function.comp_def]

/-- `process_incoming_data` reads a piece of the file where it can. -/
theorem processIncomingData_eq : processIncomingData s out u =
    some (if u.ended = true ∨ u.output ≠ [] then u else {
      file := u.file.drop 2047
      output := transmitted s out (u.file.take 2047)
      sent := u.sent
      ended := decide (u.file.length < 2047) }) := by
  unfold processIncomingData
  by_cases hidle : u.ended = true ∨ u.output ≠ []
  · rw [if_pos hidle, loop, round_idle hidle]
    simp
  · rw [if_neg hidle]
    have hended : u.ended = false := Bool.eq_false_iff.mpr fun h => hidle (.inl h)
    have houtput : u.output = [] := not_not.mp fun h => hidle (.inr h)
    rw [loop, round_reads hended houtput, houtput]
    by_cases hnone : transmitted s out (u.file.take 2047) = []
    · simp [hnone]
    · -- the second round finds the output of the first
      have hagain : ([] : List UInt8).length ≠ (transmitted s out (u.file.take 2047)).length := by
        rw [List.length_nil]
        exact (List.length_pos_iff.mpr hnone).ne
      change (if _ then _ else loop s out 1 _) = _
      rw [if_neg hagain, loop, round_idle (.inr hnone)]
      simp

theorem Upload.Sound.process (hu : u.Sound s out file) :
    ∃ v, processIncomingData s out u = some v ∧ v.Sound s out file := by
  refine ⟨_, processIncomingData_eq, ?_⟩
  split_ifs with hidle
  · exact hu
  · have houtput : u.output = [] := not_not.mp fun h => hidle (.inr h)
    have htotal := hu.total
    refine ⟨?_, fun hended => List.drop_eq_nil_of_le (of_decide_eq_true hended).le⟩
    rw [houtput, List.append_nil] at htotal
    rw [List.append_assoc, ← transmitted_append, List.take_append_drop]
    exact htotal

theorem Upload.Sound.write (hu : u.Sound s out file) (n : ℕ) : (u.write n).Sound s out file := by
  refine ⟨?_, hu.ended⟩
  change u.sent ++ u.output.take n ++ u.output.drop n ++ _ = _
  rw [List.append_assoc u.sent, List.take_append_drop]
  exact hu.total

theorem Upload.Sound.run (steps : List Step) (hu : u.Sound s out file) :
    ∃ v, uploadRun s out steps u = some v ∧ v.Sound s out file := by
  induction steps generalizing u with
  | nil => exact ⟨u, rfl, hu⟩
  | cons step steps ih =>
    cases step with
    | process =>
      obtain ⟨v, hv, hsound⟩ := hu.process
      rw [uploadRun, hv]
      exact ih hsound
    | write n => exact ih (hu.write n)

theorem Upload.Sound.begin : (Upload.begin file).Sound s out file := ⟨rfl, nofun⟩

variable {earlier : List Options} {now : Options}

end CProgram.Qodem.Ascii
