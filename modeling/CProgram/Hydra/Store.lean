import CProgram.Hydra.Options
import CProgram.Lib.Lines

/-! The files that are received: the directory, the log of partial files, and what `xfer_init`,
`xfer_okay` and `xfer_bad` do with them. -/
namespace CProgram.Hydra
open Bytes Lines Numerals

/-- What `stat` tells of a file, with what is in it. -/
structure StoredFile where
  data : List UInt8
  mtime : Dword

/-- The files of the disk, each under its whole path name. -/
abbrev Files := List UInt8 → Option StoredFile

/-- A file as the peer describes it, and as a line of the log does. -/
structure Described where
  real : List UInt8
  fsize : Dword
  ftime : Dword
  deriving DecidableEq

structure BadLine where
  file : Described
  temp : List UInt8
  deriving DecidableEq

/-- The statics of one transfer: `xfer_pathname`, `xfer_temp`, `xfer_logged`. -/
structure XferName where
  pathname : List UInt8
  temp : List UInt8
  logged : Bool

/-- The switches of the command line. -/
structure Switches where
  noresume : Bool
  nostamp : Bool
  singleFile : List UInt8

/-- What one machine brings along: the directory, whether `rename` replaces a file that is there, the time
that `stat` tells behind `setstamp`, what stands in `bad_real` to `bad_ftime` before the first `sscanf`, and
how many names `unique_name` may try. -/
structure Site where
  download : List UInt8
  replaces : Bool
  stamped : Dword → Dword
  garbage : BadLine
  tries : ℕ

/-- `BAD-XFER.LOG` -/
def badXferLog : List UInt8 := [66, 65, 68, 45, 88, 70, 69, 82, 46, 76, 79, 71]
/-- `BAD-XFER.$$$` -/
def badXferNew : List UInt8 := [66, 65, 68, 45, 88, 70, 69, 82, 46, 36, 36, 36]
/-- `BAD-XFER.` -/
def badXfer : List UInt8 := [66, 65, 68, 45, 88, 70, 69, 82, 46]
/-- `NAMELEN` -/
def nameLen : ℕ := 13
/-- `LINELEN` -/
def lineLen : ℕ := 64

/-! `unique_name` -/

/-- The name with so much of `.000` that four characters stand from its first dot on. -/
def suffixed (pathname : List UInt8) : List UInt8 :=
  pathname ++ [46, 48, 48, 48].drop (pathname.dropWhile (· ≠ 46)).length

/-- The inner loop, on the characters from the last one back. -/
def carry : ℕ → List UInt8 → List UInt8
  | n + 1, ch :: rest =>
    let ch := if isDigit ch then ch else 48
    if ch + 1 ≤ 57 then (ch + 1) :: rest else 48 :: carry n rest
  | _, rest => rest

/-- One turn of the outer loop. -/
def bumped (pathname : List UInt8) : List UInt8 :=
  match pathname.reverse with
  | [] => []
  | ch :: rest => (if isDigit ch then carry 3 (ch :: rest) else 48 :: rest).reverse

/-- The first name that is free. When all are taken the loop does not end. -/
def firstFree (taken : List UInt8 → Bool) : ℕ → List UInt8 → Option (List UInt8)
  | 0, _ => none
  | n + 1, pathname => if taken pathname then firstFree taken n (bumped pathname) else some pathname

def uniqueName (taken : List UInt8 → Bool) (tries : ℕ) (pathname : List UInt8) : Option (List UInt8) :=
  if taken pathname then firstFree taken tries (suffixed pathname) else some pathname

/-! The log -/

/-- `fprintf(fp,"%s %s %ld %lo\n", …)` -/
def BadLine.print (r : BadLine) : List UInt8 :=
  r.file.real ++ 32 :: (r.temp ++ 32 :: (decimal r.file.fsize.toInt ++ 32 :: (numeral 8 r.file.ftime.toNat ++ [10])))

/-- `sscanf(linebuf,"%s %s %ld %lo", …)`: what is not converted stays as it was. -/
def BadLine.scan (old : BadLine) (linebuf : List UInt8) : BadLine :=
  match word linebuf with
  | ([], _) => old
  | (real, rest) =>
    match word rest with
    | ([], _) => { old with file := { old.file with real } }
    | (temp, rest) =>
      match number 10 rest with
      | none => { file := { old.file with real }, temp }
      | some (size, rest) =>
        match number 8 rest with
        | none => { file := { old.file with real, fsize := BitVec.ofInt 32 size }, temp }
        | some (time, _) => { file := ⟨real, BitVec.ofInt 32 size, BitVec.ofInt 32 time⟩, temp }

/-- The loop over the lines: each line with what the four variables hold behind it. -/
def scanLines : BadLine → List (List UInt8) → List (List UInt8 × BadLine)
  | _, [] => []
  | old, linebuf :: rest => (linebuf, old.scan linebuf) :: scanLines (old.scan linebuf) rest

variable (m : Site)

def Site.path (name : List UInt8) : List UInt8 := m.download ++ name

def fexist (d : Files) (pathname : List UInt8) : Bool := (d pathname).isSome

def Site.readLog (text : List UInt8) : List (List UInt8 × BadLine) :=
  scanLines m.garbage (fgets (lineLen - 1) [] text)

/-- The lines of `BAD-XFER.LOG`; without a log there are none. -/
def Site.logLines (d : Files) : List (List UInt8 × BadLine) :=
  match d (m.path badXferLog) with
  | none => []
  | some log => m.readLog log.data

/-! The disk -/

def Files.set (d : Files) (pathname : List UInt8) (file : Option StoredFile) : Files :=
  Function.update d pathname file

/-- `rename` -/
def Site.rename (d : Files) (old new : List UInt8) : Files :=
  match d old with
  | none => d
  | some file => if (d new).isSome ∧ m.replaces = false then d else (d.set old none).set new (some file)

/-- `setstamp` -/
def Site.setstamp (d : Files) (pathname : List UInt8) (tim : Dword) : Files :=
  match d pathname with
  | none => d
  | some file => d.set pathname (some { file with mtime := m.stamped tim })

/-- `xfer_del`; `now` is the time that new files get. -/
def Site.xferDel (d : Files) (now : Dword) (file : Described) (x : XferName) : Files :=
  let d := d.set x.pathname none
  match d (m.path badXferLog) with
  | none => d
  | some log =>
    let left := (m.readLog log.data).filter fun line => decide (line.2 ≠ ⟨file, x.temp⟩)
    let d := d.set (m.path badXferNew) (some ⟨left.flatMap Prod.fst, now⟩)
    let d := d.set (m.path badXferLog) none
    if left ≠ [] then m.rename d (m.path badXferNew) (m.path badXferLog) else d.set (m.path badXferNew) none

/-! The three calls -/

structure Store where
  files : Files
  switches : Switches
  singleDone : Bool

/-- How `xfer_init` answers, if it does. -/
inductive Answer where
  /-- `NULL` -/
  | have_
  | take (x : XferName)
  /-- `unique_name` goes round for ever. -/
  | endless

/-- `xfer_init` -/
def Site.xferInit (s : Store) (file : Described) : Answer :=
  if s.singleDone then .have_
  else if (s.files (m.path file.real)).any
      fun f => decide (file.fsize = BitVec.ofNat 32 f.data.length ∧ file.ftime = f.mtime) then .have_
  else
    match (m.logLines s.files).find? fun line =>
      decide (line.2.file = file) && fexist s.files (m.path line.2.temp) with
    | some line => .take ⟨m.path line.2.temp, line.2.temp, true⟩
    | none =>
      match uniqueName (fexist s.files) m.tries (m.path (badXfer ++ [48, 48, 48])) with
      | none => .endless
      | some pathname => .take ⟨pathname, pathname.drop m.download.length, false⟩

/-- The file is opened or made, and what comes in of it is written at its end. -/
def received (d : Files) (now : Dword) (source : List UInt8) (count : ℕ) (x : XferName) : Files :=
  let old := ((d x.pathname).map StoredFile.data).getD []
  d.set x.pathname (some ⟨old ++ (source.drop old.length).take count, now⟩)

/-- `.PKT` and `.REQ` -/
def noRecovery (real : List UInt8) : Bool :=
  let last := real.drop (real.length - 4)
  decide (4 < real.length) && (decide (last = [46, 80, 75, 84]) || decide (last = [46, 82, 69, 81]))

/-- `xfer_bad`: whether the file can be resumed, and the disk. -/
def Site.xferBad (d : Files) (sw : Switches) (now : Dword) (file : Described) (x : XferName) : Bool × Files :=
  if x.logged then (true, d)
  else if noRecovery file.real then (false, m.xferDel d now file x)
  else if sw.noresume ∨ (d x.pathname).all (fun f => decide ((BitVec.ofNat 32 f.data.length).toInt < 1024)) then
    (false, m.xferDel d now file x)
  else
    let log := ((d (m.path badXferLog)).map StoredFile.data).getD []
    (true, d.set (m.path badXferLog) (some ⟨log ++ BadLine.print ⟨file, x.temp⟩, now⟩))

/-- The name for a complete file. -/
def Site.newPathname (d : Files) (sw : Switches) (file : Described) : Option (List UInt8) :=
  if sw.singleFile ≠ [] then some (m.path sw.singleFile)
  else uniqueName (fexist d) m.tries (m.path file.real)

/-- `xfer_okay`: the name if it is another one, and the disk. -/
def Site.xferOkay (d : Files) (sw : Switches) (now : Dword) (file : Described) (x : XferName) :
    Option (Option (List UInt8) × Files) :=
  (m.newPathname d sw file).map fun pathname =>
    let d := m.rename d x.pathname pathname
    let d := if sw.nostamp = false ∧ file.ftime ≠ 0 then m.setstamp d pathname file.ftime else d
    let d := if x.logged then m.xferDel d now file x else d
    let name := pathname.drop m.download.length
    (if name ≠ file.real then some name else none, d)

/-- A file that is offered, how much of it comes in, and how that ends; `%s` has read its name. -/
structure Transfer where
  file : Described
  unbroken : Unbroken file.real
  count : ℕ
  now : Dword
  okay : Bool

inductive StoreEvent where
  /-- The program starts. -/
  | start (switches : Switches)
  | transfer (t : Transfer)

/-- `contents` is what the peer has under a name, a size and a time. -/
def Site.step (contents : Described → List UInt8) (s : Store) : StoreEvent → Store
  | .start switches => { s with switches, singleDone := false }
  | .transfer t =>
    match m.xferInit s t.file with
    | .take x =>
      let d := received s.files t.now (contents t.file) t.count x
      let done := s.singleDone || decide (s.switches.singleFile ≠ [])
      if t.okay then
        match m.xferOkay d s.switches t.now t.file x with
        | some (_, d) => { s with files := d, singleDone := done }
        | none => { s with files := d }
      else { s with files := (m.xferBad d s.switches t.now t.file x).2, singleDone := done }
    | _ => s

def Site.run (contents : Described → List UInt8) (s : Store) : List StoreEvent → Store
  | [] => s
  | e :: rest => Site.run contents (m.step contents s e) rest

/-! Names -/

/-- A name that `unique_name` makes of `BAD-XFER.000`. -/
def TempName (temp : List UInt8) : Prop :=
  ∃ a b c, isDigit a = true ∧ isDigit b = true ∧ isDigit c = true ∧ temp = badXfer ++ [a, b, c]

variable {m} {taken : List UInt8 → Bool} {pathname new : List UInt8} {tries : ℕ}

theorem digit_up {ch : UInt8} (h : isDigit ch = true) (hle : ch + 1 ≤ 57) : isDigit (ch + 1) = true := by
  have hall : ∀ c : UInt8, isDigit c = true → c + 1 ≤ 57 → isDigit (c + 1) = true :=
    forall_byte (by decide +kernel)
  exact hall ch h hle

theorem carry_head (n : ℕ) (ch : UInt8) (rest : List UInt8) :
    ∃ c, isDigit c = true ∧ ∃ later, carry (n + 1) (ch :: rest) = c :: later ∧
      (later = rest ∨ later = carry n rest) := by
  have hdigit : isDigit (if isDigit ch then ch else 48) = true := by
    split
    · assumption
    · rfl
  have hturn : carry (n + 1) (ch :: rest) = if (if isDigit ch then ch else 48) + 1 ≤ 57 then
      ((if isDigit ch then ch else 48) + 1) :: rest else 48 :: carry n rest := rfl
  rw [hturn]
  generalize (if isDigit ch then ch else 48) = digit at hdigit ⊢
  split
  · next hle => exact ⟨_, digit_up hdigit hle, rest, rfl, Or.inl rfl⟩
  · exact ⟨48, rfl, carry n rest, rfl, Or.inr rfl⟩

theorem carry_digits {a b c : UInt8} (ha : isDigit a = true) (hb : isDigit b = true) (rest : List UInt8) :
    ∃ a' b' c', isDigit a' = true ∧ isDigit b' = true ∧ isDigit c' = true ∧
      carry 3 (c :: b :: a :: rest) = c' :: b' :: a' :: rest := by
  obtain ⟨c', hc', later, hcarry, hlater⟩ := carry_head 2 c (b :: a :: rest)
  obtain rfl | rfl := hlater
  · exact ⟨a, b, c', ha, hb, hc', hcarry⟩
  obtain ⟨b', hb', later, hcarry₁, hlater⟩ := carry_head 1 b (a :: rest)
  rw [hcarry₁] at hcarry
  obtain rfl | rfl := hlater
  · exact ⟨a, b', c', ha, hb', hc', hcarry⟩
  obtain ⟨a', ha', later, hcarry₀, hlater⟩ := carry_head 0 a rest
  rw [hcarry₀] at hcarry
  have hlast : later = rest := by
    obtain hsame | hsame := hlater
    · exact hsame
    · rw [hsame]
      cases rest <;> rfl
  exact ⟨a', b', c', ha', hb', hc', by rw [hcarry, hlast]⟩

theorem bumped_digits {a b c : UInt8} (ha : isDigit a = true) (hb : isDigit b = true) (hc : isDigit c = true)
    (front : List UInt8) : ∃ a' b' c', isDigit a' = true ∧ isDigit b' = true ∧ isDigit c' = true ∧
      bumped (front ++ [a, b, c]) = front ++ [a', b', c'] := by
  obtain ⟨a', b', c', ha', hb', hc', hcarry⟩ := carry_digits (c := c) ha hb front.reverse
  have hreverse : (front ++ [a, b, c]).reverse = c :: b :: a :: front.reverse := by simp
  apply Exists.intro a'
  apply Exists.intro b'
  apply Exists.intro c'
  constructor
  · exact ha'
  constructor
  · exact hb'
  constructor
  · exact hc'
  rw [bumped, hreverse]
  simp only [hc, if_true, hcarry, List.reverse_cons, List.reverse_reverse, List.append_assoc]
  rfl

theorem firstFree_digits {a b c : UInt8} {front : List UInt8} (ha : isDigit a = true) (hb : isDigit b = true)
    (hc : isDigit c = true) (h : firstFree taken tries (front ++ [a, b, c]) = some new) :
    taken new = false ∧ ∃ a' b' c', isDigit a' = true ∧ isDigit b' = true ∧ isDigit c' = true ∧
      new = front ++ [a', b', c'] := by
  induction tries generalizing a b c with
  | zero => cases h
  | succ n ih =>
    rw [firstFree] at h
    split at h
    · obtain ⟨a', b', c', ha', hb', hc', hbumped⟩ := bumped_digits ha hb hc front
      rw [hbumped] at h
      exact ih ha' hb' hc' h
    · next hfree =>
      obtain rfl := Option.some.inj h
      exact ⟨by simpa using hfree, a, b, c, ha, hb, hc, rfl⟩

theorem suffixed_of_dot {front back : List UInt8} (h : 3 ≤ back.length) :
    suffixed (front ++ 46 :: back) = front ++ 46 :: back := by
  have hdot : 4 ≤ ((front ++ 46 :: back).dropWhile (· ≠ 46)).length := by
    induction front with
    | nil =>
      rw [List.nil_append, List.dropWhile_cons_of_neg (by decide), List.length_cons]
      omega
    | cons ch front ih =>
      rw [List.cons_append, List.dropWhile_cons]
      split
      · exact ih
      · simp only [List.length_cons, List.length_append]
        omega
  rw [suffixed, List.drop_of_length_le (by simpa using hdot), List.append_nil]

/-- A new name for a partial file is free, and it is one of the thousand. -/
theorem uniqueName_temp (h : uniqueName taken tries (m.path (badXfer ++ [48, 48, 48])) = some new) :
    taken new = false ∧ ∃ temp, TempName temp ∧ new = m.path temp := by
  rw [uniqueName] at h
  split at h
  · have hshape : m.path (badXfer ++ [48, 48, 48]) =
        (m.download ++ [66, 65, 68, 45, 88, 70, 69, 82]) ++ 46 :: [48, 48, 48] := by
      rw [Site.path, badXfer, List.append_assoc]
      rfl
    have hsplit : m.path (badXfer ++ [48, 48, 48]) = (m.download ++ badXfer) ++ [48, 48, 48] := by
      rw [Site.path, List.append_assoc]
    rw [hshape, suffixed_of_dot (le_refl 3), ← hshape, hsplit] at h
    obtain ⟨hfree, a, b, c, ha, hb, hc, rfl⟩ := firstFree_digits rfl rfl rfl h
    exact ⟨hfree, badXfer ++ [a, b, c], ⟨a, b, c, ha, hb, hc, rfl⟩, by rw [Site.path, List.append_assoc]⟩
  · next hfree =>
    obtain rfl := Option.some.inj h
    exact ⟨by simpa using hfree, badXfer ++ [48, 48, 48], ⟨48, 48, 48, rfl, rfl, rfl, rfl⟩, rfl⟩

/-- The last character is a digit. -/
def EndsInDigit (pathname : List UInt8) : Prop := ∃ front ch, isDigit ch = true ∧ pathname = front ++ [ch]

theorem bumped_ends (h : pathname ≠ []) : EndsInDigit (bumped pathname) ∧ bumped pathname ≠ [] := by
  obtain ⟨ch, rest, hreverse⟩ := List.exists_cons_of_ne_nil (mt List.reverse_eq_nil_iff.mp h)
  have hends : EndsInDigit (bumped pathname) := by
    rw [bumped, hreverse]
    dsimp only
    split
    · obtain ⟨c, hc, later, hcarry, -⟩ := carry_head 2 ch rest
      exact ⟨later.reverse, c, hc, by rw [hcarry, List.reverse_cons]⟩
    · exact ⟨rest.reverse, 48, rfl, by rw [List.reverse_cons]⟩
  apply And.intro hends
  obtain ⟨front, c, -, hbumped⟩ := hends
  rw [hbumped]
  simp

theorem firstFree_ends (h : firstFree taken tries pathname = some new) (hne : pathname ≠ []) :
    taken new = false ∧ (new = pathname ∨ EndsInDigit new) := by
  induction tries generalizing pathname with
  | zero => cases h
  | succ n ih =>
    rw [firstFree] at h
    split at h
    · obtain ⟨hends, hne'⟩ := bumped_ends hne
      obtain ⟨hfree, rfl | hnew⟩ := ih h hne'
      · exact ⟨hfree, Or.inr hends⟩
      · exact ⟨hfree, Or.inr hnew⟩
    · next hfree =>
      obtain rfl := Option.some.inj h
      exact ⟨by simpa using hfree, Or.inl rfl⟩

theorem suffixed_ends (pathname : List UInt8) :
    suffixed pathname = pathname ∨ EndsInDigit (suffixed pathname) := by
  rw [suffixed]
  generalize (pathname.dropWhile (· ≠ 46)).length = n
  match n with
  | 0 => exact Or.inr ⟨pathname ++ [46, 48, 48], 48, rfl, by simp⟩
  | 1 => exact Or.inr ⟨pathname ++ [48, 48], 48, rfl, by simp⟩
  | 2 => exact Or.inr ⟨pathname ++ [48], 48, rfl, by simp⟩
  | 3 => exact Or.inr ⟨pathname, 48, rfl, by simp⟩
  | n + 4 => exact Or.inl (by simp)

/-- `unique_name` gives a free name: the one it was given, or one that ends in a digit. -/
theorem uniqueName_ends (h : uniqueName taken tries pathname = some new) :
    taken new = false ∧ (new = pathname ∨ EndsInDigit new) := by
  rw [uniqueName] at h
  split at h
  · have hne : suffixed pathname ≠ [] := by
      intro hnil
      rw [suffixed, List.append_eq_nil_iff] at hnil
      rw [hnil.1] at hnil
      cases hnil.2
    obtain ⟨hfree, hnew⟩ := firstFree_ends h hne
    obtain rfl | hends := hnew
    · exact ⟨hfree, suffixed_ends pathname⟩
    · exact ⟨hfree, Or.inr hends⟩
  · next hfree =>
    obtain rfl := Option.some.inj h
    exact ⟨by simpa using hfree, Or.inl rfl⟩

theorem not_endsInDigit (front : List UInt8) (ch : UInt8) (hch : isDigit ch = false) :
    ¬ EndsInDigit (front ++ [ch]) := by
  rintro ⟨front', c, hc, heq⟩
  obtain ⟨-, rfl⟩ := List.append_inj' heq rfl |>.imp_right List.singleton_inj.mp
  rw [hch] at hc
  cases hc

theorem unbroken_of_digit {ch : UInt8} (h : isDigit ch = true) : isSpace ch = false := by
  have hall : ∀ c : UInt8, isDigit c = true → isSpace c = false := forall_byte (by decide +kernel)
  exact hall ch h

theorem TempName.unbroken {temp : List UInt8} (h : TempName temp) : Unbroken temp := by
  obtain ⟨a, b, c, ha, hb, hc, rfl⟩ := h
  have hfront : ∀ ch ∈ badXfer, isSpace ch = false := by decide +kernel
  intro ch hch
  obtain hch | hch := List.mem_append.mp hch
  · exact hfront ch hch
  · simp only [List.mem_cons, List.not_mem_nil, or_false] at hch
    obtain rfl | rfl | rfl := hch
    · exact unbroken_of_digit ha
    · exact unbroken_of_digit hb
    · exact unbroken_of_digit hc

theorem TempName.length {temp : List UInt8} (h : TempName temp) : temp.length = 12 := by
  obtain ⟨a, b, c, -, -, -, rfl⟩ := h
  rfl

/-- A temporary file is neither the log nor its copy. -/
theorem TempName.ne_log {temp : List UInt8} (h : TempName temp) :
    m.path temp ≠ m.path badXferLog ∧ m.path temp ≠ m.path badXferNew := by
  obtain ⟨a, b, c, ha, hb, hc, rfl⟩ := h
  constructor
  · intro heq
    have hnames := List.append_cancel_left heq
    simp only [badXfer, badXferLog, List.cons_append, List.nil_append, List.cons.injEq, true_and, and_true] at hnames
    rw [hnames.1] at ha
    cases ha
  · intro heq
    have hnames := List.append_cancel_left heq
    simp only [badXfer, badXferNew, List.cons_append, List.nil_append, List.cons.injEq, true_and, and_true] at hnames
    rw [hnames.1] at ha
    cases ha

theorem log_ne_new : m.path badXferLog ≠ m.path badXferNew := by
  intro heq
  have hnames := List.append_cancel_left heq
  exact absurd hnames (by decide)

/-! The log is read as it was written. -/

/-- A name that fits `NAMELEN`. -/
def Named (real : List UInt8) : Prop := real ≠ [] ∧ real.length < nameLen

structure Proper (r : BadLine) : Prop where
  named : Named r.file.real
  unbroken : Unbroken r.file.real
  temp : TempName r.temp

variable {r old : BadLine} {rows : List BadLine}

theorem TempName.ne_nil {temp : List UInt8} (h : TempName temp) : temp ≠ [] := by
  intro hnil
  have hlength := h.length
  rw [hnil] at hlength
  cases hlength

theorem ofInt_toNat (w : Dword) : BitVec.ofInt 32 (w.toNat : ℤ) = w := by
  rw [BitVec.ofInt_natCast, BitVec.ofNat_toNat, BitVec.setWidth_eq]

theorem scan_print (h : Proper r) : old.scan (r.print) = r := by
  obtain ⟨⟨hreal, -⟩, hunbroken, htemp⟩ := h
  have hword₁ : word r.print = (r.file.real, 32 :: (r.temp ++ 32 :: (decimal r.file.fsize.toInt ++
      32 :: (numeral 8 r.file.ftime.toNat ++ [10])))) := word_append hunbroken hreal rfl
  have hword₂ : word (r.temp ++ 32 :: (decimal r.file.fsize.toInt ++ 32 :: (numeral 8 r.file.ftime.toNat ++
      [10]))) = (r.temp, 32 :: (decimal r.file.fsize.toInt ++ 32 :: (numeral 8 r.file.ftime.toNat ++ [10]))) :=
    word_append htemp.unbroken htemp.ne_nil rfl
  have hsize : number 10 (decimal r.file.fsize.toInt ++ 32 :: (numeral 8 r.file.ftime.toNat ++ [10])) =
      some (r.file.fsize.toInt, 32 :: (numeral 8 r.file.ftime.toNat ++ [10])) := number_decimal _ rfl
  have htime : number 8 (numeral 8 r.file.ftime.toNat ++ [10]) = some ((r.file.ftime.toNat : ℤ), [10]) :=
    number_numeral (by decide) (by decide) _ rfl
  rw [BadLine.scan, hword₁]
  split
  · next heq => exact absurd (Prod.mk.inj heq).1 hreal
  · next real rest _ heq =>
    obtain ⟨rfl, rfl⟩ := Prod.mk.inj heq
    rw [word_blank, hword₂]
    split
    · next heq => exact absurd (Prod.mk.inj heq).1 htemp.ne_nil
    · next temp rest _ heq =>
      obtain ⟨rfl, rfl⟩ := Prod.mk.inj heq
      rw [number_blank, hsize]
      dsimp only
      rw [number_blank, htime]
      dsimp only
      rw [BitVec.ofInt_toInt, ofInt_toNat]

theorem print_line (h : Proper r) : ∃ body, r.print = body ++ [10] ∧ (∀ ch ∈ body, ch ≠ 10) ∧
    body.length < lineLen - 1 := by
  have hsize : (decimal r.file.fsize.toInt).length ≤ 11 := by
    apply length_decimal_le (by decide)
    have hle := BitVec.toInt_lt (x := r.file.fsize)
    have hge := BitVec.le_toInt (x := r.file.fsize)
    norm_num at hle hge ⊢
    omega
  have htime : (numeral 8 r.file.ftime.toNat).length ≤ 11 := by
    apply length_numeral_le (by decide) (by decide)
    have hlt := r.file.ftime.isLt
    norm_num at hlt ⊢
    omega
  have hreal := h.named.2
  have htemp := h.temp.length
  apply Exists.intro (r.file.real ++ 32 :: (r.temp ++ 32 :: (decimal r.file.fsize.toInt ++
    32 :: numeral 8 r.file.ftime.toNat)))
  constructor
  · simp [BadLine.print]
  constructor
  · intro ch hch
    simp only [List.mem_append, List.mem_cons] at hch
    obtain hch | rfl | hch | rfl | hch | rfl | hch := hch
    · exact ne_newline h.unbroken ch hch
    · decide
    · exact ne_newline h.temp.unbroken ch hch
    · decide
    · exact ne_newline (unbroken_decimal _) ch hch
    · decide
    · exact ne_newline (unbroken_numeral (by decide) (by decide) _) ch hch
  · simp only [List.length_append, List.length_cons, nameLen, lineLen] at hreal ⊢
    omega

theorem scanLines_rows (hrows : ∀ r ∈ rows, Proper r) (old : BadLine) :
    scanLines old (fgets (lineLen - 1) [] (rows.flatMap BadLine.print)) = rows.map fun r => (r.print, r) := by
  induction rows generalizing old with
  | nil => rfl
  | cons r rows ih =>
    have hr := hrows r List.mem_cons_self
    obtain ⟨body, hprint, hends, hroom⟩ := print_line hr
    have hroom' : ([] : List UInt8).length + body.length < lineLen - 1 := by
      rw [List.length_nil, Nat.zero_add]
      exact hroom
    have hlines : fgets (lineLen - 1) [] (body ++ 10 :: rows.flatMap BadLine.print) =
        ([] ++ body ++ [10]) :: fgets (lineLen - 1) [] (rows.flatMap BadLine.print) := fgets_line hends hroom'
    have hscan : old.scan (body ++ [10]) = r := by
      rw [← hprint]
      exact scan_print hr
    rw [List.flatMap_cons, hprint, List.append_assoc, List.singleton_append, hlines, List.nil_append,
      scanLines, hscan, ih (fun x hx => hrows x (List.mem_cons_of_mem _ hx)), List.map_cons, hprint]

theorem readLog_rows (hrows : ∀ r ∈ rows, Proper r) :
    m.readLog (rows.flatMap BadLine.print) = rows.map fun r => (r.print, r) := scanLines_rows hrows _

end CProgram.Hydra
