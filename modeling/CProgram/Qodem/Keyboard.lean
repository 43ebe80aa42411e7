import CProgram.Qodem.SavedBook

/-! A key that is bound to a macro, from the expanded string on: which string goes out, and the loop that sends it
character by character through one buffer. Wide characters are code points, and the build is not the one for Windows. -/
namespace CProgram.Qodem.Keyboard
open SavedBook

/-- The status and the tables that sending goes by: the 8-bit output table, the Unicode output table, and the
characters of the codepages. -/
structure Setup where
  emulation : Emulation
  codepage : Codepage
  newLineMode : Bool
  mapTo : ℕ → UInt8
  mappings : List (ℕ × ℕ)
  chars : Codepage → ℕ → ℕ
  atasciiChars : ℕ → ℕ

/-- `utf8_encode`. -/
def utf8Encode (ch : ℕ) : List UInt8 :=
  if ch ≤ 0x7F then [UInt8.ofNat ch]
  else if ch ≤ 0x7FF then [UInt8.ofNat (0xC0 + ch / 64 % 32), UInt8.ofNat (0x80 + ch % 64)]
  else if ch ≤ 0xFFFF then
    [UInt8.ofNat (0xE0 + ch / 4096 % 16), UInt8.ofNat (0x80 + ch / 64 % 64), UInt8.ofNat (0x80 + ch % 64)]
  else if ch ≤ 0x10FFFF then
    [UInt8.ofNat (0xF0 + ch / 262144 % 8), UInt8.ofNat (0x80 + ch / 4096 % 64), UInt8.ofNat (0x80 + ch / 64 % 64),
      UInt8.ofNat (0x80 + ch % 64)]
  else []

def cCr : ℕ := 0x0D

def cLf : UInt8 := 0x0A

def questionMark : UInt8 := 63

namespace Setup
variable (o : Setup)

def translateUnicodeOut (ch : ℕ) : ℕ := ((o.mappings.find? fun m => m.1 = ch).map Prod.snd).getD ch

/-- `codepage_unmap_byte` for the codepages that it is called with. -/
def codepageUnmapByte (ch : ℕ) : Option ℕ :=
  if o.codepage = .atascii then (List.range 128).find? fun i => o.atasciiChars i = ch % 128
  else (List.range 256).find? fun i => o.chars o.codepage i = ch

def translateUnicodeTo8bit (ch : ℕ) : UInt8 :=
  if ch < 0x80 then o.mapTo (ch % 128)
  else if o.codepage = .dec then questionMark
  else if o.codepage = .petscii then (if ch < 0x100 then UInt8.ofNat ch else questionMark)
  else
    match o.codepageUnmapByte (o.translateUnicodeOut ch) with
    | some i => UInt8.ofNat i
    | none => questionMark

def utf8 : Bool := o.emulation = .xtermUtf8 || o.emulation = .linuxUtf8

/-- The encoding of a character: UTF-8 of what it is translated to, or its byte in the codepage. -/
def encoding (ch : ℕ) : List UInt8 :=
  if o.utf8 then utf8Encode (o.translateUnicodeOut ch) else [o.translateUnicodeTo8bit ch]

/-- `utf8_buffer` as far as `strlen` reads it. -/
def buffered (ch : ℕ) : List UInt8 := (o.encoding ch).takeWhile (· ≠ 0)

/-- A LF is posted behind a character. -/
def postsLf (enter : Bool) : Bool :=
  enter && o.newLineMode &&
    o.emulation ∈ [.vt100, .vt102, .vt220, .linux, .linuxUtf8, .xterm, .xtermUtf8]

def lf (enter : Bool) : List UInt8 := if o.postsLf enter then [cLf] else []

/-- The send loop, from character number `i` on. In the DEBUG emulation the local echo counts with `i` as well. -/
def sendLoop (enter : Bool) (termString : List ℕ) : ℕ → ℕ → List UInt8 → Option (List UInt8)
  | 0, _, _ => none
  | fuel + 1, i, out =>
    match termString[i]? with
    | none => some out
    | some ch =>
      sendLoop enter termString fuel ((if o.emulation = .debug then (o.buffered ch).length else i) + 1)
        (out ++ o.buffered ch ++ o.lf enter)

end Setup

/-- The string that goes out: an expansion that is empty or a single CR is passed on to the emulation, whose string
may be missing, or empty and then looked up in terminfo. -/
def termString (expanded : List ℕ) (own : Option (List ℕ)) (terminfo : List ℕ) : List ℕ :=
  if expanded = [] ∨ expanded = [cCr] then
    match own with
    | none => []
    | some [] => terminfo
    | some str => str
  else expanded

/-- `post_keystroke` for a bound key, behind `postprocess_keyboard_macro`. -/
def postKeystroke (o : Setup) (enter : Bool) (expanded : List ℕ) (own : Option (List ℕ)) (terminfo : List ℕ)
    (fuel : ℕ) : Option (List UInt8) :=
  o.sendLoop enter (termString expanded own terminfo) fuel 0 []

/-- What is to be written: the encodings in order, and a LF behind the key ENTER in the new line mode. -/
def Setup.written (o : Setup) (enter : Bool) (str : List ℕ) : List UInt8 :=
  str.flatMap o.encoding ++ if str = [] then [] else o.lf enter

/-- Nothing is sent, or no encoding has a NUL in it, and where the loop goes wrong on a second character (in the DEBUG
emulation, and with a LF behind each character) there is only one. -/
def Sendable (o : Setup) (enter : Bool) (str : List ℕ) : Prop :=
  str = [] ∨ (∀ ch ∈ str, 0 ∉ o.encoding ch) ∧ (o.emulation = .debug ∨ o.postsLf enter = true → str.length = 1)

variable {o : Setup} {enter : Bool} {str : List ℕ} {fuel i ch : ℕ} {out result : List UInt8}

theorem length_encoding_debug (h : o.emulation = .debug) (ch : ℕ) : (o.encoding ch).length = 1 := by
  rw [Setup.encoding, Setup.utf8, h]
  rfl

theorem buffered_eq (h : 0 ∉ o.encoding ch) : o.buffered ch = o.encoding ch := by
  rw [Setup.buffered, List.takeWhile_eq_self_iff]
  intro b hb
  simpa using fun hzero : b = 0 => h (hzero ▸ hb)

theorem sendLoop_end (h : str.length ≤ i) : o.sendLoop enter str (fuel + 1) i out = some out := by
  rw [Setup.sendLoop, List.getElem?_eq_none h]

theorem sendLoop_char (h : str[i]? = some ch) : o.sendLoop enter str (fuel + 1) i out =
    o.sendLoop enter str fuel ((if o.emulation = .debug then (o.buffered ch).length else i) + 1)
      (out ++ o.buffered ch ++ o.lf enter) := by
  rw [Setup.sendLoop, h]

/-- A NUL never goes out. -/
theorem sendLoop_text (hout : 0 ∉ out) (h : o.sendLoop enter str fuel i out = some result) : 0 ∉ result := by
  induction fuel generalizing i out with
  | zero => cases h
  | succ fuel ih =>
    cases hchar : str[i]? with
    | none =>
      rw [sendLoop_end (List.getElem?_eq_none_iff.mp hchar)] at h
      cases h
      exact hout
    | some ch =>
      rw [sendLoop_char hchar] at h
      apply ih _ h
      have hbuffered : (0 : UInt8) ∉ o.buffered ch := fun hmem => by simpa using List.mem_takeWhile_imp hmem
      have hlf : (0 : UInt8) ∉ o.lf enter := by
        rw [Setup.lf]
        split <;> decide
      simp only [List.mem_append, not_or]
      exact ⟨⟨hout, hbuffered⟩, hlf⟩

/-- Outside the DEBUG emulation every character goes out once, with the LF behind each. -/
theorem sendLoop_plain (hdebug : o.emulation ≠ .debug) (str : List ℕ) (i : ℕ) (out : List UInt8) :
    o.sendLoop enter str (str.length - i + 1) i out =
      some (out ++ (str.drop i).flatMap fun ch => o.buffered ch ++ o.lf enter) := by
  generalize hn : str.length - i = n
  induction n generalizing i out with
  | zero =>
    rw [sendLoop_end (by omega), List.drop_of_length_le (by omega)]
    simp
  | succ n ih =>
    have hlt : i < str.length := by omega
    rw [sendLoop_char (List.getElem?_eq_getElem hlt), if_neg hdebug, ih (i + 1) _ (by omega),
      List.drop_eq_getElem_cons hlt, List.flatMap_cons]
    simp only [List.append_assoc]

theorem sendLoop_result (hdebug : o.emulation ≠ .debug) (h : o.sendLoop enter str fuel i out = some result) :
    result = out ++ (str.drop i).flatMap fun ch => o.buffered ch ++ o.lf enter := by
  induction fuel generalizing i out with
  | zero => cases h
  | succ fuel ih =>
    by_cases hi : i < str.length
    · rw [sendLoop_char (List.getElem?_eq_getElem hi), if_neg hdebug] at h
      rw [ih h, List.drop_eq_getElem_cons hi, List.flatMap_cons]
      simp only [List.append_assoc]
    · rw [sendLoop_end (Nat.le_of_not_lt hi)] at h
      cases h
      rw [List.drop_of_length_le (Nat.le_of_not_lt hi), List.flatMap_nil, List.append_nil]

/-- In the DEBUG emulation the loop comes back to the third character for ever. -/
theorem sendLoop_stuck (hdebug : o.emulation = .debug) (hfine : ∀ ch ∈ str, 0 ∉ o.encoding ch) (hlength : 2 < str.length) :
    o.sendLoop enter str fuel 2 out = none := by
  induction fuel generalizing out with
  | zero => rfl
  | succ fuel ih =>
    have hmem : str[2] ∈ str := List.getElem_mem hlength
    rw [sendLoop_char (List.getElem?_eq_getElem hlength), if_pos hdebug, buffered_eq (hfine _ hmem),
      length_encoding_debug hdebug]
    exact ih

/-- In the DEBUG emulation the second character is passed over. -/
theorem sendLoop_debug (hdebug : o.emulation = .debug) (hfine : ∀ ch ∈ str, 0 ∉ o.encoding ch)
    (hlf : o.lf enter = []) (h : o.sendLoop enter str fuel 0 [] = some result) :
    str.length ≤ 2 ∧ result = (str.take 1).flatMap o.encoding := by
  cases fuel with
  | zero => cases h
  | succ fuel =>
    cases str with
    | nil =>
      rw [sendLoop_end (show ([] : List ℕ).length ≤ 0 from Nat.le_refl 0)] at h
      cases h
      exact ⟨Nat.zero_le 2, rfl⟩
    | cons ch rest =>
      have hch := hfine ch List.mem_cons_self
      rw [sendLoop_char (i := 0) rfl, if_pos hdebug, buffered_eq hch, length_encoding_debug hdebug, hlf] at h
      by_cases hlength : (ch :: rest).length ≤ 2
      · cases fuel with
        | zero => cases h
        | succ fuel =>
          rw [sendLoop_end hlength] at h
          cases h
          exact ⟨hlength, by simp⟩
      · rw [sendLoop_stuck hdebug hfine (Nat.lt_of_not_le hlength)] at h
        cases h

theorem lf_debug (hdebug : o.emulation = .debug) : o.lf enter = [] := by
  rw [Setup.lf, if_neg]
  simp [Setup.postsLf, hdebug]

theorem flatMap_buffered (hfine : ∀ ch ∈ str, 0 ∉ o.encoding ch) (tail : List UInt8) :
    (str.flatMap fun ch => o.buffered ch ++ tail) = str.flatMap fun ch => o.encoding ch ++ tail := by
  apply List.flatMap_congr
  intro ch hmem
  rw [buffered_eq (hfine ch hmem)]

theorem length_flatMap_tail (str : List ℕ) (f : ℕ → List UInt8) (tail : List UInt8) :
    (str.flatMap fun ch => f ch ++ tail).length = (str.flatMap f).length + str.length * tail.length := by
  induction str with
  | nil => simp
  | cons ch str ih =>
    rw [List.flatMap_cons, List.flatMap_cons, List.length_append, List.length_append, List.length_append, ih,
      List.length_cons, Nat.succ_mul]
    omega

theorem fine_of_written (h : (0 : UInt8) ∉ o.written enter str) : ∀ ch ∈ str, 0 ∉ o.encoding ch :=
  fun ch hch hmem => h (List.mem_append_left _ (List.mem_flatMap.mpr ⟨ch, hch, hmem⟩))

theorem sendable_of_written (hloop : o.sendLoop enter str fuel 0 [] = some (o.written enter str)) :
    Sendable o enter str := by
  by_cases hnil : str = []
  · exact .inl hnil
  have hfine := fine_of_written (sendLoop_text List.not_mem_nil hloop)
  refine .inr ⟨hfine, ?_⟩
  by_cases hdebug : o.emulation = .debug
  · intro _
    obtain ⟨hlength, hresult⟩ := sendLoop_debug hdebug hfine (lf_debug hdebug) hloop
    have hcount := congrArg List.length hresult
    rw [Setup.written, if_neg hnil, lf_debug hdebug, List.append_nil] at hcount
    have hone (xs : List ℕ) : (xs.flatMap o.encoding).length = xs.length := by
      simp [List.length_flatMap, length_encoding_debug hdebug]
    rw [hone, hone, List.length_take] at hcount
    have hpos : 0 < str.length := List.length_pos_iff.mpr hnil
    omega
  · intro hposts
    have hlf := hposts.resolve_left hdebug
    have hsame := sendLoop_result hdebug hloop
    rw [List.nil_append, List.drop_zero, flatMap_buffered hfine] at hsame
    have hcount := congrArg List.length hsame
    rw [length_flatMap_tail, Setup.written, if_neg hnil, List.length_append, Setup.lf, if_pos hlf] at hcount
    simp only [List.length_singleton] at hcount
    omega

theorem written_of_sendable (h : Sendable o enter str) :
    ∃ fuel, o.sendLoop enter str fuel 0 [] = some (o.written enter str) := by
  rcases h with rfl | ⟨hfine, hone⟩
  · exact ⟨1, rfl⟩
  by_cases hone' : o.emulation = .debug ∨ o.postsLf enter = true
  · obtain ⟨ch, rfl⟩ := List.length_eq_one_iff.mp (hone hone')
    have hch := hfine ch List.mem_cons_self
    refine ⟨2, ?_⟩
    have hend (i : ℕ) (out : List UInt8) : o.sendLoop enter [ch] 1 (i + 1) out = some out :=
      sendLoop_end (by simp)
    rw [sendLoop_char (i := 0) rfl, hend, buffered_eq hch, Setup.written, if_neg (List.cons_ne_nil _ _)]
    simp
  · obtain ⟨hdebug, hlf⟩ := not_or.mp hone'
    refine ⟨str.length - 0 + 1, ?_⟩
    have hnone : o.lf enter = [] := by rw [Setup.lf, if_neg hlf]
    rw [sendLoop_plain hdebug, List.drop_zero, flatMap_buffered hfine, Setup.written, hnone]
    simp

/-- For every emulation and all tables, every bound key and every expansion: the loop ends with the encodings of all
characters written in order, each once, with the LF of the key ENTER, if and only if they can be sent. -/
theorem macro_sent_iff (o : Setup) (enter : Bool) (expanded : List ℕ) (own : Option (List ℕ)) (terminfo : List ℕ) :
    (∃ fuel, postKeystroke o enter expanded own terminfo fuel =
        some (o.written enter (termString expanded own terminfo))) ↔
      Sendable o enter (termString expanded own terminfo) := by
  constructor
  · rintro ⟨fuel, hloop⟩
    exact sendable_of_written hloop
  · exact written_of_sendable

/-- The tables that change nothing. -/
def plainSetup (emulation : Emulation) : Setup where
  emulation := emulation
  codepage := .cp437
  newLineMode := false
  mapTo := UInt8.ofNat
  mappings := []
  chars _ i := i
  atasciiChars i := i

/-- `abc` in the DEBUG emulation has no end. -/
theorem not_macro_sent : ¬ ∀ (o : Setup) (enter : Bool) (expanded : List ℕ) (own : Option (List ℕ)) (terminfo : List ℕ),
    ∃ fuel, postKeystroke o enter expanded own terminfo fuel =
      some (o.written enter (termString expanded own terminfo)) := by
  intro hall
  obtain ⟨fuel, hloop⟩ := hall (plainSetup .debug) false [97, 98, 99] none []
  have hfine : ∀ ch ∈ [97, 98, 99], 0 ∉ (plainSetup .debug).encoding ch := by decide
  obtain ⟨hlength, -⟩ := sendLoop_debug rfl hfine rfl hloop
  exact absurd hlength (by decide)

end CProgram.Qodem.Keyboard
