import CProgram.Lib.Strings
import CProgram.Qodem.Options

/-! The files of the translate tables: two lists of pairs in a text file, read line by line, and written without the
pairs that change nothing. -/
namespace CProgram.Qodem.Translate
open Messages Lines Strings Numerals
open SavedBook (bytes equals)
open Options (readIn readIn_newline hash)

/-- `sizeof(line) - 1`. -/
def tableRoom : ℕ := 127

inductive Scan where
  | input | inputValues | outputValues
  deriving DecidableEq

/-- `strtoul`: an `unsigned long`, and what is left, which is everything where there is no number. -/
def strtoul (scan : Text → Option (ℤ × Text)) (text : Text) : ℕ × Text :=
  match scan text with
  | some (z, rest) => (if z.natAbs < 2 ^ 64 then (z % 2 ^ 64).toNat else 2 ^ 64 - 1, rest)
  | none => (0, text)

/-- Base 10. -/
def strtoulDecimal (text : Text) : ℕ × Text := strtoul (number 10) text

/-- Base 16. -/
def strtoulHex (text : Text) : ℕ × Text := strtoul (scanHex text.length) text

/-- `(wchar_t)`, and `(int)`. -/
def wchar (n : ℤ) : ℤ := n.bmod (2 ^ 32)

/-- What the two loaders do not share: which texts are numbers, and how a pair goes into a table. -/
structure Format (τ ν : Type) where
  number : Text → Option ν
  put : τ → ν → ν → τ

structure Loading (τ : Type) where
  scan : Scan
  tableInput : τ
  tableOutput : τ

def inputMark : Text := bytes "[input]"
def outputMark : Text := bytes "[output]"

variable {τ ν : Type} (f : Format τ ν)

/-- The key and the value of a line, without the blanks around them. -/
def sides (line : Text) : Option (Text × Text) :=
  let key := line.dropWhile isBlank
  if equals ∈ key then
    some ((key.takeWhile (· ≠ equals)).rdropWhile isBlank, (key.dropWhile (· ≠ equals)).tail.dropWhile isBlank)
  else none

def readPair (line : Text) : Option (ν × ν) := do
  let (key, value) ← sides line
  if value = [] then none
  else
    let mapTo ← f.number value
    let mapFrom ← f.number key
    some (mapFrom, mapTo)

def Loading.put (s : Loading τ) (mapFrom mapTo : ν) : Loading τ :=
  if s.scan = .inputValues then { s with tableInput := f.put s.tableInput mapFrom mapTo }
  else { s with tableOutput := f.put s.tableOutput mapFrom mapTo }

def readLine (s : Loading τ) (chunk : Text) : Loading τ :=
  if chunk.headD 0 = 0 ∨ chunk.headD 0 = hash then s
  else if s.scan = .input then if readIn chunk = inputMark then { s with scan := .inputValues } else s
  else if readIn chunk = outputMark then { s with scan := .outputValues }
  else (readPair f (readIn chunk)).elim s fun pair => s.put f pair.1 pair.2

/-- The loop over the lines of the file. -/
def readLines (file : List UInt8) (tableInput tableOutput : τ) : Loading τ :=
  (fgets tableRoom [] file).foldl (readLine f) ⟨.input, tableInput, tableOutput⟩

/-- What both writers write, with the lines of their tables. -/
def written (header tableInput tableOutput : List Text) : List UInt8 :=
  rows (header ++ [[], inputMark] ++ tableInput ++ [[], outputMark] ++ tableOutput)

def row (key value : Text) : Text := key ++ bytes " = " ++ value

/-! ### 8-bit tables -/

/-- `map_to`. -/
abbrev Table8Bit := UInt8 → UInt8

def number8Bit (text : Text) : Option UInt8 :=
  let (n, rest) := strtoulDecimal text
  if rest = [] then some (UInt8.ofNat n) else none

def format8Bit : Format Table8Bit UInt8 where
  number := number8Bit
  put := Function.update

def loadTranslateTables8Bit (file : List UInt8) : Table8Bit × Table8Bit :=
  let s := readLines format8Bit file id id
  (s.tableInput, s.tableOutput)

def header8Bit : List Text :=
  [bytes "# Qodem ASCII translate tables file",
   bytes "# ---------------------------------",
   bytes "#",
   bytes "# The default is an identity mapping.  Entries in this",
   bytes "# file record overrides from that default.",
   bytes "#",
   bytes "# This is the list of 8-bit overrides.  Entries use",
   bytes "# base 10 (0-255).  For example, to make all incoming",
   bytes "# '$' bytes turn into 'o', add a line that has:",
   bytes "#     36 = 111",
   bytes "# ...in the [input] section.",
   bytes "#"]

/-- The bytes that a table changes. -/
def changed (table : Table8Bit) : List ℕ := (List.range 256).filter fun i => (table (UInt8.ofNat i)).toNat ≠ i

def row8Bit (table : Table8Bit) (i : ℕ) : Text := row (numeral 10 i) (numeral 10 (table (UInt8.ofNat i)).toNat)

def saveTranslateTables8Bit (tableInput tableOutput : Table8Bit) : List UInt8 :=
  written header8Bit ((changed tableInput).map (row8Bit tableInput)) ((changed tableOutput).map (row8Bit tableOutput))

/-! ### Unicode tables -/

/-- `q_wchar_tuple`. -/
structure WcharTuple where
  key : ℤ
  value : ℤ
  deriving DecidableEq

/-- `table_unicode_struct`, with `none` for NULL. -/
structure TableUnicode where
  mappings : Option (List WcharTuple)
  mappingsN : ℕ
  deriving DecidableEq

/-- What the loops go through. -/
def TableUnicode.entries (t : TableUnicode) : List WcharTuple := (t.mappings.getD []).take t.mappingsN

def numberUnicode (text : Text) : Option ℤ :=
  if text.length ≤ 2 then none
  else if text.headD 0 ≠ 92 ∧ text.getD 1 0 ≠ 117 then none
  else
    let (n, rest) := strtoulHex (text.drop 2)
    if rest = [] then some (wchar n) else none

/-- A mapping at the end. -/
def TableUnicode.append (t : TableUnicode) (key value : ℤ) : TableUnicode :=
  ⟨some (t.mappings.getD [] ++ [⟨key, value⟩]), t.mappingsN + 1⟩

def formatUnicode : Format TableUnicode ℤ where
  number := numberUnicode
  put := TableUnicode.append

/-- What a load does to a table before it reads, with its assertions. -/
def TableUnicode.discard (t : TableUnicode) : Option TableUnicode :=
  if 0 < t.mappingsN then if t.mappings = none then none else some ⟨none, 0⟩
  else if t.mappings = none then some t else none

def loadTranslateTablesUnicode (file : List UInt8) (tableInput tableOutput : TableUnicode) :
    Option (TableUnicode × TableUnicode) := do
  let first ← tableInput.discard
  let second ← tableOutput.discard
  let s := readLines formatUnicode file first second
  some (s.tableInput, s.tableOutput)

def headerUnicode : List Text :=
  [bytes "# Qodem ASCII translate tables file",
   bytes "# ---------------------------------",
   bytes "#",
   bytes "# The default is an identity mapping.  Entries in this",
   bytes "# file record overrides from that default.",
   bytes "#",
   bytes "# This is the list of Unicode overrides.  Entries use",
   bytes "# 16-bit base 16 (0x0000-0xFFFF).  For example, to make",
   bytes "# all incoming '$' bytes turn into 'o', add a line that",
   bytes "# has:",
   bytes "#     \\u0024 = \\u006F",
   bytes "# ...in the [input] section.",
   bytes "#"]

/-- `(uint16_t)`. -/
def low (z : ℤ) : ℤ := z % 2 ^ 16

/-- `\u%04x`. -/
def codeText (z : ℤ) : Text := bytes "\\u" ++ hexField 4 (low z).toNat

def overrides (entries : List WcharTuple) : List WcharTuple := entries.filter fun e => e.key ≠ e.value

def rowUnicode (e : WcharTuple) : Text := row (codeText e.key) (codeText e.value)

/-- The tables are the global ones, whatever the arguments are. -/
def saveTranslateTablesUnicode (tableUnicodeInput tableUnicodeOutput : TableUnicode) : List UInt8 :=
  written headerUnicode ((overrides tableUnicodeInput.entries).map rowUnicode)
    ((overrides tableUnicodeOutput.entries).map rowUnicode)

/-- `reset_table_unicode`, with its assertion. -/
def resetTableUnicode (t : TableUnicode) : Option TableUnicode :=
  if t.mappings ≠ none ∧ t.mappingsN = 0 then none else some ⟨none, 0⟩

/-- `none` where an assertion fails, or where NULL is read from. -/
def copyTableUnicode (src dest : TableUnicode) : Option TableUnicode := do
  let dest ← resetTableUnicode dest
  if 0 < src.mappingsN then
    let mappings ← src.mappings
    some ⟨some (mappings.take src.mappingsN), src.mappingsN⟩
  else some dest

def lookup (entries : List WcharTuple) (key : ℤ) : ℤ := ((entries.find? (·.key = key)).map (·.value)).getD key

def unicodeTableGet (t : TableUnicode) (key : ℤ) : ℤ := lookup t.entries key

/-- The first mapping of a key gets another value. -/
def replaceFirst (key value : ℤ) : List WcharTuple → Option (List WcharTuple)
  | [] => none
  | e :: rest =>
    if e.key = key then some ({ e with value := value } :: rest) else (replaceFirst key value rest).map (e :: ·)

def unicodeTableSet (t : TableUnicode) (key value : ℤ) : TableUnicode :=
  (replaceFirst key value t.entries).elim (t.append key value) fun mappings => { t with mappings := some mappings }

/-! ### A line that was written is read -/

variable {f}

/-- No blank, no end, no `=` and no `#`. -/
def Plain (ch : UInt8) : Prop := isBlank ch = false ∧ ch ≠ equals ∧ ch ≠ 0 ∧ ch ≠ 10 ∧ ch ≠ hash

instance (ch : UInt8) : Decidable (Plain ch) := inferInstanceAs (Decidable (_ ∧ _))

def Solid (text : Text) : Prop := text ≠ [] ∧ ∀ ch ∈ text, Plain ch

theorem Solid.dropWhile {text : Text} (h : Solid text) (rest : Text) :
    (text ++ rest).dropWhile isBlank = text ++ rest := by
  obtain ⟨ch, text, rfl⟩ := List.exists_cons_of_ne_nil h.1
  have hch := (h.2 ch List.mem_cons_self).1
  rw [List.cons_append, List.dropWhile_cons_of_neg (by simp [hch])]

theorem Solid.rdropWhile {text : Text} (h : Solid text) (front : Text) :
    (front ++ text).rdropWhile isBlank = front ++ text := by
  rw [List.rdropWhile_eq_self_iff]
  intro hne
  rw [List.getLast_append_of_ne_nil _ h.1]
  simp [(h.2 _ (List.getLast_mem h.1)).1]

theorem row_eq (key value : Text) : row key value = key ++ 32 :: equals :: 32 :: value := by
  have hmiddle : bytes " = " = [32, equals, 32] := by decide
  rw [row, hmiddle, List.append_assoc]
  rfl

theorem sides_row {key value : Text} (hkey : Solid key) (hvalue : Solid value) :
    sides (row key value) = some (key, value) := by
  have hplain : ∀ ch ∈ key ++ [32], decide (ch ≠ equals) = true := by
    intro ch hch
    rcases List.mem_append.1 hch with hch | hch
    · simpa using (hkey.2 ch hch).2.1
    · rw [List.mem_singleton.1 hch]
      decide
  have hsplit : row key value = (key ++ [32]) ++ equals :: 32 :: value := by simp [row_eq]
  have htake : (row key value).takeWhile (· ≠ equals) = key ++ [32] := by
    rw [hsplit, List.takeWhile_append_of_pos hplain]
    simp
  have hdrop : (row key value).dropWhile (· ≠ equals) = equals :: 32 :: value := by
    rw [hsplit, List.dropWhile_append_of_pos hplain]
    simp
  have hback : (key ++ [32]).rdropWhile isBlank = key := by
    rw [List.rdropWhile_concat_pos isBlank key 32 rfl]
    exact hkey.rdropWhile []
  have hfront : (32 :: value).dropWhile isBlank = value := by
    rw [List.dropWhile_cons_of_pos rfl, ← List.append_nil value, hvalue.dropWhile, List.append_nil]
  have hhead : (row key value).dropWhile isBlank = row key value := by
    rw [row, List.append_assoc]
    exact hkey.dropWhile _
  have hmem : equals ∈ row key value := by simp [row_eq]
  rw [sides]
  simp only [hhead, if_pos hmem, htake, hdrop, hback, List.tail_cons, hfront]

/-- A line for a pair. -/
structure Row (f : Format τ ν) (line : Text) (pair : ν × ν) : Prop where
  ends : 10 ∉ line
  short : line.length < tableRoom
  text : ∀ ch ∈ line, ch ≠ 0
  first : line.headD 0 ≠ 0 ∧ line.headD 0 ≠ hash
  last : line.rdropWhile isBlank = line
  mark : line ≠ outputMark
  pair : readPair f line = some pair

theorem equals_notMem_outputMark : equals ∉ outputMark := by decide

theorem row_row {key value : Text} {mapFrom mapTo : ν} (hkey : Solid key) (hvalue : Solid value)
    (hshort : key.length + value.length < 120) (hfrom : f.number key = some mapFrom)
    (hto : f.number value = some mapTo) :
    Row f (row key value) (mapFrom, mapTo) := by
  have hmem : ∀ ch ∈ row key value, ch ≠ 0 ∧ ch ≠ 10 := by
    intro ch hch
    rw [row_eq, List.mem_append, List.mem_cons, List.mem_cons, List.mem_cons] at hch
    rcases hch with hch | rfl | rfl | rfl | hch
    · exact ⟨(hkey.2 ch hch).2.2.1, (hkey.2 ch hch).2.2.2.1⟩
    · decide
    · decide
    · decide
    · exact ⟨(hvalue.2 ch hch).2.2.1, (hvalue.2 ch hch).2.2.2.1⟩
  refine ⟨fun h => (hmem 10 h).2 rfl, ?_, fun ch hch => (hmem ch hch).1, ?_, ?_, ?_, ?_⟩
  · rw [row_eq, List.length_append, List.length_cons, List.length_cons, List.length_cons, tableRoom]
    omega
  · obtain ⟨ch, key, rfl⟩ := List.exists_cons_of_ne_nil hkey.1
    have hch := hkey.2 ch List.mem_cons_self
    exact ⟨hch.2.2.1, hch.2.2.2.2⟩
  · exact hvalue.rdropWhile (key ++ bytes " = ")
  · intro heq
    exact equals_notMem_outputMark (heq ▸ by simp [row_eq])
  · rw [readPair, sides_row hkey hvalue]
    simp [hvalue.1, hfrom, hto]

theorem headD_append {line : Text} (h : line.headD 0 ≠ 0) (rest : Text) : (line ++ rest).headD 0 = line.headD 0 := by
  cases line with
  | nil => exact absurd rfl h
  | cons ch line => rfl

theorem readLine_row {line : Text} {pair : ν × ν} (h : Row f line pair) {s : Loading τ} (hscan : s.scan ≠ .input) :
    readLine f s (line ++ [10]) = s.put f pair.1 pair.2 := by
  have hfirst : ¬ ((line ++ [10]).headD 0 = 0 ∨ (line ++ [10]).headD 0 = hash) := by
    rw [headD_append h.first.1]
    exact not_or_intro h.first.1 h.first.2
  rw [readLine, if_neg hfirst, if_neg hscan, readIn_newline h.text, h.last, if_neg h.mark, h.pair, Option.elim_some]

theorem readLine_comment {line : Text} (h : line.headD 0 = hash) (s : Loading τ) : readLine f s (line ++ [10]) = s := by
  have hne : line.headD 0 ≠ 0 := by
    rw [h]
    decide
  rw [readLine, headD_append hne, if_pos (.inr h)]

/-- An empty line. -/
theorem readLine_empty (s : Loading τ) : readLine f s [10] = s := by
  have hread : readIn [10] = [] := by decide
  have hnone : readPair f [] = none := rfl
  have hfirst : ¬ (([10] : Text).headD 0 = 0 ∨ ([10] : Text).headD 0 = hash) := by decide
  have hinput : ([] : Text) ≠ inputMark := by decide
  have houtput : ([] : Text) ≠ outputMark := by decide
  rw [readLine, if_neg hfirst, hread, if_neg hinput, if_neg houtput, hnone, Option.elim_none, ite_self]

/-- The lines of a table, in the section that the loop is in. -/
theorem foldl_rows {α : Type} {text : α → Text} {pair : α → ν × ν} {l : List α} (h : ∀ a ∈ l, Row f (text a) (pair a))
    {s : Loading τ} (hscan : s.scan ≠ .input) :
    ((l.map text).map (· ++ [10])).foldl (readLine f) s =
      l.foldl (fun (s : Loading τ) a => s.put f (pair a).1 (pair a).2) s := by
  induction l generalizing s with
  | nil => rfl
  | cons a l ih =>
    have hnext : (s.put f (pair a).1 (pair a).2).scan ≠ .input := by
      rw [Loading.put]
      split <;> exact hscan
    rw [List.map_cons, List.map_cons, List.foldl_cons, readLine_row (h a List.mem_cons_self) hscan, List.foldl_cons,
      ih (fun b hb => h b (List.mem_cons_of_mem _ hb)) hnext]

theorem foldl_put_input {α : Type} (pair : α → ν × ν) (l : List α) (first second : τ) :
    l.foldl (fun (s : Loading τ) a => s.put f (pair a).1 (pair a).2) ⟨.inputValues, first, second⟩ =
      ⟨.inputValues, l.foldl (fun t a => f.put t (pair a).1 (pair a).2) first, second⟩ := by
  induction l generalizing first with
  | nil => rfl
  | cons a l ih =>
    rw [List.foldl_cons, List.foldl_cons, ← ih]
    rfl

theorem foldl_put_output {α : Type} (pair : α → ν × ν) (l : List α) (first second : τ) :
    l.foldl (fun (s : Loading τ) a => s.put f (pair a).1 (pair a).2) ⟨.outputValues, first, second⟩ =
      ⟨.outputValues, first, l.foldl (fun t a => f.put t (pair a).1 (pair a).2) second⟩ := by
  induction l generalizing second with
  | nil => rfl
  | cons a l ih =>
    rw [List.foldl_cons, List.foldl_cons, ← ih]
    rfl

/-- A header that only has comments. -/
def Comments (header : List Text) : Prop := ∀ line ∈ header, line.headD 0 = hash ∧ 10 ∉ line ∧ line.length < tableRoom

theorem comments_header8Bit : Comments header8Bit := by
  rw [Comments]
  decide +kernel

theorem comments_headerUnicode : Comments headerUnicode := by
  rw [Comments]
  decide +kernel

theorem foldl_comments {header : List Text} (h : Comments header) (s : Loading τ) :
    (header.map (· ++ [10])).foldl (readLine f) s = s := by
  induction header with
  | nil => rfl
  | cons line header ih =>
    rw [List.map_cons, List.foldl_cons, readLine_comment (h line List.mem_cons_self).1]
    exact ih fun l hl => h l (List.mem_cons_of_mem _ hl)

theorem readLine_inputMark (first second : τ) :
    readLine f ⟨.input, first, second⟩ (inputMark ++ [10]) = ⟨.inputValues, first, second⟩ := by
  have hread : readIn (inputMark ++ [10]) = inputMark := by decide
  rw [readLine, hread, if_neg (by decide), if_pos rfl, if_pos rfl]

theorem readLine_outputMark {s : Loading τ} (hscan : s.scan ≠ .input) :
    readLine f s (outputMark ++ [10]) = { s with scan := .outputValues } := by
  have hread : readIn (outputMark ++ [10]) = outputMark := by decide
  rw [readLine, hread, if_neg (by decide), if_neg hscan, if_pos rfl]

/-- What is written is read: pair by pair into the table of its section. -/
theorem readLines_written {α β : Type} {header : List Text} (hheader : Comments header) {text : α → Text}
    {line : β → Text} {pair : α → ν × ν} {entry : β → ν × ν} {ins : List α} {outs : List β} (hins : ∀ a ∈ ins, Row f (text a) (pair a))
    (houts : ∀ b ∈ outs, Row f (line b) (entry b)) (first second : τ) :
    readLines f (written header (ins.map text) (outs.map line)) first second =
      ⟨.outputValues, ins.foldl (fun t a => f.put t (pair a).1 (pair a).2) first,
        outs.foldl (fun t b => f.put t (entry b).1 (entry b).2) second⟩ := by
  have hshort : ∀ l ∈ header ++ [[], inputMark] ++ ins.map text ++ [[], outputMark] ++ outs.map line,
      10 ∉ l ∧ l.length < tableRoom := by
    intro l hl
    simp only [List.mem_append, List.mem_map, List.mem_cons, List.not_mem_nil, or_false] at hl
    rcases hl with (((hl | rfl | rfl) | ⟨a, ha, rfl⟩) | rfl | rfl) | ⟨b, hb, rfl⟩
    · exact (hheader l hl).2
    · decide
    · decide
    · exact ⟨(hins a ha).ends, (hins a ha).short⟩
    · decide
    · decide
    · exact ⟨(houts b hb).ends, (houts b hb).short⟩
  have hfgets := fgets_rows hshort []
  rw [List.append_nil] at hfgets
  rw [readLines, written, hfgets]
  simp only [List.map_append, List.foldl_append, foldl_comments hheader, List.map_cons, List.map_nil, List.foldl_cons,
    List.foldl_nil, List.nil_append, fgets, if_true, readLine_empty, readLine_inputMark]
  rw [foldl_rows (s := ⟨.inputValues, first, second⟩) hins (fun h => by cases h), foldl_put_input,
    readLine_outputMark (s := ⟨.inputValues, _, second⟩) (fun h => by cases h),
    foldl_rows (s := ⟨.outputValues, _, second⟩) houts (fun h => by cases h), foldl_put_output]

/-! ### The 8-bit file -/

theorem solid_numeral (n : ℕ) : Solid (numeral 10 n) := by
  refine ⟨numeral_ne_nil n, fun ch hch => ?_⟩
  have hdigit := isDigitIn_of_mem (by decide) le_rfl hch
  have hrange : 48 ≤ ch.toNat ∧ ch.toNat < 58 := by simpa [isDigitIn] using hdigit
  have hall : ∀ c : UInt8, 48 ≤ c.toNat ∧ c.toNat < 58 → Plain c := Bytes.forall_byte (by decide +kernel)
  exact hall ch hrange

theorem strtoul_of_lt {scan : Text → Option (ℤ × Text)} {text rest : Text} {n : ℕ}
    (h : scan text = some ((n : ℤ), rest)) (hn : n < 2 ^ 64) : strtoul scan text = (n, rest) := by
  have hmod : ((n : ℤ) % 2 ^ 64).toNat = n := by omega
  rw [strtoul, h]
  simp only [Int.natAbs_natCast, if_pos hn, hmod]

theorem number8Bit_numeral {n : ℕ} (hn : n < 256) : number8Bit (numeral 10 n) = some (UInt8.ofNat n) := by
  have hnumber : number 10 (numeral 10 n ++ []) = some ((n : ℤ), []) := number_numeral (by decide) le_rfl n rfl
  rw [List.append_nil] at hnumber
  rw [number8Bit, strtoulDecimal, strtoul_of_lt hnumber (by omega)]
  rfl

theorem row_row8Bit (table : Table8Bit) {i : ℕ} (hi : i < 256) :
    Row format8Bit (row8Bit table i) (UInt8.ofNat i, table (UInt8.ofNat i)) := by
  have hvalue : (table (UInt8.ofNat i)).toNat < 256 := UInt8.toNat_lt _
  have hlength {n : ℕ} (hn : n < 256) : (numeral 10 n).length ≤ 3 :=
    length_numeral_le (by decide) (by decide) (by omega)
  have hshort : (numeral 10 i).length + (numeral 10 (table (UInt8.ofNat i)).toNat).length < 120 := by
    have hfirst := hlength hi
    have hsecond := hlength hvalue
    omega
  refine row_row (solid_numeral i) (solid_numeral _) hshort (number8Bit_numeral hi) ?_
  rw [show format8Bit.number = number8Bit from rfl, number8Bit_numeral hvalue, UInt8.ofNat_toNat]

theorem mem_changed {table : Table8Bit} {i : ℕ} (h : i ∈ changed table) : i < 256 :=
  List.mem_range.1 (List.mem_of_mem_filter h)

/-- Every pair of the list is in the table, which is left as it was elsewhere. -/
theorem foldl_update (table start : Table8Bit) (l : List ℕ) (ch : UInt8) :
    l.foldl (fun t i => Function.update t (UInt8.ofNat i) (table (UInt8.ofNat i))) start ch =
      if ch ∈ l.map UInt8.ofNat then table ch else start ch := by
  induction l generalizing start with
  | nil => rfl
  | cons i l ih =>
    rw [List.foldl_cons, ih, Function.update_apply, List.map_cons]
    by_cases hmem : ch ∈ l.map UInt8.ofNat
    · rw [if_pos hmem, if_pos (List.mem_cons_of_mem _ hmem)]
    · by_cases hch : ch = UInt8.ofNat i
      · rw [if_neg hmem, if_pos hch, if_pos (hch ▸ List.mem_cons_self), hch]
      · rw [if_neg hmem, if_neg hch, if_neg (by simp [hch, hmem])]

theorem foldl_changed (table : Table8Bit) :
    (changed table).foldl (fun t i => Function.update t (UInt8.ofNat i) (table (UInt8.ofNat i))) id = table := by
  funext ch
  rw [foldl_update]
  split
  · rfl
  · next hmem =>
    by_contra hne
    refine hmem (List.mem_map.2 ⟨ch.toNat, ?_, UInt8.ofNat_toNat⟩)
    rw [changed, List.mem_filter, List.mem_range, UInt8.ofNat_toNat]
    refine ⟨UInt8.toNat_lt ch, ?_⟩
    rw [decide_eq_true_eq]
    exact fun heq => hne (UInt8.toNat_inj.1 heq).symm

theorem load_save8Bit (tableInput tableOutput : Table8Bit) :
    loadTranslateTables8Bit (saveTranslateTables8Bit tableInput tableOutput) = (tableInput, tableOutput) := by
  have hrows (table : Table8Bit) : ∀ i ∈ changed table,
      Row format8Bit (row8Bit table i) (UInt8.ofNat i, table (UInt8.ofNat i)) := fun i hi =>
    row_row8Bit table (mem_changed hi)
  have hread := readLines_written comments_header8Bit (hrows tableInput) (hrows tableOutput) id id
  rw [loadTranslateTables8Bit, saveTranslateTables8Bit, hread]
  exact Prod.ext (foldl_changed tableInput) (foldl_changed tableOutput)

/-! ### The Unicode file -/

/-- The table of a list. -/
def ofList (l : List WcharTuple) : TableUnicode := if l = [] then ⟨none, 0⟩ else ⟨some l, l.length⟩

variable {l : List WcharTuple}

theorem ofList_of_ne (h : l ≠ []) : ofList l = ⟨some l, l.length⟩ := if_neg h

theorem entries_ofList (l : List WcharTuple) : (ofList l).entries = l := by
  rw [ofList]
  split
  · next hnil =>
    rw [hnil]
    rfl
  · exact List.take_length

theorem append_ofList (l : List WcharTuple) (key value : ℤ) :
    (ofList l).append key value = ofList (l ++ [⟨key, value⟩]) := by
  have hlast : ofList (l ++ [⟨key, value⟩]) = ⟨some (l ++ [⟨key, value⟩]), l.length + 1⟩ := by
    rw [ofList_of_ne (by simp), List.length_append]
    rfl
  rw [hlast, ofList]
  split
  · next hnil =>
    rw [hnil]
    rfl
  · rfl

theorem discard_ofList (l : List WcharTuple) : (ofList l).discard = some (ofList []) := by
  by_cases hl : l = []
  · rw [hl]
    rfl
  · rw [ofList_of_ne hl, TableUnicode.discard, if_pos (List.length_pos_of_ne_nil hl), if_neg nofun]
    rfl

theorem resetTableUnicode_ofList (l : List WcharTuple) : resetTableUnicode (ofList l) = some (ofList []) := by
  by_cases hl : l = []
  · rw [hl]
    rfl
  · rw [ofList_of_ne hl, resetTableUnicode, if_neg (by simp [hl])]
    rfl

theorem copyTableUnicode_ofList (src dest : List WcharTuple) :
    copyTableUnicode (ofList src) (ofList dest) = some (ofList src) := by
  rw [copyTableUnicode, resetTableUnicode_ofList, Option.bind_eq_bind, Option.bind_some]
  by_cases hsrc : src = []
  · rw [hsrc]
    rfl
  · rw [ofList_of_ne hsrc, if_pos (List.length_pos_of_ne_nil hsrc), Option.bind_eq_bind, Option.bind_some,
    List.take_length]

/-- `unicode_table_set` on the list. -/
def put (l : List WcharTuple) (key value : ℤ) : List WcharTuple := (replaceFirst key value l).getD (l ++ [⟨key, value⟩])

theorem length_replaceFirst {key value : ℤ} {r : List WcharTuple} (h : replaceFirst key value l = some r) :
    r.length = l.length := by
  induction l generalizing r with
  | nil => cases h
  | cons e l ih =>
    rw [replaceFirst] at h
    split at h
    · rw [← Option.some.inj h]
      rfl
    · obtain ⟨rest, hrest, rfl⟩ := Option.map_eq_some_iff.1 h
      rw [List.length_cons, List.length_cons, ih hrest]

theorem unicodeTableSet_ofList (l : List WcharTuple) (key value : ℤ) :
    unicodeTableSet (ofList l) key value = ofList (put l key value) := by
  rw [unicodeTableSet, entries_ofList, put]
  cases hreplace : replaceFirst key value l with
  | none => exact append_ofList l key value
  | some r =>
    have hlength := length_replaceFirst hreplace
    have hl : l ≠ [] := by
      rintro rfl
      cases hreplace
    have hr : r ≠ [] := by
      rintro rfl
      exact hl (List.length_eq_zero_iff.1 hlength.symm)
    rw [Option.elim_some, Option.getD_some, ofList_of_ne hl, ofList_of_ne hr, hlength]

/-- The lists that a load puts together. -/
def formatList : Format (List WcharTuple) ℤ where
  number := numberUnicode
  put l key value := l ++ [⟨key, value⟩]

def Loading.toTables (s : Loading (List WcharTuple)) : Loading TableUnicode :=
  ⟨s.scan, ofList s.tableInput, ofList s.tableOutput⟩

theorem readLine_toTables (s : Loading (List WcharTuple)) (chunk : Text) :
    readLine formatUnicode s.toTables chunk = (readLine formatList s chunk).toTables := by
  have hput (key value : ℤ) : s.toTables.put formatUnicode key value = (s.put formatList key value).toTables := by
    rw [Loading.put, Loading.put, show s.toTables.scan = s.scan from rfl]
    split_ifs
    · exact congrArg (Loading.mk _ · _) (append_ofList _ key value)
    · exact congrArg (Loading.mk _ _ ·) (append_ofList _ key value)
  have hpair : readPair formatUnicode (readIn chunk) = readPair formatList (readIn chunk) := rfl
  rw [readLine, readLine, hpair, show s.toTables.scan = s.scan from rfl]
  split_ifs
  · rfl
  · rfl
  · rfl
  · rfl
  · cases readPair formatList (readIn chunk) with
    | none => rfl
    | some pair => exact hput pair.1 pair.2

theorem readLines_toTables (file : List UInt8) (first second : List WcharTuple) :
    readLines formatUnicode file (ofList first) (ofList second) =
      (readLines formatList file first second).toTables := by
  have hfold (chunks : List Text) (s : Loading (List WcharTuple)) :
      chunks.foldl (readLine formatUnicode) s.toTables = (chunks.foldl (readLine formatList) s).toTables := by
    induction chunks generalizing s with
    | nil => rfl
    | cons chunk chunks ih => rw [List.foldl_cons, List.foldl_cons, readLine_toTables, ih]
  exact hfold _ ⟨.input, first, second⟩

/-- Every file is read, and no assertion fails. -/
theorem loadTranslateTablesUnicode_ofList (file : List UInt8) (first second : List WcharTuple) :
    loadTranslateTablesUnicode file (ofList first) (ofList second) =
      some (ofList (readLines formatList file [] []).tableInput,
        ofList (readLines formatList file [] []).tableOutput) := by
  rw [loadTranslateTablesUnicode, discard_ofList, discard_ofList, Option.bind_eq_bind, Option.bind_some,
    Option.bind_some, readLines_toTables]
  rfl

theorem solid_codeText (z : ℤ) : Solid (codeText z) := by
  have hmark : bytes "\\u" = [92, 117] := by decide
  refine ⟨by simp [codeText, hmark], fun ch hch => ?_⟩
  rw [codeText, hmark, List.mem_append] at hch
  rcases hch with hch | hch
  · have hall : ∀ ch ∈ ([92, 117] : Text), Plain ch := by decide +kernel
    exact hall ch hch
  · obtain ⟨m, hm, rfl⟩ := exists_of_mem_hexField hch
    exact forall_digit (P := fun n => Plain (Strings.hexDigit n)) (by decide +kernel) hm

theorem low_lt (z : ℤ) : 0 ≤ low z ∧ low z < 2 ^ 16 := by
  rw [low]
  omega

theorem numberUnicode_codeText (z : ℤ) : numberUnicode (codeText z) = some (low z) := by
  obtain ⟨hpos, hlt⟩ := low_lt z
  have hcode : codeText z = 92 :: 117 :: hexField 4 (low z).toNat := rfl
  have hlength : (hexField 4 (low z).toNat).length = 4 := length_hexField _ _
  have hscan := scanHex_hexField (k := 4) (n := (low z).toNat) (by decide) (by omega) []
  rw [List.append_nil] at hscan
  have hread : strtoulHex (hexField 4 (low z).toNat) = ((low z).toNat, []) := by
    rw [strtoulHex, hlength]
    exact strtoul_of_lt hscan (by omega)
  have hwchar : wchar ((low z).toNat : ℕ) = low z := by
    rw [wchar, Int.toNat_of_nonneg hpos]
    exact Int.bmod_eq_of_le (by omega) (by omega)
  rw [numberUnicode, hcode, if_neg (by simp [hlength]), if_neg (by simp), List.drop_succ_cons, List.drop_succ_cons,
    List.drop_zero, hread]
  simp only [if_true, hwchar]

theorem row_rowUnicode (e : WcharTuple) : Row formatList (rowUnicode e) (low e.key, low e.value) := by
  have hlength (z : ℤ) : (codeText z).length = 6 := by
    have hcode : codeText z = 92 :: 117 :: hexField 4 (low z).toNat := rfl
    rw [hcode, List.length_cons, List.length_cons, length_hexField]
  exact row_row (solid_codeText _) (solid_codeText _) (by rw [hlength, hlength]; decide) (numberUnicode_codeText _)
    (numberUnicode_codeText _)

/-- What is left of a table in its file. -/
def kept (l : List WcharTuple) : List WcharTuple := (overrides l).map fun e => ⟨low e.key, low e.value⟩

theorem load_saveUnicode (ins outs first second : List WcharTuple) :
    loadTranslateTablesUnicode (saveTranslateTablesUnicode (ofList ins) (ofList outs)) (ofList first) (ofList second) =
      some (ofList (kept ins), ofList (kept outs)) := by
  have hfold (l start : List WcharTuple) :
      l.foldl (fun t e => formatList.put t (low e.key) (low e.value)) start =
        start ++ l.map fun e => ⟨low e.key, low e.value⟩ := by
    induction l generalizing start with
    | nil => simp
    | cons e l ih =>
      rw [List.foldl_cons, ih, List.map_cons]
      exact List.append_assoc _ _ _
  have hrows (l : List WcharTuple) : ∀ e ∈ overrides l, Row formatList (rowUnicode e) (low e.key, low e.value) :=
    fun e _ => row_rowUnicode e
  have hread := readLines_written comments_headerUnicode (hrows ins) (hrows outs) [] []
  rw [loadTranslateTablesUnicode_ofList, saveTranslateTablesUnicode, entries_ofList, entries_ofList, hread]
  simp only [hfold, List.nil_append, kept]

end CProgram.Qodem.Translate
