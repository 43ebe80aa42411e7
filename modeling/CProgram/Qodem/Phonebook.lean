import CProgram.Lib.Links
import Mathlib.Data.List.Infix
import Mathlib.Data.UInt

/-! The phonebook screen: the linked entries with their count and the count of those that are tagged, and what
the keys do to them. A loop over the links has the steps it may take as an argument. -/
namespace CProgram.Qodem.Phonebook
open Links

/-- What the C library does with characters. -/
structure Locale where
  towlower : UInt32 → UInt32
  mbstowcs : List UInt8 → List UInt32

structure Entry where
  name : List UInt32
  address : List UInt8
  method : ℕ
  notes : Option (List (List UInt32))
  scriptFilename : List UInt8
  timesOn : ℕ
  lastCall : ℤ
  tagged : Bool
  quicklearn : Bool

/-- `q_phonebook` with its entries, the ones given back, and `q_current_dial_entry`. -/
structure Book where
  cell : ℕ → Cell ℕ
  entry : ℕ → Entry
  freed : List ℕ
  entries : Option ℕ
  entryCount : ℤ
  tagged : ℤ
  selectedEntry : Option ℕ
  currentDialEntry : Option ℕ
  online : Bool

inductive SortMethod where
  | nameAsc | addressAsc | totalCallsDesc | methodAsc | lastCallDesc | reverse
  deriving DecidableEq

/-- The answers of the delete popup. -/
inductive DeleteFlag where
  | notes | entry
  deriving DecidableEq

/-- A key with the answers to what it asks, and whether the script file is there. -/
inductive Key where
  | space (fileExists : Bool)
  | quickLearn (fileExists overwrite : Bool)
  | tagMultiple (tagString : Option (List UInt8))
  | untagAll
  | sort (method : Option SortMethod)
  | delete (deleteFlag : Option DeleteFlag)
  | up
  | down
  | pageUp (visibleEntries : ℕ)
  | pageDown (visibleEntries : ℕ)
  | home
  | end'
  | enter (fileExists connects : Bool)

def isSpace (c : UInt8) : Bool := c = 32 ∨ c = 13 ∨ c = 10

def isDigit (c : UInt8) : Bool := 48 ≤ c ∧ c ≤ 57

def tolower (c : UInt8) : UInt8 := if 65 ≤ c ∧ c ≤ 90 then c + 32 else c

def tokenizeCommand (argv : List UInt8) : List (List UInt8) := (argv.splitOnP isSpace).filter (· ≠ [])

def atoi (token : List UInt8) : ℕ := (token.takeWhile isDigit).foldl (fun n c => 10 * n + (c.toNat - 48)) 0

def matchPhonebookEntry (l : Locale) (searchString : List UInt32) (e : Entry) : Bool :=
  let search := searchString.map l.towlower
  e.name ≠ [] ∧ search <:+: e.name.map l.towlower ∨
    e.address ≠ [] ∧ search <:+: (l.mbstowcs e.address).map l.towlower ∨
    (e.notes.getD []).any fun note => search <:+: note.map l.towlower

/-- A token that searches for a text finds the entry. -/
def finds (l : Locale) (token : List UInt8) (e : Entry) : Bool :=
  tolower (token.headD 0) = 116 ∧ matchPhonebookEntry l (l.mbstowcs token.tail) e

/-- A token that is the number of an entry. -/
def numbers (i : ℕ) (token : List UInt8) : Bool := isDigit (token.headD 0) ∧ atoi token = i

/-- The tokens on one entry and on the count: a text counts it each time, a number only once. -/
def tagEntry (l : Locale) (i : ℕ) : List (List UInt8) → Entry → ℤ → Entry × ℤ
  | [], e, count => (e, count)
  | token :: rest, e, count =>
    if finds l token e then tagEntry l i rest { e with tagged := true } (count + 1)
    else if numbers i token ∧ e.tagged = false then tagEntry l i rest { e with tagged := true } (count + 1)
    else tagEntry l i rest e count

/-- What `continue` stands behind in the loop of `sort_phonebook`. -/
def ordered (method : SortMethod) (e next : Entry) : Bool :=
  match method with
  | .nameAsc => e.name ≤ next.name
  | .addressAsc => e.address.map tolower ≤ next.address.map tolower
  | .totalCallsDesc => next.timesOn ≤ e.timesOn
  | .methodAsc => e.method ≤ next.method
  | .lastCallDesc => next.lastCall ≤ e.lastCall
  | .reverse => false

namespace Book
variable (s : Book)

def put (p : ℕ) (e : Entry) : Book := { s with entry := Function.update s.entry p e }

/-- `for (entry = q_phonebook.entries; entry != NULL; entry = entry->next)`, from entry number `i` on. -/
def forEach (f : ℕ → ℕ → Book → Book) : ℕ → ℕ → Option ℕ → Book → Option Book
  | _, _, none, s => some s
  | 0, _, some _, _ => none
  | fuel + 1, i, some p, s => forEach f fuel (i + 1) (s.cell p).next (f i p s)

def tagMultiple (l : Locale) (fuel : ℕ) (tagString : List UInt8) : Option Book :=
  forEach (fun i p s =>
    let (e, count) := tagEntry l i (tokenizeCommand tagString) (s.entry p) s.tagged
    { s.put p e with tagged := count }) fuel 1 s.entries s

def untagAll (fuel : ℕ) : Option Book :=
  (forEach (fun _ p s => s.put p { s.entry p with tagged := false }) fuel 1 s.entries s).map
    fun t => { t with tagged := 0 }

/-- The entry and the next one change places. -/
def swap (p q : ℕ) : Book :=
  let behind := (s.cell q).next
  if s.entries = some p then
    { s with
      entries := some q
      cell := setPrev (Function.update (Function.update s.cell q ⟨none, some p⟩) p ⟨some q, behind⟩) behind (some p) }
  else
    { s with
      cell := setPrev (Function.update (Function.update (setNext s.cell (s.cell p).prev (some q))
        q ⟨(s.cell p).prev, some p⟩) p ⟨some q, behind⟩) behind (some p) }

/-- The first entry that is not in order with the next one, and that one. -/
def firstUnordered (method : SortMethod) : ℕ → ℕ → Option (Option (ℕ × ℕ))
  | 0, _ => none
  | fuel + 1, p =>
    match (s.cell p).next with
    | none => some none
    | some q => if ordered method (s.entry p) (s.entry q) then firstUnordered method fuel q else some (some (p, q))

def sortLoop (method : SortMethod) (inner : ℕ) : ℕ → Book → Option Book
  | 0, _ => none
  | fuel + 1, s =>
    match s.entries with
    | none => some s
    | some head =>
      match s.firstUnordered method inner head with
      | none => none
      | some none => some s
      | some (some (p, q)) => sortLoop method inner fuel (s.swap p q)

/-- The loop of `SORT_METHOD_REVERSE`, with `tail`. -/
def reverseLoop : ℕ → (ℕ → Cell ℕ) → Option ℕ → Option ℕ → Option ((ℕ → Cell ℕ) × Option ℕ)
  | _, cell, none, tail => some (cell, tail)
  | 0, _, some _, _ => none
  | fuel + 1, cell, some p, _ =>
    reverseLoop fuel (Function.update cell p ⟨(cell p).next, (cell p).prev⟩) (cell p).next (some p)

def sortPhonebook (fuel : ℕ) (method : SortMethod) : Option Book :=
  if s.entries = none then some s
  else if method = .reverse then
    (reverseLoop fuel s.cell s.entries none).map
      fun (cell, tail) => { s with cell, entries := tail, selectedEntry := tail }
  else (sortLoop method fuel fuel s).map fun t => { t with selectedEntry := t.entries }

/-- `delete_phonebook_entry`. -/
def deleteEntry (p : ℕ) : Book :=
  { s with
    entries := if (s.cell p).prev = none then (s.cell p).next else s.entries
    cell := setPrev (setNext s.cell (s.cell p).prev (s.cell p).next) (s.cell p).next (s.cell p).prev
    freed := p :: s.freed
    entryCount := s.entryCount - 1 }

/-- One tagged entry under the flag of the popup. -/
def wipe (flag : DeleteFlag) (p : ℕ) : Book :=
  match flag with
  | .notes => s.put p { s.entry p with notes := none }
  | .entry => if s.currentDialEntry = some p then s else s.deleteEntry p

/-- The loop of CTRL-D, which starts again behind each tagged entry. -/
def deleteLoop (flag : DeleteFlag) : ℕ → Book → Option ℕ → Option Book
  | _, s, none => some s
  | 0, _, some _ => none
  | fuel + 1, s, some p =>
    if (s.entry p).tagged then deleteLoop flag fuel (s.wipe flag p) (s.wipe flag p).entries
    else deleteLoop flag fuel s (s.cell p).next

def advance (p : ℕ) : Book :=
  match (s.cell p).next with
  | some q => { s with selectedEntry := some q }
  | none => s

def tag (p : ℕ) (quicklearn : Bool) : Book :=
  { s.put p { s.entry p with tagged := true, quicklearn } with tagged := s.tagged + 1 }

def untag (p : ℕ) : Book :=
  { s.put p { s.entry p with tagged := false, quicklearn := false } with tagged := s.tagged - 1 }

def space (fileExists : Bool) (p : ℕ) : Book :=
  let e := s.entry p
  if e.tagged then (s.untag p).advance p
  else (s.tag p (e.quicklearn || (e.scriptFilename ≠ [] && !fileExists))).advance p

def quickLearn (fileExists overwrite : Bool) (p : ℕ) : Book :=
  let e := s.entry p
  if e.tagged then (s.untag p).advance p
  else if e.quicklearn then (s.put p { e with quicklearn := false }).advance p
  else if e.scriptFilename = [] then s
  else if fileExists && !overwrite then s.advance p
  else (s.tag p true).advance p

def pageUp : ℕ → ℕ → ℕ
  | 0, p => p
  | n + 1, p =>
    match (s.cell p).prev with
    | some q => pageUp n q
    | none => p

def pageDown : ℕ → ℕ → ℕ
  | 0, p => p
  | n + 1, p =>
    match (s.cell p).next with
    | some q => pageDown n q
    | none => p

def lastEntry : ℕ → ℕ → Option ℕ
  | 0, _ => none
  | fuel + 1, p =>
    match (s.cell p).next with
    | some q => lastEntry fuel q
    | none => some p

/-- The next tagged entry from here on, or the selected one. -/
def seekTagged (selected : ℕ) : ℕ → Bool → ℕ → Option ℕ
  | 0, _, _ => none
  | fuel + 1, wrappedAround, p =>
    if (s.entry p).tagged then some p
    else
      match (s.cell p).next with
      | some q => if q = selected ∧ wrappedAround then some selected else seekTagged selected fuel wrappedAround q
      | none =>
        match s.entries with
        | none => none
        | some q => if q = selected then some selected else seekTagged selected fuel true q

/-- The connection stands, and its entry is no longer tagged. -/
def dialSuccess (p : ℕ) : Book :=
  let s := { s with online := true }
  if (s.entry p).tagged then { s.put p { s.entry p with tagged := false } with tagged := s.tagged - 1 } else s

def dial (fileExists connects : Bool) (p : ℕ) : Book :=
  let e := s.entry p
  let s := { s with selectedEntry := some p }
  let s := if e.scriptFilename ≠ [] && !fileExists then s.put p { e with quicklearn := true } else s
  if s.online then s
  else
    let s := { s with currentDialEntry := some p }
    if connects then s.dialSuccess p else s

/-- `phonebook_keyboard_handler`. -/
def handle (l : Locale) (fuel : ℕ) : Key → Option Book
  | .space fileExists => some (s.selectedEntry.elim s (s.space fileExists))
  | .quickLearn fileExists overwrite => some (s.selectedEntry.elim s (s.quickLearn fileExists overwrite))
  | .tagMultiple tagString => tagString.elim (some s) (s.tagMultiple l fuel)
  | .untagAll => s.untagAll fuel
  | .sort method => method.elim (some s) (s.sortPhonebook fuel)
  | .delete flag =>
    flag.elim (some s) fun flag => (deleteLoop flag fuel s s.entries).map fun t => { t with selectedEntry := t.entries }
  | .up => some (s.selectedEntry.elim s fun p => (s.cell p).prev.elim s fun q => { s with selectedEntry := some q })
  | .down => some (s.selectedEntry.elim s s.advance)
  | .pageUp n => some (s.selectedEntry.elim s fun p => { s with selectedEntry := some (s.pageUp n p) })
  | .pageDown n => some (s.selectedEntry.elim s fun p => { s with selectedEntry := some (s.pageDown n p) })
  | .home => some (s.selectedEntry.elim s fun _ => { s with selectedEntry := s.entries })
  | .end' => s.selectedEntry.elim (some s) fun p => (s.lastEntry fuel p).map fun q => { s with selectedEntry := some q }
  | .enter fileExists connects =>
    s.selectedEntry.elim (some s) fun p => (s.seekTagged p fuel false p).map (s.dial fileExists connects)

def run (l : Locale) (fuel : ℕ) : Book → List Key → Option Book
  | s, [] => some s
  | s, key :: later => (s.handle l fuel key).bind fun t => run l fuel t later

end Book

/-- An entry of the file, and how many of its lines say `tagged=true`. -/
structure Stored where
  entry : Entry
  tagLines : ℕ

def Book.empty (entry : ℕ → Entry) : Book where
  cell _ := ⟨none, none⟩
  entry := entry
  freed := []
  entries := none
  entryCount := 0
  tagged := 0
  selectedEntry := none
  currentDialEntry := none
  online := false

/-- A further entry, at `n`, behind `old_entry`. -/
def Book.append (s : Book) (old : Option ℕ) (n : ℕ) (row : Stored) : Book :=
  { s with
    cell := Function.update (setNext s.cell old (some n)) n ⟨old, none⟩
    entry := Function.update s.entry n { row.entry with tagged := decide (0 < row.tagLines) }
    entries := if s.entryCount = 0 then some n else s.entries
    entryCount := s.entryCount + 1
    tagged := s.tagged + row.tagLines }

def Book.appendAll : Option ℕ → ℕ → List Stored → Book → Book
  | _, _, [], s => s
  | old, n, row :: rest, s => appendAll (some n) (n + 1) rest (s.append old n row)

/-- `load_phonebook` over the entries of the file; without any it goes on with a null pointer. -/
def loadPhonebook (entry : ℕ → Entry) (rows : List Stored) : Option Book :=
  if rows = [] then none
  else
    let s := Book.appendAll none 0 rows (.empty entry)
    some { s with selectedEntry := s.entries }

end CProgram.Qodem.Phonebook
