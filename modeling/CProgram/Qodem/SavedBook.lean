import CProgram.Qodem.Kept

/-! The phonebook file: what `save_phonebook` writes and what `load_phonebook` makes of a file. Names and notes are
the bytes that they are stored as. -/
namespace CProgram.Qodem.SavedBook
open Messages Lines

def bytes (text : String) : Text := text.toUTF8.data.toList

inductive DialMethod where
  | shell | ssh | modem | rlogin | telnet | socket | commandline
  deriving DecidableEq

inductive Emulation where
  | tty | ansi | avatar | vt52 | vt100 | vt102 | vt220 | linux | linuxUtf8 | xterm | xtermUtf8 | petscii | atascii | debug
  deriving DecidableEq

inductive Codepage where
  | cp437 | iso8859_1 | dec | petscii | atascii | cp720 | cp737 | cp775 | cp850 | cp852 | cp857 | cp858 | cp860 | cp862
  | cp863 | cp866 | cp1250 | cp1251 | cp1252 | koi8R | koi8U
  deriving DecidableEq

inductive Doorway where
  | config | alwaysDoorway | alwaysMixed | never
  deriving DecidableEq

inductive BaudRate where
  | b300 | b1200 | b2400 | b4800 | b9600 | b19200 | b38400 | b57600 | b115200 | b230400
  deriving DecidableEq

inductive DataBits where
  | d8 | d7 | d6 | d5
  deriving DecidableEq

inductive Parity where
  | none | even | odd | mark | space
  deriving DecidableEq

inductive StopBits where
  | s1 | s2
  deriving DecidableEq

/-- `q_phone_struct` without its links. A string that is `none` is a NULL. -/
structure Phone where
  method : DialMethod
  name : Option Text
  address : Option Text
  port : Option Text
  username : Option Text
  password : Option Text
  notes : Option (List Text)
  scriptFilename : Option Text
  captureFilename : Option Text
  translate8bitFilename : Option Text
  translateUnicodeFilename : Option Text
  keybindingsFilename : Option Text
  emulation : Emulation
  codepage : Codepage
  lastCall : Int64
  timesOn : UInt32
  doorway : Doorway
  useDefaultToggles : Bool
  toggles : Int32
  tagged : Bool
  useModemCfg : Bool
  baud : BaudRate
  dataBits : DataBits
  stopBits : StopBits
  parity : Parity
  xonxoff : Bool
  rtscts : Bool
  lockDteBaud : Bool
  quicklearn : Bool
  deriving DecidableEq

/-! The names of the values -/

def methodString : DialMethod → Text
  | .shell => bytes "LOCAL"
  | .ssh => bytes "SSH"
  | .modem => bytes "MODEM"
  | .rlogin => bytes "RLOGIN"
  | .telnet => bytes "TELNET"
  | .socket => bytes "SOCKET"
  | .commandline => bytes "CMDLINE"

def dialMethods : List DialMethod := [.shell, .ssh, .modem, .rlogin, .telnet, .socket, .commandline]

def methodFromString (text : Text) : DialMethod :=
  (dialMethods.find? fun method => (methodString method).isPrefixOf text).getD .shell

/-- The letters of `strcasecmp`. -/
def folded (text : Text) : Text := text.map fun ch => if 65 ≤ ch ∧ ch ≤ 90 then ch + 32 else ch

def emulationString : Emulation → Text
  | .tty => bytes "TTY"
  | .ansi => bytes "ANSI"
  | .avatar => bytes "AVATAR"
  | .vt52 => bytes "VT52"
  | .vt100 => bytes "VT100"
  | .vt102 => bytes "VT102"
  | .vt220 => bytes "VT220"
  | .linux => bytes "LINUX"
  | .linuxUtf8 => bytes "L_UTF8"
  | .xterm => bytes "XTERM"
  | .xtermUtf8 => bytes "X_UTF8"
  | .petscii => bytes "PETSCII"
  | .atascii => bytes "ATASCII"
  | .debug => bytes "DEBUG"

def emulations : List Emulation :=
  [.tty, .ansi, .avatar, .vt52, .vt100, .vt102, .vt220, .linux, .linuxUtf8, .xterm, .xtermUtf8, .petscii, .atascii, .debug]

def emulationFromString (text : Text) : Emulation :=
  (emulations.find? fun emulation => folded (emulationString emulation) = folded text).getD .vt102

def codepageString : Codepage → Text
  | .cp437 => bytes "CP437"
  | .iso8859_1 => bytes "ISO 8859-1"
  | .dec => bytes "DEC"
  | .petscii => bytes "PETSCII"
  | .atascii => bytes "ATASCII"
  | .cp720 => bytes "CP720"
  | .cp737 => bytes "CP737"
  | .cp775 => bytes "CP775"
  | .cp850 => bytes "CP850"
  | .cp852 => bytes "CP852"
  | .cp857 => bytes "CP857"
  | .cp858 => bytes "CP858"
  | .cp860 => bytes "CP860"
  | .cp862 => bytes "CP862"
  | .cp863 => bytes "CP863"
  | .cp866 => bytes "CP866"
  | .cp1250 => bytes "CP1250"
  | .cp1251 => bytes "CP1251"
  | .cp1252 => bytes "CP1252"
  | .koi8R => bytes "KOI8_R"
  | .koi8U => bytes "KOI8_U"

/-- The rows of `MATCH_CODEPAGE`. -/
def codepageNames : List (Text × Codepage) :=
  ([.dec, .petscii, .atascii, .cp437, .cp720, .cp737, .cp775, .cp850, .cp852, .cp857, .cp858, .cp860, .cp862, .cp863,
    .cp866, .cp1250, .cp1251, .cp1252].map fun codepage => (codepageString codepage, codepage)) ++
  [(bytes "Windows-1250", .cp1250), (bytes "Windows-1251", .cp1251), (bytes "Windows-1252", .cp1252),
    (bytes "KOI8_R", .koi8R), (bytes "KOI8_U", .koi8U), (bytes "KOI8-R", .koi8R), (bytes "KOI8-U", .koi8U)]

def codepageFromString (text : Text) : Codepage :=
  if text = bytes "ISO 8859-1" ∨ text = bytes "ISO-8859-1" then .iso8859_1
  else ((codepageNames.find? fun row => folded row.1 = folded text).map Prod.snd).getD .dec

def defaultCodepage : Emulation → Codepage
  | .tty => .iso8859_1
  | .vt52 | .vt100 | .vt102 | .vt220 | .linuxUtf8 | .xtermUtf8 => .dec
  | .debug | .ansi | .avatar | .linux | .xterm => .cp437
  | .petscii => .petscii
  | .atascii => .atascii

def defaultPort : DialMethod → Text
  | .socket | .telnet => bytes "23"
  | .ssh => bytes "22"
  | .rlogin | .shell | .commandline | .modem => []

def doorwayString : Doorway → Text
  | .alwaysDoorway => bytes "always"
  | .alwaysMixed => bytes "mixed"
  | .never => bytes "never"
  | .config => bytes "config"

def doorwayFromString (text : Text) : Doorway :=
  if (bytes "doorway").isPrefixOf (folded text) ∨ (bytes "always").isPrefixOf (folded text) then .alwaysDoorway
  else if (bytes "mixed").isPrefixOf (folded text) then .alwaysMixed
  else if (bytes "never").isPrefixOf (folded text) then .never
  else .config

def baudString : BaudRate → Text
  | .b300 => bytes "300"
  | .b1200 => bytes "1200"
  | .b2400 => bytes "2400"
  | .b4800 => bytes "4800"
  | .b9600 => bytes "9600"
  | .b19200 => bytes "19200"
  | .b38400 => bytes "38400"
  | .b57600 => bytes "57600"
  | .b115200 => bytes "115200"
  | .b230400 => bytes "230400"

def baudRates : List BaudRate :=
  [.b300, .b1200, .b2400, .b4800, .b9600, .b19200, .b38400, .b57600, .b115200, .b230400]

def dataBitsString : DataBits → Text
  | .d8 => bytes "8"
  | .d7 => bytes "7"
  | .d6 => bytes "6"
  | .d5 => bytes "5"

def parityString : Parity → Text
  | .none => bytes "none"
  | .even => bytes "even"
  | .odd => bytes "odd"
  | .mark => bytes "mark"
  | .space => bytes "space"

def stopBitsString : StopBits → Text
  | .s1 => bytes "1"
  | .s2 => bytes "2"

/-- A value by its whole name; another text leaves the one that is there. -/
def named {α : Type} (values : List α) (name : α → Text) (text : Text) (value : α) : α :=
  (values.find? fun v => name v = text).getD value

def boolString (b : Bool) : Text := if b then bytes "true" else bytes "false"

/-- `atol`, which stops at the ends of a `long`. -/
def atol (text : Text) : ℤ :=
  match number 10 text with
  | some (z, _) => max (-2 ^ 63) (min z (2 ^ 63 - 1))
  | none => 0

/-! The file -/

/-- The keys of an entry, in the order in which a line is compared with them. -/
inductive Key where
  | name | address | port | username | password | tagged | doorway | method | emulation | codepage | quicklearn
  | useModemCfg | useDefaultToggles | toggles | xonxoff | rtscts | baud | dataBits | parity | stopBits | lockDteBaud
  | timesOn | lastCall | notes | scriptFilename | captureFilename | translate8bitFilename | translateUnicodeFilename
  | keybindingsFilename
  deriving DecidableEq

def keys : List Key :=
  [.name, .address, .port, .username, .password, .tagged, .doorway, .method, .emulation, .codepage, .quicklearn,
    .useModemCfg, .useDefaultToggles, .toggles, .xonxoff, .rtscts, .baud, .dataBits, .parity, .stopBits, .lockDteBaud,
    .timesOn, .lastCall, .notes, .scriptFilename, .captureFilename, .translate8bitFilename, .translateUnicodeFilename,
    .keybindingsFilename]

def keyText : Key → Text
  | .name => bytes "name"
  | .address => bytes "address"
  | .port => bytes "port"
  | .username => bytes "username"
  | .password => bytes "password"
  | .tagged => bytes "tagged"
  | .doorway => bytes "doorway"
  | .method => bytes "method"
  | .emulation => bytes "emulation"
  | .codepage => bytes "codepage"
  | .quicklearn => bytes "quicklearn"
  | .useModemCfg => bytes "use_modem_cfg"
  | .useDefaultToggles => bytes "use_default_toggles"
  | .toggles => bytes "toggles"
  | .xonxoff => bytes "xonxoff"
  | .rtscts => bytes "rtscts"
  | .baud => bytes "baud"
  | .dataBits => bytes "data_bits"
  | .parity => bytes "parity"
  | .stopBits => bytes "stop_bits"
  | .lockDteBaud => bytes "lock_dte_baud"
  | .timesOn => bytes "times_on"
  | .lastCall => bytes "last_call"
  | .notes => bytes "notes"
  | .scriptFilename => bytes "script_filename"
  | .captureFilename => bytes "capture_filename"
  | .translate8bitFilename => bytes "translate_8bit_filename"
  | .translateUnicodeFilename => bytes "translate_unicode_filename"
  | .keybindingsFilename => bytes "keybindings_filename"

def equals : UInt8 := 61

/-- What `printf` makes of a string. -/
def printed (text : Option Text) : Text := text.getD (bytes "(null)")

def written (row : Key × Text) : Text := keyText row.1 ++ equals :: row.2

/-- The rows of an entry in front of its notes. -/
def rowsBefore (e : Phone) : List (Key × Text) :=
  [(.name, printed e.name), (.address, printed e.address), (.port, printed e.port), (.username, printed e.username),
    (.password, printed e.password), (.tagged, boolString e.tagged), (.doorway, doorwayString e.doorway),
    (.method, methodString e.method), (.emulation, emulationString e.emulation),
    (.codepage, codepageString e.codepage), (.quicklearn, boolString e.quicklearn),
    (.useModemCfg, boolString e.useModemCfg), (.baud, baudString e.baud), (.dataBits, dataBitsString e.dataBits),
    (.parity, parityString e.parity), (.stopBits, stopBitsString e.stopBits), (.xonxoff, boolString e.xonxoff),
    (.rtscts, boolString e.rtscts), (.lockDteBaud, boolString e.lockDteBaud),
    (.timesOn, Numerals.numeral 10 e.timesOn.toNat), (.useDefaultToggles, boolString e.useDefaultToggles),
    (.toggles, Numerals.numeral 10 e.toggles.toUInt32.toNat), (.lastCall, Numerals.numeral 10 e.lastCall.toUInt64.toNat)]

def rowsBehind (e : Phone) : List (Key × Text) :=
  [(.scriptFilename, printed e.scriptFilename), (.captureFilename, printed e.captureFilename),
    (.translate8bitFilename, printed e.translate8bitFilename),
    (.translateUnicodeFilename, printed e.translateUnicodeFilename),
    (.keybindingsFilename, printed e.keybindingsFilename)]

def noteLines : Option (List Text) → List Text
  | none => []
  | some notes => written (.notes, bytes "<<<END") :: notes ++ [bytes "END"]

def entryLines (e : Phone) : List Text :=
  bytes "[entry]" :: (rowsBefore e).map written ++ noteLines e.notes ++ (rowsBehind e).map written ++ [[]]

def savePhonebook (book : List Phone) : List UInt8 :=
  rows ([bytes "# Qodem Phonebook", bytes "#"] ++ book.flatMap entryLines)

inductive ScanState where
  | none | entry | notes
  deriving DecidableEq

/-- A new entry, before its lines. -/
def fresh : Phone where
  method := .shell
  name := none
  address := none
  port := none
  username := none
  password := none
  notes := none
  scriptFilename := none
  captureFilename := none
  translate8bitFilename := none
  translateUnicodeFilename := none
  keybindingsFilename := none
  emulation := .xtermUtf8
  codepage := defaultCodepage .xtermUtf8
  lastCall := 0
  timesOn := 0
  doorway := .config
  useDefaultToggles := true
  toggles := 0
  tagged := false
  useModemCfg := true
  baud := .b115200
  dataBits := .d8
  stopBits := .s1
  parity := .none
  xonxoff := false
  rtscts := true
  lockDteBaud := true
  quicklearn := false

def filled (text : Option Text) : Option Text := some (text.getD [])

/-- The missing file names of the last entry. -/
def fixupLast (e : Phone) : Phone :=
  { e with
    scriptFilename := filled e.scriptFilename
    captureFilename := filled e.captureFilename
    translate8bitFilename := filled e.translate8bitFilename
    translateUnicodeFilename := filled e.translateUnicodeFilename
    keybindingsFilename := filled e.keybindingsFilename }

/-- The missing strings of an entry that another one follows. -/
def fixup (e : Phone) : Phone :=
  { fixupLast e with
    username := filled e.username
    password := filled e.password
    name := filled e.name
    address := filled e.address
    port := filled e.port }

/-- Where `load_phonebook` is in the file: the entries before the newest one, and that one. -/
structure Loading where
  scanState : ScanState
  older : List Phone
  newEntry : Option Phone
  entryCount : ℕ
  tagged : ℕ

def Loading.change (s : Loading) (f : Phone → Phone) : Loading := { s with newEntry := s.newEntry.map f }

/-- A line of an entry. -/
def setKey (value : Text) (s : Loading) : Key → Loading
  | .name => s.change fun e => { e with name := some value }
  | .address => s.change fun e => { e with address := some value }
  | .port => s.change fun e => { e with port := some value }
  | .username => s.change fun e => { e with username := some value }
  | .password => s.change fun e => { e with password := some value }
  | .tagged =>
    let marked := (bytes "true").isPrefixOf (folded value)
    { (s.change fun e => { e with tagged := if marked then true else e.tagged }) with
      tagged := if marked then s.tagged + 1 else s.tagged }
  | .doorway => s.change fun e => { e with doorway := doorwayFromString value }
  | .method => s.change fun e =>
      { e with method := methodFromString value, port := some (e.port.getD (defaultPort (methodFromString value))) }
  | .emulation => s.change fun e =>
      { e with emulation := emulationFromString value, codepage := defaultCodepage (emulationFromString value) }
  | .codepage => s.change fun e => { e with codepage := codepageFromString value }
  | .quicklearn => s.change fun e => { e with quicklearn := if (bytes "true").isPrefixOf value then true else e.quicklearn }
  | .useModemCfg => s.change fun e => { e with useModemCfg := if (bytes "false").isPrefixOf value then false else e.useModemCfg }
  | .useDefaultToggles => s.change fun e =>
      { e with useDefaultToggles := if (bytes "false").isPrefixOf value then false else e.useDefaultToggles }
  | .toggles => s.change fun e => { e with toggles := Int32.ofInt (atol value) }
  | .xonxoff => s.change fun e => { e with xonxoff := if (bytes "true").isPrefixOf value then true else e.xonxoff }
  | .rtscts => s.change fun e => { e with rtscts := if (bytes "false").isPrefixOf value then false else e.rtscts }
  | .baud => s.change fun e => { e with baud := named baudRates baudString value e.baud }
  | .dataBits => s.change fun e => { e with dataBits := named [.d8, .d7, .d6, .d5] dataBitsString value e.dataBits }
  | .parity => s.change fun e =>
      { e with parity := named [.none, .even, .odd, .mark, .space] parityString value e.parity }
  | .stopBits => s.change fun e => { e with stopBits := named [.s1, .s2] stopBitsString value e.stopBits }
  | .lockDteBaud => s.change fun e => { e with lockDteBaud := named [true, false] boolString value e.lockDteBaud }
  | .timesOn => s.change fun e => { e with timesOn := UInt32.ofInt (atol value) }
  | .lastCall => s.change fun e => { e with lastCall := Int64.ofInt (atol value) }
  | .notes => { (s.change fun e => { e with notes := some [] }) with scanState := .notes }
  | .scriptFilename => s.change fun e => { e with scriptFilename := some value }
  | .captureFilename => s.change fun e => { e with captureFilename := some value }
  | .translate8bitFilename => s.change fun e => { e with translate8bitFilename := some value }
  | .translateUnicodeFilename => s.change fun e => { e with translateUnicodeFilename := some value }
  | .keybindingsFilename =>
    { (s.change fun e => { e with keybindingsFilename := some value }) with scanState := .none }

/-- The first key that is in front of a text. -/
def keyOf (text : Text) : Option Key := keys.find? fun key => (keyText key).isPrefixOf text

/-- `[entry]`. -/
def newEntry (s : Loading) : Loading where
  scanState := .entry
  older := if s.entryCount = 0 then [] else s.older ++ (s.newEntry.map fixup).toList
  newEntry := some fresh
  entryCount := s.entryCount + 1
  tagged := s.tagged

/-- A line that ends the notes: a part of `END` is enough. -/
def endsNotes (line : Text) : Bool := line ≠ [] ∧ line.isPrefixOf (bytes "END")

def loadLine (s : Loading) (line : Text) : Loading :=
  let text := trim line
  match s.scanState with
  | .none => if (bytes "[entry]").isPrefixOf text then newEntry s else s
  | .entry =>
    if text.head? = some 35 then s
    else if equals ∈ text then
      match keyOf (text.takeWhile (· ≠ equals)) with
      | some key => setKey (text.dropWhile (· ≠ equals)).tail s key
      | none => s
    else s
  | .notes =>
    let note := line.rdropWhile isBlank
    if endsNotes note then { s with scanState := .entry }
    else s.change fun e => { e with notes := some (e.notes.getD [] ++ [note]) }

/-- `PHONEBOOK_LINE_SIZE`, less the closing NUL. -/
def bookRoom : ℕ := 1023

/-- The entries, `entry_count` and `tagged`. -/
structure Loaded where
  entries : List Phone
  entryCount : ℕ
  tagged : ℕ

/-- `load_phonebook`, nothing where it goes on with a NULL. -/
def loadPhonebook (file : List UInt8) : Option Loaded :=
  let s := (fgets bookRoom [] file).foldl loadLine ⟨.none, [], none, 0, 0⟩
  s.newEntry.map fun e => ⟨s.older ++ [fixupLast e], s.entryCount, s.tagged⟩

/-! What is saved -/

/-- A string without a line break or white space at its ends. -/
def Tidy (text : Text) : Prop := 10 ∉ text ∧ trim text = text

/-- An entry with all its strings, whose lines fit. -/
structure Clean (e : Phone) : Prop where
  texts : ∀ text ∈ [e.name, e.address, e.port, e.username, e.password, e.scriptFilename, e.captureFilename,
    e.translate8bitFilename, e.translateUnicodeFilename, e.keybindingsFilename], ∃ t, text = some t ∧ Tidy t
  notes : ∀ notes ∈ e.notes, ∀ line ∈ notes, Tidy line
  fit : ∀ line ∈ entryLines e, line.length < bookRoom

/-- The phonebook comes back as it was saved. -/
def Restored (book : List Phone) : Prop :=
  loadPhonebook (savePhonebook book) = some ⟨book, book.length, book.countP (·.tagged)⟩

/-- No line of the notes is taken for their end, and the last call is not before 1970. -/
structure Kept (e : Phone) : Prop where
  notes : ∀ notes ∈ e.notes, ∀ line ∈ notes, endsNotes line = false
  lastCall : 0 ≤ e.lastCall.toInt

end CProgram.Qodem.SavedBook
