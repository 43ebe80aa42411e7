import CProgram.Qodem.SavedBook
import CProgram.Lib.Replacing
import Mathlib.Data.List.GetD

/-! The options file: what `save_options` writes, and what `load_options_from_file` makes of a file. The options are
those of the build for Unix. -/
namespace CProgram.Qodem.Options
open Messages Lines Replacing
open SavedBook (bytes)

/-- What `check_option` replaces. -/
inductive Reference where
  | home | editor | shell
  deriving DecidableEq

def Reference.pattern : Reference → Text
  | .home => bytes "$HOME"
  | .editor => bytes "$EDITOR"
  | .shell => bytes "$SHELL"

/-- A row of `options`; its comment is with the other texts. -/
structure Entry where
  name : Text
  defaultValue : Text
  reference : Option Reference
  deriving DecidableEq

def options : List Entry := [
  ⟨bytes "host_username", bytes "guest", none⟩,
  ⟨bytes "host_password", bytes "let me in please", none⟩,
  ⟨bytes "working_dir", bytes "$HOME/qodem", some .home⟩,
  ⟨bytes "host_mode_dir", bytes "$HOME/qodem/host", some .home⟩,
  ⟨bytes "download_dir", bytes "$HOME/qodem", some .home⟩,
  ⟨bytes "upload_dir", bytes "$HOME/qodem", some .home⟩,
  ⟨bytes "scripts_dir", bytes "$HOME/.qodem/scripts", some .home⟩,
  ⟨bytes "scripts_fifo", bytes "$HOME/.qodem/scripts/script.stderr", none⟩,
  ⟨bytes "bew_file", bytes "$HOME/qodem/batch_upload.txt", some .home⟩,
  ⟨bytes "shell", bytes "$SHELL", some .shell⟩,
  ⟨bytes "editor", bytes "vi", some .editor⟩,
  ⟨bytes "x11_terminal", bytes "x-terminal-emulator -e '$COMMAND'", none⟩,
  ⟨bytes "mail_reader", bytes "mm", none⟩,
  ⟨bytes "iso8859_lang", bytes "C", none⟩,
  ⟨bytes "utf8_lang", bytes "en_US.UTF-8", none⟩,
  ⟨bytes "sounds", bytes "true", none⟩,
  ⟨bytes "x11_font", bytes "-misc-fixed-medium-r-normal--20-200-75-75-c-100-iso10646-1", none⟩,
  ⟨bytes "xterm_double_width", bytes "true", none⟩,
  ⟨bytes "start_in_phonebook", bytes "true", none⟩,
  ⟨bytes "status_line", bytes "true", none⟩,
  ⟨bytes "dial_connect_time", bytes "60", none⟩,
  ⟨bytes "dial_between_time", bytes "5", none⟩,
  ⟨bytes "exit_on_disconnect", bytes "false", none⟩,
  ⟨bytes "idle_timeout", bytes "0", none⟩,
  ⟨bytes "bracketed_paste_mode", bytes "false", none⟩,
  ⟨bytes "capture_enabled", bytes "false", none⟩,
  ⟨bytes "capture_file", bytes "capture.txt", none⟩,
  ⟨bytes "capture_type", bytes "normal", none⟩,
  ⟨bytes "screen_dump_type", bytes "normal", none⟩,
  ⟨bytes "scrollback_max_lines", bytes "20000", none⟩,
  ⟨bytes "scrollback_save_type", bytes "normal", none⟩,
  ⟨bytes "log_enabled", bytes "false", none⟩,
  ⟨bytes "log_file", bytes "session_log.txt", none⟩,
  ⟨bytes "doorway_mode_on_connect", bytes "off", none⟩,
  ⟨bytes "doorway_mixed_mode_commands", bytes "D P T Y Z / PgUp PgDn", none⟩,
  ⟨bytes "keepalive_timeout", bytes "0", none⟩,
  ⟨bytes "keepalive_bytes", bytes "\\x00", none⟩,
  ⟨bytes "screensaver_timeout", bytes "0", none⟩,
  ⟨bytes "screensaver_password", bytes "password", none⟩,
  ⟨bytes "music_on_connect", bytes "none", none⟩,
  ⟨bytes "music_on_modem_connect", bytes "MN L16 T120 O4 AB>CAB>CAB>C", none⟩,
  ⟨bytes "music_on_upload_complete", bytes "MS L8 T120 O5 EEEEE", none⟩,
  ⟨bytes "music_on_download_complete", bytes "MS L8 T120 O5 CCCCC", none⟩,
  ⟨bytes "music_on_download_complete", bytes "MS T120 O4 L8 C L16 DEFGAB L8 >C L16 BAGFED L8 C", none⟩,
  ⟨bytes "80_columns", bytes "true", none⟩,
  ⟨bytes "enq_response", bytes "", none⟩,
  ⟨bytes "ansi_music", bytes "true", none⟩,
  ⟨bytes "ansi_animate", bytes "false", none⟩,
  ⟨bytes "avatar_ansi_color", bytes "true", none⟩,
  ⟨bytes "avatar_ansi_fallback", bytes "true", none⟩,
  ⟨bytes "petscii_c64", bytes "true", none⟩,
  ⟨bytes "petscii_ansi_color", bytes "true", none⟩,
  ⟨bytes "petscii_ansi_fallback", bytes "true", none⟩,
  ⟨bytes "petscii_has_wide_font", bytes "true", none⟩,
  ⟨bytes "petscii_use_unicode", bytes "false", none⟩,
  ⟨bytes "atascii_has_wide_font", bytes "false", none⟩,
  ⟨bytes "vt52_ansi_color", bytes "true", none⟩,
  ⟨bytes "vt100_ansi_color", bytes "true", none⟩,
  ⟨bytes "xterm_mouse_reporting", bytes "true", none⟩,
  ⟨bytes "use_external_ssh", bytes "true", none⟩,
  ⟨bytes "ssh", bytes "ssh -e none $REMOTEHOST -p $REMOTEPORT", none⟩,
  ⟨bytes "ssh_user", bytes "ssh -e none -l $USERNAME -p $REMOTEPORT $REMOTEHOST", none⟩,
  ⟨bytes "knownhosts_file", bytes "$HOME/.qodem/known_hosts", some .home⟩,
  ⟨bytes "use_external_rlogin", bytes "true", none⟩,
  ⟨bytes "rlogin", bytes "rlogin $REMOTEHOST", none⟩,
  ⟨bytes "rlogin_user", bytes "rlogin -l $USERNAME $REMOTEHOST", none⟩,
  ⟨bytes "use_external_telnet", bytes "false", none⟩,
  ⟨bytes "telnet", bytes "telnet -E -8 $REMOTEHOST $REMOTEPORT", none⟩,
  ⟨bytes "ascii_upload_use_xlate_table", bytes "true", none⟩,
  ⟨bytes "ascii_upload_cr_policy", bytes "none", none⟩,
  ⟨bytes "ascii_upload_lf_policy", bytes "none", none⟩,
  ⟨bytes "ascii_download_use_xlate_table", bytes "true", none⟩,
  ⟨bytes "ascii_download_cr_policy", bytes "none", none⟩,
  ⟨bytes "ascii_download_lf_policy", bytes "none", none⟩,
  ⟨bytes "zmodem_autostart", bytes "true", none⟩,
  ⟨bytes "zmodem_zchallenge", bytes "false", none⟩,
  ⟨bytes "zmodem_escape_control_chars", bytes "false", none⟩,
  ⟨bytes "kermit_autostart", bytes "true", none⟩,
  ⟨bytes "kermit_robust_filename", bytes "false", none⟩,
  ⟨bytes "kermit_streaming", bytes "true", none⟩,
  ⟨bytes "kermit_uploads_force_binary", bytes "true", none⟩,
  ⟨bytes "kermit_downloads_convert_text", bytes "false", none⟩,
  ⟨bytes "kermit_resend", bytes "true", none⟩,
  ⟨bytes "kermit_long_packets", bytes "true", none⟩]

/-- `option->value` of each row. -/
abbrev Values := Entry → Text

def equals : UInt8 := 61

def hash : UInt8 := 35

/-- What `fgets` takes at once, with a line of `OPTIONS_LINE_SIZE`. -/
def lineRoom : ℕ := 127

/-- A line that the reader passes over. -/
structure Remark (line : Text) : Prop where
  front : line = [] ∨ line.head? = some hash
  ends : 10 ∉ line
  text : 0 ∉ line
  short : line.length < lineRoom

/-- What stands around the values, in the language of the user: the heading with the date, the words before a default
value, and the comments. -/
structure Texts where
  heading : List Text
  label : Text
  comment : Entry → List Text
  remarks : ∀ line ∈ heading, Remark line
  labels : ∀ e ∈ options, Remark (label ++ e.defaultValue)
  comments : ∀ e ∈ options, ∀ line ∈ comment e, Remark line

/-! ### Saving -/

/-- The line of an option. -/
def row (e : Entry) (value : Text) : Text := e.name ++ bytes " = " ++ value

/-- The test of `save_options` for a value that is left to the default. -/
def Defaulted (e : Entry) (value : Text) : Prop := e.defaultValue <+: value

instance (e : Entry) (value : Text) : Decidable (Defaulted e value) :=
  inferInstanceAs (Decidable (e.defaultValue <+: value))

def entryLines (texts : Texts) (values : Values) (e : Entry) : List Text :=
  texts.comment e ++ [bytes "###", texts.label ++ e.defaultValue,
    (if Defaulted e (values e) then bytes "### " else []) ++ row e (values e), [], []]

/-- `set_option`. -/
def setOption (value : Text) : Text := value.dropWhile fun ch => isBlank ch || ch = equals

/-- `check_option`, with what the references stand for. -/
def checkOption (env : Reference → Text) (e : Entry) (value : Text) : Text :=
  match e.reference with
  | none => value
  | some r => replace r.pattern (env r) value

/-- A line as it is in memory, without blanks at its end. -/
def readIn (chunk : Text) : Text := (chunk.takeWhile (· ≠ 0)).rdropWhile isBlank

/-- The line begins with the name of the option. -/
def Names (e : Entry) (line : Text) : Prop :=
  e.name <+: line ∧ (line.getD e.name.length 0 = equals ∨ isBlank (line.getD e.name.length 0))

instance (e : Entry) (line : Text) : Decidable (Names e line) := inferInstanceAs (Decidable (_ ∧ _))

/-- A line and one option. -/
def readLine (env : Reference → Text) (e : Entry) (value chunk : Text) : Text :=
  let line := readIn chunk
  if (line.dropWhile isBlank).head? = some hash then value
  else checkOption env e (if Names e line then setOption (line.drop e.name.length) else value)

def loadLine (env : Reference → Text) (values : Values) (chunk : Text) : Values := fun e =>
  readLine env e (values e) chunk

theorem options_plain : ∀ e ∈ options, 2 < e.name.length ∧ e.name.all (fun ch =>
    !isBlank ch && ch != equals && ch != hash && ch != 0 && ch != 10) := by decide +kernel

theorem options_nodup : options.Nodup := by decide +kernel

/-- A value that a line can carry: no blank on either side and no `=` in front, no reference, and short enough. -/
structure Plain (e : Entry) (value : Text) : Prop where
  text : ∀ ch ∈ value, ch ≠ 0 ∧ ch ≠ 10
  front : ∀ ch ∈ value.head?, isBlank ch = false ∧ ch ≠ equals
  back : ∀ ch ∈ value.getLast?, isBlank ch = false
  reference : ∀ r : Reference, ¬ r.pattern <:+: value
  fits : (row e value).length < lineRoom

/-! ### One line -/

theorem replace_absent {P s : Text} (R : Text) (h : ¬ P <:+: s) : replace P R s = s := by
  have hparse : parse P 0 s = s.map some := by
    induction s with
    | nil => rfl
    | cons c s ih =>
      have hfront : ¬ P <+: c :: s := fun hbegins => h hbegins.isInfix
      have hback : ¬ P <:+: s := fun hinner => h (hinner.trans (List.suffix_cons c s).isInfix)
      rw [parse_other hfront, ih hback, List.map_cons]
  rw [replace, hparse, render_plain]

/-- A text without references is left as it is. -/
theorem checkOption_plain {value : Text} (h : ∀ r : Reference, ¬ r.pattern <:+: value) (env : Reference → Text)
    (e : Entry) : checkOption env e value = value := by
  rw [checkOption]
  split
  · rfl
  · rename_i r _
    exact replace_absent _ (h r)

theorem readIn_newline {line : Text} (htext : ∀ ch ∈ line, ch ≠ 0) :
    readIn (line ++ [10]) = line.rdropWhile isBlank := by
  have htake : (line ++ [10]).takeWhile (· ≠ 0) = line ++ [10] := by
    rw [List.takeWhile_eq_self_iff]
    intro ch hch
    rcases List.mem_append.1 hch with hch | hch
    · simpa using htext ch hch
    · rw [List.mem_singleton.1 hch]
      rfl
  rw [readIn, htake, List.rdropWhile_concat_pos isBlank line 10 rfl]

/-- The characters of a name. -/
theorem name_ch {e : Entry} (he : e ∈ options) {ch : UInt8} (hch : ch ∈ e.name) :
    isBlank ch = false ∧ ch ≠ equals ∧ ch ≠ hash ∧ ch ≠ 0 ∧ ch ≠ 10 := by
  have hall := List.all_eq_true.1 (options_plain e he).2 ch hch
  simpa only [Bool.and_eq_true, Bool.not_eq_true', bne_iff_ne, ne_eq, and_assoc] using hall

theorem names_iff {o e : Entry} (ho : o ∈ options) (he : e ∈ options) (rest : Text) :
    Names e (o.name ++ 32 :: rest) ↔ o.name = e.name := by
  constructor
  · rintro ⟨hbegins, hnext⟩
    rcases lt_trichotomy e.name.length o.name.length with hlt | heq | hgt
    · rw [List.getD_append _ _ _ _ hlt, List.getD_eq_getElem _ _ hlt] at hnext
      obtain ⟨hblank, hequals, -⟩ := name_ch ho (List.getElem_mem hlt)
      rcases hnext with hnext | hnext
      · exact absurd hnext hequals
      · rw [hblank] at hnext
        cases hnext
    · have hback := List.prefix_of_prefix_length_le hbegins (List.prefix_append o.name (32 :: rest)) heq.le
      exact (hback.eq_of_length heq).symm
    · have hfront : o.name ++ [32] <+: o.name ++ 32 :: rest := ⟨rest, by simp⟩
      have hin := List.prefix_of_prefix_length_le hfront hbegins (by simpa using hgt)
      have hblank := (name_ch he (hin.sublist.mem (by simp : (32 : UInt8) ∈ o.name ++ [32]))).1
      cases hblank
  · intro h
    rw [Names, ← h]
    refine ⟨List.prefix_append _ _, .inr ?_⟩
    rw [List.getD_append_right _ _ _ _ le_rfl, Nat.sub_self]
    rfl

/-- The line of an option as the reader has it. -/
theorem row_read (o : Entry) {value : Text} (h : Plain o value) :
    ∃ rest, (row o value).rdropWhile isBlank = o.name ++ 32 :: rest ∧ setOption (32 :: rest) = value := by
  have hequals : isBlank equals = false := by decide
  have hwords : bytes " = " = [32, equals, 32] := by decide +kernel
  rw [row, hwords]
  by_cases hnil : value = []
  · subst hnil
    refine ⟨[equals], ?_, by decide⟩
    rw [List.append_nil, show o.name ++ [32, equals, 32] = o.name ++ [32] ++ [equals] ++ [32] by simp,
      List.rdropWhile_concat_pos isBlank _ 32 rfl, List.rdropWhile_concat_neg isBlank _ equals (by simp [hequals])]
    simp
  · refine ⟨equals :: 32 :: value, ?_, ?_⟩
    · have hlast : isBlank (value.getLast hnil) = false := h.back _ (List.getLast?_eq_some_getLast hnil)
      conv_lhs => rw [← List.dropLast_append_getLast hnil, ← List.append_assoc]
      rw [List.rdropWhile_concat_neg isBlank _ _ (by simp [hlast]), List.append_assoc,
        List.dropLast_append_getLast hnil]
      simp
    · cases value with
      | nil => exact absurd rfl hnil
      | cons ch value =>
        obtain ⟨hblank, hne⟩ := h.front ch rfl
        rw [setOption, List.dropWhile_cons_of_pos (by decide), List.dropWhile_cons_of_pos (by decide),
          List.dropWhile_cons_of_pos (by decide), List.dropWhile_cons_of_neg (by simp [hblank, hne])]

/-- The line of an option sets the options of its name. -/
theorem readLine_row {o e : Entry} (ho : o ∈ options) (he : e ∈ options) {value : Text} (h : Plain o value)
    (env : Reference → Text) (before : Text) : readLine env e before (row o value ++ [10]) =
      if o.name = e.name then value else checkOption env e before := by
  obtain ⟨rest, hread, hset⟩ := row_read o h
  have htext : ∀ ch ∈ row o value, ch ≠ 0 := by
    intro ch hch
    rcases List.mem_append.1 hch with hch | hch
    · rcases List.mem_append.1 hch with hch | hch
      · exact (name_ch ho hch).2.2.2.1
      · have hall : ∀ ch ∈ bytes " = ", ch ≠ 0 := by decide +kernel
        exact hall ch hch
    · exact (h.text ch hch).1
  have hname : o.name ≠ [] := List.ne_nil_of_length_pos (by have := (options_plain o ho).1; omega)
  have hhead : ((o.name ++ 32 :: rest).dropWhile isBlank).head? ≠ some hash := by
    cases hcons : o.name with
    | nil => exact absurd hcons hname
    | cons ch name =>
      have hch := name_ch ho (show ch ∈ o.name by simp [hcons])
      rw [List.cons_append, List.dropWhile_cons_of_neg (by simp [hch.1]), List.head?_cons]
      exact fun heq => hch.2.2.1 (Option.some.inj heq)
  rw [readLine, readIn_newline htext, hread, if_neg hhead]
  by_cases hsame : o.name = e.name
  · rw [if_pos hsame, if_pos ((names_iff ho he rest).2 hsame), ← hsame, List.drop_left, hset,
      checkOption_plain h.reference]
  · rw [if_neg hsame, if_neg fun hnames => hsame ((names_iff ho he rest).1 hnames)]

/-! ### A saved file -/

/-- A line that sets no option, in one piece or cut in two behind its `#`. -/
structure Quiet (line : Text) : Prop where
  front : line = [] ∨ line.head? = some hash
  ends : ∀ ch ∈ line, ch ≠ 10
  text : ∀ ch ∈ line, ch ≠ 0
  short : line.length ≤ lineRoom + 3

theorem Remark.quiet {line : Text} (h : Remark line) : Quiet line :=
  ⟨h.front, fun _ hch heq => h.ends (heq ▸ hch), fun _ hch heq => h.text (heq ▸ hch), by have := h.short; omega⟩

section Fold
variable {env : Reference → Text} {e : Entry}

/-- One value comes of the other by checks alone. -/
def Checked (env : Reference → Text) (e : Entry) (value later : Text) : Prop :=
  ∃ k, later = (checkOption env e)^[k] value

theorem Checked.refl (value : Text) : Checked env e value value := ⟨0, rfl⟩

theorem Checked.trans {a b c : Text} (hab : Checked env e a b) (hbc : Checked env e b c) : Checked env e a c := by
  obtain ⟨k, rfl⟩ := hab
  obtain ⟨l, rfl⟩ := hbc
  exact ⟨l + k, (Function.iterate_add_apply ..).symm⟩

theorem rows_append (a b : List Text) : rows (a ++ b) = rows a ++ rows b := by simp [rows]

variable {texts : Texts} {values : Values}

/-- The last option of a name whose line is no comment. -/
def lastWritten (values : Values) (name : Text) (entries : List Entry) : Option Entry :=
  (entries.filter fun o => o.name = name ∧ ¬ Defaulted o (values o)).getLast?

end Fold

/-- Each option has the value of the last line written for its name, or else its default. -/
def Kept (values : Values) : Prop :=
  ∀ e ∈ options, ((lastWritten values e.name options).elim e.defaultValue fun o => values o) = values e

/-- A line without blanks on either side. -/
def trimmed (chunk : Text) : Text := (readIn chunk).dropWhile isBlank

end CProgram.Qodem.Options
