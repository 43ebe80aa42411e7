import CProgram.Qodem.BookValues

/-! The entries of a phonebook that was saved, read back. -/
namespace CProgram.Qodem.SavedBook
open Messages Lines

variable {line text value : Text} {lines later : List Text} {s t : Loading} {e : Phone} {book : List Phone} {k : Key}
  {row : Key × Text} {table : List (Key × Text)}

/-- The lines of the file that are no rows. -/
theorem marks : (∀ line ∈ [bytes "# Qodem Phonebook", bytes "#", bytes "[entry]", bytes "<<<END", bytes "END", []],
      Tidy line ∧ line.length < bookRoom) ∧
    (∀ line ∈ [bytes "# Qodem Phonebook", bytes "#", bytes "END", []], (bytes "[entry]").isPrefixOf line = false) ∧
    endsNotes (bytes "END") = true ∧ equals ∉ bytes "END" ∧ bytes "[entry]" = 91 :: bytes "entry]" := by
  decide

theorem tidy_mark (hline : line ∈ [bytes "# Qodem Phonebook", bytes "#", bytes "[entry]", bytes "<<<END", bytes "END", []]) :
    Tidy line :=
  (marks.1 line hline).1

theorem tidy_entry : Tidy (bytes "[entry]") := tidy_mark (by simp)

theorem tidy_opening : Tidy (bytes "<<<END") := tidy_mark (by simp)

theorem tidy_end : Tidy (bytes "END") := tidy_mark (by simp)

theorem tidy_empty : Tidy [] := tidy_mark (by simp)

/-! One entry -/

/-- What is loaded of an entry. -/
def reloaded (e : Phone) : Phone := { e with lastCall := cut e.lastCall }

theorem tidy_printed {text : Option Text} (h : ∃ t, text = some t ∧ Tidy t) : Tidy (printed text) := by
  obtain ⟨t, rfl, ht⟩ := h
  exact ht

theorem rowed_before (h : Clean e) : Rowed (rowsBefore e) := by
  have htexts := h.texts
  simp only [List.forall_mem_cons] at htexts
  obtain ⟨hname, haddress, hport, husername, hpassword, -⟩ := htexts
  obtain ⟨hmethod, hemulation, hcodepage, hdoorway, hbaud, hdata, hparity, hstop⟩ := named_tidy e
  have htidy : ∀ row ∈ rowsBefore e, Tidy row.2 := by
    simp only [rowsBefore, List.forall_mem_cons]
    exact ⟨tidy_printed hname, tidy_printed haddress, tidy_printed hport, tidy_printed husername, tidy_printed hpassword,
      tidy_bool _, hdoorway, hmethod, hemulation, hcodepage, tidy_bool _, tidy_bool _, hbaud, hdata, hparity, hstop, tidy_bool _, tidy_bool _, tidy_bool _, tidy_numeral _, tidy_bool _, tidy_numeral _, tidy_numeral _,
      fun _ hnever => absurd hnever List.not_mem_nil⟩
  have hkeys : ∀ row ∈ rowsBefore e, row.1 ≠ .notes ∧ row.1 ≠ .keybindingsFilename := by simp [rowsBefore]
  intro row hrow
  exact ⟨htidy row hrow, hkeys row hrow⟩

theorem before_restored (e : Phone) (hs : s.newEntry = some fresh) :
    (rowsBefore e).foldl (fun s row => setKey row.2 s row.1) s =
      { s with
        newEntry := some { reloaded e with
          name := some (printed e.name)
          address := some (printed e.address)
          port := some (printed e.port)
          username := some (printed e.username)
          password := some (printed e.password)
          notes := none
          scriptFilename := none
          captureFilename := none
          translate8bitFilename := none
          translateUnicodeFilename := none
          keybindingsFilename := none }
        tagged := if e.tagged then s.tagged + 1 else s.tagged } := by
  obtain ⟨scanState, older, entry, entryCount, tagged⟩ := s
  obtain rfl : entry = some fresh := hs
  have hset (b : Bool) : (if b = true then true else false) = b := by cases b <;> rfl
  have hclear (b : Bool) : (if (!b) = true then false else true) = b := by cases b <;> rfl
  simp only [rowsBefore, List.foldl_cons, List.foldl_nil, setKey, Loading.change, Option.map_some, method_restored,
    emulation_restored, codepage_restored, doorway_restored, baud_restored, dataBits_restored, parity_restored,
    stopBits_restored, bool_restored, marked_restored, true_restored, false_restored, timesOn_restored, toggles_restored,
    reloaded, cut, fresh, hset, hclear, Option.getD_some]

theorem load_notes {notes got : List Text} (htidy : ∀ line ∈ notes, Tidy line)
    (hends : ∀ line ∈ notes, endsNotes line = false) (hs : s.scanState = .notes) (hentry : s.newEntry = some e)
    (hgot : e.notes = some got) :
    notes.foldl loadLine s = { s with newEntry := some { e with notes := some (got ++ notes) } } := by
  induction notes generalizing s e got with
  | nil =>
    rw [List.append_nil, ← hgot, List.foldl_nil, ← hentry]
  | cons line notes ih =>
    have hadded : loadLine s line = s.change fun e => { e with notes := some (e.notes.getD [] ++ [line]) } := by
      rw [loadLine, hs]
      dsimp only
      rw [(htidy line List.mem_cons_self).whole, hends line List.mem_cons_self]
      rfl
    have hline : loadLine s line = { s with newEntry := some { e with notes := some (got ++ [line]) } } := by
      rw [hadded, Loading.change, hentry, Option.map_some, hgot]
      rfl
    have hstate : (loadLine s line).scanState = .notes := by
      rw [hline]
      exact hs
    rw [List.foldl_cons, ih (fun l hl => htidy l (List.mem_cons_of_mem _ hl))
      (fun l hl => hends l (List.mem_cons_of_mem _ hl)) hstate (congrArg Loading.newEntry hline) rfl, hline]
    simp

theorem notes_restored {notes : Option (List Text)} (htidy : ∀ lines ∈ notes, ∀ line ∈ lines, Tidy line)
    (hends : ∀ lines ∈ notes, ∀ line ∈ lines, endsNotes line = false) (hs : s.scanState = .entry)
    (hentry : s.newEntry = some e) (hnone : e.notes = none) :
    (noteLines notes).foldl loadLine s = { s with newEntry := some { e with notes } } := by
  cases notes with
  | none =>
    have hnil : noteLines none = [] := rfl
    rw [← hnone, hnone, hnil, List.foldl_nil, ← hnone, ← hentry]
  | some lines =>
    have hfirst : loadLine s (written (.notes, bytes "<<<END")) =
        { s with newEntry := some { e with notes := some [] }, scanState := .notes } := by
      rw [loadLine_written (.notes, bytes "<<<END") tidy_opening hs, setKey, Loading.change, hentry]
      rfl
    have hlast (t : Loading) (ht : t.scanState = .notes) : loadLine t (bytes "END") = { t with scanState := .entry } := by
      have hwhole := tidy_end.whole
      have hend := marks.2.2.1
      rw [loadLine, ht]
      dsimp only
      rw [hwhole, if_pos hend]
    rw [noteLines, List.cons_append, List.foldl_cons, hfirst, List.foldl_append,
      load_notes (htidy lines rfl) (hends lines rfl) rfl rfl rfl, List.foldl_cons, List.foldl_nil, hlast _ rfl,
      List.nil_append]
    rw [← hs]

/-- The file names of an entry, the last of which ends it. -/
theorem behind_set (h : Clean e) (hs : s.scanState = .entry) : ((rowsBehind e).map written).foldl loadLine s =
    (rowsBehind e).foldl (fun s row => setKey row.2 s row.1) s := by
  have htexts := h.texts
  simp only [List.forall_mem_cons] at htexts
  obtain ⟨-, -, -, -, -, hscript, hcapture, hbit, hunicode, hkeys, -⟩ := htexts
  have hrows : rowsBehind e = [(.scriptFilename, printed e.scriptFilename), (.captureFilename, printed e.captureFilename),
    (.translate8bitFilename, printed e.translate8bitFilename),
    (.translateUnicodeFilename, printed e.translateUnicodeFilename)] ++
      [(.keybindingsFilename, printed e.keybindingsFilename)] := rfl
  have hrowed : Rowed [(.scriptFilename, printed e.scriptFilename), (.captureFilename, printed e.captureFilename),
      (.translate8bitFilename, printed e.translate8bitFilename),
      (.translateUnicodeFilename, printed e.translateUnicodeFilename)] := by
    simp only [Rowed, List.forall_mem_cons]
    exact ⟨⟨tidy_printed hscript, by decide⟩, ⟨tidy_printed hcapture, by decide⟩, ⟨tidy_printed hbit, by decide⟩,
      ⟨tidy_printed hunicode, by decide⟩, fun _ hnever => absurd hnever List.not_mem_nil⟩
  obtain ⟨hload, hstate⟩ := load_rows hrowed hs
  rw [hrows, List.map_append, List.foldl_append, hload, List.foldl_append, List.map_cons, List.map_nil, List.foldl_cons,
    List.foldl_nil,
    loadLine_written (.keybindingsFilename, printed e.keybindingsFilename) (tidy_printed hkeys) hstate]
  rfl

theorem behind_restored (h : Clean e) (hs : s.scanState = .entry) {o : Phone} (hentry : s.newEntry = some o) :
    ((rowsBehind e).map written).foldl loadLine s = { s with
      scanState := .none
      newEntry := some { o with
        scriptFilename := some (printed e.scriptFilename)
        captureFilename := some (printed e.captureFilename)
        translate8bitFilename := some (printed e.translate8bitFilename)
        translateUnicodeFilename := some (printed e.translateUnicodeFilename)
        keybindingsFilename := some (printed e.keybindingsFilename) } } := by
  rw [behind_set h hs]
  simp only [rowsBehind, List.foldl_cons, List.foldl_nil, setKey, Loading.change, hentry, Option.map_some]

theorem printed_some {text : Option Text} (h : ∃ t, text = some t ∧ Tidy t) : some (printed text) = text := by
  obtain ⟨t, rfl, -⟩ := h
  rfl

theorem entry_line (hs : s.scanState = .none) : loadLine s (bytes "[entry]") = newEntry s := by
  have hstarts : (bytes "[entry]").isPrefixOf (bytes "[entry]") = true := List.isPrefixOf_iff_prefix.mpr (List.prefix_refl _)
  rw [loadLine, hs]
  dsimp only
  rw [tidy_entry.2, if_pos hstarts]

theorem blank_line (hs : s.scanState = .none) : loadLine s [] = s := by
  have hstarts : (bytes "[entry]").isPrefixOf (trim []) = false := marks.2.1 [] (by simp)
  rw [loadLine, hs]
  dsimp only
  rw [hstarts]
  rfl

/-- A whole entry behind others. -/
theorem entry_restored (h : Clean e) (hends : ∀ lines ∈ e.notes, ∀ line ∈ lines, endsNotes line = false)
    (hs : s.scanState = .none) : (entryLines e).foldl loadLine s =
      { newEntry s with
        scanState := .none
        newEntry := some (reloaded e)
        tagged := if e.tagged then s.tagged + 1 else s.tagged } := by
  obtain ⟨hload, hstate⟩ := load_rows (rowed_before h) (rfl : (newEntry s).scanState = .entry)
  rw [before_restored e rfl] at hload
  have htexts := h.texts
  simp only [List.forall_mem_cons] at htexts
  obtain ⟨hname, haddress, hport, husername, hpassword, hscript, hcapture, hbit, hunicode, hkeys, -⟩ := htexts
  rw [entryLines, List.append_assoc, List.append_assoc, List.cons_append, List.foldl_cons, entry_line hs, List.foldl_append, hload,
    List.foldl_append, notes_restored h.notes hends rfl rfl rfl, List.foldl_append, behind_restored h rfl rfl,
    List.foldl_cons, List.foldl_nil, blank_line rfl]
  simp only [printed_some hname, printed_some haddress, printed_some hport, printed_some husername, printed_some hpassword,
    printed_some hscript, printed_some hcapture, printed_some hbit, printed_some hunicode, printed_some hkeys]
  rfl

/-! A whole phonebook -/

theorem tidy_rows (h : ∀ row ∈ table, Tidy row.2) : ∀ line ∈ table.map written, Tidy line := by
  intro line hline
  obtain ⟨row, hrow, rfl⟩ := List.mem_map.mp hline
  exact tidy_written (h row hrow)

theorem tidy_behind (h : Clean e) : ∀ row ∈ rowsBehind e, Tidy row.2 := by
  have htexts := h.texts
  simp only [List.forall_mem_cons] at htexts
  obtain ⟨-, -, -, -, -, hscript, hcapture, hbit, hunicode, hkeys, -⟩ := htexts
  simp only [rowsBehind, List.forall_mem_cons]
  exact ⟨tidy_printed hscript, tidy_printed hcapture, tidy_printed hbit, tidy_printed hunicode, tidy_printed hkeys,
    fun _ hnever => absurd hnever List.not_mem_nil⟩

theorem tidy_notes {notes : Option (List Text)} (h : ∀ lines ∈ notes, ∀ line ∈ lines, Tidy line) :
    ∀ line ∈ noteLines notes, Tidy line := by
  cases notes with
  | none =>
    intro line hline
    exact absurd hline List.not_mem_nil
  | some lines =>
    simp only [noteLines, List.cons_append, List.forall_mem_cons, List.forall_mem_append]
    exact ⟨tidy_written tidy_opening, h lines rfl, tidy_end, fun _ hnever => absurd hnever List.not_mem_nil⟩

theorem tidy_lines (h : Clean e) : ∀ line ∈ entryLines e, Tidy line := by
  simp only [entryLines, List.cons_append, List.forall_mem_cons, List.forall_mem_append]
  exact ⟨tidy_entry, ⟨⟨tidy_rows fun row hrow => (rowed_before h row hrow).1, tidy_notes h.notes⟩,
    tidy_rows (tidy_behind h)⟩, tidy_empty, fun _ hnever => absurd hnever List.not_mem_nil⟩

/-- Before any line. -/
def unread : Loading := ⟨.none, [], none, 0, 0⟩

theorem load_saved (h : ∀ e ∈ book, Clean e) : loadPhonebook (savePhonebook book) =
    let s := (book.flatMap entryLines).foldl loadLine unread
    s.newEntry.map fun e => ⟨s.older ++ [fixupLast e], s.entryCount, s.tagged⟩ := by
  have hlines : ∀ line ∈ [bytes "# Qodem Phonebook", bytes "#"] ++ book.flatMap entryLines,
      10 ∉ line ∧ line.length < bookRoom := by
    intro line hline
    cases List.mem_append.mp hline with
    | inl hhead =>
      obtain ⟨htidy, hlength⟩ := marks.1 line (List.mem_append_left [bytes "[entry]", bytes "<<<END", bytes "END", []] hhead)
      exact ⟨htidy.1, hlength⟩
    | inr hbook =>
      obtain ⟨e, he, hmem⟩ := List.mem_flatMap.mp hbook
      exact ⟨(tidy_lines (h e he) line hmem).1, (h e he).fit line hmem⟩
  have hhead : [bytes "# Qodem Phonebook", bytes "#"].foldl loadLine unread = unread := by
    have hfirst := marks.2.1 (bytes "# Qodem Phonebook") (by simp)
    have hsecond := marks.2.1 (bytes "#") (by simp)
    have htitle : trim (bytes "# Qodem Phonebook") = bytes "# Qodem Phonebook" := (tidy_mark (by simp)).2
    have hsign : trim (bytes "#") = bytes "#" := (tidy_mark (by simp)).2
    simp [loadLine, unread, hfirst, hsecond, htitle, hsign]
  rw [loadPhonebook, savePhonebook, fgets_book hlines, load_lines, List.foldl_append]
  change (let s := (book.flatMap entryLines).foldl loadLine ([bytes "# Qodem Phonebook", bytes "#"].foldl loadLine unread)
    s.newEntry.map fun e => (⟨s.older ++ [fixupLast e], s.entryCount, s.tagged⟩ : Loaded)) = _
  rw [hhead]

/-- Behind some entries. -/
def behind (read : List Phone) : Loading :=
  ⟨.none, read.dropLast, read.getLast?, read.length, read.countP (·.tagged)⟩

/-- An entry that no fixup changes. -/
def Filled (e : Phone) : Prop := fixup e = e ∧ fixupLast e = e

theorem filled_reloaded (h : Clean e) : Filled (reloaded e) := by
  have htexts := h.texts
  simp only [List.forall_mem_cons] at htexts
  obtain ⟨⟨a, ha, -⟩, ⟨b, hb, -⟩, ⟨c, hc, -⟩, ⟨d, hd, -⟩, ⟨f, hf, -⟩, ⟨g, hg, -⟩, ⟨i, hi, -⟩, ⟨j, hj, -⟩, ⟨l, hl, -⟩,
    ⟨m, hm, -⟩, -⟩ := htexts
  constructor
  · simp [fixup, fixupLast, filled, reloaded, ha, hb, hc, hd, hf, hg, hi, hj, hl, hm]
  · simp [fixupLast, filled, reloaded, hg, hi, hj, hl, hm]

theorem behind_entry {read : List Phone} (hread : ∀ e ∈ read, Filled e) (h : Clean e)
    (hends : ∀ lines ∈ e.notes, ∀ line ∈ lines, endsNotes line = false) :
    (entryLines e).foldl loadLine (behind read) = behind (read ++ [reloaded e]) := by
  have holder : (newEntry (behind read)).older = read := by
    rw [newEntry]
    cases read using List.reverseRecOn with
    | nil => rfl
    | append_singleton front last =>
      have hlast := (hread last (by simp)).1
      simp [behind, hlast]
  have hbehind : behind (read ++ [reloaded e]) = ⟨.none, read, some (reloaded e), read.length + 1,
      read.countP (·.tagged) + if e.tagged then 1 else 0⟩ := by
    simp [behind, reloaded, List.countP_append, List.countP_singleton]
  rw [entry_restored h hends rfl, hbehind]
  dsimp only
  rw [holder]
  cases htagged : e.tagged <;> rfl

theorem behind_book (read : List Phone) (hread : ∀ e ∈ read, Filled e) (h : ∀ e ∈ book, Clean e)
    (hends : ∀ e ∈ book, ∀ lines ∈ e.notes, ∀ line ∈ lines, endsNotes line = false) :
    (book.flatMap entryLines).foldl loadLine (behind read) = behind (read ++ book.map reloaded) := by
  induction book generalizing read with
  | nil => simp
  | cons e book ih =>
    have hnext : ∀ o ∈ read ++ [reloaded e], Filled o := by
      intro o ho
      cases List.mem_append.mp ho with
      | inl hold => exact hread o hold
      | inr hnew =>
        rw [List.mem_singleton.mp hnew]
        exact filled_reloaded (h e List.mem_cons_self)
    rw [List.flatMap_cons, List.foldl_append,
      behind_entry hread (h e List.mem_cons_self) (hends e List.mem_cons_self),
      ih _ hnext (fun o ho => h o (List.mem_cons_of_mem _ ho)) fun o ho => hends o (List.mem_cons_of_mem _ ho)]
    simp

/-- With notes that end where they should, all but the times of the last calls is as it was. -/
theorem book_reloaded (h : ∀ e ∈ book, Clean e) (hne : book ≠ [])
    (hends : ∀ e ∈ book, ∀ lines ∈ e.notes, ∀ line ∈ lines, endsNotes line = false) :
    loadPhonebook (savePhonebook book) = some ⟨book.map reloaded, book.length, book.countP (·.tagged)⟩ := by
  have hbook := behind_book [] (fun _ hnever => absurd hnever List.not_mem_nil) h hends
  rw [List.nil_append] at hbook
  have hunread : unread = behind [] := rfl
  rw [load_saved h, hunread, hbook]
  have hfilled : ∀ e ∈ book.map reloaded, Filled e := by
    intro o ho
    obtain ⟨e, he, rfl⟩ := List.mem_map.mp ho
    exact filled_reloaded (h e he)
  have hlength : (book.map reloaded).length = book.length := List.length_map reloaded
  have hcount : (book.map reloaded).countP (·.tagged) = book.countP (·.tagged) := List.countP_map
  have hsome : book.map reloaded ≠ [] := fun hnil => hne (List.map_eq_nil_iff.mp hnil)
  rw [← hlength, ← hcount]
  generalize book.map reloaded = read at hfilled hsome
  cases read using List.reverseRecOn with
  | nil => exact absurd rfl hsome
  | append_singleton front last =>
    have hlast := (hfilled last (by simp)).2
    simp [behind, hlast]

end CProgram.Qodem.SavedBook
