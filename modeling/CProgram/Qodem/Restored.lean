import CProgram.Qodem.BookEntries

/-! A phonebook that is saved and loaded: it comes back if and only if it has an entry, no line of its notes is taken
for their end, and no last call is negative. -/
namespace CProgram.Qodem.SavedBook
open Messages Lines

variable {line text value : Text} {lines later : List Text} {s t : Loading} {e : Phone} {book : List Phone} {k : Key}
  {row : Key × Text} {table : List (Key × Text)}

/-! Notes that end too early -/

/-- The entries and the lines of their notes together. -/
def weigh (entries : List Phone) : ℕ := (entries.map fun e => 1 + (e.notes.getD []).length).sum

def weight (s : Loading) : ℕ := weigh (s.older ++ s.newEntry.toList)

theorem weigh_append (entries others : List Phone) : weigh (entries ++ others) = weigh entries + weigh others := by
  simp [weigh]

theorem weigh_single (e : Phone) : weigh [e] = 1 + (e.notes.getD []).length := by
  simp [weigh]

/-- A line that makes the notes of the entry longer by so much at most. -/
theorem weight_change {f : Phone → Phone} {n : ℕ} (s : Loading)
    (h : ∀ e, ((f e).notes.getD []).length ≤ (e.notes.getD []).length + n) : weight (s.change f) ≤ weight s + n := by
  rw [weight, weight, weigh_append, weigh_append, Loading.change]
  cases s.newEntry with
  | none => simp [weigh]
  | some e =>
    have hle := h e
    dsimp only
    rw [Option.map_some, Option.toList_some, Option.toList_some, weigh_single, weigh_single]
    omega

theorem weight_setKey (value : Text) (s : Loading) (k : Key) : weight (setKey value s k) ≤ weight s := by
  have hsame {f : Phone → Phone} (h : ∀ e, (f e).notes = e.notes) : weight (s.change f) ≤ weight s := by
    apply weight_change s (n := 0)
    intro e
    rw [h e]
    exact le_rfl
  cases k with
  | notes =>
    have hnone : weight (s.change fun e => { e with notes := some [] }) ≤ weight s + 0 :=
      weight_change s fun e => Nat.zero_le _
    exact hnone
  | _ => exact hsame fun e => rfl

theorem weight_newEntry (s : Loading) : weight (newEntry s) ≤ weight s + 1 := by
  have hfixup (e : Phone) : (fixup e).notes = e.notes := rfl
  rw [weight, weight, newEntry, weigh_append, weigh_append]
  dsimp only
  rw [Option.toList_some, weigh_single]
  split
  · simp [weigh, fresh]
  · rw [weigh_append]
    cases s.newEntry with
    | none => simp [weigh, fresh]
    | some e => simp [weigh, fresh, hfixup]

theorem weight_line (s : Loading) (line : Text) : weight (loadLine s line) ≤ weight s + 1 := by
  rw [loadLine]
  split
  · split
    · exact weight_newEntry s
    · exact Nat.le_succ _
  · split
    · exact Nat.le_succ _
    split
    · split
      · exact (weight_setKey _ s _).trans (Nat.le_succ _)
      · exact Nat.le_succ _
    · exact Nat.le_succ _
  · dsimp only
    split
    · exact Nat.le_succ _
    · apply weight_change s
      intro e
      simp

theorem weight_lines (s : Loading) (lines : List Text) : weight (lines.foldl loadLine s) ≤ weight s + lines.length := by
  induction lines generalizing s with
  | nil => exact le_rfl
  | cons line lines ih =>
    have hline := weight_line s line
    have hrest := ih (loadLine s line)
    rw [List.foldl_cons, List.length_cons]
    omega

theorem weight_rows (s : Loading) (table : List (Key × Text)) :
    weight (table.foldl (fun s row => setKey row.2 s row.1) s) ≤ weight s := by
  induction table generalizing s with
  | nil => exact le_rfl
  | cons row table ih => exact (ih _).trans (weight_setKey row.2 s row.1)

/-- `END` leaves the notes, and adds nothing. -/
theorem end_line (s : Loading) : weight (loadLine s (bytes "END")) ≤ weight s ∧
    (loadLine s (bytes "END")).scanState ≠ .notes := by
  obtain ⟨-, hothers, hend, hequals, -⟩ := marks
  have hentry := hothers (bytes "END") (by simp)
  rw [loadLine, tidy_end.2, tidy_end.whole]
  cases hs : s.scanState with
  | none => simp [hentry, hs]
  | entry => simp [hequals, hs]
  | notes =>
    simp only [hend, if_true]
    exact ⟨le_rfl, by decide⟩

/-- The rows behind the notes lead out of the entry, and add nothing. -/
theorem behind_weight (h : Clean e) (hs : s.scanState ≠ .notes) :
    weight (((rowsBehind e).map written).foldl loadLine s) ≤ weight s ∧
      (((rowsBehind e).map written).foldl loadLine s).scanState = .none := by
  cases hstate : s.scanState with
  | notes => exact absurd hstate hs
  | entry =>
    rw [behind_set h hstate]
    exact ⟨weight_rows s _, rfl⟩
  | none =>
    have hsame (table : List (Key × Text)) (htable : ∀ row ∈ table, Tidy row.2) : (table.map written).foldl loadLine s = s := by
      induction table with
      | nil => rfl
      | cons row table ih =>
        obtain ⟨-, -, -, ch, rest, hkey, -, -, hopen⟩ := key_facts row.1
        have hstarts : (bytes "[entry]").isPrefixOf (written row) = false := by
          rw [marks.2.2.2.2, written, hkey, List.cons_append, List.isPrefixOf_cons_cons]
          simp [Ne.symm hopen]
        have hline : loadLine s (written row) = s := by
          rw [loadLine, hstate]
          dsimp only
          rw [(tidy_written (htable row List.mem_cons_self)).2, hstarts]
          rfl
        rw [List.map_cons, List.foldl_cons, hline]
        exact ih fun r hr => htable r (List.mem_cons_of_mem _ hr)
    rw [hsame _ (tidy_behind h)]
    exact ⟨le_rfl, hstate⟩

/-- A line of the notes is taken for their end. -/
def Cut (e : Phone) : Prop := ∃ lines ∈ e.notes, ∃ line ∈ lines, endsNotes line = true

theorem notes_short (htidy : ∀ line ∈ lines, Tidy line) (hcut : ∃ line ∈ lines, endsNotes line = true)
    (hs : s.scanState = .notes) : weight (lines.foldl loadLine s) + 1 ≤ weight s + lines.length := by
  induction lines generalizing s with
  | nil =>
    obtain ⟨line, hline, -⟩ := hcut
    exact absurd hline List.not_mem_nil
  | cons line lines ih =>
    have hwhole := (htidy line List.mem_cons_self).whole
    rw [List.foldl_cons, List.length_cons]
    by_cases hend : endsNotes line = true
    · have hline : loadLine s line = { s with scanState := .entry } := by
        rw [loadLine, hs]
        dsimp only
        rw [hwhole, if_pos hend]
      have hsame : weight { s with scanState := .entry } = weight s := rfl
      have hrest := weight_lines { s with scanState := .entry } lines
      rw [hline]
      omega
    · have hstate : (loadLine s line).scanState = .notes := by
        rw [loadLine, hs]
        dsimp only
        rw [hwhole, if_neg hend]
        exact hs
      have hlater : ∃ l ∈ lines, endsNotes l = true := by
        obtain ⟨l, hl, hends⟩ := hcut
        cases List.mem_cons.mp hl with
        | inl heq =>
          rw [heq] at hends
          exact absurd hends hend
        | inr hmem => exact ⟨l, hmem, hends⟩
      have hline := weight_line s line
      have hrest := ih (fun l hl => htidy l (List.mem_cons_of_mem _ hl)) hlater hstate
      omega

/-- The notes of an entry add their lines at most, and fewer when they end too early. -/
theorem notes_weight {notes : Option (List Text)} (htidy : ∀ lines ∈ notes, ∀ line ∈ lines, Tidy line)
    (hs : s.scanState = .entry) : ((noteLines notes).foldl loadLine s).scanState ≠ .notes ∧
      weight ((noteLines notes).foldl loadLine s) ≤ weight s + (notes.getD []).length ∧
      ((∃ lines ∈ notes, ∃ line ∈ lines, endsNotes line = true) →
        weight ((noteLines notes).foldl loadLine s) + 1 ≤ weight s + (notes.getD []).length) := by
  cases notes with
  | none =>
    refine ⟨?_, le_rfl, ?_⟩
    · rw [noteLines, List.foldl_nil, hs]
      decide
    · intro hcut
      obtain ⟨lines, hlines, -⟩ := hcut
      cases hlines
  | some lines =>
    have hfirst : loadLine s (written (.notes, bytes "<<<END")) = setKey (bytes "<<<END") s .notes :=
      loadLine_written (.notes, bytes "<<<END") tidy_opening hs
    have hopen := weight_setKey (bytes "<<<END") s .notes
    rw [noteLines, List.cons_append, List.foldl_cons, hfirst, List.foldl_append, List.foldl_cons, List.foldl_nil]
    obtain ⟨hend, hstate⟩ := end_line (lines.foldl loadLine (setKey (bytes "<<<END") s .notes))
    have hlines := weight_lines (setKey (bytes "<<<END") s .notes) lines
    refine ⟨hstate, ?_, ?_⟩
    · rw [Option.getD_some]
      omega
    · intro hcut
      obtain ⟨others, hothers, hbad⟩ := hcut
      obtain rfl := Option.some.inj hothers
      have hshort := notes_short (htidy lines rfl) hbad (rfl : (setKey (bytes "<<<END") s .notes).scanState = .notes)
      rw [Option.getD_some]
      omega

theorem entry_weight (h : Clean e) (hs : s.scanState = .none) : ((entryLines e).foldl loadLine s).scanState = .none ∧
    weight ((entryLines e).foldl loadLine s) ≤ weight s + weigh [e] ∧
      (Cut e → weight ((entryLines e).foldl loadLine s) + 1 ≤ weight s + weigh [e]) := by
  obtain ⟨hload, hstate⟩ := load_rows (rowed_before h) (rfl : (newEntry s).scanState = .entry)
  have hopen := weight_newEntry s
  have hrows := weight_rows (newEntry s) (rowsBefore e)
  rw [entryLines, List.append_assoc, List.append_assoc, List.cons_append, List.foldl_cons, entry_line hs,
    List.foldl_append, hload, List.foldl_append, List.foldl_append, weigh_single]
  generalize (rowsBefore e).foldl (fun s row => setKey row.2 s row.1) (newEntry s) = t at hstate hrows
  obtain ⟨hleft, hnotes, hcut⟩ := notes_weight h.notes hstate
  obtain ⟨hbehind, hnone⟩ := behind_weight h hleft
  rw [List.foldl_cons, List.foldl_nil, blank_line hnone]
  refine ⟨hnone, by omega, ?_⟩
  intro hbad
  have hless := hcut hbad
  omega

theorem book_weight (h : ∀ e ∈ book, Clean e) (hs : s.scanState = .none) :
    weight ((book.flatMap entryLines).foldl loadLine s) ≤ weight s + weigh book ∧
      ((∃ e ∈ book, Cut e) → weight ((book.flatMap entryLines).foldl loadLine s) + 1 ≤ weight s + weigh book) := by
  induction book generalizing s with
  | nil =>
    refine ⟨Nat.le_add_right _ _, ?_⟩
    intro hcut
    obtain ⟨e, he, -⟩ := hcut
    exact absurd he List.not_mem_nil
  | cons e book ih =>
    obtain ⟨hnone, hentry, hstrict⟩ := entry_weight (h e List.mem_cons_self) hs
    obtain ⟨hrest, hrestStrict⟩ := ih (fun o ho => h o (List.mem_cons_of_mem _ ho)) hnone
    have hsum : weigh (e :: book) = weigh [e] + weigh book := weigh_append [e] book
    rw [List.flatMap_cons, List.foldl_append, hsum]
    refine ⟨by omega, ?_⟩
    intro hcut
    obtain ⟨o, ho, hbad⟩ := hcut
    cases List.mem_cons.mp ho with
    | inl heq =>
      rw [heq] at hbad
      have hless := hstrict hbad
      omega
    | inr hmem =>
      have hless := hrestStrict ⟨o, hmem, hbad⟩
      omega

theorem uncut_of_restored (h : ∀ e ∈ book, Clean e) (hrestored : Restored book) : ¬ ∃ e ∈ book, Cut e := by
  intro hcut
  have hless := (book_weight h (rfl : unread.scanState = .none)).2 hcut
  rw [Restored, load_saved h] at hrestored
  generalize (book.flatMap entryLines).foldl loadLine unread = s at hless hrestored
  obtain ⟨e, he, hloaded⟩ := Option.map_eq_some_iff.mp hrestored
  have hbook : s.older ++ [fixupLast e] = book := congrArg Loaded.entries hloaded
  have hlast : weigh [fixupLast e] = weigh [e] := rfl
  have hsame : weight s = weigh book := by
    rw [weight, he, ← hbook, weigh_append, weigh_append, hlast]
    rfl
  have hempty : weight unread = 0 := rfl
  omega

/-- A phonebook comes back as it was saved if and only if it has an entry, no line of the notes is a part of `END`, and
no last call is negative. -/
theorem book_restored (book : List Phone) (h : ∀ e ∈ book, Clean e) :
    Restored book ↔ book ≠ [] ∧ ∀ e ∈ book, Kept e := by
  constructor
  · intro hrestored
    have huncut := uncut_of_restored h hrestored
    have hne : book ≠ [] := by
      rintro rfl
      rw [Restored, load_saved h] at hrestored
      cases hrestored
    have hends : ∀ e ∈ book, ∀ lines ∈ e.notes, ∀ line ∈ lines, endsNotes line = false := by
      intro e he lines hlines line hline
      by_contra hbad
      exact huncut ⟨e, he, lines, hlines, line, hline, by simpa using hbad⟩
    have hreloaded := book_reloaded h hne hends
    rw [Restored] at hrestored
    rw [hrestored] at hreloaded
    have hmap : book = book.map reloaded := congrArg Loaded.entries (Option.some.inj hreloaded)
    refine ⟨hne, ?_⟩
    intro e he
    have hsame : reloaded e = e := by
      have hall : book.map reloaded = book.map id := by
        rw [List.map_id]
        exact hmap.symm
      exact List.map_inj_left.mp hall e he
    exact ⟨hends e he, (cut_eq_iff e.lastCall).mp (congrArg Phone.lastCall hsame)⟩
  · intro hkept
    obtain ⟨hne, hall⟩ := hkept
    have hmap : book.map reloaded = book := by
      have hid : book.map reloaded = book.map id := by
        apply List.map_congr_left
        intro e he
        have hlast := (cut_eq_iff e.lastCall).mpr (hall e he).lastCall
        rw [reloaded, hlast]
        rfl
      rw [hid, List.map_id]
    have hreloaded := book_reloaded h hne fun e he => (hall e he).notes
    rw [hmap] at hreloaded
    exact hreloaded

/-- An entry whose strings are empty, with one line of notes. -/
def plain : Phone := { fixup fresh with notes := some [bytes "hi"] }

theorem plain_clean : Clean plain where
  texts text htext := by
    have hempty : ∀ o ∈ [plain.name, plain.address, plain.port, plain.username, plain.password, plain.scriptFilename,
        plain.captureFilename, plain.translate8bitFilename, plain.translateUnicodeFilename,
        plain.keybindingsFilename], o = some [] := by
      decide
    exact ⟨[], hempty text htext, tidy_empty⟩
  notes notes hnotes := by
    obtain rfl := Option.some.inj hnotes
    decide
  fit := by decide

theorem book_restored_plain : Restored [plain] ↔ [plain] ≠ [] ∧ ∀ e ∈ [plain], Kept e := by
  apply book_restored
  intro e he
  rw [List.mem_singleton.mp he]
  exact plain_clean

/-- Nothing is loaded of a file without an entry. -/
theorem not_book_restored : ¬ ∀ book : List Phone, (∀ e ∈ book, Clean e) → Restored book := by
  intro h
  have hempty := h [] fun _ hnever => absurd hnever List.not_mem_nil
  have hnone : (loadPhonebook (savePhonebook [])).isNone = true := by decide
  rw [Restored] at hempty
  rw [hempty] at hnone
  cases hnone

end CProgram.Qodem.SavedBook
