import CProgram.Qodem.Messages

/-! What a later reader of the message base gets: the messages that were saved and not killed, as long as each is
plain and only the last of at most two is killed. -/
namespace CProgram.Qodem.Messages
open Lines

/-- The lines of a message in the file. -/
def Fits (lines : List Text) : Prop :=
  lines ≠ [] ∧ ∀ line ∈ lines, 10 ∉ line ∧ line.length < lineRoom ∧ trim line ≠ separator

def blocksOf (blocks : List (List Text)) : List UInt8 := (blocks.map fun lines => rows (separator :: lines)).flatten

/-- The file holds the messages that are kept, up to white space at the ends of their lines. -/
structure Stored (file : List UInt8) (kept : List Letter) (blocks : List (List Text)) : Prop where
  file : file = blocksOf blocks
  fits : ∀ lines ∈ blocks, Fits lines
  shown : blocks.map (·.map trim) = kept.map Letter.shown

structure Sound (s : Board) : Prop where
  stored : ∃ blocks, Stored s.file s.kept blocks
  memory : s.allMessages = [] ∨ s.allMessages = s.kept.map (some ∘ Letter.shown)

/-- What `read_all_messages` has behind the messages it has read. -/
inductive Holding : List (List Text) → Reader → Prop
  | nothing : Holding [] ⟨[], none⟩
  | last (front : List (List Text)) (last : List Text) : Holding (front ++ [last]) ⟨front.map some ++ [none], some last⟩

variable {line : Text} {lines : List Text} {ms blocks : List (List Text)} {r : Reader} {s t : Board} {m : Letter}

theorem trim_newline (line : Text) : trim (line ++ [10]) = trim line := by
  rw [trim, List.rdropWhile_concat_pos isBlank line 10 rfl, trim]

theorem mem_trim {ch : UInt8} (h : ch ∈ trim line) : ch ∈ line :=
  (List.rdropWhile_prefix isBlank line).sublist.mem ((List.dropWhile_sublist _).mem h)

theorem length_trim_le (line : Text) : (trim line).length ≤ line.length :=
  (List.dropWhile_sublist _).length_le.trans (List.rdropWhile_prefix isBlank line).length_le

theorem trim_trim (line : Text) : trim (trim line) = trim line := by
  have hends : (trim line).rdropWhile isBlank = trim line := by
    rw [List.rdropWhile_eq_self_iff]
    intro hne
    have hsuffix : trim line <:+ line.rdropWhile isBlank := List.dropWhile_suffix _
    have hline : line.rdropWhile isBlank ≠ [] := by
      intro hnil
      rw [hnil] at hsuffix
      exact hne (List.suffix_nil.mp hsuffix)
    rw [hsuffix.getLast hne]
    exact List.rdropWhile_last_not isBlank line hline
  rw [trim, hends, trim, List.dropWhile_idempotent]

theorem fgets_rows {room : ℕ} (h : ∀ line ∈ lines, 10 ∉ line ∧ line.length < room) (rest : List UInt8) :
    fgets room [] (rows lines ++ rest) = lines.map (· ++ [10]) ++ fgets room [] rest := by
  induction lines with
  | nil => rfl
  | cons line lines ih =>
    obtain ⟨hends, hroom⟩ := h line List.mem_cons_self
    have hsplit : rows (line :: lines) ++ rest = line ++ 10 :: (rows lines ++ rest) := by simp [rows]
    rw [hsplit, fgets_line (fun ch hch heq => hends (heq ▸ hch)) (by simpa using hroom),
      ih fun l hl => h l (List.mem_cons_of_mem _ hl)]
    rfl

theorem fgets_blocks (h : ∀ lines ∈ blocks, Fits lines) :
    fgets lineRoom [] (blocksOf blocks) = (blocks.map fun lines => (separator :: lines).map (· ++ [10])).flatten := by
  induction blocks with
  | nil => rfl
  | cons lines blocks ih =>
    have hrows : ∀ line ∈ separator :: lines, 10 ∉ line ∧ line.length < lineRoom := by
      intro line hline
      cases List.mem_cons.mp hline with
      | inl heq =>
        rw [heq]
        decide
      | inr hmem =>
        obtain ⟨hends, hroom, -⟩ := (h lines List.mem_cons_self).2 line hmem
        exact ⟨hends, hroom⟩
    have hsplit : blocksOf (lines :: blocks) = rows (separator :: lines) ++ blocksOf blocks := rfl
    rw [hsplit, fgets_rows hrows, ih fun l hl => h l (List.mem_cons_of_mem _ hl)]
    rfl

/-- The lines of one message are collected. -/
theorem collects (h : ∀ line ∈ lines, trim line ≠ separator) (all : List Slot) (message : List Text) :
    (lines.map (· ++ [10])).foldlM Reader.line ⟨all, some message⟩ = some ⟨all, some (message ++ lines.map trim)⟩ := by
  induction lines generalizing message with
  | nil => simp
  | cons line lines ih =>
    have hline : Reader.line ⟨all, some message⟩ (line ++ [10]) = some ⟨all, some (message ++ [trim line])⟩ := by
      rw [Reader.line, trim_newline, if_neg (h line List.mem_cons_self)]
      rfl
    rw [List.map_cons, List.foldlM_cons, hline]
    change (lines.map (· ++ [10])).foldlM Reader.line ⟨all, some (message ++ [trim line])⟩ = _
    rw [ih fun l hl => h l (List.mem_cons_of_mem _ hl)]
    simp

/-- One message behind the others. -/
theorem Holding.block (h : Holding ms r) (hfits : Fits lines) :
    ∃ r', ((separator :: lines).map (· ++ [10])).foldlM Reader.line r = some r' ∧ Holding (ms ++ [lines.map trim]) r' := by
  obtain ⟨hne, hlines⟩ := hfits
  obtain ⟨line, rest, rfl⟩ := List.exists_cons_of_ne_nil hne
  have hfirst (all : List Slot) : ((line :: rest).map (· ++ [10])).foldlM Reader.line ⟨all, none⟩ =
      some ⟨all, some ((line :: rest).map trim)⟩ := by
    have hline : Reader.line ⟨all, none⟩ (line ++ [10]) = some ⟨all, some [trim line]⟩ := by
      rw [Reader.line, trim_newline, if_neg (hlines line List.mem_cons_self).2.2]
      rfl
    rw [List.map_cons, List.foldlM_cons, hline]
    exact collects (fun l hl => (hlines l (List.mem_cons_of_mem _ hl)).2.2) all [trim line]
  have hseparator : trim (separator ++ [10]) = separator := by decide
  rw [List.map_cons, List.foldlM_cons]
  cases h with
  | nothing =>
    refine ⟨⟨[none], some ((line :: rest).map trim)⟩, ?_, Holding.last [] _⟩
    have hopen : Reader.line ⟨[], none⟩ (separator ++ [10]) = some ⟨[none], none⟩ := by
      rw [Reader.line, if_pos hseparator]
      rfl
    rw [hopen]
    exact hfirst [none]
  | last front last =>
    refine ⟨⟨(front ++ [last]).map some ++ [none], some ((line :: rest).map trim)⟩, ?_, Holding.last (front ++ [last]) _⟩
    have hopen : Reader.line ⟨front.map some ++ [none], some last⟩ (separator ++ [10]) =
        some ⟨(front ++ [last]).map some ++ [none], none⟩ := by
      rw [Reader.line, if_pos hseparator]
      simp
    rw [hopen]
    exact hfirst _

theorem Holding.finish (h : Holding ms r) : r.finish = some (ms.map some) := by
  cases h with
  | nothing => rfl
  | last front last =>
    rw [Reader.finish]
    simp

theorem holds_blocks (hfits : ∀ lines ∈ blocks, Fits lines) (h : Holding ms r) :
    ∃ r', ((blocks.map fun lines => (separator :: lines).map (· ++ [10])).flatten).foldlM Reader.line r = some r' ∧
      Holding (ms ++ blocks.map (·.map trim)) r' := by
  induction blocks generalizing ms r with
  | nil => exact ⟨r, rfl, by simpa using h⟩
  | cons lines blocks ih =>
    obtain ⟨r', hblock, hholds⟩ := h.block (hfits lines List.mem_cons_self)
    obtain ⟨r'', hrest, hlast⟩ := ih (fun l hl => hfits l (List.mem_cons_of_mem _ hl)) hholds
    refine ⟨r'', ?_, by simpa using hlast⟩
    rw [List.map_cons, List.flatten_cons, List.foldlM_append, hblock]
    exact hrest

/-- The file is read as the messages that are kept. -/
theorem Stored.read {file : List UInt8} {kept : List Letter} (h : Stored file kept blocks) :
    readAllMessages file = some (kept.map (some ∘ Letter.shown)) := by
  obtain ⟨r, hfold, hholds⟩ := holds_blocks h.fits Holding.nothing
  rw [readAllMessages, h.file, fgets_blocks h.fits, hfold]
  change r.finish = _
  rw [hholds.finish, List.nil_append, h.shown, List.map_map]

theorem Sound.read (h : Sound s) : readAllMessages s.file = some (s.kept.map (some ∘ Letter.shown)) := by
  obtain ⟨blocks, hstored⟩ := h.stored
  exact hstored.read

/-! One key -/

theorem displayMessage_eq (h : s.displayMessage = some t) : t = s := by
  rw [Board.displayMessage] at h
  split at h
  · exact (Option.some.inj h).symm
  split at h
  · cases h
  split at h
  · exact (Option.some.inj h).symm
  · cases h

/-- Another message on display. -/
theorem Sound.turn (h : Sound s) (currentMessage : ℤ) : Sound { s with currentMessage } := ⟨h.stored, h.memory⟩

theorem Sound.mainMenu (h : Sound s) : Sound s.mainMenu := ⟨h.stored, Or.inl rfl⟩

theorem Sound.readMessagesMenu (h : Sound s) (hmenu : s.readMessagesMenu = some t) : Sound t := by
  obtain ⟨all, hall, hdisplay⟩ := Option.bind_eq_some_iff.mp hmenu
  rw [displayMessage_eq hdisplay]
  constructor
  · exact h.stored
  · split at hall
    · rw [h.read] at hall
      exact Or.inr (Option.some.inj hall).symm
    · next hne =>
      rw [← Option.some.inj hall]
      exact h.memory

theorem fits_lines (h : m.Plain) : Fits m.lines := ⟨List.cons_ne_nil _ _, h⟩

theorem Sound.enterMessage (h : Sound s) {save : Bool} (hplain : save = true → m.Plain)
    (henter : s.enterMessage m save = some t) : Sound t := by
  rw [Board.enterMessage] at henter
  split at henter
  · obtain rfl := Option.some.inj henter
    split
    · next hsave =>
      obtain ⟨blocks, hfile, hfits, hshown⟩ := h.stored
      refine ⟨⟨blocks ++ [m.lines], ?_, ?_, ?_⟩, Or.inl rfl⟩
      · change s.file ++ rows (separator :: m.lines) = _
        rw [hfile, blocksOf, blocksOf, List.map_append, List.flatten_append]
        simp
      · intro lines hlines
        cases List.mem_append.mp hlines with
        | inl hold => exact hfits lines hold
        | inr hnew =>
          rw [List.mem_singleton.mp hnew]
          exact fits_lines (hplain hsave)
      · change _ = (s.kept ++ [m]).map Letter.shown
        rw [List.map_append, List.map_append, hshown]
        rfl
    · exact h.mainMenu
  · cases henter

/-- A message that is written back is as it was read. -/
theorem Stored.rewritten {file : List UInt8} {a b : Letter} (h : Stored file [a, b] blocks) :
    Stored (rows (separator :: a.shown)) [a] [a.shown] where
  file := by simp [blocksOf]
  fits lines hlines := by
    rw [List.mem_singleton.mp hlines]
    constructor
    · exact List.cons_ne_nil _ _
    have hmem : a.shown ∈ blocks.map (·.map trim) := by
      rw [h.shown]
      exact List.mem_cons_self
    obtain ⟨old, hold, heq⟩ := List.mem_map.mp hmem
    intro line hline
    rw [← heq] at hline
    obtain ⟨raw, hraw, rfl⟩ := List.mem_map.mp hline
    obtain ⟨hends, hroom, hnot⟩ := (h.fits old hold).2 raw hraw
    refine ⟨fun hmem => hends (mem_trim hmem), (length_trim_le raw).trans_lt hroom, ?_⟩
    rw [trim_trim]
    exact hnot
  shown := by
    simp only [List.map_cons, List.map_nil, Letter.shown, List.map_map, List.cons.injEq, and_true]
    apply List.map_congr_left
    intro line _
    exact trim_trim line

theorem Sound.killReadMessage (h : Sound s) (hfew : s.allMessages.length ≤ 2)
    (hlast : s.currentMessage + 1 = s.allMessages.length) (hkill : s.killReadMessage = some t) : Sound t := by
  obtain ⟨file, allMessages, currentMessage, reading, kept⟩ := s
  obtain ⟨⟨blocks, hstored⟩, hmemory⟩ := h
  dsimp only at hfew hlast hstored hmemory
  rw [Board.killReadMessage] at hkill
  dsimp only at hkill
  split at hkill
  · cases hkill
  next hcurrent =>
  have hall : allMessages = kept.map (some ∘ Letter.shown) := by
    apply hmemory.resolve_left
    intro hnil
    rw [hnil] at hlast
    simp only [List.length_nil] at hlast
    omega
  rw [hall, List.length_map] at hfew hlast
  rw [hall] at hkill
  match kept, hfew with
  | [], _ =>
    simp only [List.length_nil] at hlast
    omega
  | [a], _ =>
    obtain rfl : currentMessage = 0 := by
      simp only [List.length_singleton] at hlast
      omega
    have hempty : Sound ⟨[], [], -1, reading, []⟩ := ⟨⟨[], rfl, by simp, rfl⟩, Or.inl rfl⟩
    have hget : ([a].map (some ∘ Letter.shown))[Int.toNat 0]? = some (some a.shown) := rfl
    have hmoved : (moveSlots ([a].map (some ∘ Letter.shown)) (Int.toNat 0)).dropLast = [] := by
      simp [moveSlots]
    have hwritten : saveAllMessages [] = some [] := rfl
    rw [hget] at hkill
    simp only [hmoved, hwritten] at hkill
    exact hempty.readMessagesMenu hkill
  | [a, b], _ =>
    obtain rfl : currentMessage = 1 := by
      simp only [List.length_cons, List.length_nil] at hlast
      omega
    have hone : Sound ⟨rows (separator :: a.shown), [some a.shown], 0, reading, [a]⟩ :=
      ⟨⟨_, hstored.rewritten⟩, Or.inr rfl⟩
    have hget : ([a, b].map (some ∘ Letter.shown))[Int.toNat 1]? = some (some b.shown) := rfl
    have hmoved : (moveSlots ([a, b].map (some ∘ Letter.shown)) (Int.toNat 1)).dropLast = [some a.shown] := by
      simp [moveSlots]
    have hwritten : saveAllMessages [some a.shown] = some (rows (separator :: a.shown)) := by
      simp [saveAllMessages, everySecond, writeSlots]
    rw [hget] at hkill
    simp only [hmoved, hwritten] at hkill
    exact hone.readMessagesMenu hkill

/-- A key that meets the condition leaves the file with what is kept. -/
theorem Sound.step (h : Sound s) {key : Key} (hmeets : Meets s key) (hstep : s.step key = some t) : Sound t := by
  cases key with
  | enter m save =>
    apply h.enterMessage _ hstep
    rintro rfl
    exact hmeets
  | read => exact h.readMessagesMenu hstep
  | view =>
    rw [Board.step] at hstep
    split at hstep
    · rw [displayMessage_eq hstep]
      exact h
    · rw [← Option.some.inj hstep]
      exact h
  | previous =>
    rw [Board.step, Board.previousMessage] at hstep
    split at hstep
    · exact (h.turn _).readMessagesMenu hstep
    · rw [← Option.some.inj hstep]
      exact h
  | next =>
    rw [Board.step, Board.nextMessage] at hstep
    split at hstep
    · exact (h.turn _).readMessagesMenu hstep
    · rw [← Option.some.inj hstep]
      exact h
  | kill =>
    rw [Board.step] at hstep
    split at hstep
    · next hreading =>
      obtain ⟨hfew, hlast⟩ := hmeets hreading
      exact h.killReadMessage hfew hlast hstep
    · rw [← Option.some.inj hstep]
      exact h
  | quit | hangup =>
    rw [← Option.some.inj hstep]
    exact h.mainMenu

theorem start_sound : Sound Board.start := ⟨⟨[], rfl, by simp, rfl⟩, Or.inl rfl⟩

theorem run_sound (h : Sound s) {keys : List Key} (hmeets : MeetsAll s keys) (hrun : s.run keys = some t) : Sound t := by
  induction keys generalizing s with
  | nil =>
    obtain rfl := Option.some.inj hrun
    exact h
  | cons key later ih =>
    obtain ⟨u, hkey, hlater⟩ := Option.bind_eq_some_iff.mp hrun
    exact ih (h.step hmeets.1 hkey) (hmeets.2 u hkey) hlater

end CProgram.Qodem.Messages
