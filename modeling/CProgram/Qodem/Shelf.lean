import CProgram.Qodem.Callers
import CProgram.Qodem.Kept

/-! The message file and the messages in memory as long as every message that is saved can be read and the last one
is killed: every slot is set, and the current message is one of them. -/
namespace CProgram.Qodem.Callers
open Messages Lines

/-- A message as it is read. -/
def Proper (m : List Text) : Prop :=
  m ≠ [] ∧ ∀ line ∈ m, 10 ∉ line ∧ line.length < lineRoom ∧ trim line = line ∧ line ≠ separator

/-- Lines that `fgets` gives whole. -/
def Short (lines : List Text) : Prop := ∀ line ∈ lines, 10 ∉ line ∧ line.length < lineRoom

/-- What the reader has inside a file: behind a separator, or behind another line. -/
inductive Begun : Bool → List (List Text) → Reader → Prop
  | opened (ms : List (List Text)) : Begun true ms ⟨ms.map some ++ [none], none⟩
  | inside (front : List (List Text)) (last : List Text) :
      Begun false (front ++ [last]) ⟨front.map some ++ [none], some last⟩

/-- The file is read to its end. -/
structure Sorted (file : List UInt8) : Prop where
  read : ∃ lines ms r, file = rows lines ∧ Short lines ∧ (∀ m ∈ ms, Proper m) ∧ Holding ms r ∧
    (lines.map (· ++ [10])).foldlM Reader.line ⟨[], none⟩ = some r

structure Whole (b : Board) : Prop where
  file : Sorted b.file
  slots : ∀ slot ∈ b.allMessages, ∃ m, slot = some m ∧ Proper m
  current : b.allMessages = [] ∧ (b.currentMessage = 0 ∨ b.file = []) ∨
    0 ≤ b.currentMessage ∧ b.currentMessage < b.allMessages.length

variable {line : Text} {lines : List Text} {ms : List (List Text)} {r : Reader} {opened : Bool} {b : Board} {m : Letter}
  {file : List UInt8} {all : List Slot}

theorem rows_append (lines later : List Text) : rows (lines ++ later) = rows lines ++ rows later := by
  simp [rows]

theorem rows_flatten (blocks : List (List Text)) : rows blocks.flatten = (blocks.map rows).flatten := by
  induction blocks with
  | nil => rfl
  | cons lines blocks ih => rw [List.flatten_cons, rows_append, ih, List.map_cons, List.flatten_cons]

theorem fgets_short (h : Short lines) : fgets lineRoom [] (rows lines) = lines.map (· ++ [10]) := by
  have hrows := fgets_rows h []
  rw [List.append_nil] at hrows
  rw [hrows]
  exact List.append_nil _

theorem proper_fits {m : List Text} (h : Proper m) : Fits m := by
  refine ⟨h.1, ?_⟩
  intro line hline
  obtain ⟨hends, hroom, htrim, hne⟩ := h.2 line hline
  refine ⟨hends, hroom, ?_⟩
  rw [htrim]
  exact hne

theorem map_trim_proper {m : List Text} (h : Proper m) : m.map trim = m := by
  have hsame : m.map trim = m.map id := by
    apply List.map_congr_left
    intro line hline
    exact (h.2 line hline).2.2.1
  rw [hsame, List.map_id]

/-- A trimmed line of a message. -/
theorem proper_line (hends : 10 ∉ line) (hroom : line.length < lineRoom) (hne : trim line ≠ separator) :
    10 ∉ trim line ∧ (trim line).length < lineRoom ∧ trim (trim line) = trim line ∧ trim line ≠ separator :=
  ⟨fun hmem => hends (mem_trim hmem), (length_trim_le line).trans_lt hroom, trim_trim line, hne⟩

/-! The reader -/

theorem Begun.separated (h : Begun false ms r) (hline : trim line = separator) :
    ∃ r', r.line (line ++ [10]) = some r' ∧ Begun true ms r' := by
  cases h with
  | inside front last =>
    have hopened := Begun.opened (front ++ [last])
    refine ⟨_, ?_, hopened⟩
    rw [Reader.line, trim_newline, if_pos hline]
    simp

theorem Begun.collected (h : Begun opened ms r) (hms : ∀ m ∈ ms, Proper m) (hends : 10 ∉ line)
    (hroom : line.length < lineRoom) (hline : trim line ≠ separator) :
    ∃ ms' r', r.line (line ++ [10]) = some r' ∧ Begun false ms' r' ∧ ∀ m ∈ ms', Proper m := by
  have hproper := proper_line hends hroom hline
  cases h with
  | opened =>
    refine ⟨_, _, ?_, Begun.inside ms [trim line], ?_⟩
    · rw [Reader.line, trim_newline, if_neg hline]
      rfl
    · intro m hm
      cases List.mem_append.mp hm with
      | inl hold => exact hms m hold
      | inr hnew =>
        rw [List.mem_singleton.mp hnew]
        refine ⟨List.cons_ne_nil _ _, ?_⟩
        intro l hl
        rw [List.mem_singleton.mp hl]
        exact hproper
  | inside front last =>
    have hlast := hms last (by simp)
    refine ⟨_, _, ?_, Begun.inside front (last ++ [trim line]), ?_⟩
    · rw [Reader.line, trim_newline, if_neg hline]
      rfl
    · intro m hm
      cases List.mem_append.mp hm with
      | inl hold => exact hms m (List.mem_append_left _ hold)
      | inr hnew =>
        rw [List.mem_singleton.mp hnew]
        refine ⟨by simp, ?_⟩
        intro l hl
        cases List.mem_append.mp hl with
        | inl hin => exact hlast.2 l hin
        | inr hend =>
          rw [List.mem_singleton.mp hend]
          exact hproper

theorem Begun.rows (h : Begun opened ms r) (hms : ∀ m ∈ ms, Proper m) (hshort : Short lines)
    (hparted : Parted opened lines) :
    ∃ ms' r', (lines.map (· ++ [10])).foldlM Reader.line r = some r' ∧ Begun false ms' r' ∧ ∀ m ∈ ms', Proper m := by
  induction lines generalizing opened ms r with
  | nil =>
    obtain rfl : opened = false := hparted
    exact ⟨ms, r, rfl, h, hms⟩
  | cons line lines ih =>
    obtain ⟨hends, hroom⟩ := hshort line List.mem_cons_self
    have hlater : Short lines := fun l hl => hshort l (List.mem_cons_of_mem _ hl)
    rw [Parted] at hparted
    rw [List.map_cons, List.foldlM_cons]
    split at hparted
    · next hline =>
      obtain ⟨rfl, hrest⟩ := hparted
      obtain ⟨r', hr', hbegun⟩ := h.separated hline
      rw [hr']
      exact ih hbegun hms hlater hrest
    · next hline =>
      obtain ⟨ms', r', hr', hbegun, hproper⟩ := h.collected hms hends hroom hline
      rw [hr']
      exact ih hbegun hproper hlater hparted

theorem opened_of_holding (h : Holding ms r) : ∃ r', r.line (separator ++ [10]) = some r' ∧ Begun true ms r' := by
  have hseparator : trim (separator ++ [10]) = separator := by decide
  cases h with
  | nothing =>
    refine ⟨_, ?_, Begun.opened []⟩
    rw [Reader.line, if_pos hseparator]
    rfl
  | last front last =>
    refine ⟨_, ?_, Begun.opened (front ++ [last])⟩
    rw [Reader.line, if_pos hseparator]
    simp

theorem Begun.holding (h : Begun false ms r) : Holding ms r := by
  cases h with
  | inside front last => exact Holding.last front last

/-! The file -/

theorem splitOn_cases (ch : UInt8) (line : Text) : ch = 10 ∧ (ch :: line).splitOn 10 = [] :: line.splitOn 10 ∨
    ch ≠ 10 ∧ ∃ part parts, line.splitOn 10 = part :: parts ∧ (ch :: line).splitOn 10 = (ch :: part) :: parts := by
  rw [List.splitOn_cons_eq_if_modifyHead]
  by_cases hch : ch = 10
  · exact Or.inl ⟨hch, if_pos (by simpa using hch)⟩
  · obtain ⟨part, parts, hparts⟩ := List.exists_cons_of_ne_nil (List.splitOn_ne_nil (10 : UInt8) line)
    refine Or.inr ⟨hch, part, parts, hparts, ?_⟩
    rw [if_neg (by simpa using hch), hparts]
    rfl

theorem rows_splitOn (line : Text) : rows (line.splitOn 10) = line ++ [10] := by
  induction line with
  | nil => rfl
  | cons ch line ih =>
    cases splitOn_cases ch line with
    | inl hsplit =>
      obtain ⟨rfl, hparts⟩ := hsplit
      have hcons : rows ([] :: line.splitOn 10) = 10 :: rows (line.splitOn 10) := rfl
      rw [hparts, hcons, ih]
      rfl
    | inr hsplit =>
      obtain ⟨-, part, parts, hline, hparts⟩ := hsplit
      have hcons : rows ((ch :: part) :: parts) = ch :: rows (part :: parts) := rfl
      rw [hparts, hcons, ← hline, ih]
      rfl

theorem splitOn_unbroken {part : Text} (h : part ∈ line.splitOn 10) : 10 ∉ part := by
  induction line generalizing part with
  | nil =>
    rw [List.splitOn_nil, List.mem_singleton] at h
    rw [h]
    exact List.not_mem_nil
  | cons ch line ih =>
    cases splitOn_cases ch line with
    | inl hsplit =>
      rw [hsplit.2] at h
      cases List.mem_cons.mp h with
      | inl hnil =>
        rw [hnil]
        exact List.not_mem_nil
      | inr hmem => exact ih hmem
    | inr hsplit =>
      obtain ⟨hch, first, parts, hline, hparts⟩ := hsplit
      rw [hline] at ih
      rw [hparts] at h
      cases List.mem_cons.mp h with
      | inl hfirst =>
        rw [hfirst]
        intro hmem
        cases List.mem_cons.mp hmem with
        | inl heq => exact hch heq.symm
        | inr hin => exact ih List.mem_cons_self hin
      | inr hmem => exact ih (List.mem_cons_of_mem _ hmem)

theorem rows_typedLines (m : Letter) : rows (separator :: m.lines) = rows (separator :: typedLines m) := by
  have hall (lines : List Text) : rows (lines.flatMap (·.splitOn 10)) = rows lines := by
    induction lines with
    | nil => rfl
    | cons line lines ih =>
      rw [List.flatMap_cons, rows_append, ih, rows_splitOn]
      rfl
  have hcons (lines : List Text) : rows (separator :: lines) = separator ++ [10] ++ rows lines := rfl
  rw [hcons, hcons, typedLines, hall]

theorem Sorted.appended (h : Sorted file) (hm : Readable m) : Sorted (file ++ rows (separator :: m.lines)) := by
  obtain ⟨lines, ms, r, hfile, hshort, hms, hholds, hread⟩ := h.read
  have htyped : Short (typedLines m) := by
    intro line hline
    obtain ⟨whole, -, hpart⟩ := List.mem_flatMap.mp hline
    exact ⟨splitOn_unbroken hpart, hm.room line hline⟩
  obtain ⟨r', hr', hbegun⟩ := opened_of_holding hholds
  obtain ⟨ms'', r'', hrest, hinside, hproper⟩ := hbegun.rows hms htyped hm.parted
  refine ⟨lines ++ separator :: typedLines m, ms'', r'', ?_, ?_, hproper, hinside.holding, ?_⟩
  · rw [rows_append, hfile, rows_typedLines]
  · intro line hline
    cases List.mem_append.mp hline with
    | inl hold => exact hshort line hold
    | inr hnew =>
      cases List.mem_cons.mp hnew with
      | inl heq =>
        rw [heq]
        decide
      | inr hmem => exact htyped line hmem
  · rw [List.map_append, List.foldlM_append, hread, List.map_cons]
    change ((separator ++ [10]) :: (typedLines m).map (· ++ [10])).foldlM Reader.line r = _
    rw [List.foldlM_cons, hr']
    exact hrest

theorem Sorted.messages (h : Sorted file) : ∃ ms : List (List Text), readAllMessages file = some (ms.map some) ∧ ∀ m ∈ ms, Proper m := by
  obtain ⟨lines, ms, r, hfile, hshort, hms, hholds, hread⟩ := h.read
  refine ⟨ms, ?_, hms⟩
  rw [readAllMessages, hfile, fgets_short hshort, hread]
  exact hholds.finish

theorem sorted_blocks (h : ∀ m ∈ ms, Proper m) : Sorted (blocksOf ms) := by
  have hfits : ∀ m ∈ ms, Fits m := fun m hm => proper_fits (h m hm)
  obtain ⟨r, hread, hholds⟩ := holds_blocks hfits Holding.nothing
  refine ⟨(ms.map fun m => separator :: m).flatten, ms, r, ?_, ?_, h, ?_, ?_⟩
  · rw [rows_flatten, List.map_map]
    rfl
  · intro line hline
    obtain ⟨block, hblock, hmem⟩ := List.mem_flatten.mp hline
    obtain ⟨m, hm, rfl⟩ := List.mem_map.mp hblock
    cases List.mem_cons.mp hmem with
    | inl heq =>
      rw [heq]
      decide
    | inr hin =>
      obtain ⟨hends, hroom, -⟩ := (h m hm).2 line hin
      exact ⟨hends, hroom⟩
  · have hsame : ms.map (·.map trim) = ms := by
      have hmap : ms.map (·.map trim) = ms.map id := by
        apply List.map_congr_left
        intro m hm
        exact map_trim_proper (h m hm)
      rw [hmap, List.map_id]
    rw [List.nil_append, hsame] at hholds
    exact hholds
  · rw [List.map_flatten, List.map_map]
    exact hread

/-! The messages in memory -/

theorem slots_map (h : ∀ slot ∈ all, ∃ m, slot = some m ∧ Proper m) : ∃ ms : List (List Text), all = ms.map some ∧ ∀ m ∈ ms, Proper m := by
  induction all with
  | nil => exact ⟨[], rfl, fun _ h => absurd h List.not_mem_nil⟩
  | cons slot all ih =>
    obtain ⟨m, rfl, hm⟩ := h slot List.mem_cons_self
    obtain ⟨ms, rfl, hms⟩ := ih fun s hs => h s (List.mem_cons_of_mem _ hs)
    refine ⟨m :: ms, rfl, ?_⟩
    intro m' hm'
    cases List.mem_cons.mp hm' with
    | inl heq =>
      rw [heq]
      exact hm
    | inr hmem => exact hms m' hmem

theorem mem_everySecond {slot : Slot} (h : slot ∈ everySecond all) : slot ∈ all := by
  induction all using everySecond.induct with
  | case1 => exact h
  | case2 => exact h
  | case3 first second rest ih =>
    cases List.mem_cons.mp h with
    | inl heq => exact List.mem_cons.mpr (Or.inl heq)
    | inr hmem => exact List.mem_cons_of_mem _ (List.mem_cons_of_mem _ (ih hmem))

theorem writeSlots_map (ms : List (List Text)) : writeSlots (ms.map some) = some (blocksOf ms) := by
  induction ms with
  | nil => rfl
  | cons m ms ih =>
    rw [List.map_cons, writeSlots, ih]
    rfl

theorem saved_sorted (h : ∀ slot ∈ all, ∃ m, slot = some m ∧ Proper m) :
    ∃ file, saveAllMessages all = some file ∧ Sorted file := by
  obtain ⟨ms, hms, hproper⟩ := slots_map fun slot hslot => h slot (mem_everySecond hslot)
  refine ⟨blocksOf ms, ?_, sorted_blocks hproper⟩
  rw [saveAllMessages, hms, writeSlots_map]

theorem Whole.set (h : Whole b) : none ∉ b.allMessages := by
  intro hnone
  obtain ⟨m, hm, -⟩ := h.slots none hnone
  cases hm

theorem whole_mainMenu (h : Sorted b.file) : Whole b.mainMenu :=
  ⟨h, fun _ hslot => absurd hslot List.not_mem_nil, Or.inl ⟨rfl, Or.inl rfl⟩⟩

theorem Whole.display (h : Whole b) : b.displayMessage = some b := by
  rw [Board.displayMessage]
  split
  · rfl
  next hsome =>
  have hcurrent := h.current.resolve_left fun hnil => hsome hnil.1
  have hlt : b.currentMessage.toNat < b.allMessages.length := by omega
  obtain ⟨m, hm, -⟩ := h.slots _ (List.getElem_mem hlt)
  rw [if_neg (by omega), List.getElem?_eq_getElem hlt, hm]

theorem Whole.menu (h : Whole b) : ∃ b', b.readMessagesMenu = some b' ∧ Whole b' := by
  obtain ⟨file, all, current, reading, kept⟩ := b
  obtain ⟨hfile, hslots, hcurrent⟩ := h
  dsimp only at hfile hslots hcurrent
  rw [Board.readMessagesMenu]
  dsimp only
  split
  · next hnil =>
    obtain ⟨ms, hread, hms⟩ := hfile.messages
    rw [hread, Option.bind_some]
    have hwhole : Whole ⟨file, ms.map some, if ((ms.map some).length : ℤ) ≤ current ∧ 0 < (ms.map some).length then
        (ms.map some).length - 1 else current, true, kept⟩ := by
      refine ⟨hfile, ?_, ?_⟩
      · intro slot hslot
        obtain ⟨m, hm, rfl⟩ := List.mem_map.mp hslot
        exact ⟨m, rfl, hms m hm⟩
      · dsimp only
        cases hcurrent with
        | inl hempty =>
          cases hempty.2 with
          | inl hzero =>
            by_cases hms : ms = []
            · left
              simp [hms, hzero]
            · right
              have hpos : 0 < (ms.map (some : List Text → Slot)).length := by
                rw [List.length_map]
                exact List.length_pos_iff.mpr hms
              rw [if_neg (by omega)]
              omega
          | inr hnofile =>
            rw [hnofile] at hread
            have hnone : ms.map some = [] := (Option.some.inj hread).symm
            left
            exact ⟨hnone, Or.inr hnofile⟩
        | inr hin =>
          rw [hnil] at hin
          simp only [List.length_nil] at hin
          omega
    exact ⟨_, hwhole.display, hwhole⟩
  · next hne =>
    have hin := hcurrent.resolve_left fun hnil => hne hnil.1
    rw [Option.bind_some, if_neg (by omega)]
    have hwhole : Whole ⟨file, all, current, true, kept⟩ := ⟨hfile, hslots, Or.inr hin⟩
    exact ⟨_, hwhole.display, hwhole⟩

/-- Another message is the current one. -/
theorem Whole.turned (h : Whole b) {current : ℤ} (hin : b.allMessages = [] → b.currentMessage = 0 → current = 0)
    (hrange : b.allMessages ≠ [] → 0 ≤ current ∧ current < b.allMessages.length) :
    Whole { b with currentMessage := current } where
  file := h.file
  slots := h.slots
  current := by
    by_cases hnil : b.allMessages = []
    · left
      cases h.current with
      | inl hempty => exact ⟨hnil, hempty.2.imp_left (hin hnil)⟩
      | inr hsome =>
        rw [hnil] at hsome
        simp only [List.length_nil] at hsome
        omega
    · exact Or.inr (hrange hnil)

theorem Whole.previous (h : Whole b) : ∃ b', b.previousMessage = some b' ∧ Whole b' := by
  apply Whole.menu
  apply h.turned
  · intro _ hzero
    rw [hzero]
    rfl
  · intro hne
    have hin := h.current.resolve_left fun hnil => hne hnil.1
    split <;> omega

theorem Whole.next (h : Whole b) : ∃ b', b.nextMessage = some b' ∧ Whole b' := by
  apply Whole.menu
  apply h.turned
  · intro hnil hzero
    rw [hnil, hzero]
    rfl
  · intro hne
    have hin := h.current.resolve_left fun hnil => hne hnil.1
    split <;> omega

theorem moveSlots_last {n : ℕ} (h : n + 1 = all.length) : moveSlots all n = all := by
  have hbytes : all.length - n - 1 = 0 := by omega
  rw [moveSlots, hbytes]
  simp

/-- The last message is killed. -/
theorem Whole.killed (h : Whole b) (hne : b.allMessages ≠ []) (hlast : b.currentMessage + 1 = b.allMessages.length) :
    ∃ b', b.killReadMessage = some b' ∧ Whole b' := by
  have hin := h.current.resolve_left fun hnil => hne hnil.1
  have hlt : b.currentMessage.toNat < b.allMessages.length := by omega
  obtain ⟨m, hm, -⟩ := h.slots _ (List.getElem_mem hlt)
  have hslots : ∀ slot ∈ b.allMessages.dropLast, ∃ m, slot = some m ∧ Proper m :=
    fun slot hslot => h.slots slot (List.mem_of_mem_dropLast hslot)
  obtain ⟨file, hfile, hsorted⟩ := saved_sorted hslots
  have hlength : (b.allMessages.dropLast.length : ℤ) = b.currentMessage := by
    rw [List.length_dropLast]
    omega
  rw [Board.killReadMessage, if_neg (by omega), List.getElem?_eq_getElem hlt, hm]
  dsimp only
  rw [moveSlots_last (by omega), hfile, Option.bind_some, if_pos hlength.symm]
  apply Whole.menu
  refine ⟨hsorted, hslots, ?_⟩
  dsimp only
  by_cases hnil : b.allMessages.dropLast = []
  · left
    refine ⟨hnil, Or.inr ?_⟩
    rw [hnil] at hfile
    exact (Option.some.inj hfile).symm
  · right
    have hpos := List.length_pos_iff.mpr hnil
    omega

end CProgram.Qodem.Callers
