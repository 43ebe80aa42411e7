import CProgram.Qodem.SavedBook

/-! The rows of an entry, read back. -/
namespace CProgram.Qodem.SavedBook
open Messages Lines

variable {line text value : Text} {lines later : List Text} {s t : Loading} {e : Phone} {book : List Phone} {k : Key}
  {row : Key × Text} {table : List (Key × Text)}

instance (text : Text) : Decidable (Tidy text) := inferInstanceAs (Decidable (_ ∧ _))

theorem fgets_book (h : ∀ line ∈ lines, 10 ∉ line ∧ line.length < bookRoom) :
    fgets bookRoom [] (rows lines) = lines.map (· ++ [10]) := by
  induction lines with
  | nil => rfl
  | cons line lines ih =>
    obtain ⟨hends, hroom⟩ := h line List.mem_cons_self
    have hsplit : rows (line :: lines) = line ++ 10 :: rows lines := by simp [rows]
    rw [hsplit, fgets_line (fun ch hch heq => hends (heq ▸ hch)) (by simpa using hroom),
      ih fun l hl => h l (List.mem_cons_of_mem _ hl)]
    rfl

theorem note_newline (line : Text) : (line ++ [10]).rdropWhile isBlank = line.rdropWhile isBlank :=
  List.rdropWhile_concat_pos isBlank line 10 rfl

theorem loadLine_newline (s : Loading) (line : Text) : loadLine s (line ++ [10]) = loadLine s line := by
  rw [loadLine, loadLine, trim_newline, note_newline]

theorem load_lines (s : Loading) (lines : List Text) :
    (lines.map (· ++ [10])).foldl loadLine s = lines.foldl loadLine s := by
  induction lines generalizing s with
  | nil => rfl
  | cons line lines ih =>
    rw [List.map_cons, List.foldl_cons, List.foldl_cons, loadLine_newline]
    exact ih _

theorem Tidy.whole (h : Tidy text) : text.rdropWhile isBlank = text := by
  have hstarts := List.rdropWhile_prefix isBlank text
  have hsuffix := (List.dropWhile_suffix (p := isBlank) (l := text.rdropWhile isBlank)).length_le
  have hlength : text.length ≤ (text.rdropWhile isBlank).length := by
    have htrim := h.2
    rw [trim] at htrim
    rw [htrim] at hsuffix
    exact hsuffix
  exact hstarts.eq_of_length (le_antisymm hstarts.length_le hlength)

theorem tidy_unbroken (h : Unbroken text) : Tidy text := by
  have hblank : ∀ ch ∈ text, isBlank ch = false := by
    intro ch hch
    have hspace := h ch hch
    rw [Bool.eq_false_iff]
    intro htrue
    have hcases : ch = 32 ∨ ch = 13 ∨ ch = 10 := of_decide_eq_true htrue
    obtain rfl | rfl | rfl := hcases <;> cases hspace
  refine ⟨fun hmem => ?_, ?_⟩
  · have hspace := h 10 hmem
    cases hspace
  · have hends : text.rdropWhile isBlank = text := by
      rw [List.rdropWhile_eq_self_iff]
      intro hne
      rw [hblank _ (List.getLast_mem hne)]
      decide
    rw [trim, hends]
    apply List.dropWhile_eq_self_iff.mpr
    intro hpos
    rw [hblank _ (List.getElem_mem hpos)]
    decide

theorem keys_read : ∀ k ∈ keys, keyOf (keyText k) = some k ∧ equals ∉ keyText k ∧ 10 ∉ keyText k ∧
    (keyText k).head?.any fun ch => isBlank ch = false ∧ ch ≠ 35 ∧ ch ≠ 91 := by
  decide

theorem mem_keys (k : Key) : k ∈ keys := by cases k <;> decide

/-- A key with a value. -/
theorem key_facts (k : Key) : keyOf (keyText k) = some k ∧ equals ∉ keyText k ∧ 10 ∉ keyText k ∧
    ∃ ch rest, keyText k = ch :: rest ∧ isBlank ch = false ∧ ch ≠ 35 ∧ ch ≠ 91 := by
  obtain ⟨hfound, hequals, hends, hhead⟩ := keys_read k (mem_keys k)
  refine ⟨hfound, hequals, hends, ?_⟩
  match hk : keyText k with
  | [] =>
    rw [hk] at hhead
    cases hhead
  | ch :: rest =>
    rw [hk] at hhead
    exact ⟨ch, rest, rfl, of_decide_eq_true hhead⟩

theorem tidy_written (h : Tidy row.2) : Tidy (written row) := by
  obtain ⟨-, -, hends, ch, rest, hkey, hblank, -⟩ := key_facts row.1
  constructor
  · rw [written]
    intro hmem
    cases List.mem_append.mp hmem with
    | inl hin => exact hends hin
    | inr hin =>
      cases List.mem_cons.mp hin with
      | inl heq => cases heq
      | inr hvalue => exact h.1 hvalue
  · have hwhole : (written row).rdropWhile isBlank = written row := by
      rw [List.rdropWhile_eq_self_iff]
      intro hne
      have hlast : (written row).getLast hne = (equals :: row.2).getLast (List.cons_ne_nil _ _) :=
        List.getLast_append_of_ne_nil _ (List.cons_ne_nil _ _)
      rw [hlast]
      by_cases hnil : row.2 = []
      · simp only [hnil, List.getLast_singleton]
        decide
      · rw [List.getLast_cons hnil]
        exact List.rdropWhile_eq_self_iff.mp h.whole hnil
    rw [trim, hwhole, written, hkey]
    exact List.dropWhile_cons_of_neg (by simp [hblank])

theorem loadLine_written (row : Key × Text) (h : Tidy row.2) (hs : s.scanState = .entry) :
    loadLine s (written row) = setKey row.2 s row.1 := by
  obtain ⟨hfind, hequals, -, ch, rest, hkey, -, hcomment, -⟩ := key_facts row.1
  have hhead : (written row).head? ≠ some 35 := by
    rw [written, hkey]
    intro heq
    exact hcomment (Option.some.inj heq)
  have hmem : equals ∈ written row := List.mem_append_right _ List.mem_cons_self
  have hall : ∀ c ∈ keyText row.1, decide (c ≠ equals) = true := by
    intro c hc
    apply decide_eq_true
    rintro rfl
    exact hequals hc
  have htake : (written row).takeWhile (· ≠ equals) = keyText row.1 := by
    rw [written, List.takeWhile_append_of_pos hall]
    simp
  have hdrop : (written row).dropWhile (· ≠ equals) = equals :: row.2 := by
    rw [written, List.dropWhile_append_of_pos hall]
    simp
  rw [loadLine, hs]
  dsimp only
  rw [(tidy_written h).2, if_neg hhead, if_pos hmem, htake, hfind, hdrop]
  rfl

theorem setKey_entry (hnotes : k ≠ .notes) (hlast : k ≠ .keybindingsFilename) (value : Text) (s : Loading) :
    (setKey value s k).scanState = s.scanState := by
  cases k with
  | notes => exact absurd rfl hnotes
  | keybindingsFilename => exact absurd rfl hlast
  | _ => rfl

/-- The rows of an entry that keep its state. -/
def Rowed (table : List (Key × Text)) : Prop :=
  ∀ row ∈ table, Tidy row.2 ∧ row.1 ≠ .notes ∧ row.1 ≠ .keybindingsFilename

theorem load_rows (h : Rowed table) (hs : s.scanState = .entry) :
    (table.map written).foldl loadLine s = table.foldl (fun s row => setKey row.2 s row.1) s ∧
      (table.foldl (fun s row => setKey row.2 s row.1) s).scanState = .entry := by
  induction table generalizing s with
  | nil => exact ⟨rfl, hs⟩
  | cons row table ih =>
    obtain ⟨htidy, hnotes, hlast⟩ := h row List.mem_cons_self
    rw [List.map_cons, List.foldl_cons, List.foldl_cons, loadLine_written row htidy hs]
    apply ih fun r hr => h r (List.mem_cons_of_mem _ hr)
    rw [setKey_entry hnotes hlast]
    exact hs

end CProgram.Qodem.SavedBook
