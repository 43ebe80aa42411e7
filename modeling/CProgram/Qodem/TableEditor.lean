import CProgram.Qodem.Translate

/-! The editors of the translate tables: moves over the entries, one entry changed at a time, and Save. A table survives
Save and a load where its pairs fit into the 16 bits that they are written with. -/
namespace CProgram.Qodem.TableEditor
open Messages Translate

/-- The part of a pair of tables that is edited. -/
inductive Half where
  | input | output
  deriving DecidableEq

/-! ### The Unicode editor -/

/-- The keys. `F` comes with the string that is looked for; `ENTER` with whether there is a window for the field, and
with what the field holds. -/
inductive Key where
  | find (searchString : Option (List UInt32))
  | down | up | left | right | nextPage | previousPage
  | enter (window : Bool) (value : Text)
  | escape

structure Editor where
  /-- `table_unicode_input` and `table_unicode_output`. -/
  tables : Half → TableUnicode
  editingTable : Half
  /-- `editing_table_unicode`. -/
  editing : TableUnicode
  selectedEntry : ℤ
  editingEntry : Bool

/-- The entry that a string to look for stands for. -/
def searchValue (searchString : List UInt32) : Option ℤ :=
  let (n, rest) := strtoulHex ((searchString.map fun c => c.toUInt8 &&& 0x7F).takeWhile (· ≠ 0))
  if rest = [] then some (wchar n) else none

/-- `wcstoul` of the field, as it is put into the table. -/
def fieldValue (value : Text) : ℤ := wchar (strtoulHex value).1

/-- Where a move goes from an entry. -/
def moved (selectedEntry : ℤ) : Key → ℤ
  | .find searchString => (searchString.bind searchValue).getD selectedEntry
  | .down => if (selectedEntry.tmod 96).tmod 16 < 15 then wchar (selectedEntry + 1) else selectedEntry
  | .up => if (selectedEntry.tmod 96).tmod 16 > 0 then wchar (selectedEntry - 1) else selectedEntry
  | .left => if (selectedEntry.tmod 96).tdiv 16 > 0 then wchar (selectedEntry - 16) else selectedEntry
  | .right =>
    if (selectedEntry.tmod 96).tdiv 16 < 5 ∧ selectedEntry ≤ 0xFFFF - 16 then wchar (selectedEntry + 16)
    else selectedEntry
  | .nextPage => if wchar (selectedEntry + 96) > 0xFFFF then 0 else wchar (selectedEntry + 96)
  | .previousPage => if wchar (selectedEntry - 96) < 0 then 0x10000 - 0x10000 % 96 else wchar (selectedEntry - 96)
  | .enter _ _ | .escape => selectedEntry

/-- `translate_table_editor_unicode_keyboard_handler`, but for Save. -/
def press (s : Editor) (key : Key) : Editor :=
  if s.editingEntry then
    match key with
    | .enter _ value =>
      { s with editing := unicodeTableSet s.editing s.selectedEntry (fieldValue value), editingEntry := false }
    | .escape => { s with editingEntry := false }
    | _ => s
  else
    match key with
    | .enter window _ => { s with editingEntry := window }
    | key => { s with selectedEntry := moved s.selectedEntry key }

/-- `3` and `4` in `translate_table_menu_keyboard_handler`. -/
def menu (tables : Half → TableUnicode) (half : Half) (before : TableUnicode) : Option Editor := do
  let editing ← copyTableUnicode (tables half) before
  some ⟨tables, half, editing, 0, false⟩

def session (tables : Half → TableUnicode) (half : Half) (before : TableUnicode) (keys : List Key) : Option Editor :=
  (menu tables half before).map fun s => keys.foldl press s

/-- `S`: the tables, and the file if there is one. -/
def save (s : Editor) : Option ((Half → TableUnicode) × Option (List UInt8)) := do
  if s.editingEntry then some (s.tables, none)
  else
    let copied ← copyTableUnicode s.editing (s.tables s.editingTable)
    let tables := Function.update s.tables s.editingTable copied
    some (tables, some (saveTranslateTablesUnicode (tables .input) (tables .output)))

/-- The tables as they were edited. -/
def Editor.edited (s : Editor) : Half → TableUnicode := Function.update s.tables s.editingTable s.editing

/-- What Save writes is loaded as tables that translate every code point as the edited ones. -/
def Survives (s : Editor) : Prop :=
  ∃ tables file, save s = some (tables, some file) ∧
    ∀ first second : List WcharTuple, ∃ tableInput tableOutput,
      loadTranslateTablesUnicode file (ofList first) (ofList second) = some (tableInput, tableOutput) ∧
        ∀ code, unicodeTableGet tableInput code = unicodeTableGet (s.edited .input) code ∧
          unicodeTableGet tableOutput code = unicodeTableGet (s.edited .output) code

/-! ### The 8-bit editor -/

/-- The keys; `PgUp` and `PgDn` do the same. -/
inductive Key8Bit where
  | down | up | left | right
  | page (window : Bool)
  | enter (window : Bool) (value : Text)
  | escape

structure Editor8Bit where
  tables : Half → Table8Bit
  editingTable : Half
  editing : Table8Bit
  selectedEntry : ℤ
  editingEntry : Bool
  editingHigh128 : Bool

def moved8Bit (selectedEntry : ℤ) : Key8Bit → ℤ
  | .down => if (selectedEntry.tmod 128).tmod 16 < 15 then selectedEntry + 1 else selectedEntry
  | .up => if (selectedEntry.tmod 128).tmod 16 > 0 then selectedEntry - 1 else selectedEntry
  | .left => if (selectedEntry.tmod 128).tdiv 16 > 0 then selectedEntry - 16 else selectedEntry
  | .right => if (selectedEntry.tmod 128).tdiv 16 < 7 then selectedEntry + 16 else selectedEntry
  | .page _ | .enter _ _ | .escape => selectedEntry

/-- An entry of `map_to`. -/
def InTable (z : ℤ) : Prop := 0 ≤ z ∧ z < 256

instance (z : ℤ) : Decidable (InTable z) := inferInstanceAs (Decidable (_ ∧ _))

/-- The field comes up with the value of the entry. -/
def beginEntry (s : Editor8Bit) (window : Bool) : Option Editor8Bit :=
  if window then if InTable s.selectedEntry then some { s with editingEntry := true } else none
  else some { s with editingEntry := false }

/-- `translate_table_editor_8bit_keyboard_handler`, but for Save; `none` is outside of `map_to`. -/
def press8Bit (s : Editor8Bit) (key : Key8Bit) : Option Editor8Bit :=
  if s.editingEntry then
    match key with
    | .enter _ value =>
      if InTable s.selectedEntry then
        some { s with
          editing :=
            Function.update s.editing (UInt8.ofNat s.selectedEntry.toNat) (UInt8.ofNat (strtoulDecimal value).1)
          editingEntry := false }
      else none
    | .page window => beginEntry s window
    | .escape => some { s with editingEntry := false }
    | _ => some s
  else
    match key with
    | .enter window _ => beginEntry s window
    | .page _ =>
      some { s with selectedEntry := if s.editingHigh128 then 0 else 128, editingHigh128 := !s.editingHigh128 }
    | key => some { s with selectedEntry := moved8Bit s.selectedEntry key }

/-- `1` and `2` in `translate_table_menu_keyboard_handler`, and the keys. -/
def session8Bit (tables : Half → Table8Bit) (half : Half) (keys : List Key8Bit) : Option Editor8Bit :=
  keys.foldlM press8Bit ⟨tables, half, tables half, 0, false, false⟩

def Editor8Bit.edited (s : Editor8Bit) : Half → Table8Bit := Function.update s.tables s.editingTable s.editing

def save8Bit (s : Editor8Bit) : (Half → Table8Bit) × Option (List UInt8) :=
  if s.editingEntry then (s.tables, none)
  else (s.edited, some (saveTranslateTables8Bit (s.edited .input) (s.edited .output)))

def Survives8Bit (s : Editor8Bit) : Prop :=
  ∃ file, save8Bit s = (s.edited, some file) ∧ loadTranslateTables8Bit file = (s.edited .input, s.edited .output)

/-! ### What survives -/

/-- A table that 16 bits are enough for: what it changes has 16 bits on both sides, and of the pairs that are written
with one key the first has the value that the table has there. -/
structure Storable (l : List WcharTuple) : Prop where
  narrow : ∀ code, lookup l code ≠ code → low code = code ∧ low (lookup l code) = lookup l code
  leading : ∀ code e, (overrides l).find? (fun e => low e.key = code) = some e → low e.value = lookup l code

/-- A table that the editor makes of an empty one. -/
structure Tidy (l : List WcharTuple) : Prop where
  keys : (l.map (·.key)).Nodup
  narrow : ∀ e ∈ l, low e.key = e.key ∧ low e.value = e.value

/-- A key that stays within the 16 bits. -/
def Key.Narrow : Key → Prop
  | .find searchString => ∀ z, searchString.bind searchValue = some z → low z = z
  | .enter _ value => low (fieldValue value) = fieldValue value
  | _ => True

variable {s : Editor} {key : Key} {l : List WcharTuple}

theorem low_low (z : ℤ) : low (low z) = low z := Int.emod_emod_of_dvd z (dvd_refl _)

theorem low_eq_self {z : ℤ} (h : low z = z) : 0 ≤ z ∧ z < 2 ^ 16 := h ▸ low_lt z

theorem low_of_lt {z : ℤ} (h : 0 ≤ z ∧ z < 2 ^ 16) : low z = z := Int.emod_eq_of_lt h.1 h.2

theorem lookup_kept (l : List WcharTuple) (code : ℤ) :
    lookup (kept l) code = ((overrides l).find? fun e => low e.key = code).elim code fun e => low e.value := by
  rw [lookup, kept, List.find?_map]
  change (Option.map _ (Option.map _ ((overrides l).find? fun e => low e.key = code))).getD code = _
  cases (overrides l).find? fun e => low e.key = code <;> rfl

/-- A code point that is changed is the key of a pair. -/
theorem exists_of_lookup_ne {code : ℤ} (h : lookup l code ≠ code) :
    ∃ e ∈ l, e.key = code ∧ e.value = lookup l code := by
  cases hfind : l.find? (·.key = code) with
  | none =>
    rw [lookup, hfind] at h
    exact absurd rfl h
  | some e =>
    refine ⟨e, List.mem_of_find?_eq_some hfind, by simpa using List.find?_some hfind, ?_⟩
    rw [lookup, hfind]
    rfl

/-- What a table loses by being written. -/
theorem lookup_kept_iff (l : List WcharTuple) : (∀ code, lookup (kept l) code = lookup l code) ↔ Storable l := by
  constructor
  · intro hsame
    constructor
    · intro code hne
      rw [← hsame code, lookup_kept] at hne ⊢
      cases hfind : (overrides l).find? fun e => low e.key = code with
      | none =>
        rw [hfind] at hne
        exact absurd rfl hne
      | some e =>
        have hkey : low e.key = code := by simpa using List.find?_some hfind
        rw [Option.elim_some, ← hkey]
        exact ⟨low_low _, low_low _⟩
    · intro code e hfind
      rw [← hsame code, lookup_kept, hfind, Option.elim_some]
  · intro h code
    rw [lookup_kept]
    cases hfind : (overrides l).find? fun e => low e.key = code with
    | some e => exact h.leading code e hfind
    | none =>
      rw [Option.elim_none]
      by_contra hne
      obtain ⟨e, he, hkey, hvalue⟩ := exists_of_lookup_ne (Ne.symm hne)
      have hchanged : e ∈ overrides l := by
        rw [overrides, List.mem_filter]
        refine ⟨he, ?_⟩
        rw [decide_eq_true_eq, hkey, hvalue]
        exact hne
      have hnot := List.find?_eq_none.1 hfind e hchanged
      rw [decide_eq_true_eq, hkey] at hnot
      exact hnot (h.narrow code (Ne.symm hne)).1

theorem lookup_of_nodup (hkeys : (l.map (·.key)).Nodup) {e : WcharTuple} (he : e ∈ l) : lookup l e.key = e.value := by
  induction l with
  | nil => cases he
  | cons x l ih =>
    rw [List.map_cons, List.nodup_cons] at hkeys
    rcases List.mem_cons.1 he with rfl | hmem
    · simp [lookup]
    · have hne : x.key ≠ e.key := fun heq => hkeys.1 (heq ▸ List.mem_map_of_mem hmem)
      rw [lookup, List.find?_cons_of_neg (by simpa using hne)]
      exact ih hkeys.2 hmem

theorem Tidy.storable (h : Tidy l) : Storable l := by
  constructor
  · intro code hne
    obtain ⟨e, he, hkey, hvalue⟩ := exists_of_lookup_ne hne
    rw [← hkey, hkey, ← hvalue]
    exact ⟨hkey ▸ (h.narrow e he).1, (h.narrow e he).2⟩
  · intro code e hfind
    have he : e ∈ l := List.mem_of_mem_filter (List.mem_of_find?_eq_some hfind)
    have hcode : low e.key = code := by simpa using List.find?_some hfind
    obtain ⟨hkey, hvalue⟩ := h.narrow e he
    rw [hvalue, ← hcode, hkey, lookup_of_nodup h.keys he]

/-- An entry that is changed: the keys stay. -/
theorem replaceFirst_facts {k v : ℤ} {r : List WcharTuple} (h : replaceFirst k v l = some r) :
    r.map (·.key) = l.map (·.key) ∧ ∀ e ∈ r, e ∈ l ∨ e = ⟨k, v⟩ := by
  induction l generalizing r with
  | nil => cases h
  | cons x l ih =>
    rw [replaceFirst] at h
    split at h
    · next hkey =>
      rw [← Option.some.inj h]
      refine ⟨rfl, fun e he => ?_⟩
      rcases List.mem_cons.1 he with rfl | he
      · exact .inr (by rw [hkey])
      · exact .inl (List.mem_cons_of_mem _ he)
    · obtain ⟨rest, hrest, rfl⟩ := Option.map_eq_some_iff.1 h
      obtain ⟨hkeys, hmem⟩ := ih hrest
      refine ⟨by rw [List.map_cons, List.map_cons, hkeys], fun e he => ?_⟩
      rcases List.mem_cons.1 he with rfl | he
      · exact .inl List.mem_cons_self
      · exact (hmem e he).imp_left (List.mem_cons_of_mem _)

theorem replaceFirst_none {k v : ℤ} (h : replaceFirst k v l = none) : k ∉ l.map (·.key) := by
  induction l with
  | nil => exact List.not_mem_nil
  | cons x l ih =>
    rw [replaceFirst] at h
    split at h
    · cases h
    · next hkey =>
      rw [List.map_cons, List.mem_cons]
      exact not_or_intro (Ne.symm hkey) (ih (Option.map_eq_none_iff.1 h))

theorem Tidy.put (h : Tidy l) {k v : ℤ} (hk : low k = k) (hv : low v = v) : Tidy (put l k v) := by
  rw [Translate.put]
  cases hreplace : replaceFirst k v l with
  | none =>
    rw [Option.getD_none]
    constructor
    · rw [List.map_append, List.nodup_append]
      refine ⟨h.keys, List.nodup_singleton _, ?_⟩
      rintro a ha b hb rfl
      exact replaceFirst_none hreplace (by simpa [List.mem_singleton.1 hb] using ha)
    · intro e he
      rcases List.mem_append.1 he with he | he
      · exact h.narrow e he
      · rw [List.mem_singleton.1 he]
        exact ⟨hk, hv⟩
  | some r =>
    obtain ⟨hkeys, hmem⟩ := replaceFirst_facts hreplace
    rw [Option.getD_some]
    refine ⟨hkeys ▸ h.keys, fun e he => ?_⟩
    rcases hmem e he with he | rfl
    · exact h.narrow e he
    · exact ⟨hk, hv⟩

/-- No key but `ENTER` in the field touches a table, and none the pair. -/
theorem press_facts (s : Editor) (key : Key) :
    (press s key).tables = s.tables ∧ (press s key).editingTable = s.editingTable ∧
      ((press s key).editing = s.editing ∨
        ∃ window value, key = .enter window value ∧
          (press s key).editing = unicodeTableSet s.editing s.selectedEntry (fieldValue value)) := by
  by_cases hentry : s.editingEntry = true
  · simp only [press, if_pos hentry]
    cases key with
    | enter window value => exact ⟨rfl, rfl, .inr ⟨window, value, rfl, rfl⟩⟩
    | find | down | up | left | right | nextPage | previousPage | escape => exact ⟨rfl, rfl, .inl rfl⟩
  · simp only [press, if_neg hentry]
    cases key <;> exact ⟨rfl, rfl, .inl rfl⟩

/-- A run of the editor over a pair of tables. -/
structure Editing (pair : Half → List WcharTuple) (half : Half) (s : Editor) (l : List WcharTuple) : Prop where
  tables : s.tables = ofList ∘ pair
  editingTable : s.editingTable = half
  editing : s.editing = ofList l

theorem Editing.press {pair : Half → List WcharTuple} {half : Half} (h : Editing pair half s l) (key : Key) :
    ∃ l', Editing pair half (press s key) l' ∧
      (l' = l ∨ ∃ window value, key = .enter window value ∧ l' = put l s.selectedEntry (fieldValue value)) := by
  obtain ⟨htables, hhalf, hsame | ⟨window, value, hkey, hset⟩⟩ := press_facts s key
  · exact ⟨l, ⟨htables.trans h.tables, hhalf.trans h.editingTable, hsame.trans h.editing⟩, .inl rfl⟩
  · rw [h.editing, unicodeTableSet_ofList] at hset
    exact ⟨_, ⟨htables.trans h.tables, hhalf.trans h.editingTable, hset⟩, .inr ⟨window, value, hkey, rfl⟩⟩

theorem Editing.run {pair : Half → List WcharTuple} {half : Half} (h : Editing pair half s l) (keys : List Key) :
    ∃ l', Editing pair half (keys.foldl TableEditor.press s) l' := by
  induction keys generalizing s l with
  | nil => exact ⟨l, h⟩
  | cons key keys ih =>
    obtain ⟨l', hnext, -⟩ := h.press key
    exact ih hnext

theorem Editing.survives_iff {pair : Half → List WcharTuple} {half : Half} (h : Editing pair half s l)
    (hentry : s.editingEntry = false) : Survives s ↔ ∀ part, Storable (Function.update pair half l part) := by
  have hedited (part : Half) : s.edited part = ofList (Function.update pair half l part) := by
    rw [Editor.edited, h.tables, h.editingTable, h.editing, Function.update_apply, Function.update_apply]
    split <;> rfl
  have hsave : save s = some (s.edited, some (saveTranslateTablesUnicode (s.edited .input) (s.edited .output))) := by
    rw [save, hentry, if_neg (by decide), h.tables, h.editing, Function.comp_apply, copyTableUnicode_ofList,
      Editor.edited, h.tables, h.editing]
    rfl
  have hget (part : Half) : (∀ code, unicodeTableGet (ofList (kept (Function.update pair half l part))) code =
      unicodeTableGet (s.edited part) code) ↔ Storable (Function.update pair half l part) := by
    rw [← lookup_kept_iff]
    simp only [unicodeTableGet, hedited, entries_ofList]
  constructor
  · rintro ⟨tables, file, hsaved, hload⟩ part
    rw [hsave] at hsaved
    cases hsaved
    obtain ⟨tableInput, tableOutput, hread, hsame⟩ := hload [] []
    rw [hedited, hedited, load_saveUnicode] at hread
    cases hread
    cases part with
    | input => exact (hget .input).1 fun code => (hsame code).1
    | output => exact (hget .output).1 fun code => (hsame code).2
  · intro hstorable
    refine ⟨_, _, hsave, fun first second => ?_⟩
    rw [hedited .input, hedited .output, load_saveUnicode]
    refine ⟨_, _, rfl, fun code => ?_⟩
    rw [← hedited, ← hedited]
    exact ⟨(hget .input).2 (hstorable .input) code, (hget .output).2 (hstorable .output) code⟩

theorem wchar_of_lt {z : ℤ} (h : -2 ^ 31 ≤ z ∧ z < 2 ^ 31) : wchar z = z :=
  Int.bmod_eq_of_le (by omega) (by omega)

/-- The moves stay within the 16 bits, where `F` does. -/
theorem low_moved {z : ℤ} (h : low z = z) (hkey : key.Narrow) : low (moved z key) = moved z key := by
  obtain ⟨hpos, hlt⟩ := low_eq_self h
  have hmod : z.tmod 96 = z % 96 := Int.tmod_eq_emod_of_nonneg hpos
  have hrow : (z % 96).tmod 16 = z % 96 % 16 := Int.tmod_eq_emod_of_nonneg (by omega)
  have hcol : (z % 96).tdiv 16 = z % 96 / 16 := Int.tdiv_eq_ediv_of_nonneg (by omega)
  have hsmall (d : ℤ) (hd : -96 ≤ d ∧ d ≤ 96) : wchar (z + d) = z + d := wchar_of_lt (by omega)
  have hdown := hsmall 1 (by omega)
  have hright := hsmall 16 (by omega)
  have hnext := hsmall 96 (by omega)
  have hup : wchar (z - 1) = z - 1 := hsmall (-1) (by omega)
  have hleft : wchar (z - 16) = z - 16 := hsmall (-16) (by omega)
  have hprevious : wchar (z - 96) = z - 96 := hsmall (-96) (by omega)
  cases key with
  | find searchString =>
    rw [moved]
    cases htarget : searchString.bind searchValue with
    | none => exact h
    | some target => exact hkey target htarget
  | enter window value => exact h
  | escape => exact h
  | down =>
    rw [moved, hmod, hrow, hdown]
    exact low_of_lt (by split <;> omega)
  | up =>
    rw [moved, hmod, hrow, hup]
    exact low_of_lt (by split <;> omega)
  | left =>
    rw [moved, hmod, hcol, hleft]
    exact low_of_lt (by split <;> omega)
  | right =>
    rw [moved, hmod, hcol, hright]
    exact low_of_lt (by split <;> omega)
  | nextPage =>
    rw [moved, hnext]
    exact low_of_lt (by split <;> omega)
  | previousPage =>
    rw [moved, hprevious]
    exact low_of_lt (by split <;> omega)

theorem press_selectedEntry (s : Editor) (key : Key) :
    (press s key).selectedEntry = s.selectedEntry ∨ (press s key).selectedEntry = moved s.selectedEntry key := by
  by_cases hentry : s.editingEntry = true
  · simp only [press, if_pos hentry]
    cases key <;> exact .inl rfl
  · simp only [press, if_neg hentry]
    cases key <;> first | exact .inr rfl | exact .inl rfl

/-- Tables that the editor makes of tidy ones are tidy, as long as `F` stays within the 16 bits. -/
theorem Editing.tidy {pair : Half → List WcharTuple} {half : Half} (h : Editing pair half s l) (hl : Tidy l)
    (hselected : low s.selectedEntry = s.selectedEntry) (keys : List Key) (hkeys : ∀ key ∈ keys, key.Narrow) :
    ∃ l', Editing pair half (keys.foldl TableEditor.press s) l' ∧ Tidy l' := by
  induction keys generalizing s l with
  | nil => exact ⟨l, h, hl⟩
  | cons key keys ih =>
    have hkey := hkeys key List.mem_cons_self
    obtain ⟨l', hnext, hput⟩ := h.press key
    have htidy : Tidy l' := by
      rcases hput with rfl | ⟨window, value, rfl, rfl⟩
      · exact hl
      · exact hl.put hselected hkey
    have hmoved : low (TableEditor.press s key).selectedEntry = (TableEditor.press s key).selectedEntry := by
      rcases press_selectedEntry s key with hsame | hmove
      · rw [hsame, hselected]
      · rw [hmove, low_moved hselected hkey]
    exact ih hnext htidy hmoved fun k hk => hkeys k (List.mem_cons_of_mem _ hk)

theorem menu_ofList (pair : Half → List WcharTuple) (half : Half) (before : List WcharTuple) :
    menu (ofList ∘ pair) half (ofList before) = some ⟨ofList ∘ pair, half, ofList (pair half), 0, false⟩ := by
  rw [menu, Function.comp_apply, copyTableUnicode_ofList]
  rfl

/-- One key in the 8-bit editor: the entry stays in the table, and the pair as it was. -/
theorem press8Bit_facts {s : Editor8Bit} (h : InTable s.selectedEntry) (key : Key8Bit) :
    ∃ t, press8Bit s key = some t ∧ InTable t.selectedEntry ∧ t.tables = s.tables ∧
      t.editingTable = s.editingTable := by
  have hbegin (window : Bool) : ∃ t, beginEntry s window = some t ∧ InTable t.selectedEntry ∧ t.tables = s.tables ∧
      t.editingTable = s.editingTable := by
    cases window with
    | false => exact ⟨_, rfl, h, rfl, rfl⟩
    | true => exact ⟨{ s with editingEntry := true }, by rw [beginEntry, if_pos rfl, if_pos h], h, rfl, rfl⟩
  obtain ⟨hpos, hlt⟩ := h
  have hmod : s.selectedEntry.tmod 128 = s.selectedEntry % 128 := Int.tmod_eq_emod_of_nonneg hpos
  have hrow : (s.selectedEntry % 128).tmod 16 = s.selectedEntry % 128 % 16 := Int.tmod_eq_emod_of_nonneg (by omega)
  have hcol : (s.selectedEntry % 128).tdiv 16 = s.selectedEntry % 128 / 16 := Int.tdiv_eq_ediv_of_nonneg (by omega)
  have hmoved : InTable (moved8Bit s.selectedEntry key) := by
    cases key with
    | down | up =>
      rw [moved8Bit, hmod, hrow, InTable]
      split <;> omega
    | left | right =>
      rw [moved8Bit, hmod, hcol, InTable]
      split <;> omega
    | page | enter | escape => exact ⟨hpos, hlt⟩
  by_cases hentry : s.editingEntry = true
  · simp only [press8Bit, if_pos hentry]
    cases key with
    | enter window value =>
      exact ⟨_, if_pos (show InTable s.selectedEntry from ⟨hpos, hlt⟩), ⟨hpos, hlt⟩, rfl, rfl⟩
    | page window => exact hbegin window
    | down | up | left | right | escape => exact ⟨_, rfl, ⟨hpos, hlt⟩, rfl, rfl⟩
  · simp only [press8Bit, if_neg hentry]
    cases key with
    | enter window value => exact hbegin window
    | page window =>
      have hhalves (high : Bool) : InTable (if high then 0 else 128) := by
        revert high
        decide
      exact ⟨_, rfl, hhalves s.editingHigh128, rfl, rfl⟩
    | down | up | left | right | escape => exact ⟨_, rfl, hmoved, rfl, rfl⟩

theorem run8Bit {s : Editor8Bit} (h : InTable s.selectedEntry) (keys : List Key8Bit) :
    ∃ t, keys.foldlM press8Bit s = some t ∧ t.tables = s.tables ∧ t.editingTable = s.editingTable := by
  induction keys generalizing s with
  | nil => exact ⟨s, rfl, rfl, rfl⟩
  | cons key keys ih =>
    obtain ⟨t, hpress, hin, htables, hhalf⟩ := press8Bit_facts h key
    obtain ⟨u, hrun, hpair, hedit⟩ := ih hin
    refine ⟨u, ?_, hpair.trans htables, hedit.trans hhalf⟩
    rw [List.foldlM_cons, hpress]
    exact hrun

theorem survives8Bit (s : Editor8Bit) (h : s.editingEntry = false) : Survives8Bit s :=
  ⟨_, by rw [save8Bit, h, if_neg (by decide)], load_save8Bit _ _⟩

/-- After any run of the editor a pair of Unicode tables survives Save and a load exactly where 16 bits are enough for
both tables, which they stay where the run stays within them; a pair of 8-bit tables always does; and every file is
loaded. -/
theorem tables_survive (pair : Half → List WcharTuple) (half : Half) (before : List WcharTuple) (keys : List Key)
    (pair8Bit : Half → Table8Bit) (keys8Bit : List Key8Bit) (file : List UInt8) (first second : List WcharTuple) :
    (∃ s l, session (ofList ∘ pair) half (ofList before) keys = some s ∧ Editing pair half s l ∧
        (s.editingEntry = false → (Survives s ↔ ∀ part, Storable (Function.update pair half l part))) ∧
        ((∀ part, Tidy (pair part)) → (∀ key ∈ keys, key.Narrow) → s.editingEntry = false → Survives s)) ∧
    (∃ s, session8Bit pair8Bit half keys8Bit = some s ∧ s.tables = pair8Bit ∧ s.editingTable = half ∧
        (s.editingEntry = false → Survives8Bit s)) ∧
    ∃ tableInput tableOutput, loadTranslateTablesUnicode file (ofList first) (ofList second) =
      some (ofList tableInput, ofList tableOutput) := by
  refine ⟨?_, ?_, _, _, loadTranslateTablesUnicode_ofList file first second⟩
  · have hstart : Editing pair half ⟨ofList ∘ pair, half, ofList (pair half), 0, false⟩ (pair half) := ⟨rfl, rfl, rfl⟩
    obtain ⟨l, hrun⟩ := hstart.run keys
    refine ⟨_, l, by rw [session, menu_ofList, Option.map_some], hrun, hrun.survives_iff, fun hpair hkeys hentry => ?_⟩
    obtain ⟨l', htidied, htidy⟩ := hstart.tidy (hpair half) (show low 0 = 0 from rfl) keys hkeys
    refine (htidied.survives_iff hentry).2 fun part => Tidy.storable ?_
    rw [Function.update_apply]
    split
    · exact htidy
    · exact hpair part
  · have hzero : InTable 0 := by decide
    obtain ⟨s, hrun, htables, hhalf⟩ := run8Bit (s := ⟨pair8Bit, half, pair8Bit half, 0, false, false⟩) hzero keys8Bit
    exact ⟨s, hrun, htables, hhalf, survives8Bit s⟩

/-- `F`, `24`, and `ENTER` for a value of `006f`. -/
def dollar : List Key := [.find (some [50, 52]), .enter true [], .enter true [48, 48, 54, 102]]

theorem tables_survive_dollar :
    ∃ s, session (ofList ∘ fun _ => []) .input (ofList []) dollar = some s ∧ Survives s := by
  obtain ⟨s, l, hrun, -, -, hsurvives⟩ := (tables_survive (fun _ => []) .input [] dollar (fun _ _ => 0) [] [] [] []).1
  have hentry : (session (ofList ∘ fun _ => []) .input (ofList []) dollar).map (·.editingEntry) = some false := by
    decide +kernel
  rw [hrun, Option.map_some] at hentry
  refine ⟨s, hrun, hsurvives (fun _ => ⟨List.nodup_nil, nofun⟩) (fun key hkey => ?_) (Option.some.inj hentry)⟩
  have htarget : searchValue [50, 52] = some 0x24 := by decide +kernel
  have hvalue : low (fieldValue []) = fieldValue [] ∧
      low (fieldValue [48, 48, 54, 102]) = fieldValue [48, 48, 54, 102] := by
    decide +kernel
  simp only [dollar, List.mem_cons, List.not_mem_nil, or_false] at hkey
  rcases hkey with rfl | rfl | rfl
  · intro z hz
    rw [Option.bind_some, htarget] at hz
    rw [← Option.some.inj hz]
    rfl
  · exact hvalue.1
  · exact hvalue.2

/-- `F`, `10041`, and `ENTER` for a value of `0042`. -/
def beyond : List Key :=
  [.find (some [49, 48, 48, 52, 49]), .enter true [], .enter true [48, 48, 52, 50]]

/-- The pair of `U+10041` is saved as one of `U+0041`. -/
theorem not_tables_survive :
    ∃ s, session (ofList ∘ fun _ => []) .input (ofList []) beyond = some s ∧ s.editingEntry = false ∧ ¬ Survives s := by
  have htarget : searchValue [49, 48, 48, 52, 49] = some 0x10041 := by decide +kernel
  have hvalue : fieldValue [48, 48, 52, 50] = 0x42 := by decide +kernel
  have hediting : Editing (fun _ => []) .input
      ⟨ofList ∘ fun _ => [], .input, ofList [⟨0x10041, 0x42⟩], 0x10041, false⟩ [⟨0x10041, 0x42⟩] := ⟨rfl, rfl, rfl⟩
  refine ⟨⟨ofList ∘ fun _ => [], .input, ofList [⟨0x10041, 0x42⟩], 0x10041, false⟩, ?_, rfl, fun h => ?_⟩
  · rw [session, menu_ofList, Option.map_some, beyond]
    simp only [List.foldl_cons, List.foldl_nil, press, Bool.false_eq_true, if_false, if_true, moved, Option.bind_some,
      htarget, Option.getD_some, hvalue, unicodeTableSet_ofList]
    rfl
  · have hstorable := (hediting.survives_iff rfl).1 h .input
    rw [Function.update_self] at hstorable
    exact absurd (hstorable.narrow 0x10041 (by decide)).1 (by decide)

end CProgram.Qodem.TableEditor
