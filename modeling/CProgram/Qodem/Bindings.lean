import CProgram.Lib.Utf8
import CProgram.Qodem.SavedBook

/-! The key bindings file: every key a line with its name and its text. A binding is a row of characters, and the
bytes of a line are theirs. -/
namespace CProgram.Qodem.Bindings
open Messages Lines
open SavedBook (bytes)

/-- The keys that can be bound. -/
inductive Key where
  | kf (n : Fin 36)
  | knp | kpp | kcuu1 | kcud1 | kcuf1 | kcub1 | kbs | khome | kend | kich1 | kdch1
  | altF (n : Fin 12)
  | np (n : Fin 10)
  | npPeriod | npDivide | npMultiply | npSubtract | npAdd | npEnter
  deriving DecidableEq

def numbered (n : ℕ) : Text :=
  if n < 10 then [UInt8.ofNat (48 + n)] else [UInt8.ofNat (48 + n / 10), UInt8.ofNat (48 + n % 10)]

/-- The name of a key in the file. -/
def Key.name : Key → Text
  | .kf n => bytes "kf" ++ numbered (n.val + 1)
  | .knp => bytes "knp"
  | .kpp => bytes "kpp"
  | .kcuu1 => bytes "kcuu1"
  | .kcud1 => bytes "kcud1"
  | .kcuf1 => bytes "kcuf1"
  | .kcub1 => bytes "kcub1"
  | .kbs => bytes "kbs"
  | .khome => bytes "khome"
  | .kend => bytes "kend"
  | .kich1 => bytes "kich1"
  | .kdch1 => bytes "kdch1"
  | .altF n => bytes "alt_f" ++ numbered (n.val + 1)
  | .np n => bytes "np_" ++ numbered n.val
  | .npPeriod => bytes "np_period"
  | .npDivide => bytes "np_divide"
  | .npMultiply => bytes "np_multiply"
  | .npSubtract => bytes "np_subtract"
  | .npAdd => bytes "np_add"
  | .npEnter => bytes "np_enter"

/-- The keys in the order of `save_keybindings_to_file`, which is the one of `load_keybindings_from_file`. -/
def keys : List Key :=
  (List.finRange 36).map Key.kf ++
    [.knp, .kpp, .kcuu1, .kcud1, .kcuf1, .kcub1, .kbs, .khome, .kend, .kich1, .kdch1] ++
    (List.finRange 12).map Key.altF ++ (List.finRange 10).map Key.np ++
    [.npPeriod, .npDivide, .npMultiply, .npSubtract, .npAdd, .npEnter]

/-- What each key is bound to. -/
abbrev Keyboard := Key → List Char

def equals : UInt8 := 61

def hash : UInt8 := 35

/-- What `fgets` takes at once, with a line of `KEYBINDINGS_LINE_SIZE`. -/
def lineRoom : ℕ := 127

/-- `SAVE_KEY_TO_FILE`, without the end of the line. -/
def row (keyboard : Keyboard) (k : Key) : Text := k.name ++ equals :: utf8 (keyboard k)

def header : List Text := [bytes "# Qodem key bindings file", bytes "#", []]

/-- `save_keybindings_to_file`. -/
def saveKeybindings (keyboard : Keyboard) : List UInt8 := rows (header ++ keys.map (row keyboard))

/-- The name and the text of a line that has both. -/
def parseLine (line : Text) : Option (Text × Text) :=
  let text := trim line
  if text = [] ∨ text.head? = some hash then none
  else if equals ∉ text then none
  else some (text.takeWhile (· ≠ equals), (text.dropWhile (· ≠ equals)).tail)

/-- The key that a line is for, and its text. -/
def assignment (line : Text) : Option (Key × Text) :=
  (parseLine line).bind fun entry => (keys.find? fun k => k.name = entry.1).map fun k => (k, entry.2)

/-- `Xstring_to_wcsdup`: what cannot be converted is empty. -/
def wcsdup (text : Text) : List Char := (Utf8.decode text).getD []

/-- `LOAD_KEY_FROM_FILE` of all keys on one line. -/
def loadLine (keyboard : Keyboard) (line : Text) : Keyboard :=
  match assignment line with
  | none => keyboard
  | some entry => Function.update keyboard entry.1 (wcsdup entry.2)

/-- `load_keybindings_from_file`. -/
def loadKeybindings (file : List UInt8) (keyboard : Keyboard) : Keyboard :=
  (fgets lineRoom [] file).foldl loadLine keyboard

/-- A text that can be put in the field of the editor. -/
structure Editable (text : List Char) : Prop where
  plain : ∀ c ∈ text, 0x20 ≤ c.toNat
  front : text.head? ≠ some ' '
  back : text.getLast? ≠ some ' '

/-- Into any keyboard the saved keys are loaded, and every line is taken for its own key. -/
def Survives (keyboard : Keyboard) : Prop :=
  (∀ other, loadKeybindings (saveKeybindings keyboard) other = keyboard) ∧
    (fgets lineRoom [] (saveKeybindings keyboard)).filterMap assignment = keys.map fun k => (k, utf8 (keyboard k))

/-! ### One line -/

variable {keyboard other : Keyboard} {k : Key} {line text rest : Text} {chars : List Char} {value : Text}

/-- The names are told apart, and none of them looks like anything else. -/
theorem names_nodup : (keys.map Key.name).Nodup := by decide +kernel

theorem names_plain : ∀ k ∈ keys, equals ∉ k.name ∧ 10 ∉ k.name ∧ k.name ≠ [] ∧ k.name.head? ≠ some hash ∧
    isBlank (k.name.headD 0) = false ∧ k.name.length ≤ 11 := by decide +kernel

theorem mem_keys (k : Key) : k ∈ keys := by
  cases k <;> simp [keys]

theorem find_name (k : Key) : (keys.find? fun k' => k'.name = k.name) = some k := by
  have hinjective := List.inj_on_of_nodup_map names_nodup
  cases hfind : keys.find? fun k' => k'.name = k.name with
  | none =>
    have hnone := List.find?_eq_none.mp hfind k (mem_keys k)
    simp at hnone
  | some k' =>
    have hsame : k'.name = k.name := by simpa using List.find?_some hfind
    rw [hinjective (mem_keys k') (mem_keys k) hsame]

theorem newline_not_mem (h : Editable chars) : (10 : UInt8) ∉ utf8 chars := by
  intro hmem
  have hchar : Char.ofNat 10 ∈ chars := (Utf8.mem_ascii (c := Char.ofNat 10) (by decide)).mp hmem
  exact absurd (h.plain _ hchar) (by decide)

/-- The last byte is no blank. -/
theorem last_byte (h : Editable chars) (hne : utf8 chars ≠ []) : isBlank ((utf8 chars).getLast hne) = false := by
  have hchars : chars ≠ [] := by
    rintro rfl
    exact hne rfl
  have hsplit := List.dropLast_append_getLast hchars
  set c := chars.getLast hchars with hc
  have hcmem : c ∈ chars := List.getLast_mem hchars
  have hblank : c ≠ ' ' := by
    intro heq
    apply h.back
    rw [List.getLast?_eq_some_getLast hchars, ← hc, heq]
  have hmem : (utf8 chars).getLast hne ∈ String.utf8EncodeChar c := by
    have hbytes : utf8 chars = utf8 chars.dropLast ++ String.utf8EncodeChar c := by
      conv_lhs => rw [← hsplit]
      rw [Utf8.append, Utf8.cons, Utf8.nil, List.append_nil]
    have hlast : (utf8 chars).getLast hne = (String.utf8EncodeChar c).getLast String.utf8EncodeChar_ne_nil := by
      rw [List.getLast_congr hne (by simp [String.utf8EncodeChar_ne_nil]) hbytes,
        List.getLast_append_of_ne_nil _ String.utf8EncodeChar_ne_nil]
    rw [hlast]
    exact List.getLast_mem _
  have hplain := h.plain c hcmem
  rcases Nat.lt_or_ge c.toNat 0x80 with hlow | hhigh
  · rw [Utf8.encode_ascii hlow, List.mem_singleton] at hmem
    rw [hmem]
    have hne' : c.toNat ≠ 32 := fun heq => hblank (Char.toNat_inj.mp heq)
    have hnat : (UInt8.ofNat c.toNat).toNat = c.toNat := by
      rw [UInt8.toNat_ofNat', Nat.mod_eq_of_lt (by omega)]
    have hcode : ∀ b : UInt8, 32 ≤ b.toNat → b.toNat ≠ 32 → isBlank b = false := Bytes.forall_byte (by decide +kernel)
    exact hcode _ (by omega) (by omega)
  · have hbyte := Utf8.high_of_mem hhigh hmem
    have hcode : ∀ b : UInt8, 0x80 ≤ b.toNat → isBlank b = false := Bytes.forall_byte (by decide +kernel)
    exact hcode _ hbyte

theorem trim_row (h : Editable (keyboard k)) : trim (row keyboard k) = row keyboard k := by
  obtain ⟨-, -, hname, -, hfront, -⟩ := names_plain k (mem_keys k)
  have hlast : (row keyboard k).rdropWhile isBlank = row keyboard k := by
    rw [List.rdropWhile_eq_self_iff]
    intro hne
    by_cases hnil : utf8 (keyboard k) = []
    · have hend : (row keyboard k).getLast hne = equals := by
        simp [row, hnil]
      rw [hend]
      decide
    · have hend : (row keyboard k).getLast hne = (utf8 (keyboard k)).getLast hnil := by
        simp [row, hnil]
      rw [hend, last_byte h hnil]
      decide
  rw [trim, hlast]
  obtain ⟨ch, name, hcons⟩ := List.exists_cons_of_ne_nil hname
  rw [hcons] at hfront
  rw [row, hcons, List.cons_append, List.dropWhile_cons_of_neg (by simpa using hfront)]

/-- A line is taken for its key. -/
theorem assignment_of_trim (htrim : trim line = row keyboard k) :
    assignment line = some (k, utf8 (keyboard k)) := by
  obtain ⟨hequals, -, hname, hhash, -, -⟩ := names_plain k (mem_keys k)
  have hne : row keyboard k ≠ [] := by simp [row]
  have hhead : (row keyboard k).head? ≠ some hash := by
    rw [row, List.head?_append_of_ne_nil _ hname]
    exact hhash
  have hmem : equals ∈ row keyboard k := by simp [row]
  have hall : ∀ ch ∈ k.name, (ch ≠ equals : Bool) = true := by
    intro ch hch
    simpa using fun heq : ch = equals => hequals (heq ▸ hch)
  have htake : (row keyboard k).takeWhile (· ≠ equals) = k.name := by
    rw [row, List.takeWhile_append_of_pos hall, List.takeWhile_cons_of_neg (by simp), List.append_nil]
  have hdrop : (row keyboard k).dropWhile (· ≠ equals) = equals :: utf8 (keyboard k) := by
    rw [row, List.dropWhile_append_of_pos hall, List.dropWhile_cons_of_neg (by simp)]
  have hparse : parseLine line = some (k.name, utf8 (keyboard k)) := by
    rw [parseLine, htrim, if_neg (not_or.mpr ⟨hne, hhead⟩), if_neg (not_not.mpr hmem), htake, hdrop, List.tail_cons]
  rw [assignment, hparse, Option.bind_some, find_name]
  rfl

/-! ### The file -/

theorem ends_row (h : Editable (keyboard k)) : ∀ ch ∈ row keyboard k, ch ≠ 10 := by
  obtain ⟨-, hname, -, -, -, -⟩ := names_plain k (mem_keys k)
  rintro ch hch rfl
  rw [row, List.mem_append, List.mem_cons] at hch
  rcases hch with hin | heq | htext
  · exact hname hin
  · exact absurd heq (by decide)
  · exact newline_not_mem h htext

theorem assignment_blank : assignment [10] = none := by decide +kernel

/-- A line that fits, be it without its end. -/
theorem fgets_row (h : Editable (keyboard k)) (hfits : (row keyboard k).length ≤ lineRoom) (rest : List UInt8) :
    (fgets lineRoom [] (row keyboard k ++ 10 :: rest)).filterMap assignment =
      (k, utf8 (keyboard k)) :: (fgets lineRoom [] rest).filterMap assignment := by
  have hends := ends_row h
  rcases Nat.lt_or_eq_of_le hfits with hshort | hfull
  · have htaken : assignment (row keyboard k ++ [10]) = some (k, utf8 (keyboard k)) :=
      assignment_of_trim ((trim_newline _).trans (trim_row h))
    rw [fgets_line hends (by simpa using hshort), List.nil_append, List.filterMap_cons_some htaken]
  · have hne : row keyboard k ≠ [] := by simp [row]
    have htaken : assignment (row keyboard k) = some (k, utf8 (keyboard k)) := assignment_of_trim (trim_row h)
    have hend : fgets lineRoom [] (10 :: rest) = [10] :: fgets lineRoom [] rest := by
      rw [fgets, if_pos (.inl rfl)]
      rfl
    rw [fgets_full hends hne (by simpa using hfull), List.nil_append, List.filterMap_cons_some htaken, hend,
      List.filterMap_cons_none assignment_blank]

theorem fgets_keys (ks : List Key) (h : ∀ k ∈ ks, Editable (keyboard k) ∧ (row keyboard k).length ≤ lineRoom) :
    (fgets lineRoom [] (rows (ks.map (row keyboard)))).filterMap assignment =
      ks.map fun k => (k, utf8 (keyboard k)) := by
  induction ks with
  | nil => rfl
  | cons k ks ih =>
    obtain ⟨hk, hfits⟩ := h k List.mem_cons_self
    have hrest := ih fun k' hk' => h k' (List.mem_cons_of_mem k hk')
    have hrows : rows ((k :: ks).map (row keyboard)) = row keyboard k ++ 10 :: rows (ks.map (row keyboard)) := by
      simp [rows]
    rw [hrows, fgets_row hk hfits, hrest, List.map_cons]

theorem header_plain : (∀ line ∈ header, assignment (line ++ [10]) = none) ∧
    ∀ line ∈ header, (∀ ch ∈ line, ch ≠ 10) ∧ line.length < lineRoom := by decide +kernel

theorem fgets_comments (lines : List Text) (rest : List UInt8) (hnone : ∀ line ∈ lines, assignment (line ++ [10]) = none)
    (hfits : ∀ line ∈ lines, (∀ ch ∈ line, ch ≠ 10) ∧ line.length < lineRoom) :
    (fgets lineRoom [] (rows lines ++ rest)).filterMap assignment = (fgets lineRoom [] rest).filterMap assignment := by
  induction lines with
  | nil => rfl
  | cons line lines ih =>
    obtain ⟨hends, hshort⟩ := hfits line List.mem_cons_self
    have hrest := ih (fun l hl => hnone l (List.mem_cons_of_mem line hl)) fun l hl => hfits l (List.mem_cons_of_mem line hl)
    have hrows : rows (line :: lines) ++ rest = line ++ 10 :: (rows lines ++ rest) := by simp [rows]
    rw [hrows, fgets_line hends (by simpa using hshort), List.nil_append,
      List.filterMap_cons_none (hnone line List.mem_cons_self), hrest]

theorem saveKeybindings_eq (keyboard : Keyboard) :
    saveKeybindings keyboard = rows header ++ rows (keys.map (row keyboard)) := by
  simp [saveKeybindings, rows]

theorem assigned_of_fits (h : ∀ k, Editable (keyboard k)) (hfits : ∀ k, (row keyboard k).length ≤ lineRoom) :
    (fgets lineRoom [] (saveKeybindings keyboard)).filterMap assignment = keys.map fun k => (k, utf8 (keyboard k)) := by
  rw [saveKeybindings_eq, fgets_comments header _ header_plain.1 header_plain.2]
  exact fgets_keys keys fun k _ => ⟨h k, hfits k⟩

/-- One assignment after the other. -/
def assign (keyboard : Keyboard) (entry : Key × Text) : Keyboard :=
  Function.update keyboard entry.1 (wcsdup entry.2)

theorem foldl_loadLine (lines : List Text) (keyboard : Keyboard) :
    lines.foldl loadLine keyboard = (lines.filterMap assignment).foldl assign keyboard := by
  induction lines generalizing keyboard with
  | nil => rfl
  | cons line lines ih =>
    rw [List.foldl_cons, ih]
    cases htaken : assignment line with
    | none => rw [List.filterMap_cons_none htaken, loadLine, htaken]
    | some entry => rw [List.filterMap_cons_some htaken, List.foldl_cons, loadLine, htaken, assign]

/-- A key holds what some line of it says, or what it held. -/
theorem foldl_assign (entries : List (Key × Text)) (keyboard : Keyboard) (k : Key) :
    entries.foldl assign keyboard k = keyboard k ∧ (∀ entry ∈ entries, entry.1 ≠ k) ∨
      ∃ value, (k, value) ∈ entries ∧ entries.foldl assign keyboard k = wcsdup value := by
  induction entries generalizing keyboard with
  | nil => exact .inl ⟨rfl, by simp⟩
  | cons entry entries ih =>
    obtain ⟨k', value⟩ := entry
    rw [List.foldl_cons]
    rcases ih (assign keyboard (k', value)) with ⟨hkept, hnone⟩ | ⟨value', hmem, hset⟩
    · by_cases heq : k' = k
      · subst heq
        refine .inr ⟨value, List.mem_cons_self, ?_⟩
        rw [hkept, assign, Function.update_self]
      · refine .inl ⟨?_, ?_⟩
        · rw [hkept, assign, Function.update_of_ne fun hsame => heq hsame.symm]
        · intro entry hentry
          rcases List.mem_cons.mp hentry with rfl | hrest
          · exact heq
          · exact hnone entry hrest
    · exact .inr ⟨value', List.mem_cons_of_mem _ hmem, hset⟩

theorem wcsdup_utf8 (chars : List Char) : wcsdup (utf8 chars) = chars := by
  rw [wcsdup, Utf8.decode_utf8]
  rfl

theorem survives_of_fits (h : ∀ k, Editable (keyboard k)) (hfits : ∀ k, (row keyboard k).length ≤ lineRoom) :
    Survives keyboard := by
  have hassigned := assigned_of_fits h hfits
  refine ⟨fun other => ?_, hassigned⟩
  rw [loadKeybindings, foldl_loadLine, hassigned]
  funext k
  rcases foldl_assign (keys.map fun k => (k, utf8 (keyboard k))) other k with ⟨-, hnone⟩ | ⟨value, hmem, hset⟩
  · exact absurd rfl (hnone (k, utf8 (keyboard k)) (List.mem_map_of_mem (mem_keys k)))
  · obtain ⟨k', -, heq⟩ := List.mem_map.mp hmem
    obtain ⟨rfl, rfl⟩ := Prod.mk.inj heq
    rw [hset, wcsdup_utf8]

/-! ### What does not fit -/

/-- A name and its text lie on the line, with the equals sign between them. -/
theorem assignment_length (h : assignment line = some (k, value)) : k.name.length + 1 + value.length ≤ line.length := by
  obtain ⟨⟨name, text⟩, hparse, hfind⟩ := Option.bind_eq_some_iff.mp h
  obtain ⟨k', hfound, heq⟩ := Option.map_eq_some_iff.mp hfind
  obtain ⟨rfl, rfl⟩ := Prod.mk.inj heq
  have hname : k'.name = name := by simpa using List.find?_some hfound
  change k'.name.length + 1 + text.length ≤ line.length
  rw [parseLine] at hparse
  split at hparse
  · cases hparse
  split at hparse
  · cases hparse
  · next _ hequals =>
    obtain ⟨hleft, hright⟩ := Prod.mk.inj (Option.some.inj hparse)
    have hsplit := congrArg List.length (List.takeWhile_append_dropWhile (p := (· ≠ equals)) (l := trim line))
    have hdrop : (trim line).dropWhile (· ≠ equals) ≠ [] := by
      rw [ne_eq, List.dropWhile_eq_nil_iff]
      intro hall
      simpa using hall equals (not_not.mp hequals)
    have hpos := List.length_pos_iff.mpr hdrop
    have htail : text.length = ((trim line).dropWhile (· ≠ equals)).length - 1 := by
      rw [← hright, List.length_tail]
    rw [List.length_append, hleft] at hsplit
    have htrim := length_trim_le line
    rw [hname]
    omega

theorem length_wcsdup (value : Text) : (utf8 (wcsdup value)).length ≤ value.length := by
  rw [wcsdup]
  cases hdecode : Utf8.decode value with
  | none => exact Nat.zero_le _
  | some chars => rw [Option.getD_some, Utf8.utf8_of_decode hdecode]

/-- What is loaded for a key is short enough for a line. -/
theorem loaded_fits (file : List UInt8) (k : Key) :
    k.name.length + 1 + (utf8 (loadKeybindings file (fun _ => []) k)).length ≤ lineRoom := by
  obtain ⟨-, -, -, -, -, hshort⟩ := names_plain k (mem_keys k)
  rw [loadKeybindings, foldl_loadLine]
  rcases foldl_assign ((fgets lineRoom [] file).filterMap assignment) (fun _ => []) k with ⟨hkept, -⟩ | ⟨value, hmem, hset⟩
  · rw [hkept, Utf8.nil, List.length_nil, lineRoom]
    omega
  · obtain ⟨line, hline, htaken⟩ := List.mem_filterMap.mp hmem
    have hroom := fgets_length (show ([] : List UInt8).length < lineRoom by decide) line hline
    have hlength := assignment_length htaken
    have hvalue := length_wcsdup value
    rw [hset]
    omega

theorem fits_of_survives (h : Survives keyboard) (k : Key) : (row keyboard k).length ≤ lineRoom := by
  have hloaded := loaded_fits (saveKeybindings keyboard) k
  rw [h.1] at hloaded
  rw [row, List.length_append, List.length_cons]
  omega

/-- Bindings that the editor takes survive a save and a load if and only if each of them fits in one line. -/
theorem bindings_survive_iff (keyboard : Keyboard) (h : ∀ k, Editable (keyboard k)) :
    Survives keyboard ↔ ∀ k, (row keyboard k).length ≤ lineRoom :=
  ⟨fits_of_survives, survives_of_fits h⟩

/-- The first key bound to a row of one letter, and the others to nothing. -/
def letters (n : ℕ) : Keyboard := fun k => if k = .kf 0 then List.replicate n 'a' else []

theorem letters_editable (n : ℕ) (k : Key) : Editable (letters n k) := by
  rw [letters]
  split
  · constructor
    · intro c hc
      rw [List.eq_of_mem_replicate hc]
      decide
    · rw [List.head?_replicate]
      split <;> decide
    · rw [List.getLast?_replicate]
      split <;> decide
  · exact ⟨by simp, by simp, by simp⟩

theorem letters_survive : Survives (letters 3) ↔ ∀ k, (row (letters 3) k).length ≤ lineRoom :=
  bindings_survive_iff (letters 3) (letters_editable 3)

/-- A macro of 130 letters is cut. -/
theorem not_bindings_survive : ¬ ∀ keyboard : Keyboard, (∀ k, Editable (keyboard k)) → Survives keyboard := by
  intro hall
  have hfits := fits_of_survives (hall (letters 130) (letters_editable 130)) (.kf 0)
  have hlong : ¬ (row (letters 130) (.kf 0)).length ≤ lineRoom := by decide +kernel
  exact hlong hfits

end CProgram.Qodem.Bindings
