import CProgram.Qodem.BookRows

/-! The texts of the values of an entry, read back. -/
namespace CProgram.Qodem.SavedBook
open Messages Lines

theorem mem_dialMethods (m : DialMethod) : m ∈ dialMethods := by cases m <;> decide

theorem mem_emulations (m : Emulation) : m ∈ emulations := by cases m <;> decide

def codepages : List Codepage := .iso8859_1 :: codepageNames.map Prod.snd

theorem mem_codepages (m : Codepage) : m ∈ codepages := by cases m <;> decide

/-- The names of the values. -/
def names : List Text :=
  dialMethods.map methodString ++ emulations.map emulationString ++ codepages.map codepageString ++
    [Doorway.config, .alwaysDoorway, .alwaysMixed, .never].map doorwayString ++ baudRates.map baudString ++
    [DataBits.d8, .d7, .d6, .d5].map dataBitsString ++ [Parity.none, .even, .odd, .mark, .space].map parityString ++
    [StopBits.s1, .s2].map stopBitsString ++ [true, false].map boolString

theorem tidy_names : ∀ name ∈ names, Tidy name := by decide

theorem tidy_bool (b : Bool) : Tidy (boolString b) := by
  apply tidy_names
  apply List.mem_append_right
  exact List.mem_map_of_mem (by cases b <;> decide)

theorem named_tidy (e : Phone) : Tidy (methodString e.method) ∧ Tidy (emulationString e.emulation) ∧
    Tidy (codepageString e.codepage) ∧ Tidy (doorwayString e.doorway) ∧ Tidy (baudString e.baud) ∧
    Tidy (dataBitsString e.dataBits) ∧ Tidy (parityString e.parity) ∧ Tidy (stopBitsString e.stopBits) := by
  have htidy := tidy_names
  simp only [names, List.forall_mem_append, List.forall_mem_map] at htidy
  obtain ⟨⟨⟨⟨⟨⟨⟨⟨hmethod, hemulation⟩, hcodepage⟩, hdoorway⟩, hbaud⟩, hdata⟩, hparity⟩, hstop⟩, -⟩ := htidy
  refine ⟨hmethod _ (mem_dialMethods _), hemulation _ (mem_emulations _), hcodepage _ (mem_codepages _), hdoorway _ ?_,
    hbaud _ ?_, hdata _ ?_, hparity _ ?_, hstop _ ?_⟩
  · cases e.doorway <;> decide
  · cases e.baud <;> decide
  · cases e.dataBits <;> decide
  · cases e.parity <;> decide
  · cases e.stopBits <;> decide

theorem tidy_numeral (n : ℕ) : Tidy (Numerals.numeral 10 n) := tidy_unbroken (unbroken_numeral (by decide) le_rfl n)

/-- Each value is read from its own name. -/
theorem values_restored : (∀ m ∈ dialMethods, methodFromString (methodString m) = m) ∧
    (∀ m ∈ emulations, emulationFromString (emulationString m) = m) ∧
    (∀ m ∈ codepages, codepageFromString (codepageString m) = m) ∧
    (∀ m ∈ [Doorway.config, .alwaysDoorway, .alwaysMixed, .never], doorwayFromString (doorwayString m) = m) ∧
    (∀ b, (bytes "true").isPrefixOf (folded (boolString b)) = b) ∧ (∀ b, (bytes "true").isPrefixOf (boolString b) = b) ∧
    ∀ b, (bytes "false").isPrefixOf (boolString b) = !b := by
  decide

theorem method_restored (m : DialMethod) : methodFromString (methodString m) = m :=
  values_restored.1 m (mem_dialMethods m)

theorem emulation_restored (m : Emulation) : emulationFromString (emulationString m) = m :=
  values_restored.2.1 m (mem_emulations m)

theorem codepage_restored (m : Codepage) : codepageFromString (codepageString m) = m :=
  values_restored.2.2.1 m (mem_codepages m)

theorem doorway_restored (m : Doorway) : doorwayFromString (doorwayString m) = m :=
  values_restored.2.2.2.1 m (by cases m <;> decide)

theorem marked_restored (b : Bool) : (bytes "true").isPrefixOf (folded (boolString b)) = b :=
  values_restored.2.2.2.2.1 b

theorem true_restored (b : Bool) : (bytes "true").isPrefixOf (boolString b) = b := values_restored.2.2.2.2.2.1 b

theorem false_restored (b : Bool) : (bytes "false").isPrefixOf (boolString b) = !b := values_restored.2.2.2.2.2.2 b

/-- No two values have one name. -/
theorem values_apart : (baudRates.map baudString).Nodup ∧ ([DataBits.d8, .d7, .d6, .d5].map dataBitsString).Nodup ∧
    ([Parity.none, .even, .odd, .mark, .space].map parityString).Nodup ∧
    ([StopBits.s1, .s2].map stopBitsString).Nodup ∧ ([true, false].map boolString).Nodup := by
  decide

/-- A value among others that have other names. -/
theorem named_restored {α : Type} {values : List α} {name : α → Text} {v : α} (hmem : v ∈ values)
    (hapart : (values.map name).Nodup) (other : α) : named values name (name v) other = v := by
  rw [named]
  cases hfind : values.find? fun w => name w = name v with
  | none =>
    have hnot := List.find?_eq_none.mp hfind v hmem
    simp at hnot
  | some w =>
    have hsame : name w = name v := by simpa using List.find?_some hfind
    exact List.inj_on_of_nodup_map hapart (List.mem_of_find?_eq_some hfind) hmem hsame

theorem baud_restored (m other : BaudRate) : named baudRates baudString (baudString m) other = m :=
  named_restored (by cases m <;> decide) values_apart.1 other

theorem dataBits_restored (m other : DataBits) :
    named [.d8, .d7, .d6, .d5] dataBitsString (dataBitsString m) other = m :=
  named_restored (by cases m <;> decide) values_apart.2.1 other

theorem parity_restored (m other : Parity) :
    named [.none, .even, .odd, .mark, .space] parityString (parityString m) other = m :=
  named_restored (by cases m <;> decide) values_apart.2.2.1 other

theorem stopBits_restored (m other : StopBits) : named [.s1, .s2] stopBitsString (stopBitsString m) other = m :=
  named_restored (by cases m <;> decide) values_apart.2.2.2.1 other

theorem bool_restored (b other : Bool) : named [true, false] boolString (boolString b) other = b :=
  named_restored (by cases b <;> decide) values_apart.2.2.2.2 other

theorem atol_numeral (n : ℕ) : atol (Numerals.numeral 10 n) = min (n : ℤ) (2 ^ 63 - 1) := by
  have hnumber := number_numeral (b := 10) (by decide) le_rfl n (by decide : Numerals.isDigitIn 10 (([] : Text).headD 0) = false)
  rw [List.append_nil] at hnumber
  rw [atol, hnumber]
  dsimp only
  omega

theorem timesOn_restored (n : UInt32) : UInt32.ofInt (atol (Numerals.numeral 10 n.toNat)) = n := by
  have hlt := n.toNat_lt
  have hmin : min (n.toNat : ℤ) (2 ^ 63 - 1) = n.toNat := by omega
  have hmod : ((n.toNat : ℤ) % 2 ^ 32).toNat = n.toNat := by omega
  rw [atol_numeral, hmin, UInt32.ofInt, hmod, UInt32.ofNat_toNat]

theorem toggles_restored (n : Int32) : Int32.ofInt (atol (Numerals.numeral 10 n.toUInt32.toNat)) = n := by
  have hlt := n.toUInt32.toNat_lt
  have hmin : min (n.toUInt32.toNat : ℤ) (2 ^ 63 - 1) = n.toUInt32.toNat := by omega
  have hsign : n.toInt = (n.toUInt32.toNat : ℤ).bmod (2 ^ 32) := BitVec.toInt_eq_toNat_bmod n.toBitVec
  rw [atol_numeral, hmin, ← Int32.toInt_inj, Int32.toInt_ofInt, hsign]
  rfl

/-- The time of the last call as it comes back. -/
def cut (lastCall : Int64) : Int64 := Int64.ofInt (atol (Numerals.numeral 10 lastCall.toUInt64.toNat))

theorem cut_eq_iff (n : Int64) : cut n = n ↔ 0 ≤ n.toInt := by
  have hlt := n.toUInt64.toNat_lt
  have hsign : n.toInt = (n.toUInt64.toNat : ℤ).bmod (2 ^ 64) := BitVec.toInt_eq_toNat_bmod n.toBitVec
  rw [cut, atol_numeral, ← Int64.toInt_inj, Int64.toInt_ofInt_of_le (by omega) (by omega), hsign, Int.bmod_def]
  omega

end CProgram.Qodem.SavedBook
