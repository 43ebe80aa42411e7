import CProgram.Netpc.Search

/-! The search path behind an edit: the entries with the numbered one changed and the others as they were, where
the vector has room for them and no entry is a drive alone. -/
namespace CProgram.Netpc

/-- An entry that is the same when it has been in a slot. -/
structure Plain (text : Text) : Prop where
  one : text ≠ []
  unbroken : semicolon ∉ text
  long : hasDrive text = true → 2 < text.length
  short : text.length < dospathSize + if hasDrive text then 2 else 0

/-- The vector holds the slots, with the end of the list behind them. -/
structure Vec (drives : ℕ → Slot) (xs : List Slot) : Prop where
  slot : ∀ i v, xs[i]? = some v → drives i = v
  last : (drives xs.length).drivenummer = lastOfList
  inner : ∀ v ∈ xs, v.drivenummer ≠ lastOfList

/-- The test of `set_search` for an equal entry, and what it makes of the slot. -/
def blank (dir : Text) (v : Slot) : Slot :=
  if v.drivenummer + 65 = (dir.headD 0).toNat ∧ dir[1]? = some colon ∧ dir.drop 2 = v.dospath then
    { v with drivenummer := onlyDospath, dospath := [] }
  else v

variable {driveFlags : ℕ → UInt8} {stack drives : ℕ → Slot} {text dir : Text} {texts : List Text} {xs front back : List Slot}
  {v : Slot} {e k : ℕ} {mode : PathMode}

theorem Vec.set (h : Vec drives xs) (he : e < xs.length) (hv : v.drivenummer ≠ lastOfList) :
    Vec (Function.update drives e v) (xs.set e v) where
  slot i w hw := by
    rw [List.getElem?_set] at hw
    split at hw
    · next heq =>
      subst heq
      rw [Function.update_self]
      exact Option.some.inj hw
    · next hne =>
      rw [Function.update_of_ne (fun heq => hne heq.symm)]
      exact h.slot i w hw
  last := by
    rw [List.length_set, Function.update_of_ne (by omega)]
    exact h.last
  inner w hw := by
    cases List.mem_or_eq_of_mem_set hw with
    | inl hold => exact h.inner w hold
    | inr hnew =>
      rw [hnew]
      exact hv

theorem Vec.at_mid (h : Vec drives (front ++ v :: back)) : drives front.length = v := by
  apply h.slot
  rw [List.getElem?_append_right le_rfl, Nat.sub_self]
  rfl

/-- Another slot in the middle. -/
theorem Vec.mid (h : Vec drives (front ++ v :: back)) {w : Slot} (hw : w.drivenummer ≠ lastOfList) :
    Vec (Function.update drives front.length w) (front ++ w :: back) := by
  have hset := h.set (e := front.length) (by simp) hw
  rw [List.set_append_right _ _ le_rfl, Nat.sub_self] at hset
  exact hset

/-- A slot is put in front of the numbered one, with all behind it moved up. -/
theorem Vec.inserted (h : Vec drives xs) (he : e ≤ xs.length) (hv : v.drivenummer ≠ lastOfList) :
    Vec (Function.update (fun i => if e < i ∧ i ≤ xs.length + 1 then drives (i - 1) else drives i) e v)
      (xs.take e ++ v :: xs.drop e) where
  slot i w hw := by
    have htake : (xs.take e).length = e := by
      rw [List.length_take]
      omega
    obtain hlow | rfl | hhigh := Nat.lt_trichotomy i e
    · rw [List.getElem?_append_left (by omega), List.getElem?_take_of_lt hlow] at hw
      rw [Function.update_of_ne (by omega), if_neg (by omega)]
      exact h.slot i w hw
    · rw [List.getElem?_append_right (by omega), htake, Nat.sub_self] at hw
      rw [Function.update_self]
      exact Option.some.inj hw
    · obtain ⟨j, rfl⟩ := Nat.exists_eq_add_of_lt hhigh
      have hindex : e + j + 1 - e = j + 1 := by omega
      rw [List.getElem?_append_right (by omega), htake, hindex, List.getElem?_cons_succ, List.getElem?_drop] at hw
      have hlt := (List.getElem?_eq_some_iff.mp hw).1
      rw [Function.update_of_ne (by omega), if_pos (by omega)]
      exact h.slot (e + j) w hw
  last := by
    have hlength : (xs.take e ++ v :: xs.drop e).length = xs.length + 1 := by
      simp only [List.length_append, List.length_take, List.length_cons, List.length_drop]
      omega
    rw [hlength, Function.update_of_ne (by omega), if_pos (by omega)]
    exact h.last
  inner w hw := by
    cases List.mem_append.mp hw with
    | inl hfront => exact h.inner w (List.mem_of_mem_take hfront)
    | inr hback =>
      cases List.mem_cons.mp hback with
      | inl heq =>
        rw [heq]
        exact hv
      | inr hdrop => exact h.inner w (List.mem_of_mem_drop hdrop)

/-- A slot is put behind the last one. -/
theorem Vec.appended (h : Vec drives xs) (hv : v.drivenummer ≠ lastOfList) {end' : Slot}
    (hend : end'.drivenummer = lastOfList) :
    Vec (Function.update (Function.update drives (xs.length + 1) end') xs.length v) (xs ++ [v]) where
  slot i w hw := by
    obtain hlow | heq := Nat.lt_or_eq_of_le (Nat.le_of_lt_succ (by simpa using (List.getElem?_eq_some_iff.mp hw).1))
    · rw [List.getElem?_append_left hlow] at hw
      rw [Function.update_of_ne (by omega), Function.update_of_ne (by omega)]
      exact h.slot i w hw
    · rw [heq, List.getElem?_append_right le_rfl, Nat.sub_self] at hw
      rw [heq, Function.update_self]
      exact Option.some.inj hw
  last := by
    rw [List.length_append, List.length_singleton, Function.update_of_ne (by omega), Function.update_self]
    exact hend
  inner w hw := by
    cases List.mem_append.mp hw with
    | inl hold => exact h.inner w hold
    | inr hnew =>
      rw [List.mem_singleton.mp hnew]
      exact hv

theorem Vec.listed (h : Vec drives (front ++ back)) {n : ℕ} (hn : back.length ≤ n) :
    listed drives n front.length = back := by
  induction back generalizing front n with
  | nil =>
    have hlast := h.last
    rw [List.append_nil] at hlast
    cases n with
    | zero => rfl
    | succ n => rw [Netpc.listed, if_pos hlast]
  | cons v back ih =>
    cases n with
    | zero => simp at hn
    | succ n =>
      have hv := h.at_mid
      have hinner : v.drivenummer ≠ lastOfList := h.inner v (by simp)
      have hrest : Vec drives ((front ++ [v]) ++ back) := by simpa using h
      have hnext := ih hrest (n := n) (by simpa using hn)
      rw [List.length_append, List.length_singleton] at hnext
      rw [Netpc.listed, hv, if_neg hinner, hnext]

theorem Vec.joined (h : Vec drives xs) (hfew : xs.length ≤ 16)
    (hroom : (Netpc.joined (xs.filterMap textOf)).length ≤ 250) :
    setSearchDriveVektor drives = some (Netpc.joined (xs.filterMap textOf)) := by
  have hwhole : Vec drives ([] ++ xs) := h
  have hlisted : Netpc.listed drives 16 0 = xs := hwhole.listed hfew
  rw [setSearchDriveVektor, hlisted]
  rw [if_pos (by omega)]

/-! One edit -/

/-- What the vector, its fields and the buffer have room for. -/
structure Editable (texts : List Text) (number : ℕ) (mode : PathMode) (dir : Text) : Prop where
  plain : ∀ text ∈ texts, Plain text
  few : texts.length ≤ 16
  pos : 0 < number
  byte : number < 256
  full : texts.length = 16 → mode ≠ .insert ∧ number ≤ 16
  given : mode ≠ .delete → dir ≠ [] ∧ dir.length < dospathSize
  equal : dir ∈ texts → hasDrive dir = true
  room : (Netpc.joined (edited texts number mode dir)).length ≤ 250

def clear (v : Slot) : Slot := if isNetwork v then ⟨onlyDospath, 0, []⟩ else v

end CProgram.Netpc
