import Mathlib.Data.List.Basic
import Mathlib.Tactic

/-! Circular buffers in an array: where the oldest entry is, where the next one goes, and how many
there are. The entries as a list are what the operations are about. -/
namespace CProgram

/-- The array and the three numbers that go with it. -/
structure Circular (α : Type*) where
  cells : List α
  start : Nat
  next : Nat
  count : Nat
deriving DecidableEq, Repr

namespace Circular
variable {α : Type*}

/-- The index before `k`. -/
def prev (w k : Nat) : Nat := if k = 0 then w - 1 else k - 1

def push (w : Nat) (r : Circular α) (a : α) : Circular α where
  cells := r.cells.set r.next a
  start := r.start
  next := (r.next + 1) % w
  count := r.count + 1

def dropFirst (w : Nat) (r : Circular α) : Circular α :=
  { r with start := (r.start + 1) % w, count := r.count - 1 }

def store (r : Circular α) (k : Nat) (a : α) : Circular α := { r with cells := r.cells.set k a }

/-- A buffer with `w` cells whose numbers fit together. -/
structure WF (w : Nat) (r : Circular α) : Prop where
  length_cells : r.cells.length = w
  start_lt : r.start < w
  next_lt : r.next < w
  count_le : r.count ≤ w
  next_eq : (r.start + r.count) % w = r.next

variable {w : Nat} {r : Circular α}

theorem prev_lt {k : Nat} (hk : k < w) : prev w k < w := by
  unfold prev
  split_ifs <;> omega

theorem add_mod_of_lt {k j : Nat} (hk : k < w) (hj : j ≤ w) :
    (k + j) % w = if k + j < w then k + j else k + j - w := by
  split_ifs with h
  · exact Nat.mod_eq_of_lt h
  · rw [Nat.mod_eq_sub_mod (by omega)]
    exact Nat.mod_eq_of_lt (by omega)

/-- Different entries are in different cells. -/
theorem index_inj {k i j : Nat} (hk : k < w) (hi : i < w) (hj : j < w)
    (h : (k + i) % w = (k + j) % w) : i = j := by
  rw [add_mod_of_lt hk hi.le, add_mod_of_lt hk hj.le] at h
  split_ifs at h <;> omega

theorem WF.push (h : r.WF w) (hn : r.count < w) (a : α) : (r.push w a).WF w where
  length_cells := by simp [Circular.push, h.length_cells]
  start_lt := h.start_lt
  next_lt := Nat.mod_lt _ (by omega)
  count_le := hn
  next_eq := by
    simp only [Circular.push]
    rw [← h.next_eq, Nat.mod_add_mod, Nat.add_assoc]

theorem WF.dropFirst (h : r.WF w) (hn : 0 < r.count) : (r.dropFirst w).WF w where
  length_cells := h.length_cells
  start_lt := Nat.mod_lt _ (by have := h.start_lt; omega)
  next_lt := h.next_lt
  count_le := by
    have := h.count_le
    simp only [Circular.dropFirst]
    omega
  next_eq := by
    simp only [Circular.dropFirst]
    rw [← h.next_eq, Nat.mod_add_mod]
    congr 1
    omega

theorem WF.start_mod (h : r.WF w) : r.start % w = r.start := Nat.mod_eq_of_lt h.start_lt

theorem WF.store (h : r.WF w) (k : Nat) (a : α) : (r.store k a).WF w where
  length_cells := by simp [Circular.store, h.length_cells]
  start_lt := h.start_lt
  next_lt := h.next_lt
  count_le := h.count_le
  next_eq := h.next_eq

variable [Inhabited α]

def cell (r : Circular α) (k : Nat) : α := r.cells.getD k default

/-- The do-while loop from `k` up to `next`, for at most `fuel` cells: the first one with `p`. -/
def walkFrom (w : Nat) (p : α → Bool) (r : Circular α) : Nat → Nat → Option Nat
  | 0, _ => none
  | fuel + 1, k =>
    if p (r.cell k) then some k
    else if (k + 1) % w = r.next then none
    else walkFrom w p r fuel ((k + 1) % w)

def walk (w : Nat) (p : α → Bool) (r : Circular α) : Option Nat := r.walkFrom w p w r.start

/-- The indexes that the loop looks at. -/
def visitedFrom (w : Nat) (p : α → Bool) (r : Circular α) : Nat → Nat → List Nat
  | 0, _ => []
  | fuel + 1, k =>
    if p (r.cell k) then [k]
    else if (k + 1) % w = r.next then [k]
    else k :: visitedFrom w p r fuel ((k + 1) % w)

def visited (w : Nat) (p : α → Bool) (r : Circular α) : List Nat := r.visitedFrom w p w r.start

/-- The entries, oldest first. -/
def entries (w : Nat) (r : Circular α) : List α :=
  (List.range r.count).map fun j => r.cell ((r.start + j) % w)

variable {p : α → Bool}

theorem cell_set_self {k : Nat} (hk : k < r.cells.length) (a : α) :
    ({ r with cells := r.cells.set k a } : Circular α).cell k = a := by
  simp [cell, List.getD_eq_getElem?_getD, hk]

theorem cell_set_ne {k j : Nat} (h : k ≠ j) (a : α) :
    ({ r with cells := r.cells.set k a } : Circular α).cell j = r.cell j := by
  simp [cell, List.getD_eq_getElem?_getD, List.getElem?_set_ne h]

@[simp] theorem length_entries : (r.entries w).length = r.count := by simp [entries]

theorem getElem_entries {j : Nat} (hj : j < (r.entries w).length) :
    (r.entries w)[j] = r.cell ((r.start + j) % w) := by
  simp [entries]

theorem entries_eq_nil : r.entries w = [] ↔ r.count = 0 := by
  rw [← List.length_eq_zero_iff, length_entries]

theorem entries_push (h : r.WF w) (hn : r.count < w) (a : α) :
    (r.push w a).entries w = r.entries w ++ [a] := by
  simp only [entries, Circular.push, List.range_succ, List.map_append, List.map_singleton]
  congr 1
  · refine List.map_congr_left fun j hj => ?_
    rw [List.mem_range] at hj
    have hne : r.next ≠ (r.start + j) % w := by
      rw [← h.next_eq]
      intro he
      have := index_inj h.start_lt hn (hj.trans hn) he
      omega
    exact cell_set_ne hne a
  · rw [h.next_eq]
    exact congrArg (· :: []) (cell_set_self (by rw [h.length_cells]; exact h.next_lt) a)

theorem entries_dropFirst (hn : 0 < r.count) :
    r.entries w = r.cell (r.start % w) :: (r.dropFirst w).entries w := by
  obtain ⟨n, hcount⟩ := Nat.exists_eq_succ_of_ne_zero hn.ne'
  simp only [entries, Circular.dropFirst, hcount, List.range_succ_eq_map, List.map_cons,
    List.map_map, Nat.add_zero, Nat.succ_sub_one]
  congr 1
  refine List.map_congr_left fun j _ => ?_
  simp only [Function.comp_apply, cell, Nat.succ_eq_add_one]
  rw [Nat.mod_add_mod]
  congr 2
  omega

/-- The cell before the next one is the last entry. -/
theorem getLast_entries (h : r.WF w) (hn : 0 < r.count) (hne : r.entries w ≠ []) :
    (r.entries w).getLast hne = r.cell (prev w r.next) := by
  rw [List.getLast_eq_getElem, getElem_entries, length_entries]
  congr 1
  have h₁ := h.start_lt
  have h₂ := h.count_le
  have h₃ := h.next_eq
  rw [add_mod_of_lt h₁ h₂] at h₃
  rw [add_mod_of_lt h₁ (by omega), prev]
  split_ifs at h₃ ⊢ <;> omega

theorem entries_store (h : r.WF w) {j : Nat} (hj : j < r.count) (a : α) :
    (r.store ((r.start + j) % w) a).entries w = (r.entries w).set j a := by
  have hw : 0 < w := by have := h.start_lt; omega
  have hcount := h.count_le
  refine List.ext_getElem (by simp [Circular.store]) fun i h₁ h₂ => ?_
  rw [getElem_entries, List.getElem_set]
  have hi : i < r.count := by simpa [Circular.store] using h₁
  by_cases hij : j = i
  · rw [if_pos hij, ← hij]
    exact cell_set_self (by rw [h.length_cells]; exact Nat.mod_lt _ hw) a
  · rw [if_neg hij, getElem_entries]
    refine cell_set_ne (fun he => hij ?_) a
    exact index_inj h.start_lt (by omega) (by omega) he

/-- What the loop does from the `j`-th entry on. -/
theorem walkFrom_spec (h : r.WF w) {j fuel : Nat} (hj : j < r.count) (hfuel : r.count ≤ fuel + j) :
    (∃ i, j ≤ i ∧ i < r.count ∧ p (r.cell ((r.start + i) % w)) = true ∧
      (∀ i', j ≤ i' → i' < i → p (r.cell ((r.start + i') % w)) = false) ∧
      r.walkFrom w p fuel ((r.start + j) % w) = some ((r.start + i) % w)) ∨
    ((∀ i, j ≤ i → i < r.count → p (r.cell ((r.start + i) % w)) = false) ∧
      r.walkFrom w p fuel ((r.start + j) % w) = none) := by
  induction fuel generalizing j with
  | zero => omega
  | succ fuel ih =>
    have hnext : ((r.start + j) % w + 1) % w = (r.start + (j + 1)) % w := by
      rw [Nat.mod_add_mod, Nat.add_assoc]
    rw [walkFrom, hnext]
    by_cases hp : p (r.cell ((r.start + j) % w)) = true
    · rw [if_pos hp]
      exact .inl ⟨j, le_rfl, hj, hp, fun i' h₁ h₂ => absurd h₁ (by omega), rfl⟩
    · rw [if_neg hp]
      by_cases hend : j + 1 = r.count
      · rw [hend, if_pos h.next_eq]
        refine .inr ⟨fun i h₁ h₂ => ?_, rfl⟩
        obtain rfl : i = j := by omega
        simpa using hp
      · have hne : (r.start + (j + 1)) % w ≠ r.next := by
          rw [← h.next_eq]
          intro he
          have h₁ := h.start_lt
          have h₂ := h.count_le
          rw [add_mod_of_lt h₁ (by omega), add_mod_of_lt h₁ h₂] at he
          split_ifs at he <;> omega
        rw [if_neg hne]
        rcases ih (j := j + 1) (by omega) (by omega) with ⟨i, h₁, h₂, h₃, h₄, h₅⟩ | ⟨h₁, h₂⟩
        · refine .inl ⟨i, by omega, h₂, h₃, fun i' h₆ h₇ => ?_, h₅⟩
          by_cases he : i' = j
          · subst he
            simpa using hp
          · exact h₄ i' (by omega) h₇
        · refine .inr ⟨fun i h₆ h₇ => ?_, h₂⟩
          by_cases he : i = j
          · subst he
            simpa using hp
          · exact h₁ i (by omega) h₇

/-- The loop over a buffer that is not empty finds the first entry with `p`. -/
theorem walk_spec (h : r.WF w) (hn : 0 < r.count) :
    (∃ i, i < r.count ∧ p (r.cell ((r.start + i) % w)) = true ∧
      (∀ i', i' < i → p (r.cell ((r.start + i') % w)) = false) ∧
      r.walk w p = some ((r.start + i) % w)) ∨
    ((∀ i, i < r.count → p (r.cell ((r.start + i) % w)) = false) ∧ r.walk w p = none) := by
  have hspec := walkFrom_spec (p := p) h hn (show r.count ≤ w + 0 from h.count_le)
  rw [Nat.add_zero, h.start_mod] at hspec
  rcases hspec with ⟨i, -, h₁, h₂, h₃, h₄⟩ | ⟨h₁, h₂⟩
  · exact .inl ⟨i, h₁, h₂, fun i' => h₃ i' (Nat.zero_le _), h₄⟩
  · exact .inr ⟨fun i => h₁ i (Nat.zero_le _), h₂⟩

theorem visitedFrom_lt (hw : 0 < w) {fuel k : Nat} (hk : k < w) :
    ∀ i ∈ r.visitedFrom w p fuel k, i < w := by
  induction fuel generalizing k with
  | zero => simp [visitedFrom]
  | succ fuel ih =>
    rw [visitedFrom]
    split_ifs
    · simpa using hk
    · simpa using hk
    · intro i hi
      rcases List.mem_cons.mp hi with rfl | hi
      · exact hk
      · exact ih (Nat.mod_lt _ hw) i hi

theorem visited_lt (h : r.WF w) : ∀ i ∈ r.visited w p, i < w :=
  visitedFrom_lt (by have := h.start_lt; omega) h.start_lt

end Circular
end CProgram
