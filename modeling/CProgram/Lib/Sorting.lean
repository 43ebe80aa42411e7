import Mathlib.Data.List.Chain
import Mathlib.Data.List.Perm.Basic
import Mathlib.Tactic.Common

/-! Sorting by exchanging two neighbours that are out of order, as long as there are any: each exchange takes one
inversion away and leaves the elements of one class in their order. -/
namespace CProgram.Sorting
variable {α : Type} {r : α → α → Bool} {x p q : α} {xs ys front back : List α}

/-- How many pairs are out of order. -/
def inversions (r : α → α → Bool) : List α → ℕ
  | [] => 0
  | x :: xs => xs.countP (fun y => !r x y) + inversions r xs

/-- Any two are in order one way or the other, and order goes on. -/
structure Ordering (r : α → α → Bool) : Prop where
  total : ∀ x y, r x y = true ∨ r y x = true
  trans : ∀ x y z, r x y = true → r y z = true → r x z = true

/-- Neither comes before the other. -/
def alike (r : α → α → Bool) (x y : α) : Bool := r x y && r y x

/-- Two neighbours out of order have changed places. -/
inductive Exchange (r : α → α → Bool) : List α → List α → Prop
  | mk (front back : List α) (p q : α) (h : r p q = false) :
      Exchange r (front ++ p :: q :: back) (front ++ q :: p :: back)

theorem Exchange.perm (h : Exchange r xs ys) : ys.Perm xs := by
  obtain ⟨front, back, p, q, -⟩ := h
  exact (List.Perm.swap p q back).append_left front

theorem Exchange.inversions_lt (hr : Ordering r) (h : Exchange r xs ys) : inversions r ys < inversions r xs := by
  obtain ⟨front, back, p, q, hpq⟩ := h
  have hqp : r q p = true := (hr.total p q).resolve_left (by simp [hpq])
  induction front with
  | nil =>
    simp only [List.nil_append, inversions, List.countP_cons, hpq, hqp]
    simp only [Bool.not_false, Bool.not_true, if_true, Bool.false_eq_true, if_false]
    omega
  | cons x front ih =>
    have hperm : (front ++ q :: p :: back).Perm (front ++ p :: q :: back) :=
      (List.Perm.swap p q back).append_left front
    rw [List.cons_append, List.cons_append, inversions, inversions, hperm.countP_eq]
    omega

/-- The elements of a class stay in their order. -/
theorem Exchange.filter_eq (hr : Ordering r) (x : α) (h : Exchange r xs ys) :
    ys.filter (alike r x) = xs.filter (alike r x) := by
  obtain ⟨front, back, p, q, hpq⟩ := h
  have hone : ¬ (alike r x p = true ∧ alike r x q = true) := by
    simp only [alike, Bool.and_eq_true]
    rintro ⟨⟨-, hpx⟩, hxq, -⟩
    rw [hr.trans p x q hpx hxq] at hpq
    cases hpq
  rw [List.filter_append, List.filter_append]
  congr 1
  cases hp : alike r x p with
  | false => simp only [List.filter_cons, hp, Bool.false_eq_true, if_false]
  | true =>
    have hq : alike r x q = false := by
      cases hq : alike r x q with
      | false => rfl
      | true => exact absurd ⟨hp, hq⟩ hone
    simp only [List.filter_cons, hq, Bool.false_eq_true, if_false]

/-- Where no two neighbours are out of order the list is sorted. -/
theorem pairwise_of_neighbours (hr : Ordering r)
    (h : ∀ front p q back, xs = front ++ p :: q :: back → r p q = true) : xs.Pairwise fun x y => r x y = true := by
  have htrans : IsTrans α fun x y => r x y = true := ⟨hr.trans⟩
  apply List.isChain_iff_pairwise.mp
  rw [List.isChain_iff_forall_rel_of_append_cons_cons]
  intro p q front back heq
  exact h front p q back heq

end CProgram.Sorting
