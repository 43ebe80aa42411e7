import Mathlib.Data.List.Count
import Mathlib.Data.List.Pairwise

/-! A queue that loses and damages what stands in it, and keeps the order of the rest. -/
namespace CProgram

/-- Some are lost, and some become what `changes` allows. -/
inductive Noise {α : Type*} (changes : α → α → Prop) : List α → List α → Prop
  | nil : Noise changes [] []
  | keep (x : α) {l l' : List α} (h : Noise changes l l') : Noise changes (x :: l) (x :: l')
  | lose (x : α) {l l' : List α} (h : Noise changes l l') : Noise changes (x :: l) l'
  | damage {x y : α} {l l' : List α} (hchange : changes x y) (h : Noise changes l l') :
      Noise changes (x :: l) (y :: l')

namespace Noise
variable {α : Type*} {changes : α → α → Prop} {l l' : List α}

/-- What no damage leads to does not become more. -/
theorem count_le [DecidableEq α] {x : α} (h : Noise changes l l')
    (hchanges : ∀ a b, changes a b → b ≠ x) : l'.count x ≤ l.count x := by
  induction h with
  | nil => exact Nat.le_refl _
  | keep y _ ih =>
    rw [List.count_cons, List.count_cons]
    omega
  | lose y _ ih =>
    rw [List.count_cons]
    omega
  | damage hchange _ ih =>
    rw [List.count_cons_of_ne (hchanges _ _ hchange), List.count_cons]
    omega

theorem all {P : α → Prop} (h : Noise changes l l') (hchanges : ∀ a b, changes a b → P a → P b)
    (hall : ∀ x ∈ l, P x) : ∀ x ∈ l', P x := by
  induction h with
  | nil => exact hall
  | keep y _ ih =>
    rw [List.forall_mem_cons] at hall ⊢
    exact ⟨hall.1, ih hall.2⟩
  | lose y _ ih => exact ih (List.forall_mem_cons.mp hall).2
  | damage hchange _ ih =>
    rw [List.forall_mem_cons] at hall ⊢
    exact ⟨hchanges _ _ hchange hall.1, ih hall.2⟩

theorem pairwise {R : α → α → Prop} (h : Noise changes l l')
    (hleft : ∀ a b c, changes a b → R a c → R b c) (hright : ∀ a b c, changes a b → R c a → R c b)
    (hpairwise : l.Pairwise R) : l'.Pairwise R := by
  induction h with
  | nil => exact hpairwise
  | keep y hnoise ih =>
    rw [List.pairwise_cons] at hpairwise ⊢
    exact ⟨hnoise.all (fun a b hchange => hright a b y hchange) hpairwise.1, ih hpairwise.2⟩
  | lose y _ ih => exact ih (List.pairwise_cons.mp hpairwise).2
  | damage hchange hnoise ih =>
    rw [List.pairwise_cons] at hpairwise ⊢
    refine ⟨fun c hc => hleft _ _ c hchange ?_, ih hpairwise.2⟩
    exact hnoise.all (fun a b hother => hright a b _ hother) hpairwise.1 c hc

end Noise
end CProgram
