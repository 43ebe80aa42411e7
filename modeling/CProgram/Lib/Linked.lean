import Mathlib.Data.List.Basic
import Mathlib.Tactic

/-! Doubly linked lists over a heap: the nodes along a list of addresses point at each other. -/
namespace CProgram

structure Links (α : Type*) where
  prev : Option α
  next : Option α
deriving DecidableEq

/-- The address before the place `i`. -/
def before {α : Type*} (ids : List α) : ℕ → Option α
  | 0 => none
  | i + 1 => ids[i]?

/-- The nodes at `ids` make up a doubly linked list. -/
structure Linked {α : Type*} (node : α → Option (Links α)) (ids : List α) : Prop where
  nodup : ids.Nodup
  node_eq : ∀ i a, ids[i]? = some a → node a = some ⟨before ids i, ids[i + 1]?⟩

namespace Linked
variable {α : Type*} {node node' : α → Option (Links α)} {ids : List α} {i k : ℕ} {a b : α}

theorem unique (h : Linked node ids) (hi : ids[i]? = some a) (hk : ids[k]? = some a) : i = k := by
  obtain ⟨hi', rfl⟩ := List.getElem?_eq_some_iff.mp hi
  obtain ⟨hk', hk⟩ := List.getElem?_eq_some_iff.mp hk
  exact ((h.nodup.getElem_inj_iff).mp hk).symm

/-- What is done elsewhere in the heap does not matter. -/
theorem frame (h : Linked node ids) (hnode : ∀ a ∈ ids, node' a = node a) : Linked node' ids := by
  refine ⟨h.nodup, fun i a hi => ?_⟩
  rw [hnode a (List.mem_of_getElem? hi)]
  exact h.node_eq i a hi

/-- A node behind the last one. -/
theorem append (h : Linked node ids) (hids : ids ≠ []) (hfresh : a ∉ ids)
    (hnew : node' a = some ⟨ids.getLast?, none⟩)
    (hlast : ∀ i b, ids[i]? = some b → node' b = some ⟨before ids i, (ids ++ [a])[i + 1]?⟩) :
    Linked node' (ids ++ [a]) := by
  refine ⟨?_, fun i b hi => ?_⟩
  · rw [List.nodup_append]
    refine ⟨h.nodup, List.nodup_singleton a, ?_⟩
    rintro x hx y hy rfl
    rw [List.mem_singleton] at hy
    exact hfresh (hy ▸ hx)
  · rcases Nat.lt_or_ge i ids.length with hlt | hge
    · have hbefore : before (ids ++ [a]) i = before ids i := by
        cases i with
        | zero => rfl
        | succ i => exact List.getElem?_append_left (by omega)
      rw [List.getElem?_append_left hlt] at hi
      rw [hbefore]
      exact hlast i b hi
    · have hi' : i = ids.length := by
        have := (List.getElem?_eq_some_iff.mp hi).1
        simp at this
        omega
      subst hi'
      rw [List.getElem?_append_right (le_refl _), Nat.sub_self] at hi
      obtain rfl : a = b := by simpa using hi
      have hpos : 0 < ids.length := List.length_pos_of_ne_nil hids
      rw [hnew]
      congr 2
      · obtain ⟨n, hn⟩ : ∃ n, ids.length = n + 1 := ⟨ids.length - 1, by omega⟩
        rw [hn, before, List.getElem?_append_left (by omega), List.getLast?_eq_getElem?, hn]
        rfl
      · simp

/-- A node is taken out, and its neighbours point at each other. -/
theorem eraseIdx (h : Linked node ids) (hk : k < ids.length)
    (hnode : ∀ i a, ids[i]? = some a → i ≠ k → node' a = some
      ⟨if i = k + 1 then before ids k else before ids i,
        if i + 1 = k then ids[k + 1]? else ids[i + 1]?⟩) : Linked node' (ids.eraseIdx k) := by
  refine ⟨h.nodup.eraseIdx k, fun i a hi => ?_⟩
  rw [List.getElem?_eraseIdx] at hi
  split at hi
  · have hik : i < k := by assumption
    rw [hnode i a hi (by omega), if_neg (by omega)]
    congr 2
    · cases i with
      | zero => rfl
      | succ i => rw [before, before, List.getElem?_eraseIdx, if_pos (by omega)]
    · rw [List.getElem?_eraseIdx]
      rcases eq_or_ne (i + 1) k with heq | hne
      · rw [if_pos heq, if_neg (by omega), heq]
      · rw [if_neg hne, if_pos (by omega)]
  · have hik : k ≤ i := by omega
    rw [hnode (i + 1) a hi (by omega), if_neg (by omega : ¬ i + 1 + 1 = k)]
    congr 2
    · rcases eq_or_ne i k with heq | hne
      · subst heq
        rw [if_pos rfl]
        cases i with
        | zero => rfl
        | succ i => rw [before, before, List.getElem?_eraseIdx, if_pos (by omega)]
      · rw [if_neg (by omega)]
        obtain ⟨j, rfl⟩ : ∃ j, i = j + 1 := ⟨i - 1, by omega⟩
        rw [before, before, List.getElem?_eraseIdx, if_neg (by omega)]
    · rw [List.getElem?_eraseIdx, if_neg (by omega)]

/-- The nodes in front of the place `k` are cut off. -/
theorem drop (h : Linked node ids) (hnode : ∀ i a, ids[i]? = some a → k ≤ i → node' a = some
      ⟨if i = k then none else before ids i, ids[i + 1]?⟩) : Linked node' (ids.drop k) := by
  refine ⟨h.nodup.sublist (List.drop_sublist k ids), fun i a hi => ?_⟩
  rw [List.getElem?_drop] at hi
  rw [hnode (k + i) a hi (by omega)]
  congr 2
  · cases i with
    | zero => rw [if_pos (Nat.add_zero k)]; rfl
    | succ i => rw [if_neg (by omega), before, List.getElem?_drop]; rfl
  · rw [List.getElem?_drop]
    rfl

end Linked
end CProgram
