import CProgram.Kermit.Window

/-! Windows whose slots have consecutive numbers, and what the loops of the window functions make
of them. -/
namespace CProgram.Kermit
open Circular

/-- The slots carry consecutive numbers modulo 64. -/
def Consecutive (l : List Slot) : Prop := (l.map Slot.seq).IsChain fun a b => b = (a + 1) % 64

/-- The number is the next one behind the slots. -/
def Follows (l : List Slot) (seq : Nat) : Prop := ∀ a ∈ l.getLast?, seq = (a.seq + 1) % 64

/-- A circular window of `w` slots with consecutive numbers. -/
structure Slots (w : Nat) (r : Circular Slot) : Prop where
  wf : r.WF w
  seqs : Consecutive (r.entries w)

variable {w : Nat} {r : Circular Slot}

@[simp] theorem consecutive_nil : Consecutive [] := List.isChain_nil

theorem consecutive_append {l : List Slot} {a : Slot} :
    Consecutive (l ++ [a]) ↔ Consecutive l ∧ Follows l a.seq := by
  simp only [Consecutive, Follows, List.map_append, List.map_singleton, List.isChain_append,
    List.isChain_singleton, true_and, List.getLast?_map, List.head?_cons, Option.mem_some_iff,
    forall_eq']
  constructor
  · rintro ⟨h₁, h₂⟩
    exact ⟨h₁, fun b hb => h₂ b.seq (Option.mem_map_of_mem _ hb)⟩
  · rintro ⟨h₁, h₂⟩
    refine ⟨h₁, fun n hn => ?_⟩
    obtain ⟨b, hb, rfl⟩ := Option.mem_map.mp hn
    exact h₂ b hb

theorem consecutive_set {l : List Slot} (h : Consecutive l) {j : Nat} (hj : j < l.length) {a : Slot}
    (ha : a.seq = l[j].seq) : Consecutive (l.set j a) := by
  have hmap : (l.set j a).map Slot.seq = l.map Slot.seq := by
    rw [List.map_set, ha]
    refine List.ext_getElem (by simp) fun i h₁ h₂ => ?_
    rw [List.getElem_set]
    split_ifs with hij
    · subst hij
      simp
    · rfl
  rw [Consecutive, hmap]
  exact h

theorem consecutive_tail {a : Slot} {l : List Slot} (h : Consecutive (a :: l)) : Consecutive l :=
  List.IsChain.tail h

theorem follows_append {l : List Slot} {a : Slot} {seq : Nat} :
    Follows (l ++ [a]) seq ↔ seq = (a.seq + 1) % 64 := by
  simp [Follows]

theorem follows_nil (seq : Nat) : Follows [] seq := by simp [Follows]

namespace Slots

theorem push (h : Slots w r) (hn : r.count < w) {a : Slot} (ha : Follows (r.entries w) a.seq) :
    Slots w (r.push w a) where
  wf := h.wf.push hn a
  seqs := by
    rw [entries_push h.wf hn]
    exact consecutive_append.mpr ⟨h.seqs, ha⟩

theorem dropFirst (h : Slots w r) (hn : 0 < r.count) : Slots w (r.dropFirst w) where
  wf := h.wf.dropFirst hn
  seqs := by
    have hs := h.seqs
    rw [entries_dropFirst hn] at hs
    exact consecutive_tail hs

theorem store (h : Slots w r) {j : Nat} (hj : j < r.count) {a : Slot}
    (ha : a.seq = (r.cell ((r.start + j) % w)).seq) :
    Slots w (r.store ((r.start + j) % w) a) where
  wf := h.wf.store _ a
  seqs := by
    rw [entries_store h.wf hj]
    exact consecutive_set h.seqs (by simpa using hj) (by rw [ha, getElem_entries])

/-- A window of one slot holds what is stored in it. -/
theorem store_one (h : Slots 1 r) (k : Nat) (a : Slot) : Slots 1 (r.store k a) where
  wf := h.wf.store _ a
  seqs := by
    have hlen := h.wf.count_le
    have hone : ((r.store k a).entries 1).length ≤ 1 := by simpa [Circular.store] using hlen
    generalize (r.store k a).entries 1 = slots at hone ⊢
    rcases slots with _ | ⟨b, _ | ⟨c, rest⟩⟩
    · exact consecutive_nil
    · exact List.isChain_singleton _
    · simp at hone

/-- The number that follows the last slot, by its index. -/
theorem follows_iff (h : Slots w r) {seq : Nat} :
    Follows (r.entries w) seq ↔
      (0 < r.count → seq = ((r.cell (prev w r.next)).seq + 1) % 64) := by
  rcases Nat.eq_zero_or_pos r.count with hn | hn
  · rw [entries_eq_nil.mpr hn]
    exact ⟨fun _ h₀ => absurd h₀ (by omega), fun _ => follows_nil seq⟩
  · have hne : r.entries w ≠ [] := fun he => absurd (entries_eq_nil.mp he) hn.ne'
    rw [Follows, List.getLast?_eq_some_getLast hne, getLast_entries h.wf hn hne]
    simp [hn]

/-- The gaps end where the number `seq` goes, or when the window is full. -/
theorem fillGaps (h : Slots w r) {seq e fuel : Nat} (he : Follows (r.entries w) e)
    (hfuel : w ≤ r.count + fuel) :
    Slots w (fillGaps w seq fuel e r) ∧
      ((Kermit.fillGaps w seq fuel e r).count < w →
        Follows ((Kermit.fillGaps w seq fuel e r).entries w) seq) := by
  induction fuel generalizing e r with
  | zero =>
    refine ⟨h, fun hlt => ?_⟩
    simp only [Kermit.fillGaps] at hlt
    omega
  | succ fuel ih =>
    rw [Kermit.fillGaps]
    split_ifs with hc
    · have hp := h.push hc.2 (a := { r.cell r.next with seq := e, acked := false, data := [] }) he
      refine ih hp ?_ ?_
      · rw [entries_push h.wf hc.2]
        exact follows_append.mpr rfl
      · simp only [Circular.push]
        omega
    · refine ⟨h, fun hlt => ?_⟩
      have heq : e = seq := by
        by_contra hne
        exact hc ⟨hne, hlt⟩
      exact heq ▸ he

theorem moveSlots (h : Slots w r) {n : Nat} (hn : n ≤ r.count) :
    Slots w (Transfer.moveSlots w n r) := by
  induction n generalizing r with
  | zero => exact h
  | succ n ih =>
    rw [Transfer.moveSlots]
    split_ifs with hacked
    · exact ih (h.dropFirst (by omega)) (by simp only [Circular.dropFirst]; omega)
    · exact h

end Slots

end CProgram.Kermit
