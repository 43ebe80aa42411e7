import Mathlib.Data.List.Forall2
import Mathlib.Tactic.Linarith

/-! A matcher that keeps one counter and begins anew on a mismatch. It finds a pattern wherever the elements before it
are false starts and nothing else. -/
namespace CProgram.Matching
variable {α β : Type*} (fits : β → α → Prop) [∀ p x, Decidable (fits p x)] (pattern : List β)

/-- The next place of the pattern takes the element. -/
def Continues (n : ℕ) (x : α) : Prop := ∃ p ∈ pattern[n]?, fits p x

instance {n : ℕ} {x : α} : Decidable (Continues fits pattern n x) :=
  inferInstanceAs (Decidable (∃ p ∈ pattern[n]?, fits p x))

/-- The counter after one more element, and whether the pattern is complete; with that the counter begins anew. -/
def step (n : ℕ) (x : α) : ℕ × Bool :=
  if Continues fits pattern n x then
    if n + 1 = pattern.length then (0, true) else (n + 1, false)
  else (0, false)

/-- Where the matcher reports the pattern. -/
def reports : ℕ → List α → List Bool
  | _, [] => []
  | n, x :: text => (step fits pattern n x).2 :: reports (step fits pattern n x).1 text

/-- The last elements are the pattern. -/
def Closes (text : List α) : Prop :=
  pattern.length ≤ text.length ∧ List.Forall₂ fits pattern (text.drop (text.length - pattern.length))

instance {text : List α} : Decidable (Closes fits pattern text) :=
  inferInstanceAs (Decidable (_ ∧ _))

/-- Where the elements since the last report end with the pattern. -/
def starts : List α → List α → List Bool
  | _, [] => []
  | recent, x :: text =>
    if Closes fits pattern (recent ++ [x]) then true :: starts [] text
    else false :: starts (recent ++ [x]) text

/-- Parts of the pattern, maybe empty, each with an element that does not go on with it. -/
inductive FalseStarts : List α → Prop
  | nil : FalseStarts []
  | snoc {u v : List α} {x : α} (h : FalseStarts u) (hlt : v.length < pattern.length)
      (hpart : List.Forall₂ fits (pattern.take v.length) v) (hend : ¬ Continues fits pattern v.length x) :
      FalseStarts (u ++ v ++ [x])

/-- Before each pattern, since the last one, there are only false starts. -/
def Clean : List α → List α → Prop
  | _, [] => True
  | recent, x :: text =>
    if Closes fits pattern (recent ++ [x]) then
      FalseStarts fits pattern ((recent ++ [x]).take ((recent ++ [x]).length - pattern.length)) ∧ Clean [] text
    else Clean (recent ++ [x]) text

/-- The counter after a text. -/
def counter (n : ℕ) (text : List α) : ℕ := text.foldl (fun n x => (step fits pattern n x).1) n

variable {fits pattern} {u v recent text : List α} {n : ℕ} {x : α}

theorem counter_append : counter fits pattern n (u ++ v) = counter fits pattern (counter fits pattern n u) v :=
  List.foldl_append

omit [∀ p x, Decidable (fits p x)] in
theorem continues_of_forall₂ {p : β} {rest : List β} (hpattern : pattern.drop n = p :: rest) (hx : fits p x) :
    Continues fits pattern n x := by
  refine ⟨p, ?_, hx⟩
  rw [← List.head?_drop, hpattern]
  rfl

/-- The counter goes along a part of the pattern. -/
theorem counter_part (h : List.Forall₂ fits ((pattern.drop n).take v.length) v)
    (hlt : n + v.length < pattern.length) : counter fits pattern n v = n + v.length := by
  induction v generalizing n with
  | nil => rfl
  | cons x v ih =>
    obtain ⟨p, rest, hdrop⟩ : ∃ p rest, pattern.drop n = p :: rest := by
      refine List.exists_cons_of_length_pos ?_
      simp only [List.length_cons] at hlt
      rw [List.length_drop]
      omega
    rw [hdrop, List.length_cons, List.take_succ_cons, List.forall₂_cons] at h
    have hrest : pattern.drop (n + 1) = rest := by rw [← List.drop_drop, hdrop, List.drop_one, List.tail_cons]
    simp only [List.length_cons] at hlt
    have hstep : (step fits pattern n x).1 = n + 1 := by
      rw [step, if_pos (continues_of_forall₂ hdrop h.1), if_neg (by omega)]
    rw [counter, List.foldl_cons, hstep, ← counter, ih (by rw [hrest]; exact h.2) (by omega), List.length_cons]
    omega

theorem counter_falseStarts (h : FalseStarts fits pattern u) : counter fits pattern 0 u = 0 := by
  induction h with
  | nil => rfl
  | @snoc u v x _ hlt hpart hend ih =>
    have hv : counter fits pattern 0 v = 0 + v.length :=
      counter_part (by rwa [List.drop_zero]) (by omega)
    rw [counter_append, counter_append, ih, hv, Nat.zero_add, counter, List.foldl_cons, List.foldl_nil, step,
      if_neg hend]

/-- The elements since the last report are false starts, and the part of the pattern that the counter stands for. -/
def Counted (fits : β → α → Prop) [∀ p x, Decidable (fits p x)] (pattern : List β) (n : ℕ) (recent : List α) : Prop :=
  n < pattern.length ∧ n = counter fits pattern 0 recent ∧ ∃ u v, recent = u ++ v ∧ v.length = n ∧
    FalseStarts fits pattern u ∧ List.Forall₂ fits (pattern.take n) v

theorem counted_nil (hpattern : pattern ≠ []) : Counted fits pattern 0 [] :=
  ⟨List.length_pos_of_ne_nil hpattern, rfl, [], [], rfl, rfl, .nil, .nil⟩

omit [∀ p x, Decidable (fits p x)] in
theorem forall₂_snoc (h : List.Forall₂ fits (pattern.take n) v) (hx : Continues fits pattern n x) :
    List.Forall₂ fits (pattern.take (n + 1)) (v ++ [x]) := by
  obtain ⟨p, hp, hfits⟩ := hx
  rw [List.take_add_one, Option.mem_def.mp hp]
  exact List.rel_append h (.cons hfits .nil)

/-- Where the counter gets to the end, the pattern is complete, and before it are only false starts. -/
theorem Counted.closes (h : Counted fits pattern n recent) (hx : Continues fits pattern n x)
    (hn : n + 1 = pattern.length) : Closes fits pattern (recent ++ [x]) ∧
      FalseStarts fits pattern ((recent ++ [x]).take ((recent ++ [x]).length - pattern.length)) := by
  obtain ⟨-, -, u, v, rfl, hv, hu, hpart⟩ := h
  have hlength : (u ++ v ++ [x]).length - pattern.length = u.length := by
    simp only [List.length_append, List.length_singleton]
    omega
  have hwhole := forall₂_snoc hpart hx
  rw [hn, List.take_length] at hwhole
  refine ⟨⟨?_, ?_⟩, ?_⟩
  · simp only [List.length_append, List.length_singleton]
    omega
  · rw [hlength, List.append_assoc, List.drop_left]
    exact hwhole
  · rw [hlength, List.append_assoc, List.take_left]
    exact hu

/-- A pattern behind false starts is found. -/
theorem Counted.continues (h : Counted fits pattern n recent) (hcloses : Closes fits pattern (recent ++ [x]))
    (hu : FalseStarts fits pattern ((recent ++ [x]).take ((recent ++ [x]).length - pattern.length))) :
    Continues fits pattern n x ∧ n + 1 = pattern.length := by
  obtain ⟨hlt, hn, -⟩ := h
  obtain ⟨hlong, hpart⟩ := hcloses
  set k := (recent ++ [x]).length - pattern.length with hk
  have hlength : (recent ++ [x]).length = recent.length + 1 := by rw [List.length_append, List.length_singleton]
  have hshort : k ≤ recent.length := by omega
  rw [List.take_append_of_le_length hshort] at hu
  rw [List.drop_append_of_le_length hshort] at hpart
  have hrest : (recent.drop k).length = pattern.length - 1 := by
    rw [List.length_drop]
    omega
  have hfront := List.forall₂_take_append _ _ _ hpart
  have hback := List.forall₂_drop_append _ _ _ hpart
  have hcount : n = pattern.length - 1 := by
    have hpartial : counter fits pattern 0 (recent.drop k) = 0 + (recent.drop k).length :=
      counter_part (by rwa [List.drop_zero]) (by omega)
    have hrecent : counter fits pattern 0 (recent.take k ++ recent.drop k) =
        counter fits pattern (counter fits pattern 0 (recent.take k)) (recent.drop k) := counter_append
    rw [List.take_append_drop, counter_falseStarts hu, hpartial, ← hn] at hrecent
    omega
  rw [hrest, ← hcount] at hback
  refine ⟨?_, by omega⟩
  cases hdrop : pattern.drop n with
  | nil =>
    have hempty := congrArg List.length hdrop
    rw [List.length_drop, List.length_nil] at hempty
    omega
  | cons p rest =>
    rw [hdrop] at hback
    exact continues_of_forall₂ hdrop (List.forall₂_cons.mp hback).1

theorem Counted.snoc (h : Counted fits pattern n recent)
    (hwhole : Continues fits pattern n x → n + 1 ≠ pattern.length) :
    Counted fits pattern (step fits pattern n x).1 (recent ++ [x]) := by
  obtain ⟨hlt, hn, u, v, rfl, hv, hu, hpart⟩ := h
  have hcounter : (step fits pattern n x).1 = counter fits pattern 0 (u ++ v ++ [x]) := by
    rw [counter_append, ← hn]
    rfl
  by_cases hx : Continues fits pattern n x
  · have hnext : (step fits pattern n x).1 = n + 1 := by rw [step, if_pos hx, if_neg (hwhole hx)]
    rw [hnext] at hcounter ⊢
    refine ⟨?_, hcounter, u, v ++ [x], List.append_assoc .., by simp [hv], hu, forall₂_snoc hpart hx⟩
    have := hwhole hx
    omega
  · have hnext : (step fits pattern n x).1 = 0 := by rw [step, if_neg hx]
    rw [hnext] at hcounter ⊢
    rw [← hv] at hx hpart
    exact ⟨by omega, hcounter, u ++ v ++ [x], [], (List.append_nil _).symm, rfl, hu.snoc (by omega) hpart hx, .nil⟩

/-- The reports are right just when there is nothing but false starts before each pattern. -/
theorem Counted.reports_eq_starts_iff (hpattern : pattern ≠ []) (h : Counted fits pattern n recent) :
    reports fits pattern n text = starts fits pattern recent text ↔ Clean fits pattern recent text := by
  induction text generalizing n recent with
  | nil => exact iff_of_true rfl trivial
  | cons x text ih =>
    rw [reports, starts, Clean]
    by_cases hfound : Continues fits pattern n x ∧ n + 1 = pattern.length
    · obtain ⟨hcloses, hclean⟩ := h.closes hfound.1 hfound.2
      rw [if_pos hcloses, if_pos hcloses, step, if_pos hfound.1, if_pos hfound.2, List.cons_inj_right,
        and_iff_right hclean]
      exact ih (counted_nil hpattern)
    · have hsilent : (step fits pattern n x).2 = false := by
        rw [step]
        split_ifs with hx hn
        · exact absurd ⟨hx, hn⟩ hfound
        · rfl
        · rfl
      rw [hsilent]
      by_cases hcloses : Closes fits pattern (recent ++ [x])
      · rw [if_pos hcloses, if_pos hcloses]
        refine iff_of_false (fun heq => ?_) fun hclean => hfound (h.continues hcloses hclean.1)
        exact Bool.false_ne_true (List.cons_eq_cons.mp heq).1
      · rw [if_neg hcloses, if_neg hcloses, List.cons_inj_right]
        exact ih (h.snoc fun hx hn => hfound ⟨hx, hn⟩)

end CProgram.Matching
