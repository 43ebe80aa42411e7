import Mathlib.Data.List.Basic
import Mathlib.Tactic

/-! A loop whose body tells when it is done; what a round finds outside goes with its number. -/
namespace CProgram.Loops
variable {σ : Type*} (body : ℕ → σ → σ × Bool)

/-- The state before round `n`, if the loop gets that far. -/
def before (s : σ) : ℕ → Option σ
  | 0 => some s
  | n + 1 => (before s n).bind fun s => if (body n s).2 then none else some (body n s).1

/-- The loop ends, and leaves `result`. -/
def Returns (s result : σ) : Prop := ∃ n s', before body s n = some s' ∧ body n s' = (result, true)

variable {body} {s s' result : σ} {n k : ℕ}

theorem before_succ (h : before body s n = some s') (hdone : (body n s').2 = false) :
    before body s (n + 1) = some (body n s').1 := by
  rw [before, h, Option.bind_some, if_neg (by simp [hdone])]

theorem before_succ_none (h : before body s n = some s') (hdone : (body n s').2 = true) :
    before body s (n + 1) = none := by
  rw [before, h, Option.bind_some, if_pos hdone]

theorem before_none (h : before body s n = none) (hk : n ≤ k) : before body s k = none := by
  induction k, hk using Nat.le_induction with
  | base => exact h
  | succ k _ ih => rw [before, ih, Option.bind_none]

theorem exists_before (h : before body s (n + 1) = some s') :
    ∃ t, before body s n = some t ∧ body n t = (s', false) := by
  obtain ⟨t, ht, hnext⟩ := Option.bind_eq_some_iff.mp h
  refine ⟨t, ht, ?_⟩
  cases hdone : (body n t).2 with
  | true =>
    rw [if_pos hdone] at hnext
    cases hnext
  | false =>
    rw [if_neg (by simp [hdone]), Option.some.injEq] at hnext
    exact Prod.ext hnext hdone

/-- The round in which a loop is done is the last. -/
theorem last_round (h : before body s n = some s') (hdone : (body n s').2 = true) {t : σ}
    (hk : before body s k = some t) : k ≤ n := by
  by_contra hlt
  rw [before_none (before_succ_none h hdone) (by omega)] at hk
  cases hk

theorem Returns.unique {result' : σ} (h : Returns body s result) (h' : Returns body s result') :
    result = result' := by
  obtain ⟨n, t, hn, hbody⟩ := h
  obtain ⟨m, t', hm, hbody'⟩ := h'
  obtain rfl : n = m := by
    apply le_antisymm
    · exact last_round hm (by rw [hbody']) hn
    · exact last_round hn (by rw [hbody]) hm
  obtain rfl := Option.some.inj (hn.symm.trans hm)
  exact congrArg Prod.fst (hbody.symm.trans hbody')

/-- What every round keeps holds before each round. -/
theorem invariant {P : σ → Prop} (hs : P s) (hstep : ∀ n t, P t → (body n t).2 = false → P (body n t).1)
    (h : before body s n = some s') : P s' := by
  induction n generalizing s' with
  | zero => exact Option.some.inj h ▸ hs
  | succ n ih =>
    obtain ⟨t, ht, hbody⟩ := exists_before h
    have hnext := hstep n t (ih ht)
    rw [hbody] at hnext
    exact hnext rfl

/-- A loop in which every round that is not the last makes a variant smaller ends. -/
theorem exists_returns {α : Type*} {rel : α → α → Prop} (hrel : WellFounded rel) (variant : ℕ → σ → α)
    (hstep : ∀ n t, before body s n = some t → (body n t).2 = false →
      rel (variant (n + 1) (body n t).1) (variant n t)) : ∃ result, Returns body s result := by
  suffices hall : ∀ a n t, variant n t = a → before body s n = some t → ∃ result, Returns body s result from
    hall _ 0 s rfl rfl
  intro a
  induction a using hrel.induction with
  | h a ih =>
    intro n t ha hn
    cases hdone : (body n t).2 with
    | true => exact ⟨(body n t).1, n, t, hn, Prod.ext rfl hdone⟩
    | false => exact ih _ (ha ▸ hstep n t hn hdone) (n + 1) _ rfl (before_succ hn hdone)

/-- A loop never ends once it is where no round is the last and every round stays. -/
theorem not_returns {P : σ → Prop} (hstep : ∀ n t, P t → (body n t).2 = false ∧ P (body n t).1)
    (h : before body s n = some s') (hs : P s') : ¬ ∃ result, Returns body s result := by
  have hstay : ∀ m, ∃ t, before body s (n + m) = some t ∧ P t := by
    intro m
    induction m with
    | zero => exact ⟨s', h, hs⟩
    | succ m ih =>
      obtain ⟨t, ht, hP⟩ := ih
      exact ⟨_, before_succ ht (hstep _ t hP).1, (hstep _ t hP).2⟩
  rintro ⟨result, k, t, hk, hbody⟩
  have hle : n ≤ k := last_round hk (by rw [hbody]) h
  obtain ⟨t', ht', hP⟩ := hstay (k - n)
  rw [Nat.add_sub_cancel' hle, hk] at ht'
  obtain rfl := Option.some.inj ht'
  have hgoes := (hstep k t hP).1
  rw [hbody] at hgoes
  cases hgoes

end CProgram.Loops
