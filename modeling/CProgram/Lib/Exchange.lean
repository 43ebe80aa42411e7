import Mathlib.Data.List.Basic
import Mathlib.Tactic

/-! Two parties that are called in turns. A configuration waits for one of them when calls of the
other leave it as it is; under a fair schedule it then moves on. -/
namespace CProgram.Exchange
variable {γ : Type*} (call : ℕ → Bool → γ → Option γ)

/-- The configuration after `n` calls, if each of them has returned. -/
def run (turn : ℕ → Bool) (c : γ) : ℕ → Option γ
  | 0 => some c
  | n + 1 => (run turn c n).bind (call n (turn n))

/-- Each party is called again and again. -/
def Fair (turn : ℕ → Bool) : Prop := ∀ b n, ∃ m, n ≤ m ∧ turn m = b

/-- Only a call of `b` makes a difference. -/
def WaitsFor (b : Bool) (c : γ) : Prop := ∀ t, call t (!b) c = some c

/-- Whatever the calls choose, `goal` is reached. -/
inductive Leads (goal : γ → Prop) : γ → Prop
  | here {c : γ} (h : goal c) : Leads goal c
  | turn {c : γ} (b : Bool) (next : ℕ → γ) (hwaits : WaitsFor call b c)
      (hcall : ∀ t, call t b c = some (next t)) (hnext : ∀ t, Leads goal (next t)) : Leads goal c

variable {call} {turn : ℕ → Bool} {c c₀ : γ}

theorem run_succ {n : ℕ} (h : run call turn c₀ n = some c) :
    run call turn c₀ (n + 1) = call n (turn n) c := by
  rw [run, h]
  rfl

theorem run_none {n k : ℕ} (h : run call turn c₀ n = none) (hk : n ≤ k) : run call turn c₀ k = none := by
  induction k, hk using Nat.le_induction with
  | base => exact h
  | succ k _ ih =>
    rw [run, ih]
    rfl

theorem run_of_still {n k : ℕ} (hstill : ∀ t b, call t b c = some c)
    (h : run call turn c₀ n = some c) (hk : n ≤ k) : run call turn c₀ k = some c := by
  induction k, hk using Nat.le_induction with
  | base => exact h
  | succ k _ ih => rw [run_succ ih, hstill]

/-- A configuration stays until the party it waits for is called. -/
theorem exists_turn (hfair : Fair turn) {b : Bool} {m : ℕ} (hwaits : WaitsFor call b c)
    (h : run call turn c₀ m = some c) :
    ∃ k, m ≤ k ∧ turn k = b ∧ run call turn c₀ k = some c := by
  have hex : ∃ d, turn (m + d) = b := by
    obtain ⟨k, hk, hturn⟩ := hfair b m
    exact ⟨k - m, by rw [Nat.add_sub_cancel' hk, hturn]⟩
  classical
  refine ⟨m + Nat.find hex, Nat.le_add_right .., Nat.find_spec hex, ?_⟩
  have hstay : ∀ d, d ≤ Nat.find hex → run call turn c₀ (m + d) = some c := by
    intro d
    induction d with
    | zero => exact fun _ => h
    | succ d ih =>
      intro hd
      have hother : turn (m + d) = !b := Bool.eq_not.mpr (Nat.find_min hex (by omega))
      have hrun := run_succ (ih (by omega))
      rw [hother, hwaits] at hrun
      exact hrun
  exact hstay _ le_rfl

theorem Leads.reached {goal : γ → Prop} (h : Leads call goal c) (hfair : Fair turn) {m : ℕ}
    (hm : run call turn c₀ m = some c) :
    ∃ n c', m ≤ n ∧ run call turn c₀ n = some c' ∧ goal c' := by
  induction h generalizing m with
  | here h => exact ⟨m, _, le_rfl, hm, h⟩
  | turn b next hwaits hcall _ ih =>
    obtain ⟨k, hk, hturn, hrun⟩ := exists_turn hfair hwaits hm
    have hnext := run_succ hrun
    rw [hturn, hcall] at hnext
    obtain ⟨n, c', hn, hgoal⟩ := ih k hnext
    exact ⟨n, c', by omega, hgoal⟩

theorem Leads.trans {goal goal' : γ → Prop} (h : Leads call goal c)
    (hnext : ∀ c, goal c → Leads call goal' c) : Leads call goal' c := by
  induction h with
  | here h => exact hnext _ h
  | turn b next hwaits hcall _ ih => exact .turn b next hwaits hcall ih

/-- A call that does not return is made at last. -/
theorem exists_run_none (hfair : Fair turn) {b : Bool} {m : ℕ} (hwaits : WaitsFor call b c)
    (hcall : ∀ t, call t b c = none) (h : run call turn c₀ m = some c) :
    ∃ n, ∀ k, n ≤ k → run call turn c₀ k = none := by
  obtain ⟨k, -, hturn, hrun⟩ := exists_turn hfair hwaits h
  have hnext := run_succ hrun
  rw [hturn, hcall] at hnext
  exact ⟨k + 1, fun _ => run_none hnext⟩

/-- The schedule that takes the parties in turns is fair. -/
theorem fair_alternate : Fair fun n => n % 2 = 0 := by
  intro b n
  cases b with
  | true => exact ⟨2 * n, by omega, by simp⟩
  | false => exact ⟨2 * n + 1, by omega, by simp⟩

end CProgram.Exchange
