import Mathlib.Tactic

/-! Programs over a state that may fail: what they end in, and which failures are allowed. -/
namespace CProgram.Programs
variable {σ τ ε α β γ : Type}

abbrev Program (σ ε α : Type) := StateT σ (Except ε) α

variable {E E' : ε → Prop} {Q Q' : α → σ → Prop} {s t : σ} {m : Program σ ε α}

/-- From `s` the program ends in `Q`, or in a failure that `E` allows. -/
def Ends (m : Program σ ε α) (E : ε → Prop) (Q : α → σ → Prop) (s : σ) : Prop :=
  match m s with
  | .ok (a, t) => Q a t
  | .error e => E e

instance [∀ e, Decidable (E e)] [∀ a t, Decidable (Q a t)] : Decidable (Ends m E Q s) :=
  let decided : (r : Except ε (α × σ)) → Decidable (match r with
      | .ok (a, t) => Q a t
      | .error e => E e) := fun r =>
    match r with
    | .ok (a, t) => inferInstanceAs (Decidable (Q a t))
    | .error e => inferInstanceAs (Decidable (E e))
  decided (m s)

/-- The body of a loop, so many times, each time on what the last has left. -/
def repeatFrom (body : α → Program σ ε α) : ℕ → α → Program σ ε α
  | 0, a => pure a
  | n + 1, a => body a >>= repeatFrom body n

/-- A program on a part of the state. -/
def zoom (get : σ → τ) (put : τ → σ → σ) (m : Program τ ε α) : Program σ ε α := fun s =>
  match m (get s) with
  | .ok (a, t) => .ok (a, put t s)
  | .error e => .error e

@[simp] theorem ends_pure {a : α} : Ends (pure a : Program σ ε α) E Q s ↔ Q a s := Iff.rfl

@[simp] theorem ends_bind {f : α → Program σ ε β} {R : β → σ → Prop} :
    Ends (m >>= f) E R s ↔ Ends m E (fun a t => Ends (f a) E R t) s := by
  have hbind : (m >>= f) s = match m s with
      | .ok (a, t) => f a t
      | .error e => .error e := by
    show (m s >>= fun p => f p.1 p.2) = _
    cases m s <;> rfl
  unfold Ends
  rw [hbind]
  cases m s <;> rfl

@[simp] theorem ends_get {R : σ → σ → Prop} : Ends (get : Program σ ε σ) E R s ↔ R s s := Iff.rfl

@[simp] theorem ends_set {R : PUnit → σ → Prop} : Ends (set t : Program σ ε PUnit) E R s ↔ R ⟨⟩ t := Iff.rfl

@[simp] theorem ends_modify {f : σ → σ} {R : PUnit → σ → Prop} :
    Ends (modify f : Program σ ε PUnit) E R s ↔ R ⟨⟩ (f s) := Iff.rfl

@[simp] theorem ends_throw {e : ε} : Ends (throw e : Program σ ε α) E Q s ↔ E e := Iff.rfl

theorem ends_ite {p : Prop} [Decidable p] {m' : Program σ ε α} :
    Ends (if p then m else m') E Q s ↔ (p → Ends m E Q s) ∧ (¬ p → Ends m' E Q s) := by
  split <;> simp [*]

@[simp] theorem ends_zoom {get : σ → τ} {put : τ → σ → σ} {m : Program τ ε α} :
    Ends (zoom get put m) E Q s ↔ Ends m E (fun a t => Q a (put t s)) (get s) := by
  unfold Ends zoom
  cases m (get s) <;> rfl

theorem Ends.imp (h : Ends m E Q s) (hE : ∀ e, E e → E' e) (hQ : ∀ a t, Q a t → Q' a t) :
    Ends m E' Q' s := by
  unfold Ends at h ⊢
  cases hm : m s with
  | ok p => simp only [hm] at h; exact hQ _ _ h
  | error e => simp only [hm] at h; exact hE e h

theorem Ends.post (h : Ends m E Q s) (hQ : ∀ a t, Q a t → Q' a t) : Ends m E Q' s :=
  h.imp (fun _ he => he) hQ

theorem Ends.and (h : Ends m E Q s) (h' : Ends m E Q' s) : Ends m E (fun a t => Q a t ∧ Q' a t) s := by
  unfold Ends at h h' ⊢
  cases hm : m s with
  | ok p => simp only [hm] at h h'; exact ⟨h, h'⟩
  | error e => simp only [hm] at h; exact h

theorem Ends.bind {f : α → Program σ ε β} {R : β → σ → Prop} (h : Ends m E Q s)
    (hf : ∀ a t, Q a t → Ends (f a) E R t) : Ends (m >>= f) E R s := by
  rw [ends_bind]
  exact h.post hf

theorem ends_of_ok {a : α} (hm : m s = .ok (a, t)) : Ends m E Q s ↔ Q a t := by
  rw [Ends, hm]

theorem ends_forget : Ends m (fun _ => True) (fun _ _ => True) s := by
  unfold Ends
  split <;> trivial

/-- The rule for loops: `I k` holds before round `k`. -/
theorem ends_repeatFrom {body : α → Program σ ε α} {I : ℕ → α → σ → Prop} {n : ℕ} {a : α} (h : I 0 a s)
    (hbody : ∀ k a t, k < n → I k a t → Ends (body a) E (I (k + 1)) t) :
    Ends (repeatFrom body n a) E (I n) s := by
  induction n generalizing I a s with
  | zero => exact h
  | succ n ih =>
    refine (hbody 0 a s n.succ_pos h).bind fun b t ht => ?_
    exact ih (I := fun k => I (k + 1)) ht fun k b t hk => hbody (k + 1) b t (by omega)

/-- The rule for loops that keep what they find. -/
theorem ends_repeatFrom_const {body : α → Program σ ε α} {n : ℕ} {a : α} (h : Q a s)
    (hbody : ∀ a t, Q a t → Ends (body a) E Q t) : Ends (repeatFrom body n a) E Q s :=
  ends_repeatFrom (I := fun _ => Q) h fun _ a t _ => hbody a t

/-! ### What a program leaves alone -/

/-- Whatever the program does, `v` looks the same afterwards. -/
def Keeps (v : σ → γ) (m : Program σ ε α) : Prop := ∀ s, Ends m (fun _ => True) (fun _ t => v t = v s) s

namespace Keeps
variable {v : σ → γ} {p : Prop} [Decidable p] {m' : Program σ ε α}

theorem pure {a : α} : Keeps v (pure a : Program σ ε α) := fun _ => rfl

theorem throw {e : ε} : Keeps v (throw e : Program σ ε α) := fun _ => trivial

theorem get : Keeps v (get : Program σ ε σ) := fun _ => rfl

theorem bind {f : α → Program σ ε β} (hm : Keeps v m) (hf : ∀ a, Keeps v (f a)) : Keeps v (m >>= f) := by
  intro s
  refine (hm s).bind fun a t ht => ?_
  refine (hf a t).post fun b u hu => ?_
  rw [hu, ht]

theorem ite (hm : Keeps v m) (hm' : Keeps v m') : Keeps v (if p then m else m') := by
  split
  · exact hm
  · exact hm'

theorem modifyThen {f : σ → σ} {g : PUnit → Program σ ε α} (h : ∀ s, v (f s) = v s) (hg : Keeps v (g ⟨⟩)) :
    Keeps v (modify f >>= g) := by
  intro s
  rw [ends_bind, ends_modify]
  refine (hg (f s)).post fun a t ht => ?_
  rw [ht, h]

theorem modify {f : σ → σ} (h : ∀ s, v (f s) = v s) : Keeps v (modify f : Program σ ε PUnit) := fun s => h s

theorem repeatFrom {body : α → Program σ ε α} {n : ℕ} {a : α} (h : ∀ a, Keeps v (body a)) :
    Keeps v (repeatFrom body n a) := by
  induction n generalizing a with
  | zero => exact pure
  | succ n ih => exact bind (h a) fun b => ih

theorem forM {body : β → Program σ ε PUnit} {l : List β} (h : ∀ b, Keeps v (body b)) :
    Keeps v (l.forM body) := by
  induction l with
  | nil => exact pure
  | cons b l ih => exact bind (h b) fun _ => ih

end Keeps

/-! ### Loops over a list -/

/-- Before each round of the loop `fine` holds of the state and of the element. -/
def Throughout (fine : β → σ → Prop) (body : β → Program σ ε PUnit) : List β → σ → Prop
  | [], _ => True
  | b :: l, s => fine b s ∧ Ends (body b) (fun _ => True) (fun _ t => Throughout fine body l t) s

/-- The rule for loops whose rounds keep an invariant where they are fine. -/
theorem ends_forM {fine : β → σ → Prop} {body : β → Program σ ε PUnit} {I : σ → Prop} {l : List β}
    (hbody : ∀ b s, I s → fine b s → Ends (body b) (fun _ => True) (fun _ t => I t) s)
    (h : I s) (hl : Throughout fine body l s) : Ends (l.forM body) (fun _ => True) (fun _ t => I t) s := by
  induction l generalizing s with
  | nil => exact h
  | cons b l ih =>
    obtain ⟨hfine, hrest⟩ := hl
    refine ((hbody b s h hfine).and hrest).bind fun _ t ht => ?_
    exact ih ht.1 ht.2

end CProgram.Programs
