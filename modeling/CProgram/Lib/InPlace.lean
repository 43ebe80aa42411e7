import Mathlib.Data.List.Basic
import Mathlib.Logic.Function.Basic
import Mathlib.Tactic.Linarith

/-! A coder that writes its output into the memory that it reads its input from. While the writing
pointer stays behind the reading one, what comes out is the code of the input as it was. -/
namespace CProgram.InPlace
variable {α σ : Type*}

/-- The values of a memory from a place on. -/
def stretch (x : ℕ → α) (n : ℕ) : List α := (List.range n).map x

theorem length_stretch (x : ℕ → α) (n : ℕ) : (stretch x n).length = n := by simp [stretch]

theorem stretch_append (x : ℕ → α) (a b : ℕ) : stretch x (a + b) = stretch x a ++ stretch (fun i => x (a + i)) b := by
  simp [stretch, List.range_add, Function.comp_def]

theorem stretch_succ (x : ℕ → α) (n : ℕ) : stretch x (n + 1) = x 0 :: stretch (fun i => x (1 + i)) n := by
  rw [Nat.add_comm, stretch_append]
  rfl

/-- A memory with the pointer that reads it and the one that writes it. `stores` is where every
store went, with the reading pointer at that time. -/
structure Cursor (α : Type*) where
  buf : ℕ → α
  inp : ℕ
  out : ℕ
  stores : List (ℕ × ℕ)

namespace Cursor

/-- `*out++ = c`. -/
def put (t : Cursor α) (c : α) : Cursor α :=
  { t with buf := Function.update t.buf t.out c, out := t.out + 1, stores := t.stores ++ [(t.out, t.inp)] }

def puts (t : Cursor α) (cs : List α) : Cursor α := cs.foldl put t

/-- `in[i]`. -/
def get (t : Cursor α) (i : ℕ) : α := t.buf (t.inp + i)

/-- `in += k`. -/
def skip (t : Cursor α) (k : ℕ) : Cursor α := { t with inp := t.inp + k }

@[simp] theorem put_inp (t : Cursor α) (c : α) : (t.put c).inp = t.inp := rfl
@[simp] theorem put_out (t : Cursor α) (c : α) : (t.put c).out = t.out + 1 := rfl
@[simp] theorem skip_inp (t : Cursor α) (k : ℕ) : (t.skip k).inp = t.inp + k := rfl
@[simp] theorem skip_out (t : Cursor α) (k : ℕ) : (t.skip k).out = t.out := rfl

/-- A store behind the reading pointer is not seen by it. -/
theorem get_put {t : Cursor α} (hroom : t.out < t.inp) (c : α) (i : ℕ) : (t.put c).get i = t.get i :=
  Function.update_of_ne (by show t.inp + i ≠ t.out; omega) _ _

@[simp] theorem puts_inp (t : Cursor α) (cs : List α) : (t.puts cs).inp = t.inp := by
  induction cs generalizing t with
  | nil => rfl
  | cons c cs ih => exact ih (t.put c)

end Cursor

variable {base stop k : ℕ} {m : ℕ → α} {o : List α} {t : Cursor α}

/-- From `base` on the memory holds `o`, and no store went into the part up to `stop` that was
unread then. -/
structure Wrote (base stop : ℕ) (o : List α) (t : Cursor α) : Prop where
  out : t.out = base + o.length
  text : stretch (fun i => t.buf (base + i)) o.length = o
  stores : ∀ s ∈ t.stores, (base ≤ s.1 ∧ s.1 < t.out) ∧ ¬ (s.2 ≤ s.1 ∧ s.1 < stop)

/-- The unread part is still as it was. -/
structure Kept (m : ℕ → α) (base stop : ℕ) (o : List α) (t : Cursor α) : Prop extends Wrote base stop o t where
  unread : ∀ p, t.inp ≤ p → t.buf p = m p

theorem Wrote.out_append {cs : List α} {t' : Cursor α} (h : Wrote base stop o t) (h' : Wrote base stop (o ++ cs) t') :
    t'.out = t.out + cs.length := by
  rw [h'.out, h.out, List.length_append, Nat.add_assoc]

theorem Wrote.put (h : Wrote base stop o t) (c : α) (hfree : t.out < t.inp ∨ stop ≤ t.inp) :
    Wrote base stop (o ++ [c]) (t.put c) := by
  refine ⟨by simp [h.out]; omega, ?_, fun s hs => ?_⟩
  · rw [List.length_append, stretch_append]
    congr 1
    · refine Eq.trans (List.map_congr_left fun i hi => ?_) h.text
      have hi := List.mem_range.mp hi
      have hout := h.out
      exact Function.update_of_ne (by omega) _ _
    · simp [stretch, Cursor.put, h.out]
  · rcases List.mem_append.mp hs with hs | hs
    · have hold := h.stores s hs
      exact ⟨⟨hold.1.1, Nat.lt_succ_of_lt hold.1.2⟩, hold.2⟩
    · rw [List.mem_singleton.mp hs]
      have hout := h.out
      exact ⟨⟨by omega, Nat.lt_succ_self _⟩, by omega⟩

theorem Kept.put (h : Kept m base stop o t) (c : α) (hroom : t.out < t.inp) :
    Kept m base stop (o ++ [c]) (t.put c) := by
  refine ⟨h.toWrote.put c (Or.inl hroom), fun p hp => ?_⟩
  have hp : t.inp ≤ p := hp
  exact (Function.update_of_ne (by omega) _ _).trans (h.unread p hp)

theorem Wrote.puts (h : Wrote base stop o t) (cs : List α) (hfree : t.out + cs.length ≤ t.inp ∨ stop ≤ t.inp) :
    Wrote base stop (o ++ cs) (t.puts cs) := by
  induction cs generalizing o t with
  | nil => simpa [Cursor.puts] using h
  | cons c cs ih =>
    rw [List.length_cons] at hfree
    have hnext := ih (h.put c (by omega)) (by simp only [Cursor.put_out, Cursor.put_inp]; omega)
    rwa [List.append_assoc] at hnext

theorem Kept.puts (h : Kept m base stop o t) (cs : List α) (hroom : t.out + cs.length ≤ t.inp) :
    Kept m base stop (o ++ cs) (t.puts cs) := by
  induction cs generalizing o t with
  | nil => simpa [Cursor.puts] using h
  | cons c cs ih =>
    rw [List.length_cons] at hroom
    have hnext := ih (h.put c (by omega)) (by simp only [Cursor.put_out, Cursor.put_inp]; omega)
    rwa [List.append_assoc] at hnext

theorem Kept.skip (h : Kept m base stop o t) (k : ℕ) : Kept m base stop o (t.skip k) :=
  ⟨⟨h.out, h.text, h.stores⟩, fun p hp => h.unread p (Nat.le_of_add_right_le hp)⟩

theorem Kept.get (h : Kept m base stop o t) (i : ℕ) : t.get i = m (t.inp + i) :=
  h.unread _ (Nat.le_add_right _ _)

/-! ### Loops -/

/-- A loop of `n` rounds. -/
def rounds (step : σ → Cursor α → σ × Cursor α) : ℕ → σ → Cursor α → σ × Cursor α
  | 0, s, t => (s, t)
  | n + 1, s, t => rounds step n (step s t).1 (step s t).2

/-- What `n` rounds give of an input, each of them `k` values further on. -/
def emitted (f : σ → (ℕ → α) → σ × List α) (k : ℕ) : ℕ → σ → (ℕ → α) → σ × List α
  | 0, s, _ => (s, [])
  | n + 1, s, x =>
    let rest := emitted f k n (f s x).1 fun i => x (k + i)
    (rest.1, (f s x).2 ++ rest.2)

/-- A round of `step` writes what `f` gives for the input as it was, if that fits in behind the
reading pointer. -/
def Codes (m : ℕ → α) (base stop k : ℕ) (step : σ → Cursor α → σ × Cursor α)
    (f : σ → (ℕ → α) → σ × List α) : Prop :=
  ∀ s t o, Kept m base stop o t → t.out + (f s fun i => m (t.inp + i)).2.length ≤ t.inp →
    (step s t).1 = (f s fun i => m (t.inp + i)).1 ∧ (step s t).2.inp = t.inp + k ∧
      Kept m base stop (o ++ (f s fun i => m (t.inp + i)).2) (step s t).2

/-- The loop does too, if the output of each round ends behind the reading pointer of that round. -/
theorem Codes.run {step : σ → Cursor α → σ × Cursor α} {f : σ → (ℕ → α) → σ × List α}
    (h : Codes m base stop k step f) (n : ℕ) (s : σ) (hkept : Kept m base stop o t)
    (hroom : ∀ j < n, t.out + (emitted f k (j + 1) s fun i => m (t.inp + i)).2.length ≤ t.inp + k * j) :
    (rounds step n s t).1 = (emitted f k n s fun i => m (t.inp + i)).1 ∧
      (rounds step n s t).2.inp = t.inp + k * n ∧
        Kept m base stop (o ++ (emitted f k n s fun i => m (t.inp + i)).2) (rounds step n s t).2 := by
  induction n generalizing s t o with
  | zero => exact ⟨rfl, rfl, by simpa [emitted, rounds] using hkept⟩
  | succ n ih =>
    have hfirst := hroom 0 (Nat.succ_pos n)
    simp only [emitted, List.append_nil, Nat.mul_zero, Nat.add_zero] at hfirst
    obtain ⟨hstate, hinp, hnext⟩ := h s t o hkept hfirst
    have hx : (fun i => m ((step s t).2.inp + i)) = fun i => m (t.inp + (k + i)) := by
      funext i
      rw [hinp, Nat.add_assoc]
    have hmul (j : ℕ) : t.inp + k + k * j = t.inp + k * (j + 1) := by
      rw [Nat.mul_succ, Nat.add_assoc, Nat.add_comm k]
    have hout := hnext.out
    rw [List.length_append, ← Nat.add_assoc, ← hkept.out] at hout
    have hrest := ih (step s t).1 hnext fun j hj => by
      have hroom := hroom (j + 1) (Nat.succ_lt_succ hj)
      rw [emitted, List.length_append] at hroom
      rw [hx, hstate, hout, hinp, Nat.add_assoc, hmul]
      exact hroom
    rw [hx, hstate, hinp] at hrest
    rw [rounds, emitted, hstate]
    refine ⟨hrest.1, hrest.2.1.trans (hmul n), ?_⟩
    rw [← List.append_assoc]
    exact hrest.2.2

end CProgram.InPlace
