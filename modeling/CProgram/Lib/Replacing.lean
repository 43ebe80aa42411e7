import Mathlib.Data.List.Basic
import Mathlib.Data.List.Count
import Mathlib.Tactic.Ring

/-! Replacing all occurrences of a pattern, from left to right. A text with marks in it stands for the texts that
come of it when each mark is put for a string. -/
namespace CProgram.Replacing
variable {α : Type*}

/-- The text, with `R` for each mark. -/
def render (R : List α) (ts : List (Option α)) : List α := ts.flatMap fun t => t.elim R fun c => [c]

@[simp] theorem render_nil (R : List α) : render R [] = [] := rfl
@[simp] theorem render_none (R : List α) (ts : List (Option α)) : render R (none :: ts) = R ++ render R ts := rfl
@[simp] theorem render_some (R : List α) (c : α) (ts : List (Option α)) :
    render R (some c :: ts) = c :: render R ts := rfl

theorem render_append (R : List α) (ts us : List (Option α)) : render R (ts ++ us) = render R ts ++ render R us :=
  List.flatMap_append

theorem render_plain (R s : List α) : render R (s.map some) = s := by
  induction s with
  | nil => rfl
  | cons c s ih => rw [List.map_cons, render_some, ih]

variable [DecidableEq α]

/-- A mark for each occurrence of the pattern, with so many characters passed over first. -/
def parse (P : List α) : ℕ → List α → List (Option α)
  | _, [] => []
  | k + 1, _ :: rest => parse P k rest
  | 0, c :: rest => if P <+: c :: rest then none :: parse P (P.length - 1) rest else some c :: parse P 0 rest

/-- Every occurrence of `P` replaced by `R`. -/
def replace (P R s : List α) : List α := render R (parse P 0 s)

/-- Where the marks stand for `P`, it begins nowhere else. -/
def Apart (P : List α) : List (Option α) → Prop
  | [] => True
  | none :: ts => Apart P ts
  | some c :: ts => ¬ P <+: c :: render P ts ∧ Apart P ts

instance decidableApart (P : List α) : (ts : List (Option α)) → Decidable (Apart P ts)
  | [] => inferInstanceAs (Decidable True)
  | none :: ts => decidableApart P ts
  | some c :: ts =>
    haveI := decidableApart P ts
    inferInstanceAs (Decidable (¬ P <+: c :: render P ts ∧ Apart P ts))

section
variable {P R s : List α} {ts : List (Option α)}

theorem parse_skip (P : List α) (k : ℕ) (s : List α) : parse P k s = parse P 0 (s.drop k) := by
  induction s generalizing k with
  | nil => cases k <;> rfl
  | cons c s ih =>
    cases k with
    | zero => rfl
    | succ k => exact ih k

theorem parse_pattern (hP : P ≠ []) (rest : List α) : parse P 0 (P ++ rest) = none :: parse P 0 rest := by
  cases P with
  | nil => exact absurd rfl hP
  | cons a P' =>
    rw [List.cons_append, parse, if_pos (show a :: P' <+: a :: (P' ++ rest) from List.prefix_append (a :: P') rest),
      parse_skip]
    simp

theorem parse_other {c : α} (h : ¬ P <+: c :: s) : parse P 0 (c :: s) = some c :: parse P 0 s := by
  rw [parse, if_neg h]

theorem render_parse (hP : P ≠ []) (s : List α) : render P (parse P 0 s) = s := by
  induction hn : s.length using Nat.strong_induction_on generalizing s with
  | _ n ih =>
    cases s with
    | nil => rfl
    | cons c s =>
      by_cases h : P <+: c :: s
      · obtain ⟨rest, hrest⟩ := h
        have hpos := List.length_pos_iff.mpr hP
        have hlen := congrArg List.length hrest
        rw [List.length_append] at hlen
        rw [← hrest, parse_pattern hP, render_none, ih rest.length (by omega) rest rfl]
      · rw [parse_other h, render_some, ih s.length (by simp at hn; omega) s rfl]

/-- A text with its marks apart is read back. -/
theorem parse_render (hP : P ≠ []) (h : Apart P ts) : parse P 0 (render P ts) = ts := by
  induction ts with
  | nil => rfl
  | cons t ts ih =>
    cases t with
    | none => rw [render_none, parse_pattern hP, ih h]
    | some c => rw [render_some, parse_other h.1, ih h.2]

theorem replace_render (hP : P ≠ []) (R : List α) (h : Apart P ts) : replace P R (render P ts) = render R ts := by
  rw [replace, parse_render hP h]

/-- Where they are not apart, the reading goes wrong for the first time at a character with which the pattern begins. -/
theorem parse_differs (hP : P ≠ []) (h : ¬ Apart P ts) : ∃ front back rest, ts = front ++ some (P.head hP) :: back ∧
    parse P 0 (render P ts) = front ++ none :: rest := by
  induction ts with
  | nil => exact absurd trivial h
  | cons t ts ih =>
    cases t with
    | none =>
      obtain ⟨front, back, rest, hts, hparse⟩ := ih h
      exact ⟨none :: front, back, rest, by rw [hts]; rfl, by rw [render_none, parse_pattern hP, hparse]; rfl⟩
    | some c =>
      by_cases hc : P <+: c :: render P ts
      · obtain ⟨rest, hrest⟩ := hc
        have hhead : P.head hP = c := by
          cases P with
          | nil => exact absurd rfl hP
          | cons a P' => exact (List.cons.inj hrest).1
        exact ⟨[], ts, parse P 0 rest, by rw [hhead]; rfl, by rw [render_some, ← hrest, parse_pattern hP]; rfl⟩
      · obtain ⟨front, back, rest, hts, hparse⟩ := ih fun hapart => h ⟨hc, hapart⟩
        exact ⟨some c :: front, back, rest, by rw [hts]; rfl, by rw [render_some, parse_other hc, hparse]; rfl⟩

/-! ### Counting -/

theorem count_render (a : α) (R : List α) (ts : List (Option α)) :
    (render R ts).count a = ts.count (some a) + ts.count none * R.count a := by
  induction ts with
  | nil => simp
  | cons t ts ih =>
    cases t with
    | none =>
      rw [render_none, List.count_append, ih, List.count_cons_of_ne (by simp), List.count_cons_self]
      ring
    | some c =>
      rw [render_some, List.count_cons, List.count_cons, List.count_cons_of_ne (by simp), ih]
      simp only [beq_iff_eq, Option.some.injEq]
      ring

theorem length_render (R : List α) (ts : List (Option α)) :
    (render R ts).length + ts.count none = ts.length + ts.count none * R.length := by
  induction ts with
  | nil => simp
  | cons t ts ih =>
    cases t with
    | none =>
      rw [render_none, List.length_append, List.count_cons_self, List.length_cons, Nat.add_one_mul]
      omega
    | some c =>
      rw [render_some, List.length_cons, List.length_cons, List.count_cons_of_ne (by simp)]
      omega

omit [DecidableEq α] in
theorem prefix_append_iff {d : α} (hd : d ∉ P) (s rest : List α) : P <+: s ++ d :: rest ↔ P <+: s := by
  refine ⟨fun h => ?_, fun h => h.trans (List.prefix_append s _)⟩
  rcases Nat.lt_or_ge s.length P.length with hlong | hshort
  · have hcut : s ++ [d] <+: s ++ d :: rest := ⟨rest, by simp⟩
    have hin := List.prefix_of_prefix_length_le hcut h (by rw [List.length_append]; exact hlong)
    exact absurd (hin.subset (by simp)) hd
  · exact List.prefix_of_prefix_length_le h (List.prefix_append s _) hshort

theorem count_replace {a : α} (ha : a ∉ P) (hP : P ≠ []) (R s : List α) :
    (replace P R s).count a = s.count a + (parse P 0 s).count none * R.count a := by
  have hback := count_render a P (parse P 0 s)
  rw [render_parse hP, List.count_eq_zero_of_not_mem ha, Nat.mul_zero, Nat.add_zero] at hback
  rw [replace, count_render, hback]

theorem length_replace (hP : P ≠ []) (R s : List α) :
    (replace P R s).length + (parse P 0 s).count none * P.length = s.length + (parse P 0 s).count none * R.length := by
  have hback := length_render P (parse P 0 s)
  have hthis := length_render R (parse P 0 s)
  rw [render_parse hP] at hback
  rw [replace]
  omega

/-- A character that the pattern does not have parts the text. -/
theorem parse_split {d : α} (hd : d ∉ P) (hP : P ≠ []) (s rest : List α) :
    parse P 0 (s ++ d :: rest) = parse P 0 s ++ some d :: parse P 0 rest := by
  induction hn : s.length using Nat.strong_induction_on generalizing s with
  | _ n ih =>
    by_cases hmark : P <+: s
    · obtain ⟨s', rfl⟩ := hmark
      have hpos := List.length_pos_iff.mpr hP
      rw [List.length_append] at hn
      rw [List.append_assoc, parse_pattern hP, parse_pattern hP, ih s'.length (by omega) s' rfl, List.cons_append]
    · cases s with
      | nil => exact parse_other fun h => hmark ((prefix_append_iff hd [] rest).mp h)
      | cons c s =>
        have hlong : ¬ P <+: c :: (s ++ d :: rest) := mt (prefix_append_iff hd (c :: s) rest).mp hmark
        rw [List.length_cons] at hn
        rw [List.cons_append, parse_other hlong, parse_other hmark, ih s.length (by omega) s rfl, List.cons_append]

theorem replace_split {d : α} (hd : d ∉ P) (hP : P ≠ []) (R s rest : List α) :
    replace P R (s ++ d :: rest) = replace P R s ++ d :: replace P R rest := by
  rw [replace, parse_split hd hP, render_append, render_some, replace, replace]

/-- Nor is a pattern found at characters with which it does not begin. -/
theorem parse_append {a : α} {P' : List α} (hs : ∀ c ∈ s, c ≠ a) (rest : List α) :
    parse (a :: P') 0 (s ++ rest) = s.map some ++ parse (a :: P') 0 rest := by
  induction s with
  | nil => rfl
  | cons c s ih =>
    have hc : ¬ a :: P' <+: c :: (s ++ rest) := fun h =>
      hs c List.mem_cons_self (List.cons_prefix_cons.mp h).1.symm
    rw [List.cons_append, parse_other hc, ih fun d hd => hs d (List.mem_cons_of_mem c hd)]
    rfl

omit [DecidableEq α] in
theorem count_plain [BEq (Option α)] [LawfulBEq (Option α)] (s : List α) : (s.map some).count (none : Option α) = 0 :=
  List.count_eq_zero.mpr (by simp)

/-! ### Patterns whose first character comes only once -/

variable {a : α} {P' : List α}

omit [DecidableEq α] in
/-- Such a pattern does not begin inside a mark. -/
theorem spelled (Q : List α) (hQ : a ∉ Q) (h : Q <+: render (a :: P') ts) : ∃ rest, ts = Q.map some ++ rest := by
  induction Q generalizing ts with
  | nil => exact ⟨ts, rfl⟩
  | cons q Q ih =>
    cases ts with
    | nil => simp at h
    | cons t ts =>
      cases t with
      | none =>
        obtain ⟨rest, hrest⟩ := h
        obtain rfl : q = a := (List.cons.inj hrest).1
        exact absurd (List.mem_cons_self) hQ
      | some c =>
        obtain ⟨hq, hrest⟩ := List.cons_prefix_cons.mp h
        obtain ⟨rest, rfl⟩ := ih (fun hmem => hQ (List.mem_cons_of_mem _ hmem)) hrest
        exact ⟨rest, by rw [hq]; rfl⟩

/-- How often a pattern is found does not depend on what the marks stand for, if it is nothing that the pattern has. -/
theorem count_parse_render {Q R' : List α} {q : α} (hR : ∀ c ∈ a :: R', c ∉ q :: Q) (ts : List (Option α)) :
    (parse (q :: Q) 0 (render (a :: R') ts)).count none = (parse ((q :: Q).map some) 0 ts).count none := by
  have hQ : q :: Q ≠ [] := List.cons_ne_nil q Q
  have hmap : (q :: Q).map some ≠ [] := List.cons_ne_nil _ _
  induction hn : ts.length using Nat.strong_induction_on generalizing ts with
  | _ n ih =>
    cases ts with
    | nil => rfl
    | cons t ts =>
      rw [List.length_cons] at hn
      cases t with
      | none =>
        have hpass : ∀ c ∈ a :: R', c ≠ q := fun c hc hcq => hR c hc (hcq ▸ List.mem_cons_self)
        have hnone : ¬ (q :: Q).map some <+: none :: ts := fun h => nomatch (List.cons_prefix_cons.mp h).1
        rw [render_none, parse_append hpass, List.count_append, count_plain, Nat.zero_add, parse_other hnone,
          List.count_cons_of_ne (by simp)]
        exact ih ts.length (by omega) ts rfl
      | some c =>
        by_cases hc : q :: Q <+: render (a :: R') (some c :: ts)
        · obtain ⟨rest, hrest⟩ := spelled (q :: Q) (hR a List.mem_cons_self) hc
          have hlen := congrArg List.length hrest
          simp only [List.length_cons, List.length_append, List.length_map] at hlen
          rw [hrest, render_append, render_plain, parse_pattern hQ, parse_pattern hmap, List.count_cons_self,
            List.count_cons_self, ih rest.length (by omega) rest rfl]
        · have hmark : ¬ (q :: Q).map some <+: some c :: ts := fun ⟨rest, hrest⟩ => hc (by
            rw [← hrest, render_append, render_plain]
            exact List.prefix_append _ _)
          rw [render_some] at hc ⊢
          rw [parse_other hc, parse_other hmark, List.count_cons_of_ne (by simp), List.count_cons_of_ne (by simp)]
          exact ih ts.length (by omega) ts rfl

/-- Reading adds to the marks, and if it adds none the marks are apart. -/
theorem count_parse (ha : a ∉ P') (ts : List (Option α)) :
    ts.count none ≤ (parse (a :: P') 0 (render (a :: P') ts)).count none ∧
      ((parse (a :: P') 0 (render (a :: P') ts)).count none = ts.count none → Apart (a :: P') ts) := by
  have hP : a :: P' ≠ [] := List.cons_ne_nil a P'
  induction hn : ts.length using Nat.strong_induction_on generalizing ts with
  | _ n ih =>
    cases ts with
    | nil => exact ⟨Nat.zero_le _, fun _ => trivial⟩
    | cons t ts =>
      rw [List.length_cons] at hn
      cases t with
      | none =>
        obtain ⟨hle, hapart⟩ := ih ts.length (by omega) ts rfl
        rw [render_none, parse_pattern hP, List.count_cons_self, List.count_cons_self]
        exact ⟨Nat.succ_le_succ hle, fun h => hapart (Nat.succ.inj h)⟩
      | some c =>
        by_cases hc : a :: P' <+: c :: render (a :: P') ts
        · obtain ⟨hac, htail⟩ := List.cons_prefix_cons.mp hc
          obtain ⟨rest, rfl⟩ := spelled P' ha htail
          have hrest := (ih rest.length (by simp at hn; omega) rest rfl).1
          have hmark : parse (a :: P') 0 (render (a :: P') (some c :: (P'.map some ++ rest))) =
              none :: parse (a :: P') 0 (render (a :: P') rest) := by
            rw [render_some, render_append, render_plain, ← hac]
            exact parse_pattern hP _
          rw [hmark, List.count_cons_self, List.count_cons_of_ne (by simp), List.count_append, count_plain, Nat.zero_add]
          exact ⟨Nat.le_succ_of_le hrest, fun h => absurd h (by omega)⟩
        · obtain ⟨hle, hapart⟩ := ih ts.length (by omega) ts rfl
          rw [render_some, parse_other hc, List.count_cons_of_ne (by simp), List.count_cons_of_ne (by simp)]
          exact ⟨hle, fun h => ⟨hc, hapart h⟩⟩

/-- Marks that stand for a string of the same length can be replaced late only by the pattern itself. -/
theorem replace_render_iff (ha : a ∉ P') (R : List α) (ts : List (Option α)) :
    replace (a :: P') R (render (a :: P') ts) = render R ts ↔ Apart (a :: P') ts ∨ R = a :: P' := by
  have hP : a :: P' ≠ [] := List.cons_ne_nil a P'
  refine ⟨fun h => ?_, fun h => ?_⟩
  · by_cases hlen : R.length = (a :: P').length
    · induction hn : ts.length using Nat.strong_induction_on generalizing ts with
      | _ n ih =>
        cases ts with
        | nil => exact Or.inl trivial
        | cons t ts =>
          rw [List.length_cons] at hn
          cases t with
          | none =>
            rw [render_none, replace, parse_pattern hP, render_none, render_none, List.append_cancel_left_eq] at h
            exact ih ts.length (by omega) ts h rfl
          | some c =>
            by_cases hc : a :: P' <+: c :: render (a :: P') ts
            · obtain ⟨hac, htail⟩ := List.cons_prefix_cons.mp hc
              obtain ⟨rest, rfl⟩ := spelled P' ha htail
              rw [render_some, render_some, render_append, render_append, render_plain, render_plain, ← hac, replace,
                ← List.cons_append, parse_pattern hP, render_none, ← List.cons_append] at h
              exact Or.inr (List.append_inj_left h hlen)
            · rw [render_some, replace, parse_other hc, render_some, render_some, List.cons_inj_right] at h
              exact (ih ts.length (by omega) ts h rfl).imp_left fun hapart => ⟨hc, hapart⟩
    · refine Or.inl ((count_parse ha ts).2 ?_)
      have hread := length_render R (parse (a :: P') 0 (render (a :: P') ts))
      have hback := length_render (a :: P') (parse (a :: P') 0 (render (a :: P') ts))
      have hthis := length_render R ts
      have hwas := length_render (a :: P') ts
      rw [render_parse hP] at hback
      rw [replace] at h
      rw [h] at hread
      have hmore := (count_parse ha ts).1
      generalize (parse (a :: P') 0 (render (a :: P') ts)).count none = m at *
      generalize ts.count none = n at *
      obtain ⟨d, rfl⟩ := Nat.exists_eq_add_of_le hmore
      have hd : d * R.length = d * (a :: P').length := by
        rw [Nat.add_mul] at hread hback
        omega
      rcases Nat.eq_zero_or_pos d with rfl | hpos
      · rfl
      · exact absurd (Nat.eq_of_mul_eq_mul_left hpos hd) hlen
  · rcases h with h | rfl
    · exact replace_render hP R h
    · exact render_parse hP _

end
end CProgram.Replacing
