import CProgram.Lib.Sorting
import CProgram.Qodem.Tagged

/-! Sorting the phonebook: neighbours out of order change places until there are none, and the entries that are alike
under the method stay in their order. -/
namespace CProgram.Qodem.Phonebook
open Links Sorting
variable {fuel p q x : ℕ} {s t : Book} {xs ys front back : List ℕ} {method : SortMethod}

/-- Two entries of a phonebook under the method. -/
def inOrder (method : SortMethod) (entry : ℕ → Entry) (p q : ℕ) : Bool := ordered method (entry p) (entry q)

/-- The entries by the method: turned round, or sorted with those that are alike as they were. -/
def Arranged (method : SortMethod) (entry : ℕ → Entry) (xs ys : List ℕ) : Prop :=
  if method = .reverse then ys = xs.reverse
  else ys.Pairwise (fun p q => inOrder method entry p q = true) ∧
    ∀ p, ys.filter (alike (inOrder method entry) p) = xs.filter (alike (inOrder method entry) p)

theorem ordering_of_key {κ : Type} [LE κ] [Std.IsLinearPreorder κ] (key : Entry → κ) (entry : ℕ → Entry)
    {r : ℕ → ℕ → Bool} (hr : ∀ p q, r p q = true ↔ key (entry p) ≤ key (entry q)) : Ordering r where
  total p q := by
    rw [hr, hr]
    exact Std.le_total
  trans p q z hpq hqz := by
    rw [hr] at hpq hqz ⊢
    exact Std.le_trans hpq hqz

/-- Each method but the last one compares a key. -/
theorem inOrder_ordering (hmethod : method ≠ .reverse) (entry : ℕ → Entry) : Ordering (inOrder method entry) := by
  cases method with
  | nameAsc => exact ordering_of_key Entry.name entry fun p q => by simp [inOrder, ordered]
  | addressAsc => exact ordering_of_key (fun e => e.address.map tolower) entry fun p q => by simp [inOrder, ordered]
  | totalCallsDesc => exact ordering_of_key (fun e => -(e.timesOn : ℤ)) entry fun p q => by simp [inOrder, ordered]
  | methodAsc => exact ordering_of_key Entry.method entry fun p q => by simp [inOrder, ordered]
  | lastCallDesc => exact ordering_of_key (fun e => -e.lastCall) entry fun p q => by simp [inOrder, ordered]
  | reverse => exact absurd rfl hmethod

/-- The search for two neighbours out of order, from an entry on. -/
theorem firstUnordered_ends (method : SortMethod) (h : Chain s (front ++ x :: back)) (hfuel : back.length < fuel) :
    s.firstUnordered method fuel x = some none ∧
        (∀ mid p q rest, x :: back = mid ++ p :: q :: rest → inOrder method s.entry p q = true) ∨
      ∃ mid p q rest, x :: back = mid ++ p :: q :: rest ∧ inOrder method s.entry p q = false ∧
        s.firstUnordered method fuel x = some (some (p, q)) := by
  induction back generalizing front x fuel with
  | nil =>
    obtain ⟨fuel, rfl⟩ := Nat.exists_eq_succ_of_ne_zero (Nat.ne_of_gt hfuel)
    have hnext : (s.cell x).next = none := h.row.next_eq
    refine .inl ⟨by rw [Book.firstUnordered, hnext], fun mid p q rest heq => ?_⟩
    have hlength := congrArg List.length heq
    simp at hlength
    omega
  | cons y back ih =>
    rw [List.length_cons] at hfuel
    obtain ⟨fuel, rfl⟩ := Nat.exists_eq_succ_of_ne_zero (show fuel ≠ 0 by omega)
    have hnext : (s.cell x).next = some y := h.row.next_eq
    cases hxy : ordered method (s.entry x) (s.entry y) with
    | false =>
      refine .inr ⟨[], x, y, back, rfl, hxy, ?_⟩
      rw [Book.firstUnordered, hnext]
      simp [hxy]
    | true =>
      have hgo : s.firstUnordered method (fuel + 1) x = s.firstUnordered method fuel y := by
        rw [Book.firstUnordered, hnext]
        simp [hxy]
      have hlist : front ++ x :: y :: back = (front ++ [x]) ++ y :: back := by simp
      rw [Nat.succ_eq_add_one, hgo]
      have hless : back.length < fuel := by omega
      rcases ih (hlist ▸ h) hless with ⟨hnone, hall⟩ | ⟨mid, p, q, rest, heq, hpq, hsome⟩
      · refine .inl ⟨hnone, fun mid p q rest heq => ?_⟩
        cases mid with
        | nil =>
          simp only [List.nil_append, List.cons.injEq] at heq
          obtain ⟨rfl, rfl, -⟩ := heq
          exact hxy
        | cons z mid =>
          simp only [List.cons_append, List.cons.injEq] at heq
          exact hall mid p q rest heq.2
      · exact .inr ⟨x :: mid, p, q, rest, by rw [heq, List.cons_append], hpq, hsome⟩

/-- One round for each inversion, and one that finds nothing more. -/
theorem sortLoop_ends (hmethod : method ≠ .reverse) {inner : ℕ} (n : ℕ) : ∀ (s : Book) (xs : List ℕ), Chain s xs →
    xs.length ≤ inner → inversions (inOrder method s.entry) xs < n →
    ∃ t ys, Book.sortLoop method inner n s = some t ∧ Chain t ys ∧ ys.Perm xs ∧ t.entry = s.entry ∧
      Arranged method s.entry xs ys := by
  induction n with
  | zero =>
    intro s xs h hinner hn
    exact absurd hn (Nat.not_lt_zero _)
  | succ n ih =>
    intro s xs h hinner hn
    have hordering := inOrder_ordering hmethod s.entry
    cases xs with
    | nil =>
      refine ⟨s, [], ?_, h, List.Perm.refl _, rfl, ?_⟩
      · rw [Book.sortLoop, h.head]
        rfl
      · rw [Arranged, if_neg hmethod]
        exact ⟨List.Pairwise.nil, fun _ => rfl⟩
    | cons x back =>
      have hhead : s.entries = some x := h.head
      rw [List.length_cons] at hinner
      rcases firstUnordered_ends method (show Chain s ([] ++ x :: back) from h) (Nat.lt_of_succ_le hinner) with
        ⟨hnone, hall⟩ | ⟨mid, p, q, rest, heq, hpq, hsome⟩
      · refine ⟨s, x :: back, ?_, h, List.Perm.refl _, rfl, ?_⟩
        · rw [Book.sortLoop, hhead]
          dsimp only
          rw [hnone]
        · rw [Arranged, if_neg hmethod]
          exact ⟨pairwise_of_neighbours hordering hall, fun _ => rfl⟩
      · rw [heq] at h hn ⊢
        have hexchange : Exchange (inOrder method s.entry) (mid ++ p :: q :: rest) (mid ++ q :: p :: rest) :=
          .mk mid rest p q hpq
        have hentry : (s.swap p q).entry = s.entry := (swap_entry s p q).1
        have hless := hexchange.inversions_lt hordering
        have hlength : (mid ++ q :: p :: rest).length ≤ inner := by
          rw [hexchange.perm.length_eq, ← heq, List.length_cons]
          exact hinner
        obtain ⟨t, ys, hloop, hchain, hperm, hsame, harranged⟩ :=
          ih (s.swap p q) (mid ++ q :: p :: rest) h.swap hlength (by rw [hentry]; omega)
        refine ⟨t, ys, ?_, hchain, hperm.trans hexchange.perm, hsame.trans hentry, ?_⟩
        · rw [Book.sortLoop, hhead]
          dsimp only
          rw [hsome]
          exact hloop
        · rw [Arranged, if_neg hmethod, hentry] at harranged
          rw [Arranged, if_neg hmethod]
          exact ⟨harranged.1, fun z => (harranged.2 z).trans (hexchange.filter_eq hordering z)⟩

theorem reverseLoop_ends {cell : ℕ → Cell ℕ} {before tail : Option ℕ} (hrow : Row cell before ys none)
    (hnodup : ys.Nodup) : ∃ turned, Book.reverseLoop ys.length cell ys.head? tail = some turned := by
  induction ys generalizing cell before tail with
  | nil => exact ⟨(cell, tail), rfl⟩
  | cons p rest ih =>
    obtain ⟨-, hnext, hrest⟩ := hrow
    obtain ⟨hp, hnodup⟩ := List.nodup_cons.mp hnodup
    rw [Option.or_none] at hnext
    have hkept : Row (Function.update cell p ⟨(cell p).next, (cell p).prev⟩) (some p) rest none := by
      apply hrest.congr
      intro x hx
      apply Function.update_of_ne
      rintro rfl
      exact hp hx
    obtain ⟨turned, hloop⟩ : ∃ turned, Book.reverseLoop rest.length
        (Function.update cell p ⟨(cell p).next, (cell p).prev⟩) rest.head? (some p) = some turned := ih hkept hnodup
    refine ⟨turned, ?_⟩
    rw [List.length_cons, List.head?_cons, Book.reverseLoop, hnext]
    rw [hnext] at hloop
    exact hloop

/-- Every sort comes to an end with the same entries in one list, arranged by the method. -/
theorem sort_stable (s : Book) (xs : List ℕ) (h : Listed s xs) (method : SortMethod) :
    ∃ fuel t ys, s.sortPhonebook fuel method = some t ∧ Listed t ys ∧ ys.Perm xs ∧ t.entry = s.entry ∧
      Arranged method s.entry xs ys := by
  by_cases hnil : s.entries = none
  · obtain rfl := h.chain.nil_iff.mp hnil
    refine ⟨0, s, [], by rw [Book.sortPhonebook, if_pos hnil], h, List.Perm.refl _, rfl, ?_⟩
    rw [Arranged]
    split
    · rfl
    · exact ⟨List.Pairwise.nil, fun _ => rfl⟩
  by_cases hmethod : method = .reverse
  · obtain ⟨⟨cell, tail⟩, hloop⟩ : ∃ turned, Book.reverseLoop xs.length s.cell xs.head? none = some turned :=
      reverseLoop_ends h.chain.row h.chain.nodup
    rw [← h.chain.head] at hloop
    refine ⟨xs.length, { s with cell, entries := tail, selectedEntry := tail }, xs.reverse, ?_,
      (h.chain.turned hloop).listed_head, List.reverse_perm xs, rfl, ?_⟩
    · rw [Book.sortPhonebook, if_neg hnil, if_pos hmethod, hloop]
      rfl
    · rw [Arranged, if_pos hmethod]
  · let fuel := xs.length + inversions (inOrder method s.entry) xs + 1
    obtain ⟨t, ys, hloop, hchain, hperm, hentry, harranged⟩ :=
      sortLoop_ends hmethod fuel s xs h.chain (show xs.length ≤ fuel by omega) (by omega)
    refine ⟨fuel, { t with selectedEntry := t.entries }, ys, ?_, hchain.listed_head, hperm, hentry, harranged⟩
    rw [Book.sortPhonebook, if_neg hnil, if_neg hmethod, hloop]
    rfl

/-- Two entries of a file, sorted by their names. -/
theorem sort_stable_rows : ∃ s xs, loadPhonebook (fun _ => plainEntry) [⟨plainEntry, 0⟩, ⟨plainEntry, 1⟩] = some s ∧
    ∃ fuel t ys, s.sortPhonebook fuel .nameAsc = some t ∧ Listed t ys ∧ ys.Perm xs ∧ t.entry = s.entry ∧
      Arranged .nameAsc s.entry xs ys := by
  obtain ⟨s, hload⟩ : ∃ s, loadPhonebook (fun _ => plainEntry) [⟨plainEntry, 0⟩, ⟨plainEntry, 1⟩] = some s := ⟨_, rfl⟩
  obtain ⟨xs, hlisted, -⟩ := load_sound hload
  exact ⟨s, xs, hload, sort_stable s xs hlisted .nameAsc⟩

end CProgram.Qodem.Phonebook
