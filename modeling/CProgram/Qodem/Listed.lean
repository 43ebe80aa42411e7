import CProgram.Qodem.Phonebook

/-! What holds of the phonebook behind every key: the entries are one list with its count and the selected entry
in it, and the count of the tagged ones is right as long as no text search finds an entry twice and nothing
tagged is deleted. -/
namespace CProgram.Qodem.Phonebook
open Links

/-- The links of the entries, their count, and what has been given back. -/
structure Chain (s : Book) (xs : List ℕ) : Prop where
  nodup : xs.Nodup
  row : Row s.cell none xs none
  head : s.entries = xs.head?
  count : s.entryCount = xs.length
  live : ∀ p ∈ xs, p ∉ s.freed
  dialed : ∀ p, s.currentDialEntry = some p → p ∉ s.freed

structure Listed (s : Book) (xs : List ℕ) : Prop where
  chain : Chain s xs
  selected : ∀ p, s.selectedEntry = some p → p ∈ xs
  nothing : s.selectedEntry = none → xs = []

/-- How many entries are tagged. -/
def marks (s : Book) (xs : List ℕ) : ℕ := xs.countP fun p => (s.entry p).tagged

structure Sound (s : Book) (xs : List ℕ) : Prop where
  listed : Listed s xs
  tagged : s.tagged = marks s xs

variable {l : Locale} {fuel n i p q : ℕ} {s t : Book} {xs ys : List ℕ} {method : SortMethod} {flag : DeleteFlag}

def mark (e : Entry) : ℤ := if e.tagged then 1 else 0

theorem marks_cons (s : Book) (p : ℕ) (xs : List ℕ) : (marks s (p :: xs) : ℤ) = mark (s.entry p) + marks s xs := by
  rw [marks, List.countP_cons, mark]
  cases (s.entry p).tagged <;> simp [marks, add_comm]

theorem marks_append (s : Book) (xs ys : List ℕ) : marks s (xs ++ ys) = marks s xs + marks s ys :=
  List.countP_append

theorem marks_congr (h : ∀ p ∈ xs, t.entry p = s.entry p) : marks t xs = marks s xs := by
  apply List.countP_congr
  intro p hp
  rw [h p hp]

theorem marks_put (s : Book) (hnodup : xs.Nodup) (hp : p ∈ xs) (e : Entry) :
    (marks (s.put p e) xs : ℤ) = marks s xs - mark (s.entry p) + mark e := by
  have hself : (s.put p e).entry p = e := Function.update_self _ _ _
  have hother (q : ℕ) (hq : q ≠ p) : (s.put p e).entry q = s.entry q := Function.update_of_ne hq _ _
  obtain ⟨front, back, rfl⟩ := List.append_of_mem hp
  obtain ⟨-, hback, hdisjoint⟩ := List.nodup_append.mp hnodup
  have hfront : marks (s.put p e) front = marks s front := by
    apply marks_congr
    intro q hq
    exact hother q (hdisjoint q hq p List.mem_cons_self)
  have hrest : marks (s.put p e) back = marks s back := by
    apply marks_congr
    intro q hq
    apply hother
    rintro rfl
    exact (List.nodup_cons.mp hback).1 hq
  rw [marks_append, marks_append, Nat.cast_add, Nat.cast_add, marks_cons, marks_cons, hself, hfront, hrest]
  omega

/-! The links -/

/-- What leaves the links as they are. -/
theorem Chain.kept (h : Chain s xs) (hcell : t.cell = s.cell) (hentries : t.entries = s.entries)
    (hcount : t.entryCount = s.entryCount) (hfreed : t.freed = s.freed)
    (hdial : ∀ p, t.currentDialEntry = some p → s.currentDialEntry = some p ∨ p ∈ xs) : Chain t xs where
  nodup := h.nodup
  row := by rw [hcell]; exact h.row
  head := by rw [hentries, h.head]
  count := by rw [hcount, h.count]
  live := by rw [hfreed]; exact h.live
  dialed p hp := by
    rw [hfreed]
    cases hdial p hp with
    | inl hsame => exact h.dialed p hsame
    | inr hmem => exact h.live p hmem

theorem Chain.put (h : Chain s xs) (p : ℕ) (e : Entry) : Chain (s.put p e) xs :=
  h.kept rfl rfl rfl rfl fun _ => Or.inl

theorem Chain.tagged (h : Chain s xs) (tagged : ℤ) : Chain { s with tagged } xs := h.kept rfl rfl rfl rfl fun _ => Or.inl

theorem Chain.nil_iff (h : Chain s xs) : s.entries = none ↔ xs = [] := by rw [h.head, List.head?_eq_none_iff]

/-- A loop over the entries that changes no link goes over all of them. -/
theorem forEach_induct {f : ℕ → ℕ → Book → Book} {I : ℕ → List ℕ → Book → Prop}
    (hstep : ∀ i p rest s, I i (p :: rest) s → (f i p s).cell = s.cell ∧ I (i + 1) rest (f i p s))
    {before : Option ℕ} (hrow : Row s.cell before ys none) (h : I i ys s)
    (hloop : Book.forEach f fuel i ys.head? s = some t) : ∃ j, I j [] t := by
  induction ys generalizing fuel i s before with
  | nil =>
    rw [List.head?_nil, Book.forEach] at hloop
    obtain rfl := Option.some.inj hloop
    exact ⟨i, h⟩
  | cons p rest ih =>
    obtain ⟨hcell, hnext⟩ := hstep i p rest s h
    obtain ⟨-, hbehind, hrest⟩ := hrow
    cases fuel with
    | zero => cases hloop
    | succ fuel =>
      rw [List.head?_cons, Book.forEach, hbehind, Option.or_none] at hloop
      exact ih (by rw [hcell]; exact hrest) hnext hloop

theorem Chain.swap {front back : List ℕ} (h : Chain s (front ++ p :: q :: back)) :
    Chain (s.swap p q) (front ++ q :: p :: back) := by
  obtain ⟨-, hprev, -, -, hnext, -⟩ := row_append.mp h.row
  rw [Option.or_none] at hprev hnext
  have hrow := h.row.exchange h.nodup
  have hperm : (front ++ q :: p :: back).Perm (front ++ p :: q :: back) := (List.Perm.swap p q back).append_left front
  have hfirst : s.entries = some p ↔ front = [] := by
    rw [h.head]
    cases front with
    | nil => simp
    | cons x front =>
      have hne : x ≠ p := by
        rintro rfl
        exact (List.nodup_cons.mp h.nodup).1 (by simp)
      simp [hne]
  constructor
  · exact hperm.nodup_iff.mpr h.nodup
  · rw [Book.swap]
    split
    · next hhead =>
      obtain rfl := hfirst.mp hhead
      rw [hnext]
      exact hrow
    · rw [hprev, hnext]
      exact hrow
  · rw [Book.swap]
    split
    · next hhead =>
      obtain rfl := hfirst.mp hhead
      rfl
    · next hhead =>
      change s.entries = _
      rw [h.head]
      cases front with
      | nil => exact absurd (hfirst.mpr rfl) hhead
      | cons x front => rfl
  · have hcount : (s.swap p q).entryCount = s.entryCount := by
      rw [Book.swap]
      split <;> rfl
    rw [hcount, h.count, hperm.length_eq]
  · have hfreed : (s.swap p q).freed = s.freed := by
      rw [Book.swap]
      split <;> rfl
    intro x hx
    rw [hfreed]
    exact h.live x (hperm.mem_iff.mp hx)
  · have hsame : (s.swap p q).currentDialEntry = s.currentDialEntry ∧ (s.swap p q).freed = s.freed := by
      rw [Book.swap]
      split <;> exact ⟨rfl, rfl⟩
    rw [hsame.1, hsame.2]
    exact h.dialed

theorem swap_entry (s : Book) (p q : ℕ) : (s.swap p q).entry = s.entry ∧ (s.swap p q).tagged = s.tagged := by
  rw [Book.swap]
  split <;> exact ⟨rfl, rfl⟩

theorem firstUnordered_split (h : Chain s xs) {head : ℕ} (hhead : head ∈ xs)
    (hfirst : s.firstUnordered method fuel head = some (some (p, q))) : ∃ front back, xs = front ++ p :: q :: back := by
  induction fuel generalizing head with
  | zero => cases hfirst
  | succ fuel ih =>
    rw [Book.firstUnordered] at hfirst
    split at hfirst
    · cases hfirst
    · next next hnext =>
      split at hfirst
      · exact ih (h.row.next_mem hhead hnext) hfirst
      · obtain ⟨rfl, rfl⟩ := Prod.mk.inj (Option.some.inj (Option.some.inj hfirst))
        exact h.row.next_split hhead hnext

/-- Sorting leaves a permutation of the entries. -/
theorem Chain.sorted (h : Chain s xs) {inner : ℕ} (hsort : Book.sortLoop method inner fuel s = some t) :
    ∃ ys, Chain t ys ∧ ys.Perm xs ∧ t.entry = s.entry ∧ t.tagged = s.tagged := by
  induction fuel generalizing s xs with
  | zero => cases hsort
  | succ fuel ih =>
    rw [Book.sortLoop] at hsort
    split at hsort
    · obtain rfl := Option.some.inj hsort
      exact ⟨xs, h, List.Perm.refl xs, rfl, rfl⟩
    next head hhead =>
    rw [h.head] at hhead
    split at hsort
    · cases hsort
    · obtain rfl := Option.some.inj hsort
      exact ⟨xs, h, List.Perm.refl xs, rfl, rfl⟩
    · next p q hfirst =>
      obtain ⟨front, back, rfl⟩ := firstUnordered_split h (List.mem_of_head? hhead) hfirst
      obtain ⟨ys, hchain, hperm, hentry, htagged⟩ := ih h.swap hsort
      obtain ⟨hsame, hcount⟩ := swap_entry s p q
      have hswap : (front ++ q :: p :: back).Perm (front ++ p :: q :: back) :=
        (List.Perm.swap p q back).append_left front
      exact ⟨ys, hchain, hperm.trans hswap, by rw [hentry, hsame], by rw [htagged, hcount]⟩

theorem reverseLoop_turned {cell cell' : ℕ → Cell ℕ} {before tail tail' : Option ℕ} (hrow : Row cell before ys none)
    (hnodup : ys.Nodup) (hloop : Book.reverseLoop fuel cell ys.head? tail = some (cell', tail')) :
    (∀ p ∈ ys, cell' p = ⟨(cell p).next, (cell p).prev⟩) ∧ (∀ p ∉ ys, cell' p = cell p) ∧ tail' = ys.getLast?.or tail := by
  induction ys generalizing fuel cell before tail with
  | nil =>
    rw [List.head?_nil, Book.reverseLoop] at hloop
    obtain ⟨rfl, rfl⟩ := Prod.mk.inj (Option.some.inj hloop)
    simp
  | cons p rest ih =>
    cases fuel with
    | zero => cases hloop
    | succ fuel =>
      obtain ⟨-, hnext, hrest⟩ := hrow
      obtain ⟨hp, hnodup⟩ := List.nodup_cons.mp hnodup
      have hother (x : ℕ) (hx : x ≠ p) : Function.update cell p ⟨(cell p).next, (cell p).prev⟩ x = cell x :=
        Function.update_of_ne hx _ _
      rw [List.head?_cons, Book.reverseLoop] at hloop
      rw [Option.or_none] at hnext
      rw [hnext] at hloop
      have hkept : Row (Function.update cell p ⟨rest.head?, (cell p).prev⟩) (some p) rest none := by
        apply hrest.congr
        intro x hx
        apply Function.update_of_ne
        rintro rfl
        exact hp hx
      obtain ⟨hturned, hleft, htail⟩ := ih hkept hnodup hloop
      refine ⟨?_, ?_, ?_⟩
      · intro x hx
        by_cases heq : x = p
        · rw [heq, hleft p hp, Function.update_self, hnext]
        · have hmem := (List.mem_cons.mp hx).resolve_left heq
          rw [hturned x hmem, Function.update_of_ne heq]
      · intro x hx
        obtain ⟨hne, hmem⟩ := not_or.mp (mt List.mem_cons.mpr hx)
        rw [hleft x hmem, Function.update_of_ne hne]
      · rw [htail]
        cases rest with
        | nil => rfl
        | cons y rest => simp [List.getLast?_eq_some_getLast]

theorem Chain.deleteEntry (h : Chain s xs) (hp : p ∈ xs) (hdial : s.currentDialEntry ≠ some p) :
    Chain (s.deleteEntry p) (xs.erase p) := by
  obtain ⟨front, back, rfl⟩ := List.append_of_mem hp
  obtain ⟨hprev, hnext, hrow⟩ := h.row.unlink h.nodup
  obtain ⟨-, hback, hdisjoint⟩ := List.nodup_append.mp h.nodup
  have hfront : p ∉ front := fun hmem => hdisjoint p hmem p List.mem_cons_self rfl
  have herase : (front ++ p :: back).erase p = front ++ back := by
    rw [List.erase_append_right _ hfront, List.erase_cons_head]
  have hnot : p ∉ front ++ back := by
    rw [List.mem_append, not_or]
    exact ⟨hfront, (List.nodup_cons.mp hback).1⟩
  rw [herase]
  constructor
  · rw [← herase]
    exact h.nodup.erase p
  · rw [Book.deleteEntry, hprev, hnext]
    exact hrow
  · rw [Book.deleteEntry, hprev, hnext]
    dsimp only
    cases front with
    | nil => simp
    | cons x front => simp [h.head, List.getLast?_eq_some_getLast]
  · change s.entryCount - 1 = _
    rw [h.count]
    simp only [List.length_append, List.length_cons]
    omega
  · intro x hx hfreed
    cases List.mem_cons.mp hfreed with
    | inl heq => exact hnot (heq ▸ hx)
    | inr hold =>
      apply h.live x _ hold
      rw [← herase] at hx
      exact List.mem_of_mem_erase hx
  · intro x hx hfreed
    cases List.mem_cons.mp hfreed with
    | inl heq =>
      rw [heq] at hx
      exact hdial hx
    | inr hold => exact h.dialed x hx hold

/-- Under either flag the entries that are left are one list. -/
theorem Chain.wipe (h : Chain s xs) (hp : p ∈ xs) (flag : DeleteFlag) :
    ∃ ys, Chain (s.wipe flag p) ys ∧ ys.Sublist xs := by
  cases flag with
  | notes => exact ⟨xs, h.put p _, List.Sublist.refl xs⟩
  | entry =>
    rw [Book.wipe]
    split
    · exact ⟨xs, h, List.Sublist.refl xs⟩
    · next hdial => exact ⟨xs.erase p, h.deleteEntry hp hdial, List.erase_sublist⟩

theorem Chain.deleted (h : Chain s xs) {start : Option ℕ} (hstart : ∀ p, start = some p → p ∈ xs)
    (hloop : Book.deleteLoop flag fuel s start = some t) : ∃ ys, Chain t ys := by
  induction fuel generalizing s xs start with
  | zero =>
    cases start with
    | none =>
      rw [Book.deleteLoop] at hloop
      obtain rfl := Option.some.inj hloop
      exact ⟨xs, h⟩
    | some p => cases hloop
  | succ fuel ih =>
    cases start with
    | none =>
      rw [Book.deleteLoop] at hloop
      obtain rfl := Option.some.inj hloop
      exact ⟨xs, h⟩
    | some p =>
      have hp := hstart p rfl
      rw [Book.deleteLoop] at hloop
      split at hloop
      · obtain ⟨ys, hchain, -⟩ := h.wipe hp flag
        apply ih hchain _ hloop
        intro q hq
        rw [hchain.head] at hq
        exact List.mem_of_head? hq
      · exact ih h (fun q hq => h.row.next_mem hp hq) hloop

/-- With nothing tagged nothing is deleted. -/
theorem deleteLoop_untagged (h : Chain s xs) (hnone : ∀ p ∈ xs, (s.entry p).tagged = false) {start : Option ℕ}
    (hstart : ∀ p, start = some p → p ∈ xs) (hloop : Book.deleteLoop flag fuel s start = some t) : t = s := by
  induction fuel generalizing start with
  | zero =>
    cases start with
    | none => exact (Option.some.inj hloop).symm
    | some p => cases hloop
  | succ fuel ih =>
    cases start with
    | none => exact (Option.some.inj hloop).symm
    | some p =>
      have hp := hstart p rfl
      rw [Book.deleteLoop, if_neg (by simp [hnone p hp])] at hloop
      exact ih (fun q hq => h.row.next_mem hp hq) hloop

/-! The selected entry -/

theorem Listed.entries_mem (h : Listed s xs) (hp : s.entries = some p) : p ∈ xs := by
  rw [h.chain.head] at hp
  exact List.mem_of_head? hp

/-- The head is selected. -/
theorem Chain.listed_head (h : Chain s xs) : Listed { s with selectedEntry := s.entries } xs where
  chain := h.kept rfl rfl rfl rfl fun _ => Or.inl
  selected p hp := List.mem_of_head? (h.head.symm.trans hp)
  nothing hnone := h.nil_iff.mp hnone

theorem Listed.select (h : Listed s xs) (hp : p ∈ xs) : Listed { s with selectedEntry := some p } xs where
  chain := h.chain.kept rfl rfl rfl rfl fun _ => Or.inl
  selected q hq := by
    obtain rfl := Option.some.inj hq
    exact hp
  nothing hnone := by cases hnone

theorem Listed.kept (h : Listed s xs) (hchain : Chain t xs) (hselected : t.selectedEntry = s.selectedEntry) :
    Listed t xs where
  chain := hchain
  selected := by rw [hselected]; exact h.selected
  nothing := by rw [hselected]; exact h.nothing

theorem Listed.advance (h : Listed s xs) (hp : p ∈ xs) : Listed (s.advance p) xs := by
  rw [Book.advance]
  split
  · next q hnext => exact h.select (h.chain.row.next_mem hp hnext)
  · exact h

theorem pageUp_mem (h : Chain s xs) (n : ℕ) (hp : p ∈ xs) : s.pageUp n p ∈ xs := by
  induction n generalizing p with
  | zero => exact hp
  | succ n ih =>
    rw [Book.pageUp]
    split
    · next q hprev => exact ih (h.row.prev_mem hp hprev)
    · exact hp

theorem pageDown_mem (h : Chain s xs) (n : ℕ) (hp : p ∈ xs) : s.pageDown n p ∈ xs := by
  induction n generalizing p with
  | zero => exact hp
  | succ n ih =>
    rw [Book.pageDown]
    split
    · next q hnext => exact ih (h.row.next_mem hp hnext)
    · exact hp

theorem lastEntry_mem (h : Chain s xs) (hp : p ∈ xs) (hlast : s.lastEntry fuel p = some q) : q ∈ xs := by
  induction fuel generalizing p with
  | zero => cases hlast
  | succ fuel ih =>
    rw [Book.lastEntry] at hlast
    split at hlast
    · next next hnext => exact ih (h.row.next_mem hp hnext) hlast
    · obtain rfl := Option.some.inj hlast
      exact hp

theorem seekTagged_mem (h : Chain s xs) {selected : ℕ} (hselected : selected ∈ xs) {wrapped : Bool} (hp : p ∈ xs)
    (hseek : s.seekTagged selected fuel wrapped p = some q) : q ∈ xs := by
  induction fuel generalizing p wrapped with
  | zero => cases hseek
  | succ fuel ih =>
    rw [Book.seekTagged] at hseek
    split at hseek
    · obtain rfl := Option.some.inj hseek
      exact hp
    split at hseek
    · next next hnext =>
      split at hseek
      · obtain rfl := Option.some.inj hseek
        exact hselected
      · exact ih (h.row.next_mem hp hnext) hseek
    · split at hseek
      · cases hseek
      · next head hhead =>
        rw [h.head] at hhead
        split at hseek
        · obtain rfl := Option.some.inj hseek
          exact hselected
        · exact ih (List.mem_of_head? hhead) hseek

theorem Listed.untag (h : Listed s xs) (p : ℕ) : Listed (s.untag p) xs :=
  h.kept ((h.chain.put p _).tagged _) rfl

theorem Listed.tag (h : Listed s xs) (p : ℕ) (quicklearn : Bool) : Listed (s.tag p quicklearn) xs :=
  h.kept ((h.chain.put p _).tagged _) rfl

theorem Listed.put (h : Listed s xs) (p : ℕ) (e : Entry) : Listed (s.put p e) xs := h.kept (h.chain.put p e) rfl

theorem Listed.space (h : Listed s xs) (hp : p ∈ xs) (fileExists : Bool) : Listed (s.space fileExists p) xs := by
  rw [Book.space]
  split
  · exact (h.untag p).advance hp
  · exact (h.tag p _).advance hp

theorem Listed.quickLearn (h : Listed s xs) (hp : p ∈ xs) (fileExists overwrite : Bool) :
    Listed (s.quickLearn fileExists overwrite p) xs := by
  rw [Book.quickLearn]
  split
  · exact (h.untag p).advance hp
  split
  · exact (h.put p _).advance hp
  split
  · exact h
  split
  · exact h.advance hp
  · exact (h.tag p true).advance hp

theorem Listed.dialSuccess (h : Listed s xs) (p : ℕ) : Listed (s.dialSuccess p) xs := by
  have honline : Listed { s with online := true } xs := h.kept (h.chain.kept rfl rfl rfl rfl fun _ => Or.inl) rfl
  rw [Book.dialSuccess]
  dsimp only
  split
  · exact honline.kept ((honline.chain.put p _).tagged _) rfl
  · exact honline

theorem Listed.current (h : Listed s xs) (hp : p ∈ xs) : Listed { s with currentDialEntry := some p } xs := by
  have hchain : Chain { s with currentDialEntry := some p } xs := by
    refine h.chain.kept (t := { s with currentDialEntry := some p }) rfl rfl rfl rfl fun q hq => ?_
    obtain rfl := Option.some.inj hq
    exact Or.inr hp
  exact h.kept hchain rfl

theorem Listed.dial (h : Listed s xs) (hp : p ∈ xs) (fileExists connects : Bool) :
    Listed (s.dial fileExists connects p) xs := by
  have hselected := h.select hp
  have hlearn (s' : Book) (hlisted : Listed s' xs) :
      Listed (if s'.online then s' else
        if connects then Book.dialSuccess { s' with currentDialEntry := some p } p
        else { s' with currentDialEntry := some p }) xs := by
    have hcurrent := hlisted.current hp
    split
    · exact hlisted
    split
    · exact hcurrent.dialSuccess p
    · exact hcurrent
  rw [Book.dial]
  dsimp only
  split
  · exact hlearn _ (hselected.put p _)
  · exact hlearn _ hselected

theorem Listed.tagMultiple (h : Listed s xs) {tagString : List UInt8} (htag : s.tagMultiple l fuel tagString = some t) :
    Listed t xs := by
  rw [Book.tagMultiple, h.chain.head] at htag
  have hloop : ∃ _ : ℕ, Listed t xs := by
    refine forEach_induct (I := fun _ _ s => Listed s xs) ?_ h.chain.row h htag
    intro i p rest s hs
    exact ⟨rfl, hs.kept ((hs.chain.put p _).tagged _) rfl⟩
  obtain ⟨-, hlisted⟩ := hloop
  exact hlisted

theorem Listed.untagAll (h : Listed s xs) (huntag : s.untagAll fuel = some t) : Listed t xs := by
  rw [Book.untagAll, h.chain.head] at huntag
  obtain ⟨u, hloop, rfl⟩ := Option.map_eq_some_iff.mp huntag
  have hlisted : ∃ _ : ℕ, Listed u xs := by
    refine forEach_induct (I := fun _ _ s => Listed s xs) ?_ h.chain.row h hloop
    intro i p rest s hs
    exact ⟨rfl, hs.put p _⟩
  obtain ⟨-, hlisted⟩ := hlisted
  exact hlisted.kept (hlisted.chain.tagged 0) rfl

/-- The list turned round. -/
theorem Chain.turned (h : Chain s xs) {cell : ℕ → Cell ℕ} {tail : Option ℕ}
    (hloop : Book.reverseLoop fuel s.cell s.entries none = some (cell, tail)) :
    Chain { s with cell, entries := tail } xs.reverse := by
  rw [h.head] at hloop
  obtain ⟨hturned, -, htail⟩ := reverseLoop_turned h.row h.nodup hloop
  rw [Option.or_none] at htail
  constructor
  · exact List.nodup_reverse.mpr h.nodup
  · exact h.row.turned hturned
  · rw [htail, List.head?_reverse]
  · change s.entryCount = _
    rw [h.count, List.length_reverse]
  · intro p hp
    exact h.live p (List.mem_reverse.mp hp)
  · exact h.dialed

/-- Sorted or turned round, the head is selected. -/
theorem Listed.sortPhonebook (h : Listed s xs) (hsort : s.sortPhonebook fuel method = some t) :
    ∃ ys, Listed t ys ∧ ys.Perm xs ∧ t.entry = s.entry ∧ t.tagged = s.tagged := by
  rw [Book.sortPhonebook] at hsort
  split at hsort
  · obtain rfl := Option.some.inj hsort
    exact ⟨xs, h, List.Perm.refl xs, rfl, rfl⟩
  split at hsort
  · obtain ⟨⟨cell, tail⟩, hloop, rfl⟩ := Option.map_eq_some_iff.mp hsort
    exact ⟨xs.reverse, (h.chain.turned hloop).listed_head, List.reverse_perm xs, rfl, rfl⟩
  · obtain ⟨u, hloop, rfl⟩ := Option.map_eq_some_iff.mp hsort
    obtain ⟨ys, hchain, hperm, hentry, htagged⟩ := h.chain.sorted hloop
    exact ⟨ys, hchain.listed_head, hperm, hentry, htagged⟩

/-- Every key leaves one list of entries with its count and the selected entry in it. -/
theorem Listed.handle (h : Listed s xs) (key : Key) (hkey : s.handle l fuel key = some t) : ∃ ys, Listed t ys := by
  cases key with
  | space fileExists =>
    obtain rfl := Option.some.inj hkey
    cases hsel : s.selectedEntry with
    | none => exact ⟨xs, h⟩
    | some p => exact ⟨xs, h.space (h.selected p hsel) fileExists⟩
  | quickLearn fileExists overwrite =>
    obtain rfl := Option.some.inj hkey
    cases hsel : s.selectedEntry with
    | none => exact ⟨xs, h⟩
    | some p => exact ⟨xs, h.quickLearn (h.selected p hsel) fileExists overwrite⟩
  | tagMultiple tagString =>
    cases tagString with
    | none =>
      obtain rfl := Option.some.inj hkey
      exact ⟨xs, h⟩
    | some tagString => exact ⟨xs, h.tagMultiple hkey⟩
  | untagAll => exact ⟨xs, h.untagAll hkey⟩
  | sort method =>
    cases method with
    | none =>
      obtain rfl := Option.some.inj hkey
      exact ⟨xs, h⟩
    | some method =>
      obtain ⟨ys, hlisted, -⟩ := h.sortPhonebook hkey
      exact ⟨ys, hlisted⟩
  | delete flag =>
    cases flag with
    | none =>
      obtain rfl := Option.some.inj hkey
      exact ⟨xs, h⟩
    | some flag =>
      obtain ⟨u, hloop, rfl⟩ := Option.map_eq_some_iff.mp hkey
      obtain ⟨ys, hchain⟩ := h.chain.deleted (fun p hp => h.entries_mem hp) hloop
      exact ⟨ys, hchain.listed_head⟩
  | up =>
    obtain rfl := Option.some.inj hkey
    cases hsel : s.selectedEntry with
    | none => exact ⟨xs, h⟩
    | some p =>
      cases hprev : (s.cell p).prev with
      | none =>
        rw [Option.elim_some, hprev]
        exact ⟨xs, h⟩
      | some q =>
        rw [Option.elim_some, hprev]
        exact ⟨xs, h.select (h.chain.row.prev_mem (h.selected p hsel) hprev)⟩
  | down =>
    obtain rfl := Option.some.inj hkey
    cases hsel : s.selectedEntry with
    | none => exact ⟨xs, h⟩
    | some p => exact ⟨xs, h.advance (h.selected p hsel)⟩
  | pageUp n =>
    obtain rfl := Option.some.inj hkey
    cases hsel : s.selectedEntry with
    | none => exact ⟨xs, h⟩
    | some p => exact ⟨xs, h.select (pageUp_mem h.chain n (h.selected p hsel))⟩
  | pageDown n =>
    obtain rfl := Option.some.inj hkey
    cases hsel : s.selectedEntry with
    | none => exact ⟨xs, h⟩
    | some p => exact ⟨xs, h.select (pageDown_mem h.chain n (h.selected p hsel))⟩
  | home =>
    obtain rfl := Option.some.inj hkey
    cases hsel : s.selectedEntry with
    | none => exact ⟨xs, h⟩
    | some p => exact ⟨xs, h.chain.listed_head⟩
  | end' =>
    rw [Book.handle] at hkey
    cases hsel : s.selectedEntry with
    | none =>
      rw [hsel] at hkey
      obtain rfl := Option.some.inj hkey
      exact ⟨xs, h⟩
    | some p =>
      rw [hsel] at hkey
      obtain ⟨q, hlast, rfl⟩ := Option.map_eq_some_iff.mp hkey
      exact ⟨xs, h.select (lastEntry_mem h.chain (h.selected p hsel) hlast)⟩
  | enter fileExists connects =>
    rw [Book.handle] at hkey
    cases hsel : s.selectedEntry with
    | none =>
      rw [hsel] at hkey
      obtain rfl := Option.some.inj hkey
      exact ⟨xs, h⟩
    | some p =>
      rw [hsel] at hkey
      have hp := h.selected p hsel
      obtain ⟨q, hseek, rfl⟩ := Option.map_eq_some_iff.mp hkey
      exact ⟨xs, h.dial (seekTagged_mem h.chain hp hp hseek) fileExists connects⟩

theorem run_listed (h : Listed s xs) {keys : List Key} (hrun : s.run l fuel keys = some t) : ∃ ys, Listed t ys := by
  induction keys generalizing s xs with
  | nil =>
    obtain rfl := Option.some.inj hrun
    exact ⟨xs, h⟩
  | cons key later ih =>
    obtain ⟨u, hkey, hlater⟩ := Option.bind_eq_some_iff.mp hrun
    obtain ⟨ys, hlisted⟩ := h.handle key hkey
    exact ih hlisted hlater

end CProgram.Qodem.Phonebook
