import CProgram.Qodem.Tagged

/-! The two loops over the phonebook that look for tagged entries: CTRL-D, which starts again behind each of them
and comes to an end when none of them stays, and the search of ENTER, which goes round once. -/
namespace CProgram.Qodem.Phonebook
open Links
variable {l : Locale} {fuel p q x z : ℕ} {s t : Book} {xs ys front back : List ℕ} {flag : DeleteFlag}

/-- What a deletion leaves: all entries under `notes`, and otherwise those that are not tagged and the current
connection. -/
def left (s : Book) (flag : DeleteFlag) (xs : List ℕ) : List ℕ :=
  match flag with
  | .notes => xs
  | .entry => xs.filter fun p => !(s.entry p).tagged || s.currentDialEntry = some p

/-- An entry behind a deletion. -/
def wiped (flag : DeleteFlag) (e : Entry) : Entry :=
  match flag with
  | .notes => if e.tagged then { e with notes := none } else e
  | .entry => e

/-- The answer of the popup has been carried out. -/
def Wiped (s t : Book) (xs : List ℕ) : Option DeleteFlag → Prop
  | none => t = s
  | some flag => Chain t (left s flag xs) ∧ ∀ p ∈ left s flag xs, t.entry p = wiped flag (s.entry p)

/-- Nothing that is tagged stays. -/
def Goes (s : Book) (xs : List ℕ) : Option DeleteFlag → Prop
  | none => True
  | some .notes => ∀ p ∈ xs, (s.entry p).tagged = false
  | some .entry => ∀ p ∈ xs, s.currentDialEntry = some p → (s.entry p).tagged = false

/-! ### CTRL-D -/

theorem deleteLoop_tagged (htag : (s.entry x).tagged = true) :
    Book.deleteLoop flag (fuel + 1) s (some x) = Book.deleteLoop flag fuel (s.wipe flag x) (s.wipe flag x).entries := by
  rw [Book.deleteLoop, if_pos htag]

theorem deleteLoop_next (h : Chain s (front ++ x :: back)) (htag : (s.entry x).tagged = false) :
    Book.deleteLoop flag (fuel + 1) s (some x) = Book.deleteLoop flag fuel s back.head? := by
  rw [Book.deleteLoop, if_neg (by simp [htag]), h.row.next_eq]

/-- The entry at `p` is tagged and survives whatever is done about it. -/
structure Stays (flag : DeleteFlag) (s : Book) (xs : List ℕ) (p : ℕ) : Prop where
  mem : p ∈ xs
  tagged : (s.entry p).tagged = true
  kept : flag = .notes ∨ s.currentDialEntry = some p

theorem stays_wipe (h : Chain s xs) (hstays : Stays flag s xs p) (hx : x ∈ xs) :
    ∃ ys, Chain (s.wipe flag x) ys ∧ Stays flag (s.wipe flag x) ys p := by
  cases flag with
  | notes =>
    refine ⟨xs, h.put x _, hstays.mem, ?_, .inl rfl⟩
    by_cases heq : p = x
    · subst heq
      have hself : ((s.wipe .notes p).entry p) = { s.entry p with notes := none } := Function.update_self _ _ _
      rw [hself]
      exact hstays.tagged
    · have hother : ((s.wipe .notes x).entry p) = s.entry p := Function.update_of_ne heq _ _
      rw [hother]
      exact hstays.tagged
  | entry =>
    have hdial : s.currentDialEntry = some p := hstays.kept.resolve_left (by decide)
    rw [Book.wipe]
    split
    · exact ⟨xs, h, hstays⟩
    · next hother =>
      have hne : p ≠ x := fun heq => hother (heq ▸ hdial)
      exact ⟨xs.erase x, h.deleteEntry hx hother, (List.mem_erase_of_ne hne).mpr hstays.mem, hstays.tagged, .inr hdial⟩

/-- The loop has no end while a tagged entry stays: it never gets past it. -/
theorem deleteLoop_stuck (h : Chain s (front ++ x :: back)) (hstays : Stays flag s (front ++ x :: back) p)
    (hp : p ∈ x :: back) : Book.deleteLoop flag fuel s (some x) = none := by
  induction fuel generalizing s front x back with
  | zero => rfl
  | succ fuel ih =>
    cases htag : (s.entry x).tagged with
    | true =>
      obtain ⟨ys, hchain, hys⟩ := stays_wipe h hstays (List.mem_append_right front List.mem_cons_self)
      rw [deleteLoop_tagged htag, hchain.head]
      cases ys with
      | nil => exact absurd hys.mem List.not_mem_nil
      | cons y ys => exact ih (show Chain _ ([] ++ y :: ys) from hchain) hys hys.mem
    | false =>
      have hne : p ≠ x := by
        rintro rfl
        rw [hstays.tagged] at htag
        cases htag
      have hback : p ∈ back := (List.mem_cons.mp hp).resolve_left hne
      rw [deleteLoop_next h htag]
      cases back with
      | nil => exact absurd hback List.not_mem_nil
      | cons y back =>
        have hlist : front ++ x :: y :: back = (front ++ [x]) ++ y :: back := by simp
        rw [hlist] at h hstays
        exact ih h hstays hback

theorem goes_of_ends (h : Chain s xs) (hloop : Book.deleteLoop flag fuel s s.entries = some t) :
    Goes s xs (some flag) := by
  have hnone (p : ℕ) (hstays : Stays flag s xs p) : False := by
    rw [h.head] at hloop
    cases xs with
    | nil => exact absurd hstays.mem List.not_mem_nil
    | cons x xs =>
      have hstuck : Book.deleteLoop flag fuel s (some x) = none :=
        deleteLoop_stuck (show Chain s ([] ++ x :: xs) from h) hstays hstays.mem
      rw [List.head?_cons, hstuck] at hloop
      cases hloop
  cases flag with
  | notes =>
    intro p hp
    by_contra htag
    exact hnone p ⟨hp, by simpa using htag, .inl rfl⟩
  | entry =>
    intro p hp hdial
    by_contra htag
    exact hnone p ⟨hp, by simpa using htag, .inr hdial⟩

/-- Where nothing is tagged the loop walks to the end. -/
theorem deleteLoop_walk (h : Chain s (front ++ back)) (hnone : ∀ p ∈ back, (s.entry p).tagged = false) :
    Book.deleteLoop flag back.length s back.head? = some s := by
  induction back generalizing front with
  | nil => rfl
  | cons x back ih =>
    have hrest := fun p hp => hnone p (List.mem_cons_of_mem x hp)
    rw [List.length_cons, List.head?_cons, deleteLoop_next h (hnone x List.mem_cons_self)]
    have hlist : front ++ x :: back = (front ++ [x]) ++ back := by simp
    rw [hlist] at h
    exact ih h hrest

/-- From an entry on, with nothing tagged in front of it, all that is tagged is deleted. -/
theorem deleteLoop_entries (n : ℕ) : ∀ (s : Book) (front back : List ℕ), Chain s (front ++ back) →
    (front ++ back).length = n → (∀ p ∈ front, (s.entry p).tagged = false) → Goes s (front ++ back) (some .entry) →
    ∃ fuel t, Book.deleteLoop .entry fuel s back.head? = some t ∧
      Chain t ((front ++ back).filter fun p => !(s.entry p).tagged) ∧ t.entry = s.entry := by
  induction n with
  | zero =>
    intro s front back h hlength hfront hgoes
    obtain ⟨rfl, rfl⟩ := List.append_eq_nil_iff.mp (List.length_eq_zero_iff.mp hlength)
    exact ⟨0, s, rfl, h, rfl⟩
  | succ n ih =>
    intro s front back h hlength hfront hgoes
    -- The walk to the next tagged entry is an induction of its own; behind it the list is shorter.
    induction back generalizing front with
    | nil =>
      have hall : (front ++ []).filter (fun p => !(s.entry p).tagged) = front ++ [] := by
        rw [List.filter_eq_self]
        intro p hp
        simpa using hfront p (by simpa using hp)
      exact ⟨0, s, rfl, hall.symm ▸ h, rfl⟩
    | cons x back ihback =>
      have hx : x ∈ front ++ x :: back := List.mem_append_right front List.mem_cons_self
      cases htag : (s.entry x).tagged with
      | false =>
        have hlist : front ++ x :: back = (front ++ [x]) ++ back := by simp
        have hfront' : ∀ p ∈ front ++ [x], (s.entry p).tagged = false := by
          intro p hp
          rcases List.mem_append.mp hp with hold | hnew
          · exact hfront p hold
          · exact List.mem_singleton.mp hnew ▸ htag
        obtain ⟨fuel, t, hloop, hchain, hentry⟩ :=
          ihback (front ++ [x]) (hlist ▸ h) (hlist ▸ hlength) hfront' (hlist ▸ hgoes)
        refine ⟨fuel + 1, t, ?_, hlist ▸ hchain, hentry⟩
        rw [List.head?_cons, deleteLoop_next h htag, hloop]
      | true =>
        have hdial : s.currentDialEntry ≠ some x := by
          intro heq
          rw [hgoes x hx heq] at htag
          cases htag
        have hout : x ∉ front := by
          intro hmem
          rw [hfront x hmem] at htag
          cases htag
        have herase : (front ++ x :: back).erase x = front ++ back := by
          rw [List.erase_append_right _ hout, List.erase_cons_head]
        have hdeleted : Chain (s.deleteEntry x) (front ++ back) := herase ▸ h.deleteEntry hx hdial
        have hwipe : s.wipe .entry x = s.deleteEntry x := by rw [Book.wipe, if_neg hdial]
        have hshort : (front ++ back).length = n := by
          simp only [List.length_append, List.length_cons] at hlength ⊢
          omega
        have hgoes' : Goes (s.deleteEntry x) (front ++ back) (some .entry) := by
          intro p hp hcurrent
          apply hgoes p _ hcurrent
          rw [← herase] at hp
          exact List.mem_of_mem_erase hp
        obtain ⟨fuel, t, hloop, hchain, hentry⟩ := ih (s.deleteEntry x) [] (front ++ back) hdeleted hshort
          (fun p hp => absurd hp List.not_mem_nil) hgoes'
        refine ⟨fuel + 1, t, ?_, ?_, hentry⟩
        · rw [List.head?_cons, deleteLoop_tagged htag, hwipe, hdeleted.head]
          exact hloop
        · have hfilter : (front ++ x :: back).filter (fun p => !(s.entry p).tagged) =
              (front ++ back).filter fun p => !(s.entry p).tagged := by
            rw [List.filter_append, List.filter_append, List.filter_cons_of_neg (by simp [htag])]
          rw [hfilter]
          exact hchain

theorem left_entry (hgoes : Goes s xs (some .entry)) : left s .entry xs = xs.filter fun p => !(s.entry p).tagged := by
  apply List.filter_congr
  intro p hp
  by_cases hdial : s.currentDialEntry = some p
  · simp [hgoes p hp hdial]
  · simp [hdial]

theorem ends_of_goes (h : Chain s xs) (flag : DeleteFlag) (hgoes : Goes s xs (some flag)) :
    ∃ fuel t, Book.deleteLoop flag fuel s s.entries = some t ∧ Wiped s t xs (some flag) := by
  cases flag with
  | notes =>
    refine ⟨xs.length, s, ?_, h, fun p hp => ?_⟩
    · rw [h.head]
      exact deleteLoop_walk (show Chain s ([] ++ xs) from h) hgoes
    · rw [wiped, if_neg (by simp [hgoes p hp])]
  | entry =>
    obtain ⟨fuel, t, hloop, hchain, hentry⟩ := deleteLoop_entries xs.length s [] xs h rfl
      (fun p hp => absurd hp List.not_mem_nil) hgoes
    refine ⟨fuel, t, ?_, ?_, fun p _ => ?_⟩
    · rw [h.head]
      exact hloop
    · rw [left_entry hgoes]
      exact hchain
    · rw [hentry]
      rfl

/-! ### ENTER -/

theorem seekTagged_wrapped {selected : ℕ} (h : Chain s (front ++ z :: back)) (hselected : selected ∈ back) :
    ∃ fuel q, s.seekTagged selected fuel true z = some q := by
  induction back generalizing front z with
  | nil => cases hselected
  | cons y back ih =>
    have hnext : (s.cell z).next = some y := h.row.next_eq
    cases htag : (s.entry z).tagged with
    | true => exact ⟨1, z, by rw [Book.seekTagged, if_pos htag]⟩
    | false =>
      by_cases hy : y = selected
      · refine ⟨1, selected, ?_⟩
        rw [Book.seekTagged, if_neg (by simp [htag]), hnext]
        exact if_pos ⟨hy, rfl⟩
      · have hlist : front ++ z :: y :: back = (front ++ [z]) ++ y :: back := by simp
        have hback : selected ∈ back := (List.mem_cons.mp hselected).resolve_left fun heq => hy heq.symm
        obtain ⟨fuel, q, hseek⟩ := ih (hlist ▸ h) hback
        refine ⟨fuel + 1, q, ?_⟩
        rw [Book.seekTagged, if_neg (by simp [htag]), hnext]
        exact (if_neg fun hboth => hy hboth.1).trans hseek

/-- The search ends at a tagged entry, or when it has come round. -/
theorem seekTagged_ends {selected : ℕ} (h : Chain s (front ++ z :: back)) (hselected : selected ∈ front ++ z :: back) :
    ∃ fuel q, s.seekTagged selected fuel false z = some q := by
  cases htag : (s.entry z).tagged with
  | true => exact ⟨1, z, by rw [Book.seekTagged, if_pos htag]⟩
  | false =>
    have hnot : ¬ (s.entry z).tagged = true := by simp [htag]
    induction back generalizing front z with
    | nil =>
      have hnext : (s.cell z).next = none := h.row.next_eq
      obtain ⟨head, rest, hcons⟩ : ∃ head rest, front ++ [z] = head :: rest := by
        cases front with
        | nil => exact ⟨z, [], rfl⟩
        | cons y front => exact ⟨y, front ++ [z], rfl⟩
      have hhead : s.entries = some head := by rw [h.head, hcons, List.head?_cons]
      by_cases heq : head = selected
      · refine ⟨1, selected, ?_⟩
        rw [Book.seekTagged, if_neg hnot, hnext, hhead]
        exact if_pos heq
      · rw [hcons] at h hselected
        have hrest : selected ∈ rest := (List.mem_cons.mp hselected).resolve_left fun hsame => heq hsame.symm
        obtain ⟨fuel, q, hseek⟩ := seekTagged_wrapped (show Chain s ([] ++ head :: rest) from h) hrest
        refine ⟨fuel + 1, q, ?_⟩
        rw [Book.seekTagged, if_neg hnot, hnext, hhead]
        exact (if_neg heq).trans hseek
    | cons y back ih =>
      have hnext : (s.cell z).next = some y := h.row.next_eq
      have hlist : front ++ z :: y :: back = (front ++ [z]) ++ y :: back := by simp
      have hrest : ∃ fuel q, s.seekTagged selected fuel false y = some q := by
        cases hy : (s.entry y).tagged with
        | true => exact ⟨1, y, by rw [Book.seekTagged, if_pos hy]⟩
        | false => exact ih (hlist ▸ h) (hlist ▸ hselected) hy (by simp [hy])
      obtain ⟨fuel, q, hseek⟩ := hrest
      refine ⟨fuel + 1, q, ?_⟩
      rw [Book.seekTagged, if_neg hnot, hnext]
      exact (if_neg fun hboth => Bool.false_ne_true hboth.2).trans hseek

theorem enter_ends (h : Listed s xs) (l : Locale) (fileExists connects : Bool) :
    ∃ fuel t, s.handle l fuel (.enter fileExists connects) = some t := by
  cases hselected : s.selectedEntry with
  | none => exact ⟨0, s, by rw [Book.handle, hselected]; rfl⟩
  | some p =>
    have hp := h.selected p hselected
    obtain ⟨front, back, rfl⟩ := List.append_of_mem hp
    obtain ⟨fuel, q, hseek⟩ := seekTagged_ends h.chain hp
    exact ⟨fuel, s.dial fileExists connects q, by rw [Book.handle, hselected, Option.elim_some, hseek]; rfl⟩

theorem wiped_select (h : Wiped s t xs (some flag)) : Wiped s { t with selectedEntry := t.entries } xs (some flag) :=
  ⟨h.1.kept rfl rfl rfl rfl fun _ => Or.inl, h.2⟩

/-- For every list of entries and every answer of the popup: both loops come to an end with what was asked for done,
when the popup was left, when notes are to go and nothing is tagged, and when entries are to go and the current
connection is not tagged; and only then. -/
theorem loops_end_iff (l : Locale) (s : Book) (xs : List ℕ) (h : Listed s xs) (flag : Option DeleteFlag)
    (fileExists connects : Bool) :
    ((∃ fuel t, s.handle l fuel (.delete flag) = some t ∧ Wiped s t xs flag) ∧
      ∃ fuel t, s.handle l fuel (.enter fileExists connects) = some t) ↔ Goes s xs flag := by
  constructor
  · rintro ⟨⟨fuel, t, hdelete, -⟩, -⟩
    cases flag with
    | none => trivial
    | some flag =>
      obtain ⟨u, hloop, -⟩ := Option.map_eq_some_iff.mp hdelete
      exact goes_of_ends h.chain hloop
  · intro hgoes
    refine ⟨?_, enter_ends h l fileExists connects⟩
    cases flag with
    | none => exact ⟨0, s, rfl, rfl⟩
    | some flag =>
      obtain ⟨fuel, t, hloop, hwiped⟩ := ends_of_goes h.chain flag hgoes
      exact ⟨fuel, _, Option.map_eq_some_iff.mpr ⟨t, hloop, rfl⟩, wiped_select hwiped⟩

/-- One entry, not tagged, and another one that is. -/
def twoRows : List Stored := [⟨plainEntry, 0⟩, ⟨plainEntry, 1⟩]

theorem loops_end_abort : ∃ s xs, loadPhonebook (fun _ => plainEntry) twoRows = some s ∧
    ((∃ fuel t, s.handle ⟨id, fun _ => []⟩ fuel (.delete (some .entry)) = some t ∧ Wiped s t xs (some .entry)) ∧
      ∃ fuel t, s.handle ⟨id, fun _ => []⟩ fuel (.enter true true) = some t) := by
  obtain ⟨s, hload⟩ : ∃ s, loadPhonebook (fun _ => plainEntry) twoRows = some s := ⟨_, rfl⟩
  obtain ⟨xs, hlisted, -⟩ := load_sound hload
  have hdial : s.currentDialEntry = none := by
    rw [loadPhonebook, if_neg (by simp [twoRows])] at hload
    obtain rfl := Option.some.inj hload
    rfl
  refine ⟨s, xs, hload, (loops_end_iff ⟨id, fun _ => []⟩ s xs hlisted (some .entry) true true).mpr ?_⟩
  intro p _ hcurrent
  rw [hdial] at hcurrent
  cases hcurrent

/-- The notes of the tagged entry are to go, and CTRL-D has no end. -/
theorem not_loops_end : ¬ ∀ (l : Locale) (s : Book) (xs : List ℕ), Listed s xs → ∀ (flag : Option DeleteFlag)
    (fileExists connects : Bool),
    (∃ fuel t, s.handle l fuel (.delete flag) = some t ∧ Wiped s t xs flag) ∧
      ∃ fuel t, s.handle l fuel (.enter fileExists connects) = some t := by
  intro hall
  obtain ⟨s, hload⟩ : ∃ s, loadPhonebook (fun _ => plainEntry) twoRows = some s := ⟨_, rfl⟩
  obtain ⟨xs, hlisted, -⟩ := load_sound hload
  obtain ⟨⟨fuel, t, hdelete, -⟩, -⟩ := hall ⟨id, fun _ => []⟩ s xs hlisted (some .notes) true true
  obtain ⟨u, hloop, -⟩ := Option.map_eq_some_iff.mp hdelete
  have hnone : ∀ p ∈ xs, (s.entry p).tagged = false := goes_of_ends hlisted.chain hloop
  have hsecond : s.entries = some 0 ∧ (s.cell 0).next = some 1 ∧ (s.entry 1).tagged = true := by
    rw [loadPhonebook, if_neg (by simp [twoRows])] at hload
    obtain rfl := Option.some.inj hload
    exact ⟨rfl, rfl, rfl⟩
  obtain ⟨hhead, hnext, htag⟩ := hsecond
  have hmem := hlisted.chain.row.next_mem (hlisted.entries_mem hhead) hnext
  rw [hnone 1 hmem] at htag
  cases htag

end CProgram.Qodem.Phonebook
