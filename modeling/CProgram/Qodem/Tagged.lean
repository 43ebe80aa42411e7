import CProgram.Qodem.Listed

/-! The count of the tagged entries: which keys leave it right, and the phonebook as it is loaded. -/
namespace CProgram.Qodem.Phonebook
open Links

/-- No token that searches for a text finds the entry when it is tagged already, before or by a token in front. -/
def Once (l : Locale) (i : ℕ) : List (List UInt8) → Entry → Prop
  | [], _ => True
  | token :: rest, e =>
    if finds l token e then e.tagged = false ∧ Once l i rest { e with tagged := true }
    else if numbers i token ∧ e.tagged = false then Once l i rest { e with tagged := true }
    else Once l i rest e

/-- The keys that leave the count right: a text search that finds nothing twice, and CTRL-D with nothing
tagged. -/
def Meets (l : Locale) (s : Book) : Key → Prop
  | .tagMultiple (some tagString) => ∀ xs, Chain s xs → ∀ i p, xs[i]? = some p →
      Once l (i + 1) (tokenizeCommand tagString) (s.entry p)
  | .delete (some _) => ∀ xs, Chain s xs → ∀ p ∈ xs, (s.entry p).tagged = false
  | _ => True

/-- Each key of a run in the state it comes in. -/
def MeetsAll (l : Locale) (fuel : ℕ) : Book → List Key → Prop
  | _, [] => True
  | s, key :: later => Meets l s key ∧ ∀ t, s.handle l fuel key = some t → MeetsAll l fuel t later

variable {l : Locale} {fuel n i p q : ℕ} {s t : Book} {xs ys : List ℕ} {method : SortMethod} {flag : DeleteFlag}

theorem mark_true (e : Entry) : mark { e with tagged := true } = 1 := rfl

theorem mark_false {e : Entry} (h : e.tagged = false) : mark e = 0 := by simp [mark, h]

theorem mark_of_tagged {e : Entry} (h : e.tagged = true) : mark e = 1 := by simp [mark, h]

theorem tagEntry_count {tokens : List (List UInt8)} {e : Entry} (h : Once l i tokens e) (count : ℤ) :
    (tagEntry l i tokens e count).2 = count + mark (tagEntry l i tokens e count).1 - mark e := by
  induction tokens generalizing e count with
  | nil => simp [tagEntry]
  | cons token rest ih =>
    rw [Once] at h
    rw [tagEntry]
    split
    · next hfinds =>
      rw [if_pos hfinds] at h
      rw [ih h.2, mark_true, mark_false h.1]
      omega
    next hfinds =>
    rw [if_neg hfinds] at h
    split
    · next hnumber =>
      rw [if_pos hnumber] at h
      rw [ih h, mark_true, mark_false hnumber.2]
      omega
    · next hnumber =>
      rw [if_neg hnumber] at h
      exact ih h count

/-- One entry with its mark and the count together. -/
theorem Sound.put (h : Sound s xs) (hp : p ∈ xs) (e : Entry) (hmark : mark e = mark (s.entry p)) : Sound (s.put p e) xs where
  listed := h.listed.put p e
  tagged := by
    have hmarks := marks_put s h.listed.chain.nodup hp e
    have htagged := h.tagged
    change s.tagged = _
    omega

theorem Sound.kept (h : Sound s xs) (hlisted : Listed t xs) (hentry : t.entry = s.entry) (htagged : t.tagged = s.tagged) :
    Sound t xs where
  listed := hlisted
  tagged := by
    rw [htagged, h.tagged, marks_congr fun p _ => congrFun hentry.symm p]

theorem advance_entry (s : Book) (p : ℕ) : (s.advance p).entry = s.entry ∧ (s.advance p).tagged = s.tagged := by
  rw [Book.advance]
  split <;> exact ⟨rfl, rfl⟩

theorem Sound.advance (h : Sound s xs) (hp : p ∈ xs) : Sound (s.advance p) xs :=
  h.kept (h.listed.advance hp) (advance_entry s p).1 (advance_entry s p).2

theorem Sound.select (h : Sound s xs) (hp : p ∈ xs) : Sound { s with selectedEntry := some p } xs :=
  h.kept (h.listed.select hp) rfl rfl

theorem Sound.tag (h : Sound s xs) (hp : p ∈ xs) (hnot : (s.entry p).tagged = false) (quicklearn : Bool) :
    Sound (s.tag p quicklearn) xs where
  listed := h.listed.tag p quicklearn
  tagged := by
    have hmarks := marks_put s h.listed.chain.nodup hp { s.entry p with tagged := true, quicklearn }
    have htagged := h.tagged
    rw [mark_false hnot, mark_of_tagged rfl] at hmarks
    change s.tagged + 1 = marks (s.put p { s.entry p with tagged := true, quicklearn }) xs
    omega

/-- An untagged entry is not counted. -/
theorem sound_uncount (h : Sound s xs) (hp : p ∈ xs) (htag : (s.entry p).tagged = true) {e : Entry}
    (he : e.tagged = false) : s.tagged - 1 = marks (s.put p e) xs := by
  have hmarks := marks_put s h.listed.chain.nodup hp e
  have htagged := h.tagged
  rw [mark_of_tagged htag, mark_false he] at hmarks
  omega

theorem Sound.untag (h : Sound s xs) (hp : p ∈ xs) (htag : (s.entry p).tagged = true) : Sound (s.untag p) xs where
  listed := h.listed.untag p
  tagged := sound_uncount h hp htag rfl

theorem Sound.space (h : Sound s xs) (hp : p ∈ xs) (fileExists : Bool) : Sound (s.space fileExists p) xs := by
  rw [Book.space]
  split
  · next htag => exact (h.untag hp htag).advance hp
  · next htag => exact (h.tag hp (Bool.eq_false_of_not_eq_true htag) _).advance hp

theorem Sound.quickLearn (h : Sound s xs) (hp : p ∈ xs) (fileExists overwrite : Bool) :
    Sound (s.quickLearn fileExists overwrite p) xs := by
  rw [Book.quickLearn]
  split
  · next htag => exact (h.untag hp htag).advance hp
  next htag =>
  have hnot := Bool.eq_false_of_not_eq_true htag
  split
  · exact (h.put hp { s.entry p with quicklearn := false } rfl).advance hp
  split
  · exact h
  split
  · exact h.advance hp
  · exact (h.tag hp hnot true).advance hp

theorem Sound.dialSuccess (h : Sound s xs) (hp : p ∈ xs) : Sound (s.dialSuccess p) xs := by
  have hlisted := h.listed.dialSuccess p
  rw [Book.dialSuccess] at hlisted ⊢
  dsimp only at hlisted ⊢
  split at hlisted
  · next htag =>
    rw [if_pos htag]
    exact ⟨hlisted, sound_uncount h hp htag rfl⟩
  · next htag =>
    rw [if_neg htag]
    exact h.kept hlisted rfl rfl

theorem Sound.dial (h : Sound s xs) (hp : p ∈ xs) (fileExists connects : Bool) :
    Sound (s.dial fileExists connects p) xs := by
  have hselected := h.select hp
  have hgoes (s' : Book) (hsound : Sound s' xs) :
      Sound (if s'.online then s' else
        if connects then Book.dialSuccess { s' with currentDialEntry := some p } p
        else { s' with currentDialEntry := some p }) xs := by
    have hcurrent : Sound { s' with currentDialEntry := some p } xs :=
      hsound.kept (hsound.listed.current hp) rfl rfl
    split
    · exact hsound
    split
    · exact hcurrent.dialSuccess hp
    · exact hcurrent
  rw [Book.dial]
  dsimp only
  split
  · exact hgoes _ (hselected.put hp _ rfl)
  · exact hgoes _ hselected

theorem Sound.tagMultiple (h : Sound s xs) {tagString : List UInt8}
    (honce : ∀ i p, xs[i]? = some p → Once l (i + 1) (tokenizeCommand tagString) (s.entry p))
    (htag : s.tagMultiple l fuel tagString = some t) : Sound t xs := by
  have hlisted := h.listed.tagMultiple htag
  rw [Book.tagMultiple, h.listed.chain.head] at htag
  have hloop : ∃ _ : ℕ, t.tagged = marks t xs := by
    have hinvariant : ∃ j, (∃ done, xs = done ++ [] ∧ j = done.length + 1) ∧ t.tagged = marks t xs ∧
        ∀ p ∈ ([] : List ℕ), t.entry p = s.entry p := by
      refine forEach_induct (I := fun i rest s' => (∃ done, xs = done ++ rest ∧ i = done.length + 1) ∧
        s'.tagged = marks s' xs ∧ ∀ p ∈ rest, s'.entry p = s.entry p) ?_ h.listed.chain.row
        ⟨⟨[], rfl, rfl⟩, h.tagged, fun _ _ => rfl⟩ htag
      intro i p rest s' hs
      obtain ⟨⟨done, hxs, hi⟩, hcount, hrest⟩ := hs
      have hp : p ∈ xs := by
        rw [hxs]
        exact List.mem_append_right _ List.mem_cons_self
      have hindex : xs[done.length]? = some p := by
        rw [hxs, List.getElem?_append_right le_rfl, Nat.sub_self]
        rfl
      have hp' := hrest p List.mem_cons_self
      have hadds := tagEntry_count (honce done.length p hindex) s'.tagged
      rw [← hp', ← hi] at hadds
      have hmarks := marks_put s' h.listed.chain.nodup hp
        (tagEntry l i (tokenizeCommand tagString) (s'.entry p) s'.tagged).1
      refine ⟨rfl, ⟨done ++ [p], by rw [hxs, List.append_assoc]; rfl, ?_⟩, ?_, ?_⟩
      · rw [List.length_append, hi]
        rfl
      · change (tagEntry l i (tokenizeCommand tagString) (s'.entry p) s'.tagged).2 =
          marks (s'.put p (tagEntry l i (tokenizeCommand tagString) (s'.entry p) s'.tagged).1) xs
        omega
      · intro q hq
        have hne : q ≠ p := by
          rintro rfl
          have hnodup := h.listed.chain.nodup
          rw [hxs] at hnodup
          exact (List.nodup_cons.mp (List.nodup_append.mp hnodup).2.1).1 hq
        change Function.update s'.entry p _ q = _
        rw [Function.update_of_ne hne]
        exact hrest q (List.mem_cons_of_mem _ hq)
    obtain ⟨j, -, htagged, -⟩ := hinvariant
    exact ⟨j, htagged⟩
  obtain ⟨-, htagged⟩ := hloop
  exact ⟨hlisted, htagged⟩

theorem Sound.untagAll (h : Sound s xs) (huntag : s.untagAll fuel = some t) : Sound t xs := by
  have hlisted := h.listed.untagAll huntag
  rw [Book.untagAll, h.listed.chain.head] at huntag
  obtain ⟨u, hloop, rfl⟩ := Option.map_eq_some_iff.mp huntag
  have hnone : ∃ _ : ℕ, ∃ done, xs = done ++ [] ∧ marks u done = 0 := by
    refine forEach_induct (I := fun _ rest s' => ∃ done, xs = done ++ rest ∧ marks s' done = 0) ?_ h.listed.chain.row
      ⟨[], rfl, rfl⟩ hloop
    intro i p rest s' hs
    obtain ⟨done, hxs, hzero⟩ := hs
    have hnodup := h.listed.chain.nodup
    rw [hxs] at hnodup
    have hp : p ∉ done := fun hmem => (List.nodup_append.mp hnodup).2.2 p hmem p List.mem_cons_self rfl
    have hsame : marks (s'.put p { s'.entry p with tagged := false }) done = marks s' done := by
      apply marks_congr
      intro q hq
      apply Function.update_of_ne
      rintro rfl
      exact hp hq
    have hlast : marks (s'.put p { s'.entry p with tagged := false }) [p] = 0 := by
      simp [marks, Book.put]
    refine ⟨rfl, done ++ [p], by rw [hxs, List.append_assoc]; rfl, ?_⟩
    rw [marks_append, hsame, hzero, hlast]
  obtain ⟨-, done, hxs, hzero⟩ := hnone
  rw [List.append_nil] at hxs
  constructor
  · exact hlisted
  · rw [hxs]
    change (0 : ℤ) = marks u done
    rw [hzero]
    rfl

theorem Sound.sortPhonebook (h : Sound s xs) (hsort : s.sortPhonebook fuel method = some t) : ∃ ys, Sound t ys := by
  obtain ⟨ys, hlisted, hperm, hentry, htagged⟩ := h.listed.sortPhonebook hsort
  have hmarks : marks t ys = marks s xs := by
    rw [marks_congr fun p _ => congrFun hentry p]
    exact hperm.countP_eq _
  exact ⟨ys, hlisted, by rw [htagged, hmarks, h.tagged]⟩

theorem Sound.delete (h : Sound s xs) (hnone : ∀ p ∈ xs, (s.entry p).tagged = false)
    (hloop : Book.deleteLoop flag fuel s s.entries = some t) : Sound { t with selectedEntry := t.entries } xs := by
  obtain rfl := deleteLoop_untagged h.listed.chain hnone (fun p hp => h.listed.entries_mem hp) hloop
  exact h.kept h.listed.chain.listed_head rfl rfl

/-- A key that meets the condition leaves the count right. -/
theorem Sound.handle (h : Sound s xs) {key : Key} (hmeets : Meets l s key) (hkey : s.handle l fuel key = some t) :
    ∃ ys, Sound t ys := by
  cases key with
  | space fileExists =>
    obtain rfl := Option.some.inj hkey
    cases hsel : s.selectedEntry with
    | none => exact ⟨xs, h⟩
    | some p => exact ⟨xs, h.space (h.listed.selected p hsel) fileExists⟩
  | quickLearn fileExists overwrite =>
    obtain rfl := Option.some.inj hkey
    cases hsel : s.selectedEntry with
    | none => exact ⟨xs, h⟩
    | some p => exact ⟨xs, h.quickLearn (h.listed.selected p hsel) fileExists overwrite⟩
  | tagMultiple tagString =>
    cases tagString with
    | none =>
      obtain rfl := Option.some.inj hkey
      exact ⟨xs, h⟩
    | some tagString => exact ⟨xs, h.tagMultiple (hmeets xs h.listed.chain) hkey⟩
  | untagAll => exact ⟨xs, h.untagAll hkey⟩
  | sort method =>
    cases method with
    | none =>
      obtain rfl := Option.some.inj hkey
      exact ⟨xs, h⟩
    | some method => exact h.sortPhonebook hkey
  | delete flag =>
    cases flag with
    | none =>
      obtain rfl := Option.some.inj hkey
      exact ⟨xs, h⟩
    | some flag =>
      obtain ⟨u, hloop, rfl⟩ := Option.map_eq_some_iff.mp hkey
      exact ⟨xs, h.delete (hmeets xs h.listed.chain) hloop⟩
  | enter fileExists connects =>
    rw [Book.handle] at hkey
    cases hsel : s.selectedEntry with
    | none =>
      rw [hsel] at hkey
      obtain rfl := Option.some.inj hkey
      exact ⟨xs, h⟩
    | some p =>
      rw [hsel] at hkey
      have hp := h.listed.selected p hsel
      obtain ⟨q, hseek, rfl⟩ := Option.map_eq_some_iff.mp hkey
      exact ⟨xs, h.dial (seekTagged_mem h.listed.chain hp hp hseek) fileExists connects⟩
  | up =>
    obtain rfl := Option.some.inj hkey
    cases hsel : s.selectedEntry with
    | none => exact ⟨xs, h⟩
    | some p =>
      rw [Option.elim_some]
      cases hprev : (s.cell p).prev with
      | none => exact ⟨xs, h⟩
      | some q => exact ⟨xs, h.select (h.listed.chain.row.prev_mem (h.listed.selected p hsel) hprev)⟩
  | down =>
    obtain rfl := Option.some.inj hkey
    cases hsel : s.selectedEntry with
    | none => exact ⟨xs, h⟩
    | some p => exact ⟨xs, h.advance (h.listed.selected p hsel)⟩
  | pageUp n =>
    obtain rfl := Option.some.inj hkey
    cases hsel : s.selectedEntry with
    | none => exact ⟨xs, h⟩
    | some p => exact ⟨xs, h.select (pageUp_mem h.listed.chain n (h.listed.selected p hsel))⟩
  | pageDown n =>
    obtain rfl := Option.some.inj hkey
    cases hsel : s.selectedEntry with
    | none => exact ⟨xs, h⟩
    | some p => exact ⟨xs, h.select (pageDown_mem h.listed.chain n (h.listed.selected p hsel))⟩
  | home =>
    obtain rfl := Option.some.inj hkey
    cases hsel : s.selectedEntry with
    | none => exact ⟨xs, h⟩
    | some p => exact ⟨xs, h.kept h.listed.chain.listed_head rfl rfl⟩
  | end' =>
    rw [Book.handle] at hkey
    cases hsel : s.selectedEntry with
    | none =>
      rw [hsel] at hkey
      obtain rfl := Option.some.inj hkey
      exact ⟨xs, h⟩
    | some p =>
      rw [hsel] at hkey
      obtain ⟨q, hlast, rfl⟩ := Option.map_eq_some_iff.mp hkey
      exact ⟨xs, h.select (lastEntry_mem h.listed.chain (h.listed.selected p hsel) hlast)⟩

theorem run_sound (h : Sound s xs) {keys : List Key} (hmeets : MeetsAll l fuel s keys)
    (hrun : s.run l fuel keys = some t) : ∃ ys, Sound t ys := by
  induction keys generalizing s xs with
  | nil =>
    obtain rfl := Option.some.inj hrun
    exact ⟨xs, h⟩
  | cons key later ih =>
    obtain ⟨u, hkey, hlater⟩ := Option.bind_eq_some_iff.mp hrun
    obtain ⟨ys, hsound⟩ := h.handle hmeets.1 hkey
    exact ih hsound (hmeets.2 u hkey) hlater

/-! The phonebook as it is loaded -/

theorem Chain.append (h : Chain s xs) (hbelow : ∀ p ∈ xs, p < n) (hfreed : s.freed = [])
    (hdial : s.currentDialEntry = none) (row : Stored) : Chain (s.append xs.getLast? n row) (xs ++ [n]) := by
  have hn : n ∉ xs := fun hmem => lt_irrefl n (hbelow n hmem)
  constructor
  · rw [List.nodup_append]
    refine ⟨h.nodup, List.nodup_singleton n, ?_⟩
    intro p hp q hq heq
    rw [List.mem_singleton] at hq
    exact hn (hq ▸ heq ▸ hp)
  · exact h.row.push h.nodup hn
  · rw [Book.append]
    dsimp only
    rw [h.count]
    cases xs with
    | nil => rfl
    | cons x xs =>
      rw [if_neg (by simp only [List.length_cons]; omega), h.head]
      rfl
  · change s.entryCount + 1 = _
    rw [h.count, List.length_append]
    rfl
  · intro p hp
    change p ∉ s.freed
    rw [hfreed]
    exact List.not_mem_nil
  · intro p hp
    change s.currentDialEntry = some p at hp
    rw [hdial] at hp
    cases hp

theorem marks_append_row (h : ∀ p ∈ xs, p < n) (s : Book) (old : Option ℕ) (row : Stored) (hlines : row.tagLines ≤ 1) :
    (marks (s.append old n row) (xs ++ [n]) : ℤ) = marks s xs + row.tagLines := by
  have hsame : marks (s.append old n row) xs = marks s xs := by
    apply marks_congr
    intro p hp
    apply Function.update_of_ne
    rintro rfl
    exact lt_irrefl p (h p hp)
  have hnew : (marks (s.append old n row) [n] : ℤ) = row.tagLines := by
    have hentry : (s.append old n row).entry n = { row.entry with tagged := decide (0 < row.tagLines) } :=
      Function.update_self _ _ _
    rw [marks_cons, hentry, mark]
    obtain hzero | hone := Nat.le_one_iff_eq_zero_or_eq_one.mp hlines
    · simp [hzero, marks]
    · simp [hone, marks]
  rw [marks_append, Nat.cast_add, hsame, hnew]

theorem appendAll_sound (h : Chain s xs) (hbelow : ∀ p ∈ xs, p < n) (hfreed : s.freed = [])
    (hdial : s.currentDialEntry = none) (rows : List Stored) :
    ∃ ys, Chain (Book.appendAll xs.getLast? n rows s) ys ∧ ((∀ row ∈ rows, row.tagLines ≤ 1) → s.tagged = marks s xs →
      (Book.appendAll xs.getLast? n rows s).tagged = marks (Book.appendAll xs.getLast? n rows s) ys) := by
  induction rows generalizing s xs n with
  | nil => exact ⟨xs, h, fun _ htagged => htagged⟩
  | cons row rest ih =>
    have hbelowNext : ∀ p ∈ xs ++ [n], p < n + 1 := by
      intro p hp
      cases List.mem_append.mp hp with
      | inl hold => exact Nat.lt_succ_of_lt (hbelow p hold)
      | inr hnew =>
        rw [List.mem_singleton.mp hnew]
        exact Nat.lt_succ_self n
    have hlast : (xs ++ [n]).getLast? = some n := List.getLast?_concat
    obtain ⟨ys, hchain, hcount⟩ := ih (h.append hbelow hfreed hdial row) hbelowNext hfreed hdial
    rw [hlast] at hchain hcount
    refine ⟨ys, hchain, fun hlines htagged => ?_⟩
    apply hcount fun r hr => hlines r (List.mem_cons_of_mem _ hr)
    rw [marks_append_row hbelow s _ row (hlines row List.mem_cons_self), ← htagged]
    rfl

/-- A phonebook that is loaded is one list, and the count is right where no entry is tagged twice in the file. -/
theorem load_sound {entry : ℕ → Entry} {rows : List Stored} (hload : loadPhonebook entry rows = some s) :
    ∃ xs, Listed s xs ∧ ((∀ row ∈ rows, row.tagLines ≤ 1) → Sound s xs) := by
  have hempty : Chain (.empty entry) [] :=
    ⟨List.nodup_nil, trivial, rfl, rfl, fun _ hp => absurd hp List.not_mem_nil, fun _ hp => by cases hp⟩
  rw [loadPhonebook] at hload
  split at hload
  · cases hload
  obtain rfl := Option.some.inj hload
  obtain ⟨ys, hchain, hcount⟩ := appendAll_sound (n := 0) hempty (fun _ hp => absurd hp List.not_mem_nil) rfl rfl rows
  have hlisted := hchain.listed_head
  exact ⟨ys, hlisted, fun hlines => ⟨hlisted, hcount hlines rfl⟩⟩

/-- In every run the entries are one list with its count and the selected entry in it, and the count of the
tagged ones is right as long as each key meets the condition. -/
theorem run_tagged {entry : ℕ → Entry} {rows : List Stored} {keys : List Key}
    (hload : loadPhonebook entry rows = some s) (hrun : s.run l fuel keys = some t) :
    (∃ xs, Listed t xs) ∧
      ((∀ row ∈ rows, row.tagLines ≤ 1) → MeetsAll l fuel s keys → ∃ xs, Sound t xs) := by
  obtain ⟨xs, hlisted, hsound⟩ := load_sound hload
  apply And.intro (run_listed hlisted hrun)
  intro hlines hmeets
  exact run_sound (hsound hlines) hmeets hrun

/-- One entry without a name. -/
def plainEntry : Entry := ⟨[], [], 0, none, [], 0, 0, false, false⟩

theorem run_tagged_space : ∃ s t xs, loadPhonebook (fun _ => plainEntry) [⟨plainEntry, 0⟩] = some s ∧
    s.run ⟨id, fun _ => []⟩ 3 [.space true, .delete none] = some t ∧ Sound t xs := by
  have hload : ∃ s, loadPhonebook (fun _ => plainEntry) [⟨plainEntry, 0⟩] = some s := ⟨_, rfl⟩
  obtain ⟨s, hload⟩ := hload
  have hrun : ∃ t, s.run ⟨id, fun _ => []⟩ 3 [.space true, .delete none] = some t := ⟨_, rfl⟩
  obtain ⟨t, hrun⟩ := hrun
  obtain ⟨-, hsound⟩ := run_tagged hload hrun
  obtain ⟨xs, hsound⟩ := hsound (by simp) ⟨trivial, fun _ _ => ⟨trivial, fun _ _ => trivial⟩⟩
  exact ⟨s, t, xs, hload, hrun, hsound⟩

/-- The entry is tagged and deleted, and one is still counted. -/
theorem not_run_tagged : ¬ ∀ (l : Locale) (fuel : ℕ) (entry : ℕ → Entry) (rows : List Stored) (keys : List Key)
    (s t : Book), loadPhonebook entry rows = some s → s.run l fuel keys = some t → ∃ xs, Sound t xs := by
  intro h
  obtain ⟨s, hload⟩ : ∃ s, loadPhonebook (fun _ => plainEntry) [⟨plainEntry, 0⟩] = some s := ⟨_, rfl⟩
  have hrun : ∃ t, s.run ⟨id, fun _ => []⟩ 3 [.space true, .delete (some .entry)] = some t ∧
      t.entries = none ∧ t.tagged = 1 := by
    rw [loadPhonebook, if_neg (List.cons_ne_nil _ _)] at hload
    obtain rfl := Option.some.inj hload
    exact ⟨_, rfl, rfl, rfl⟩
  obtain ⟨t, hrun, hentries, htagged⟩ := hrun
  obtain ⟨xs, hsound⟩ := h _ _ _ _ _ s t hload hrun
  obtain rfl := hsound.listed.chain.nil_iff.mp hentries
  have hcount := hsound.tagged
  rw [htagged] at hcount
  cases hcount

end CProgram.Qodem.Phonebook
