import CProgram.Hydra.Store

/-! The received files over a whole run: what the log says of the partial files is so, and no file is
touched but the one in progress. -/
namespace CProgram.Hydra
open Bytes Lines Numerals

/-- What is in a file. -/
def dataAt (d : Files) (pathname : List UInt8) : Option (List UInt8) := (d pathname).map StoredFile.data

variable (m : Site) (contents : Described → List UInt8)

/-- The temporary file of a line is there, with a prefix of the file that the line describes. -/
def Holds (d : Files) (r : BadLine) : Prop :=
  ∃ data, dataAt d (m.path r.temp) = some data ∧ data <+: contents r.file

structure LogRight (d : Files) : Prop where
  holds : ∀ line ∈ m.logLines d, Holds m contents d line.2
  distinct : ((m.logLines d).map fun line => line.2.temp).Nodup

/-- What `xfer_init` gives holds nothing of another file. -/
def InitRight (s : Store) : Prop :=
  ∀ file x, m.xferInit s file = .take x → ∀ data, dataAt s.files x.pathname = some data → data <+: contents file

/-- A step leaves every file as it is but the log and the one in progress. -/
def Kept (s : Store) (e : StoreEvent) : Prop :=
  ∀ pathname data, dataAt s.files pathname = some data → pathname ≠ m.path badXferLog →
    (∀ t x, e = .transfer t → m.xferInit s t.file = .take x → pathname ≠ x.pathname) →
    dataAt (m.step contents s e).files pathname = some data

/-- The name that a complete file is to get. -/
def newName (sw : Switches) (file : Described) : List UInt8 :=
  if sw.singleFile ≠ [] then sw.singleFile else file.real

/-- The name fits the statics and, where it is to be logged, is one; a complete file is not to be called like
the copy of the log, nor like the log unless there is one; and what one file is saved as is free where
`rename` replaces. -/
structure Sparing (s : Store) (t : Transfer) : Prop where
  fits : t.file.real.length < nameLen
  named : t.okay = false → t.file.real ≠ []
  log : t.okay = true → newName s.switches t.file = badXferLog → (s.files (m.path badXferLog)).isSome = true
  copy : t.okay = true → newName s.switches t.file ≠ badXferNew
  free : t.okay = true → s.switches.singleFile ≠ [] → m.replaces = true →
    s.files (m.path s.switches.singleFile) = none

def StoreEvent.Sparing (s : Store) : StoreEvent → Prop
  | .start _ => True
  | .transfer t => Hydra.Sparing m s t

/-- Every step of a run meets the condition. -/
def Spared (s : Store) : List StoreEvent → Prop
  | [] => True
  | e :: rest => e.Sparing m s ∧ Spared (m.step contents s e) rest

/-- A directory with neither a log nor a copy of one. -/
structure NoLog (d : Files) : Prop where
  log : d (m.path badXferLog) = none
  copy : d (m.path badXferNew) = none

/-! The log as rows -/

structure Rows (d : Files) (rows : List BadLine) : Prop where
  log : dataAt d (m.path badXferLog) = some (rows.flatMap BadLine.print) ∨
    dataAt d (m.path badXferLog) = none ∧ rows = []
  copy : dataAt d (m.path badXferNew) = none
  proper : ∀ r ∈ rows, Proper r
  distinct : (rows.map BadLine.temp).Nodup

structure Ledger (d : Files) (rows : List BadLine) : Prop where
  written : Rows m d rows
  holds : ∀ r ∈ rows, Holds m contents d r

variable {m contents} {d d' : Files} {rows : List BadLine} {s : Store} {file : Described} {x : XferName}
  {now : Dword} {t : Transfer}

theorem Rows.congr (h : Rows m d rows) (hlog : dataAt d' (m.path badXferLog) = dataAt d (m.path badXferLog))
    (hcopy : dataAt d' (m.path badXferNew) = dataAt d (m.path badXferNew)) : Rows m d' rows where
  log := by
    rw [hlog]
    exact h.log
  copy := by
    rw [hcopy]
    exact h.copy
  proper := h.proper
  distinct := h.distinct

theorem logLines_rows (h : Rows m d rows) : m.logLines d = rows.map fun r => (r.print, r) := by
  have hlog := h.log
  rw [dataAt] at hlog
  rw [Site.logLines]
  cases hfile : d (m.path badXferLog) with
  | none =>
    rw [hfile] at hlog
    obtain hlog | ⟨-, rfl⟩ := hlog
    · cases hlog
    · rfl
  | some log =>
    rw [hfile] at hlog
    obtain hlog | ⟨hlog, -⟩ := hlog
    · have hdata : log.data = rows.flatMap BadLine.print := Option.some.inj hlog
      dsimp only
      rw [hdata, readLog_rows h.proper]
    · cases hlog

theorem logRight_of_ledger (h : Ledger m contents d rows) : LogRight m contents d := by
  constructor
  · intro line hline
    rw [logLines_rows h.written] at hline
    obtain ⟨r, hr, rfl⟩ := List.mem_map.mp hline
    exact h.holds r hr
  · rw [logLines_rows h.written, List.map_map]
    exact h.written.distinct

/-! The disk -/

theorem dataAt_set (d : Files) (p : List UInt8) (f : Option StoredFile) (q : List UInt8) :
    dataAt (d.set p f) q = if q = p then f.map StoredFile.data else dataAt d q := by
  rw [dataAt, Files.set, Function.update_apply]
  split
  · rfl
  · rfl

theorem dataAt_setstamp (p : List UInt8) (tim : Dword) : dataAt (m.setstamp d p tim) = dataAt d := by
  funext q
  rw [Site.setstamp]
  split
  · rfl
  · next f hf =>
    rw [dataAt_set]
    split
    · next hq =>
      rw [dataAt, hq, hf]
      rfl
    · rfl

theorem dataAt_rename {old new data : List UInt8} (hold : dataAt d old = some data) (hnew : dataAt d new = none)
    (q : List UInt8) : dataAt (m.rename d old new) q =
      if q = new then some data else if q = old then none else dataAt d q := by
  obtain ⟨f, hf, rfl⟩ := Option.map_eq_some_iff.mp hold
  have hfree : d new = none := Option.map_eq_none_iff.mp hnew
  rw [Site.rename, hf]
  simp only [hfree, Option.isSome_none, Bool.false_eq_true, false_and, if_false]
  rw [dataAt_set, dataAt_set]
  rfl

/-- A name that is taken: nothing moves, or the file that was there is gone. -/
theorem dataAt_rename_same (p : List UInt8) : dataAt (m.rename d p p) = dataAt d := by
  funext q
  rw [Site.rename]
  split
  · rfl
  · next f hf =>
    split
    · rfl
    · rw [dataAt_set, dataAt_set]
      split
      · next hq =>
        rw [dataAt, hq, hf]
      · rfl

theorem rename_refused {old new : List UInt8} (hnew : (d new).isSome = true) (hrefuses : m.replaces = false) :
    m.rename d old new = d := by
  rw [Site.rename]
  split
  · rfl
  · rw [if_pos ⟨hnew, hrefuses⟩]

theorem dataAt_received (source : List UInt8) (count : ℕ) (q : List UInt8) :
    dataAt (received d now source count x) q = if q = x.pathname then
      some ((dataAt d x.pathname).getD [] ++ (source.drop ((dataAt d x.pathname).getD []).length).take count)
    else dataAt d q := by
  rw [received, dataAt_set]
  rfl

theorem path_inj {a b : List UInt8} (h : m.path a = m.path b) : a = b := List.append_cancel_left h

theorem other_path (hpath : x.pathname = m.path x.temp) {temp : List UInt8} (hne : temp ≠ x.temp) :
    m.path temp ≠ x.pathname := by
  rw [hpath]
  exact fun heq => hne (path_inj heq)

theorem log_ne_own (hpath : x.pathname = m.path x.temp) (htemp : TempName x.temp) :
    m.path badXferLog ≠ x.pathname ∧ m.path badXferNew ≠ x.pathname := by
  rw [hpath]
  exact ⟨htemp.ne_log.1.symm, htemp.ne_log.2.symm⟩

theorem Holds.mono {r : BadLine} (h : Holds m contents d r)
    (hkept : ∀ data, dataAt d (m.path r.temp) = some data → dataAt d' (m.path r.temp) = some data) :
    Holds m contents d' r := by
  obtain ⟨data, hdata, hprefix⟩ := h
  exact ⟨data, hkept data hdata, hprefix⟩

/-! `xfer_init` -/

/-- What `xfer_init` has given: the temporary file of a line for this very file, or a new one. -/
structure Taken (m : Site) (d : Files) (rows : List BadLine) (file : Described) (x : XferName) : Prop where
  pathname : x.pathname = m.path x.temp
  temp : TempName x.temp
  logged : x.logged = true → ⟨file, x.temp⟩ ∈ rows
  fresh : x.logged = false → dataAt d x.pathname = none

theorem taken_of_init (h : Rows m s.files rows) (hinit : m.xferInit s file = .take x) :
    Taken m s.files rows file x := by
  rw [Site.xferInit, logLines_rows h] at hinit
  split at hinit
  · cases hinit
  split at hinit
  · cases hinit
  split at hinit
  · next line hfind =>
    have hmem := List.mem_of_find?_eq_some hfind
    have hfile := List.find?_some hfind
    obtain ⟨r, hr, rfl⟩ := List.mem_map.mp hmem
    obtain rfl := (Answer.take.inj hinit).symm
    simp only [Bool.and_eq_true, decide_eq_true_eq] at hfile
    constructor
    · rfl
    · exact (h.proper r hr).temp
    · intro _
      rw [← hfile.1]
      exact hr
    · intro hnot
      cases hnot
  · split at hinit
    · cases hinit
    · next pathname hunique =>
      obtain ⟨hfree, temp, htemp, rfl⟩ := uniqueName_temp hunique
      have hdrop : (m.path temp).drop m.download.length = temp := List.drop_left
      obtain rfl := (Answer.take.inj hinit).symm
      constructor
      · simp only [hdrop]
      · simp only [hdrop]
        exact htemp
      · intro hnot
        cases hnot
      · intro _
        exact Option.map_eq_none_iff.mpr (by simpa [fexist] using hfree)

/-- A line with the same temporary file is the line of the file in progress. -/
theorem Taken.only (h : Taken m d rows file x) (hledger : Ledger m contents d rows) {r : BadLine} (hr : r ∈ rows)
    (htemp : r.temp = x.temp) : r = ⟨file, x.temp⟩ ∧ x.logged = true := by
  cases hlogged : x.logged with
  | true =>
    have hinj := List.inj_on_of_nodup_map hledger.written.distinct
    exact ⟨hinj hr (h.logged hlogged) htemp, rfl⟩
  | false =>
    obtain ⟨data, hdata, -⟩ := hledger.holds r hr
    rw [htemp, ← h.pathname, h.fresh hlogged] at hdata
    cases hdata

theorem initRight_of_ledger (h : Ledger m contents s.files rows) : InitRight m contents s := by
  intro file x hinit data hdata
  have htaken := taken_of_init h.written hinit
  cases hlogged : x.logged with
  | true =>
    obtain ⟨data', hdata', hprefix⟩ := h.holds _ (htaken.logged hlogged)
    rw [← htaken.pathname, hdata] at hdata'
    obtain rfl := Option.some.inj hdata'
    exact hprefix
  | false =>
    rw [htaken.fresh hlogged] at hdata
    cases hdata

/-! A transfer that is under way -/

/-- The disk while a file comes in. -/
structure Coming (m : Site) (contents : Described → List UInt8) (d : Files) (rows : List BadLine)
    (file : Described) (x : XferName) : Prop where
  ledger : Ledger m contents d rows
  pathname : x.pathname = m.path x.temp
  temp : TempName x.temp
  logged : x.logged = true → ⟨file, x.temp⟩ ∈ rows
  only : ∀ r ∈ rows, r.temp = x.temp → r = ⟨file, x.temp⟩ ∧ x.logged = true
  own : Holds m contents d ⟨file, x.temp⟩

theorem coming_of_taken (hledger : Ledger m contents s.files rows) (hinit : m.xferInit s file = .take x)
    (now : Dword) (count : ℕ) : Coming m contents (received s.files now (contents file) count x) rows file x := by
  have htaken := taken_of_init hledger.written hinit
  obtain ⟨hlog, hcopy⟩ := log_ne_own htaken.pathname htaken.temp
  have hown : Holds m contents (received s.files now (contents file) count x) ⟨file, x.temp⟩ := by
    have hold : (dataAt s.files x.pathname).getD [] <+: contents file := by
      cases hdata : dataAt s.files x.pathname with
      | none => exact List.nil_prefix
      | some data => exact initRight_of_ledger hledger file x hinit data hdata
    obtain ⟨later, hlater⟩ := hold
    apply Exists.intro _
    constructor
    · rw [dataAt_received, ← htaken.pathname, if_pos rfl]
    · generalize (dataAt s.files x.pathname).getD [] = old at hlater ⊢
      rw [← hlater, List.drop_left]
      exact List.prefix_append_right_inj old |>.mpr (List.take_prefix count later)
  have honly := fun r hr => htaken.only hledger (r := r) hr
  constructor
  · constructor
    · apply hledger.written.congr
      · rw [dataAt_received, if_neg hlog]
      · rw [dataAt_received, if_neg hcopy]
    · intro r hr
      by_cases htemp : r.temp = x.temp
      · rw [(honly r hr htemp).1]
        exact hown
      · apply (hledger.holds r hr).mono
        intro data hdata
        rw [dataAt_received, if_neg (other_path htaken.pathname htemp), hdata]
  · exact htaken.pathname
  · exact htaken.temp
  · exact htaken.logged
  · exact honly
  · exact hown

/-! `xfer_del` -/

/-- The file in progress is gone and its line with it; the others stay. -/
theorem xferDel_ledger (now : Dword) (hrows : Rows m d rows) (hpath : x.pathname = m.path x.temp) (htemp : TempName x.temp)
    (honly : ∀ r ∈ rows, r.temp = x.temp → r = ⟨file, x.temp⟩)
    (hholds : ∀ r ∈ rows, r.temp ≠ x.temp → Holds m contents d r) :
    (∃ rows', Ledger m contents (m.xferDel d now file x) rows') ∧
      ∀ p, p ≠ m.path badXferLog → p ≠ m.path badXferNew → p ≠ x.pathname →
        dataAt (m.xferDel d now file x) p = dataAt d p := by
  obtain ⟨hlog, hcopy⟩ := log_ne_own hpath htemp
  have hlogcopy : m.path badXferLog ≠ m.path badXferNew := log_ne_new
  have hread := logLines_rows hrows
  rw [Site.logLines] at hread
  have hsame : d.set x.pathname none (m.path badXferLog) = d (m.path badXferLog) := by
    rw [Files.set, Function.update_of_ne hlog]
  have hframe : ∀ p, p ≠ x.pathname → dataAt (d.set x.pathname none) p = dataAt d p := by
    intro p hp
    rw [dataAt_set, if_neg hp]
  cases hfile : d (m.path badXferLog) with
  | none =>
    have hdel : m.xferDel d now file x = d.set x.pathname none := by
      rw [Site.xferDel]
      simp only [hsame, hfile]
    have hempty : rows = [] := by
      rw [hfile] at hread
      exact List.map_eq_nil_iff.mp hread.symm
    rw [hdel]
    constructor
    · apply Exists.intro rows
      constructor
      · exact hrows.congr (hframe _ hlog) (hframe _ hcopy)
      · intro r hr
        rw [hempty] at hr
        cases hr
    · exact fun p _ _ hp => hframe p hp
  | some log =>
    rw [hfile] at hread
    have hread' : m.readLog log.data = rows.map fun r => (r.print, r) := hread
    let rows' := rows.filter fun r => decide (r ≠ ⟨file, x.temp⟩)
    have hleft : (m.readLog log.data).filter (fun line => decide (line.2 ≠ ⟨file, x.temp⟩)) =
        rows'.map fun r => (r.print, r) := by
      rw [hread', List.filter_map]
      rfl
    have htext : (rows'.map fun r => (r.print, r)).flatMap Prod.fst = rows'.flatMap BadLine.print :=
      List.flatMap_map _ _ _
    let d₁ := ((d.set x.pathname none).set (m.path badXferNew) (some ⟨rows'.flatMap BadLine.print, now⟩)).set
      (m.path badXferLog) none
    have hdel : m.xferDel d now file x = if rows' ≠ [] then m.rename d₁ (m.path badXferNew) (m.path badXferLog)
        else d₁.set (m.path badXferNew) none := by
      rw [Site.xferDel]
      simp only [hsame, hfile, hleft, htext, ne_eq, List.map_eq_nil_iff]
      rfl
    have hcopy₁ : dataAt d₁ (m.path badXferNew) = some (rows'.flatMap BadLine.print) := by
      rw [dataAt_set, if_neg hlogcopy.symm, dataAt_set, if_pos rfl]
      rfl
    have hlog₁ : dataAt d₁ (m.path badXferLog) = none := by
      rw [dataAt_set, if_pos rfl]
      rfl
    have hframe₁ : ∀ p, p ≠ m.path badXferLog → p ≠ m.path badXferNew → p ≠ x.pathname →
        dataAt d₁ p = dataAt d p := by
      intro p hp hp' hp''
      rw [dataAt_set, if_neg hp, dataAt_set, if_neg hp', hframe p hp'']
    have hall : (dataAt (m.xferDel d now file x) (m.path badXferLog) = some (rows'.flatMap BadLine.print) ∨
        dataAt (m.xferDel d now file x) (m.path badXferLog) = none ∧ rows' = []) ∧
        dataAt (m.xferDel d now file x) (m.path badXferNew) = none ∧
        ∀ p, p ≠ m.path badXferLog → p ≠ m.path badXferNew → p ≠ x.pathname →
          dataAt (m.xferDel d now file x) p = dataAt d p := by
      rw [hdel]
      split
      · constructor
        · apply Or.inl
          rw [dataAt_rename hcopy₁ hlog₁, if_pos rfl]
        constructor
        · rw [dataAt_rename hcopy₁ hlog₁, if_neg hlogcopy.symm, if_pos rfl]
        · intro p hp hp' hp''
          rw [dataAt_rename hcopy₁ hlog₁, if_neg hp, if_neg hp', hframe₁ p hp hp' hp'']
      · next hnone =>
        constructor
        · apply Or.inr
          rw [dataAt_set, if_neg hlogcopy]
          exact ⟨hlog₁, not_not.mp hnone⟩
        constructor
        · rw [dataAt_set, if_pos rfl]
          rfl
        · intro p hp hp' hp''
          rw [dataAt_set, if_neg hp', hframe₁ p hp hp' hp'']
    obtain ⟨hnewlog, hnewcopy, hrest⟩ := hall
    constructor
    · apply Exists.intro rows'
      constructor
      · constructor
        · exact hnewlog
        · exact hnewcopy
        · exact fun r hr => hrows.proper r (List.mem_filter.mp hr).1
        · exact hrows.distinct.sublist (List.filter_sublist.map BadLine.temp)
      · intro r hr
        obtain ⟨hmem, hother⟩ := List.mem_filter.mp hr
        have hne : r.temp ≠ x.temp := by
          intro heq
          exact of_decide_eq_true hother (honly r hmem heq)
        obtain ⟨hrlog, hrcopy⟩ := (hrows.proper r hmem).temp.ne_log (m := m)
        apply (hholds r hmem hne).mono
        intro data hdata
        rw [hrest _ hrlog hrcopy (other_path hpath hne), hdata]
    · exact hrest

/-! `xfer_bad` and `xfer_okay` -/

/-- What is left behind a transfer: a log that is right, and every file but the log and the one that was in
progress. -/
structure Behind (m : Site) (contents : Described → List UInt8) (d : Files) (x : XferName) (d' : Files) : Prop where
  ledger : ∃ rows, Ledger m contents d' rows
  kept : ∀ p data, dataAt d p = some data → p ≠ m.path badXferLog → p ≠ x.pathname → dataAt d' p = some data

theorem ne_copy_of_some (h : Rows m d rows) {p data : List UInt8} (hp : dataAt d p = some data) :
    p ≠ m.path badXferNew := by
  intro heq
  rw [heq, h.copy] at hp
  cases hp

theorem Coming.del (h : Coming m contents d rows file x) (hrows : Rows m d' rows)
    (hkept : ∀ p data, dataAt d p = some data → p ≠ m.path badXferLog → p ≠ x.pathname → dataAt d' p = some data) :
    Behind m contents d x (m.xferDel d' now file x) := by
  have hholds : ∀ r ∈ rows, r.temp ≠ x.temp → Holds m contents d' r := by
    intro r hr hne
    apply (h.ledger.holds r hr).mono
    intro data hdata
    exact hkept _ data hdata (h.ledger.written.proper r hr).temp.ne_log.1 (other_path h.pathname hne)
  obtain ⟨hledger, hframe⟩ := xferDel_ledger now hrows h.pathname h.temp
    (fun r hr htemp => (h.only r hr htemp).1) hholds
  constructor
  · exact hledger
  · intro p data hdata hlog hpath
    rw [hframe p hlog (ne_copy_of_some h.ledger.written hdata) hpath]
    exact hkept p data hdata hlog hpath

theorem Coming.bad (h : Coming m contents d rows t.file x) (sw : Switches) (hnamed : Named t.file.real) :
    Behind m contents d x (m.xferBad d sw t.now t.file x).2 := by
  have hsame : ∀ p data, dataAt d p = some data → p ≠ m.path badXferLog → p ≠ x.pathname →
    dataAt d p = some data := fun _ _ hdata _ _ => hdata
  rw [Site.xferBad]
  split
  · exact ⟨⟨rows, h.ledger⟩, hsame⟩
  next hlogged =>
  split
  · exact h.del h.ledger.written hsame
  split
  · exact h.del h.ledger.written hsame
  let row : BadLine := ⟨t.file, x.temp⟩
  have hlogcopy : m.path badXferLog ≠ m.path badXferNew := log_ne_new
  have htext : ((d (m.path badXferLog)).map StoredFile.data).getD [] = rows.flatMap BadLine.print := by
    obtain hlog | ⟨hlog, rfl⟩ := h.ledger.written.log
    · exact congrArg (fun o => o.getD []) hlog
    · exact congrArg (fun o => o.getD []) hlog
  have hframe : ∀ p, p ≠ m.path badXferLog → dataAt (d.set (m.path badXferLog)
      (some ⟨((d (m.path badXferLog)).map StoredFile.data).getD [] ++ row.print, t.now⟩)) p = dataAt d p := by
    intro p hp
    rw [dataAt_set, if_neg hp]
  constructor
  · apply Exists.intro (rows ++ [row])
    constructor
    · constructor
      · apply Or.inl
        rw [dataAt_set, if_pos rfl, htext, List.flatMap_append]
        simp [row]
      · rw [hframe _ hlogcopy.symm]
        exact h.ledger.written.copy
      · intro r hr
        obtain hr | hr := List.mem_append.mp hr
        · exact h.ledger.written.proper r hr
        · rw [List.mem_singleton.mp hr]
          exact ⟨hnamed, t.unbroken, h.temp⟩
      · rw [List.map_append, List.nodup_append]
        apply And.intro h.ledger.written.distinct
        apply And.intro (List.nodup_singleton _)
        intro a ha b hb heq
        obtain ⟨r, hr, rfl⟩ := List.mem_map.mp ha
        have hb' : b = x.temp := List.mem_singleton.mp hb
        exact hlogged (h.only r hr (heq.trans hb')).2
    · intro r hr
      obtain hr | hr := List.mem_append.mp hr
      · apply (h.ledger.holds r hr).mono
        intro data hdata
        rw [hframe _ (h.ledger.written.proper r hr).temp.ne_log.1, hdata]
      · rw [List.mem_singleton.mp hr]
        apply h.own.mono
        intro data hdata
        rw [hframe _ h.temp.ne_log.1, hdata]
  · intro p data hdata hlog _
    rw [hframe p hlog, hdata]

/-- The name of a complete file: free and not one of the log's, or taken with `rename` refusing, or the one
that the file has already. -/
theorem newPathname_cases (hsparing : Sparing m s t) (hokay : t.okay = true)
    (hlog : (s.files (m.path badXferLog)).isSome = true → (d (m.path badXferLog)).isSome = true)
    (hfree : ∀ p, s.files p = none → p ≠ x.pathname → d p = none) {new : List UInt8}
    (hnew : m.newPathname d s.switches t.file = some new) :
    (dataAt d new = none ∧ new ≠ m.path badXferLog ∧ new ≠ m.path badXferNew) ∨
      ((d new).isSome = true ∧ m.replaces = false) ∨ new = x.pathname := by
  have hlogname := hsparing.log hokay
  have hcopyname := hsparing.copy hokay
  have hsingle := hsparing.free hokay
  rw [newName] at hlogname hcopyname
  rw [Site.newPathname] at hnew
  have hready : d new = none → new = m.path (newName s.switches t.file) →
      dataAt d new = none ∧ new ≠ m.path badXferLog ∧ new ≠ m.path badXferNew := by
    intro hnone hname
    rw [newName] at hname
    constructor
    · rw [dataAt, hnone]
      rfl
    constructor
    · intro heq
      have hthere := hlog (hlogname (path_inj (m := m) (hname.symm.trans heq)))
      rw [← heq, hnone] at hthere
      cases hthere
    · intro heq
      exact hcopyname (path_inj (m := m) (hname.symm.trans heq))
  split at hnew
  · next hs =>
    obtain rfl := Option.some.inj hnew
    have hname : m.path s.switches.singleFile = m.path (newName s.switches t.file) := by
      rw [newName, if_pos hs]
    by_cases hown : m.path s.switches.singleFile = x.pathname
    · exact Or.inr (Or.inr hown)
    cases hthere : d (m.path s.switches.singleFile) with
    | none => exact Or.inl (hready hthere hname)
    | some f =>
      cases hreplaces : m.replaces with
      | false => exact Or.inr (Or.inl ⟨by rw [Option.isSome_some], rfl⟩)
      | true =>
        rw [hfree _ (hsingle hs hreplaces) hown] at hthere
        cases hthere
  · next hs =>
    obtain ⟨hfexist, hends⟩ := uniqueName_ends hnew
    have hnone : d new = none := by simpa [fexist] using hfexist
    obtain heq | hends := hends
    · apply Or.inl
      apply hready hnone
      rw [newName, if_neg hs, heq]
    · apply Or.inl
      constructor
      · rw [dataAt, hnone]
        rfl
      constructor
      · intro heq
        apply not_endsInDigit (m.download ++ [66, 65, 68, 45, 88, 70, 69, 82, 46, 76, 79]) 71 rfl
        rw [List.append_assoc]
        rw [heq] at hends
        exact hends
      · intro heq
        apply not_endsInDigit (m.download ++ [66, 65, 68, 45, 88, 70, 69, 82, 46, 36, 36]) 36 rfl
        rw [List.append_assoc]
        rw [heq] at hends
        exact hends

/-- The renaming touches neither the log nor any file but the one in progress. -/
theorem Coming.rename (h : Coming m contents d rows file x) {new : List UInt8}
    (hnew : (dataAt d new = none ∧ new ≠ m.path badXferLog ∧ new ≠ m.path badXferNew) ∨
      ((d new).isSome = true ∧ m.replaces = false) ∨ new = x.pathname) :
    Rows m (m.rename d x.pathname new) rows ∧
      ∀ p data, dataAt d p = some data → p ≠ x.pathname → dataAt (m.rename d x.pathname new) p = some data := by
  have hrows := h.ledger.written
  obtain ⟨hfree, hlog, hcopy⟩ | ⟨hthere, hrefuses⟩ | rfl := hnew
  · obtain ⟨own, hown, -⟩ := h.own
    rw [← h.pathname] at hown
    obtain ⟨hownlog, howncopy⟩ := log_ne_own h.pathname h.temp
    have hmoved := dataAt_rename (m := m) hown hfree
    constructor
    · apply hrows.congr
      · rw [hmoved, if_neg hlog.symm, if_neg hownlog]
      · rw [hmoved, if_neg hcopy.symm, if_neg howncopy]
    · intro p data hdata hp
      have hother : p ≠ new := by
        intro heq
        rw [heq, hfree] at hdata
        cases hdata
      rw [hmoved, if_neg hother, if_neg hp, hdata]
  · rw [rename_refused hthere hrefuses]
    exact ⟨hrows, fun _ _ hdata _ => hdata⟩
  · have hsame := dataAt_rename_same (m := m) (d := d) x.pathname
    constructor
    · exact hrows.congr (congrFun hsame _) (congrFun hsame _)
    · intro p data hdata _
      rw [hsame, hdata]

theorem Coming.okay (h : Coming m contents d rows t.file x) (sw : Switches) {name : Option (List UInt8)}
    (hnew : ∀ new, m.newPathname d sw t.file = some new →
      (dataAt d new = none ∧ new ≠ m.path badXferLog ∧ new ≠ m.path badXferNew) ∨
        ((d new).isSome = true ∧ m.replaces = false) ∨ new = x.pathname)
    (hokay : m.xferOkay d sw t.now t.file x = some (name, d')) : Behind m contents d x d' := by
  obtain ⟨new, hpathname, hresult⟩ := Option.map_eq_some_iff.mp hokay
  obtain ⟨hrows, hkept⟩ := h.rename (hnew new hpathname)
  have hd : d' = if x.logged then m.xferDel (if sw.nostamp = false ∧ t.file.ftime ≠ 0 then
      m.setstamp (m.rename d x.pathname new) new t.file.ftime else m.rename d x.pathname new) t.now t.file x
      else if sw.nostamp = false ∧ t.file.ftime ≠ 0 then
        m.setstamp (m.rename d x.pathname new) new t.file.ftime else m.rename d x.pathname new :=
    (Prod.mk.inj hresult).2.symm
  have hstamp : dataAt (if sw.nostamp = false ∧ t.file.ftime ≠ 0 then
      m.setstamp (m.rename d x.pathname new) new t.file.ftime else m.rename d x.pathname new) =
      dataAt (m.rename d x.pathname new) := by
    split
    · exact dataAt_setstamp _ _
    · rfl
  generalize (if sw.nostamp = false ∧ t.file.ftime ≠ 0 then
    m.setstamp (m.rename d x.pathname new) new t.file.ftime else m.rename d x.pathname new) = d₂ at hd hstamp
  have hrows₂ : Rows m d₂ rows := hrows.congr (congrFun hstamp _) (congrFun hstamp _)
  have hkept₂ : ∀ p data, dataAt d p = some data → p ≠ m.path badXferLog → p ≠ x.pathname →
      dataAt d₂ p = some data := by
    intro p data hdata _ hp
    rw [hstamp, hkept p data hdata hp]
  rw [hd]
  split
  · exact h.del hrows₂ hkept₂
  · next hlogged =>
    constructor
    · apply Exists.intro rows
      constructor
      · exact hrows₂
      · intro r hr
        have hne : r.temp ≠ x.temp := fun heq => hlogged (h.only r hr heq).2
        apply (h.ledger.holds r hr).mono
        intro data hdata
        exact hkept₂ _ data hdata (hrows.proper r hr).temp.ne_log.1 (other_path h.pathname hne)
    · exact hkept₂

/-! Runs -/

theorem received_other {source : List UInt8} {count : ℕ} {p : List UInt8} (hp : p ≠ x.pathname) :
    received d now source count x p = d p := by
  rw [received, Files.set, Function.update_of_ne hp]

theorem step_take (hledger : Ledger m contents s.files rows) (hsparing : Sparing m s t)
    (hinit : m.xferInit s t.file = .take x) :
    Behind m contents (received s.files t.now (contents t.file) t.count x) x
      (m.step contents s (.transfer t)).files := by
  have hcoming := coming_of_taken hledger hinit t.now t.count
  rw [Site.step, hinit]
  dsimp only
  split
  · next hokay =>
    have hlog : (s.files (m.path badXferLog)).isSome = true →
        (received s.files t.now (contents t.file) t.count x (m.path badXferLog)).isSome = true := by
      intro hthere
      rw [received_other (log_ne_own hcoming.pathname hcoming.temp).1, hthere]
    have hfree : ∀ p, s.files p = none → p ≠ x.pathname →
        received s.files t.now (contents t.file) t.count x p = none := by
      intro p hnone hp
      rw [received_other hp, hnone]
    split
    · next name d' hresult =>
      apply hcoming.okay s.switches _ hresult
      intro new hnew
      exact newPathname_cases hsparing hokay hlog hfree hnew
    · exact ⟨⟨rows, hcoming.ledger⟩, fun _ _ hdata _ _ => hdata⟩
  · next hbad =>
    have hnamed : Named t.file.real := ⟨hsparing.named (by simpa using hbad), hsparing.fits⟩
    exact hcoming.bad s.switches hnamed

/-- One step keeps the log right and every other file. -/
theorem step_ledger (hledger : Ledger m contents s.files rows) (e : StoreEvent) (hsparing : e.Sparing m s) :
    (∃ rows', Ledger m contents (m.step contents s e).files rows') ∧ Kept m contents s e := by
  cases e with
  | start switches => exact ⟨⟨rows, hledger⟩, fun _ _ hdata _ _ => hdata⟩
  | transfer t =>
    cases hinit : m.xferInit s t.file with
    | have_ =>
      have hstay : m.step contents s (.transfer t) = s := by rw [Site.step, hinit]
      constructor
      · rw [hstay]
        exact ⟨rows, hledger⟩
      · intro p data hdata _ _
        rw [hstay, hdata]
    | endless =>
      have hstay : m.step contents s (.transfer t) = s := by rw [Site.step, hinit]
      constructor
      · rw [hstay]
        exact ⟨rows, hledger⟩
      · intro p data hdata _ _
        rw [hstay, hdata]
    | take x =>
      obtain ⟨hafter, hkept⟩ := step_take hledger hsparing hinit
      constructor
      · exact hafter
      · intro p data hdata hlog hother
        have hp : p ≠ x.pathname := hother t x rfl hinit
        apply hkept p data _ hlog hp
        rw [dataAt, received_other hp]
        exact hdata

theorem run_ledger (hledger : Ledger m contents s.files rows) (events : List StoreEvent)
    (hspared : Spared m contents s events) : ∃ rows', Ledger m contents (m.run contents s events).files rows' := by
  induction events generalizing s rows with
  | nil => exact ⟨rows, hledger⟩
  | cons e events ih =>
    obtain ⟨⟨rows', hledger'⟩, -⟩ := step_ledger hledger e hspared.1
    exact ih hledger' hspared.2

theorem ledger_of_noLog (h : NoLog m d) : Ledger m contents d [] where
  written := {
    log := Or.inr ⟨by rw [dataAt, h.log, Option.map_none], rfl⟩
    copy := by rw [dataAt, h.copy, Option.map_none]
    proper := fun _ hr => by cases hr
    distinct := List.nodup_nil }
  holds := fun _ hr => by cases hr

variable (m contents s) in
/-- Where no name runs into the log, its copy or the statics, the log is right in every state, `xfer_init`
gives no file that holds another one's data, and no step touches a file but the log and the one in
progress. -/
theorem store_kept (hstart : NoLog m s.files) (events : List StoreEvent) (hspared : Spared m contents s events) :
    LogRight m contents (m.run contents s events).files ∧ InitRight m contents (m.run contents s events) ∧
      ∀ e : StoreEvent, e.Sparing m (m.run contents s events) → Kept m contents (m.run contents s events) e := by
  obtain ⟨rows, hledger⟩ := run_ledger (ledger_of_noLog hstart) events hspared
  constructor
  · exact logRight_of_ledger hledger
  constructor
  · exact initRight_of_ledger hledger
  · exact fun e he => (step_ledger hledger e he).2

/-- A machine whose directory is empty, and `rename` as it refuses. -/
def plainSite : Site := ⟨[], false, id, ⟨⟨[], 0, 0⟩, []⟩, 1000⟩

def emptyStore : Store := ⟨fun _ => none, ⟨false, false, []⟩, false⟩

/-- `X Y 1 1` -/
def forgedLine : List UInt8 := [88, 32, 89, 32, 49, 32, 49, 10]

/-- The peer offers a file that is called `BAD-XFER.LOG`, with one line in it. -/
def forgedLog : Transfer := ⟨⟨badXferLog, 8, 0⟩, by decide +kernel, 8, 0, true⟩

theorem not_store_kept : ¬ ∀ (m : Site) (contents : Described → List UInt8) (s : Store) (events : List StoreEvent),
    NoLog m s.files →
    LogRight m contents (m.run contents s events).files ∧ InitRight m contents (m.run contents s events) ∧
      ∀ e : StoreEvent, Kept m contents (m.run contents s events) e := by
  intro h
  obtain ⟨hlog, -, -⟩ :=
    h plainSite (fun _ => forgedLine) emptyStore [.transfer forgedLog] ⟨rfl, rfl⟩
  have hline : (forgedLine, (⟨⟨[88], 1, 1⟩, [89]⟩ : BadLine)) ∈ plainSite.logLines
      (plainSite.run (fun _ => forgedLine) emptyStore [.transfer forgedLog]).files := by decide
  have hnone : ((plainSite.run (fun _ => forgedLine) emptyStore [.transfer forgedLog]).files [89]).isSome = false := by
    decide
  obtain ⟨data, hdata, -⟩ := hlog.holds _ hline
  obtain ⟨f, hf, -⟩ := Option.map_eq_some_iff.mp hdata
  have hthere : plainSite.path [89] = [89] := rfl
  rw [hthere] at hf
  rw [hf] at hnone
  cases hnone

/-- A file `A` that comes in whole. -/
def wholeFile : Transfer := ⟨⟨[65], 8, 0⟩, by decide +kernel, 8, 0, true⟩

theorem store_kept_whole :
    LogRight plainSite (fun _ => forgedLine)
      (plainSite.run (fun _ => forgedLine) emptyStore [.transfer wholeFile]).files ∧
    dataAt (plainSite.run (fun _ => forgedLine) emptyStore [.transfer wholeFile]).files [65] = some forgedLine := by
  have hsparing : Sparing plainSite emptyStore wholeFile := by
    constructor
    · decide
    · exact fun hbad => by cases hbad
    · exact fun _ hname => absurd hname (by decide)
    · exact fun _ => by decide
    · exact fun _ hsingle => absurd rfl hsingle
  constructor
  · exact (store_kept plainSite (fun _ => forgedLine) emptyStore ⟨rfl, rfl⟩ [.transfer wholeFile]
      ⟨hsparing, trivial⟩).1
  · decide

end CProgram.Hydra
