import CProgram.Lib.Paths
import CProgram.Qodem.Host
import CProgram.Xmodem.BlockZero

/-! The files that a caller of host mode gets at: the path of the name that is typed, what is offered for a
download, and where an upload is stored. -/
namespace CProgram.Qodem.Host
open Paths Xmodem

def messageFilename : Name := [109, 101, 115, 115, 97, 103, 101, 115, 46, 116, 120, 116]

/-- The file system with the host directory in it, and what `upload_file` and `download_file` ask first. -/
structure Site where
  tree : Tree
  cwd : Location
  hostDir : List UInt8
  host : Location
  resolves : tree.resolve cwd hostDir = .ok host
  host_dir : tree.kind host = some .dir
  localLogin : Bool
  readOnly : Bool

/-- A name that is typed, and for an upload the names that the peer sends in its blocks 0. -/
inductive Request where
  | download (protocol : Protocol) (typed : List UInt8)
  | upload (protocol : Protocol) (typed : List UInt8) (sent : List (List UInt8))

namespace Site
variable (s : Site)

def filename (typed : List UInt8) : List UInt8 := fullFilename s.hostDir typed

def stat (typed : List UInt8) : Stat :=
  match s.tree.stat s.cwd (s.filename typed) with
  | .ok _ => .found
  | .error .enoent => .noEntry
  | .error _ => .failed

/-- The path offered. `start_file_transfer` cuts the separators off the end where there is no batch. -/
def downloadPath (protocol : Protocol) (typed : List UInt8) : Option (List UInt8) :=
  if s.localLogin then none
  else
    match s.stat typed with
    | .found => some (if protocol = .xmodem then stripSlashes (s.filename typed) else s.filename typed)
    | _ => none

/-- `q_download_location`: the path of the file, or the directory for those that are named later. -/
def uploadLocation (protocol : Protocol) (typed : List UInt8) : Option (List UInt8) :=
  if s.localLogin ∨ s.readOnly ∨ typed = [] then none
  else
    match s.stat typed with
    | .noEntry => some (stripSlashes (if protocol = .xmodem then s.filename typed else s.hostDir))
    | _ => none

/-- The paths of a batch, up to the empty name or one that does not fit. -/
def received (location : List UInt8) (sent : List (List UInt8)) : List (List UInt8) :=
  (sent.takeWhile fun name => name ≠ [] ∧ (fullFilename location name).length < filenameSize).map
    (fullFilename location)

/-- Inside the host directory, and not the message file. -/
def Holds (l : Location) : Prop := s.host <:+ l ∧ l ≠ s.host ∧ l ≠ messageFilename :: s.host

/-- What is offered is inside, what is stored is inside, and nothing is written over. -/
def Confined : Request → Prop
  | .download protocol typed => ∀ path, s.downloadPath protocol typed = some path →
      ∃ l, s.tree.resolve s.cwd path = .ok l ∧ s.tree.kind l ≠ none ∧ s.Holds l
  | .upload .xmodem typed _ => ∀ path slot, s.uploadLocation .xmodem typed = some path →
      s.tree.openNew s.cwd path = some slot → s.Holds slot.loc ∧ s.tree.kind slot.loc = none
  | .upload .ymodem typed sent => ∀ path, s.uploadLocation .ymodem typed = some path →
      ∀ x ∈ s.tree.storeAll s.cwd (received path sent), x.2 = false
  | .upload _ _ _ => True

/-- Whether the typed name stays inside by its text alone. -/
def Stays (typed : List UInt8) : Prop := s.Holds (climb s.host (typed.splitOn slash))

def Safe : Request → Prop
  | .download _ typed => s.localLogin = false → s.stat typed = .found → s.Stays typed
  | .upload .xmodem typed _ => s.localLogin = false → s.readOnly = false → typed ≠ [] → s.stat typed = .noEntry →
      (s.tree.openNew s.cwd (stripSlashes (s.filename typed))).isSome → s.Stays typed
  | .upload .ymodem typed sent => s.localLogin = false → s.readOnly = false → typed ≠ [] → s.stat typed = .noEntry →
      (places s.tree s.cwd (received (stripSlashes s.hostDir) sent)).Nodup ∧
        ∀ l ∈ places s.tree s.cwd (received (stripSlashes s.hostDir) sent), s.tree.kind l = none
  | .upload _ _ _ => True

end Site

variable {s : Site} {typed : List UInt8}

theorem filename_eq (s : Site) (typed : List UInt8) : s.filename typed = s.hostDir ++ slash :: typed := by
  simp [Site.filename, fullFilename, slash]

theorem stat_found (h : s.stat typed = .found) :
    ∃ kind, s.tree.resolve s.cwd (s.filename typed) = .ok (climb s.host (typed.splitOn slash)) ∧
      s.tree.kind (climb s.host (typed.splitOn slash)) = some kind := by
  rw [Site.stat, Tree.stat, filename_eq, resolve_under s.resolves] at h
  rw [filename_eq, resolve_under s.resolves]
  cases hwalk : s.tree.walk s.host (typed.splitOn slash) with
  | error e =>
    rw [hwalk] at h
    cases e <;> cases h
  | ok l =>
    rw [hwalk] at h
    rw [← walk_climb hwalk]
    cases hkind : s.tree.kind l with
    | none =>
      simp [hkind] at h
    | some kind => exact ⟨kind, rfl, rfl⟩

/-- Nothing but separators leads back to the directory. -/
theorem not_stays_of_strip (h : stripSlashes (s.filename typed) = []) : ¬ s.Stays typed := by
  intro hstays
  have hall : ∀ x ∈ typed, x = slash := by
    intro x hx
    rw [stripSlashes, List.rdropWhile_eq_nil_iff] at h
    have hslash := h x (by rw [filename_eq]; simp [hx])
    simpa using hslash
  exact hstays.2.1 (climb_slashes hall)

/-- The state machine goes on to the transfer where there is a path to offer. -/
theorem downloadFile_transfer {env : Env} {h h' : Host} (hstat : env.stat = s.stat typed)
    (hlogin : h.localLogin = s.localLogin) (hwait : h.fileState = .filenameWait) (protocol : Protocol)
    (hstep : downloadFile env h = some h') : h'.fileState = .transfer ↔ (s.downloadPath protocol typed).isSome := by
  rw [downloadFile, hlogin, hwait, hstat] at hstep
  rw [Site.downloadPath]
  split at hstep
  · next hlocal =>
    obtain rfl := Option.some.inj hstep
    simp [hlocal]
  next hlocal =>
  rw [if_neg hlocal]
  split at hstep
  · cases hstep
  dsimp only at hstep
  split at hstep
  · cases hstep
  split at hstep
  · next hnone =>
    obtain rfl := Option.some.inj hstep
    simp [hnone]
  · next hfailed =>
    obtain rfl := Option.some.inj hstep
    simp [hfailed]
  · next hfound =>
    obtain rfl := Option.some.inj hstep
    simp [hfound]

theorem uploadFile_transfer {env : Env} {h h' : Host} (hstat : env.stat = s.stat typed)
    (hlogin : h.localLogin = s.localLogin) (hread : env.readOnly = s.readOnly)
    (htyped : h.lineBuffer 0 = 0 ↔ typed = []) (hwait : h.fileState = .filenameWait) (protocol : Protocol)
    (hstep : uploadFile protocol env h = some h') :
    h'.fileState = .transfer ↔ (s.uploadLocation protocol typed).isSome := by
  rw [uploadFile, hlogin, hread, hwait, hstat] at hstep
  rw [Site.uploadLocation]
  split at hstep
  · next hlocal =>
    obtain rfl := Option.some.inj hstep
    simp [hlocal]
  split at hstep
  · next hreadOnly =>
    obtain rfl := Option.some.inj hstep
    simp [hreadOnly]
  split at hstep
  · cases hstep
  dsimp only at hstep
  split at hstep
  · cases hstep
  split at hstep
  · next hempty =>
    obtain rfl := Option.some.inj hstep
    simp [htyped.mp hempty]
  next hlocal hreadOnly _ _ hempty =>
  rw [if_neg (by simp [hlocal, hreadOnly, mt htyped.mpr hempty])]
  split at hstep
  · next hnone =>
    obtain rfl := Option.some.inj hstep
    simp [hnone]
  · next hfailed =>
    obtain rfl := Option.some.inj hstep
    simp [hfailed]
  · next hfound =>
    rw [hfound]
    split at hstep
    · obtain rfl := Option.some.inj hstep
      simp
    · obtain rfl := Option.some.inj hstep
      simp [promptLine, resetLineBuffer]

theorem download_iff (s : Site) (protocol : Protocol) (typed : List UInt8) :
    s.Confined (.download protocol typed) ↔ s.Safe (.download protocol typed) := by
  constructor
  · intro h hlogin hstat
    obtain ⟨kind, hresolve, -⟩ := stat_found hstat
    by_cases hx : protocol = .xmodem
    · have hpath : s.downloadPath protocol typed = some (stripSlashes (s.filename typed)) := by
        rw [Site.downloadPath, if_neg (by simp [hlogin]), hstat]
        simp [hx]
      obtain ⟨l, hl, -, hholds⟩ := h _ hpath
      have hne : stripSlashes (s.filename typed) ≠ [] := by
        intro hnil
        rw [hnil] at hl
        cases hl
      rw [resolve_strip hresolve hne] at hl
      rw [Site.Stays, Except.ok.inj hl]
      exact hholds
    · have hpath : s.downloadPath protocol typed = some (s.filename typed) := by
        rw [Site.downloadPath, if_neg (by simp [hlogin]), hstat]
        simp [hx]
      obtain ⟨l, hl, -, hholds⟩ := h _ hpath
      rw [hresolve] at hl
      rw [Site.Stays, Except.ok.inj hl]
      exact hholds
  · intro h path hpath
    rw [Site.downloadPath] at hpath
    split at hpath
    · cases hpath
    next hlogin =>
    split at hpath
    · next hstat =>
      obtain ⟨kind, hresolve, hkind⟩ := stat_found hstat
      have hstays := h (by simpa using hlogin) hstat
      obtain rfl := Option.some.inj hpath
      refine ⟨_, ?_, by simp [hkind], hstays⟩
      split
      · exact resolve_strip hresolve fun hnil => not_stays_of_strip hnil hstays
      · exact hresolve
    · cases hpath

/-- The file of an Xmodem upload is where the text of its name leads, and is new. -/
theorem slot_facts {slot : s.tree.Slot} (hstat : s.stat typed = .noEntry)
    (hopen : s.tree.openNew s.cwd (stripSlashes (s.filename typed)) = some slot) :
    slot.loc = climb s.host (typed.splitOn slash) ∧ s.tree.kind slot.loc = none := by
  have hresolve := resolve_openNew hopen
  have hne : stripSlashes (s.filename typed) ≠ [] := by
    intro hnil
    rw [hnil] at hresolve
    cases hresolve
  constructor
  · rw [resolve_climb hresolve, base_strip hne, climb_strip, filename_eq, List.splitOn_append_cons_self, climb_append]
    have hdir : s.hostDir ≠ [] := by
      intro hnil
      have hresolves := s.resolves
      rw [hnil] at hresolves
      cases hresolves
    have hbase : Tree.base s.cwd (s.hostDir ++ slash :: typed) = Tree.base s.cwd s.hostDir := by
      rw [Tree.base, Tree.base, List.head?_append_of_ne_nil s.hostDir hdir]
    rw [hbase, ← resolve_climb s.resolves]
  · cases hkind : s.tree.kind slot.loc with
    | none => rfl
    | some kind =>
      have hfile : kind = .file := by
        cases kind with
        | file => rfl
        | dir => exact absurd hkind slot.not_dir
      rw [hfile] at hkind
      rw [Site.stat, Tree.stat] at hstat
      cases resolve_file hresolve hkind with
      | inl hok => simp [hok, hkind] at hstat
      | inr herror => simp [herror] at hstat

theorem uploadLocation_iff (s : Site) (protocol : Protocol) (typed path : List UInt8) :
    s.uploadLocation protocol typed = some path ↔ s.localLogin = false ∧ s.readOnly = false ∧ typed ≠ [] ∧
      s.stat typed = .noEntry ∧ path = stripSlashes (if protocol = .xmodem then s.filename typed else s.hostDir) := by
  rw [Site.uploadLocation]
  constructor
  · intro h
    split at h
    · cases h
    next hguard =>
    split at h
    · next hstat =>
      simp only [not_or, Bool.not_eq_true] at hguard
      exact ⟨hguard.1, hguard.2.1, hguard.2.2, hstat, (Option.some.inj h).symm⟩
    · cases h
  · intro h
    obtain ⟨hlogin, hread, htyped, hstat, rfl⟩ := h
    rw [if_neg (by simp [hlogin, hread, htyped]), hstat]

theorem xmodem_iff (s : Site) (typed : List UInt8) (sent : List (List UInt8)) :
    s.Confined (.upload .xmodem typed sent) ↔ s.Safe (.upload .xmodem typed sent) := by
  constructor
  · intro h hlogin hread htyped hstat hopens
    obtain ⟨slot, hopen⟩ := Option.isSome_iff_exists.mp hopens
    have hlocation := (uploadLocation_iff s .xmodem typed _).mpr ⟨hlogin, hread, htyped, hstat, rfl⟩
    have hholds := (h _ slot hlocation hopen).1
    rw [(slot_facts hstat hopen).1] at hholds
    exact hholds
  · intro h path slot hlocation hopen
    obtain ⟨hlogin, hread, htyped, hstat, rfl⟩ := (uploadLocation_iff s .xmodem typed path).mp hlocation
    obtain ⟨hloc, hnew⟩ := slot_facts hstat hopen
    have hstays := h hlogin hread htyped hstat (by rw [Option.isSome_iff_exists]; exact ⟨slot, hopen⟩)
    rw [hloc] at hnew ⊢
    exact ⟨hstays, hnew⟩

theorem ymodem_iff (s : Site) (typed : List UInt8) (sent : List (List UInt8)) :
    s.Confined (.upload .ymodem typed sent) ↔ s.Safe (.upload .ymodem typed sent) := by
  constructor
  · intro h hlogin hread htyped hstat
    have hlocation := (uploadLocation_iff s .ymodem typed _).mpr ⟨hlogin, hread, htyped, hstat, rfl⟩
    exact (storeAll_new _ _).mp (h _ hlocation)
  · intro h path hlocation
    obtain ⟨hlogin, hread, htyped, hstat, rfl⟩ := (uploadLocation_iff s .ymodem typed path).mp hlocation
    exact (storeAll_new _ _).mpr (h hlogin hread htyped hstat)

/-- A caller is kept to the host directory as far as the text of the names does it. -/
theorem access_confined (s : Site) (request : Request) : s.Confined request ↔ s.Safe request := by
  cases request with
  | download protocol typed => exact download_iff s protocol typed
  | upload protocol typed sent =>
    cases protocol with
    | xmodem => exact xmodem_iff s typed sent
    | ymodem => exact ymodem_iff s typed sent
    | zmodem => exact Iff.rfl
    | kermit => exact Iff.rfl

/-- A plain name that is not the message file's stays. -/
theorem stays_plain (hslash : slash ∉ typed) (hnil : typed ≠ []) (hdot : typed ≠ [dot]) (hup : typed ≠ [dot, dot])
    (hmessage : typed ≠ messageFilename) : s.Stays typed := by
  rw [Site.Stays, climb_plain hslash hnil hdot hup]
  apply And.intro (List.suffix_cons typed s.host)
  apply And.intro (List.cons_ne_self typed s.host)
  intro heq
  exact hmessage (List.cons.inj heq).1

/-- The directory `h`, and beside it the file `s`. -/
def besideSite : Site where
  tree :=
    { kind := fun l => if l = [] ∨ l = [[104]] then some .dir else if l = [[115]] then some .file else none
      root := rfl
      parent := by
        intro name l h
        split at h
        · next hdir =>
          obtain hnil | hone := hdir
          · cases hnil
          · rw [(List.cons.inj hone).2]
            rfl
        · split at h
          · next hfile =>
            rw [(List.cons.inj hfile).2]
            rfl
          · exact absurd rfl h
      nameMax := 255 }
  cwd := []
  hostDir := [47, 104]
  host := [[104]]
  resolves := by rfl
  host_dir := by rfl
  localLogin := false
  readOnly := false

/-- With `../s` the file beside the host directory is sent. -/
theorem not_confined : ¬ ∀ (s : Site) (request : Request), s.Confined request := by
  intro h
  have hpath : besideSite.downloadPath .xmodem [46, 46, 47, 115] = some [47, 104, 47, 46, 46, 47, 115] := by rfl
  obtain ⟨l, hl, -, hholds⟩ := h besideSite (.download .xmodem [46, 46, 47, 115]) _ hpath
  have hbeside : besideSite.tree.resolve besideSite.cwd [47, 104, 47, 46, 46, 47, 115] = .ok [[115]] := by rfl
  rw [hbeside] at hl
  rw [← Except.ok.inj hl] at hholds
  have hsuffix : ([[104]] : Location) <:+ [[115]] := hholds.1
  revert hsuffix
  decide

end CProgram.Qodem.Host
