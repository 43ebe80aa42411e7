import Mathlib.Data.List.DropRight

/-! Path names in a tree of directories without links: what a path leads to, and where it leads by its text
alone. -/
namespace CProgram.Paths

abbrev Name := List UInt8

/-- The names on the way from the root, the innermost first. -/
abbrev Location := List Name

def slash : UInt8 := 47
def dot : UInt8 := 46

inductive Kind where
  | dir | file
  deriving DecidableEq

inductive Errno where
  | enoent | enotdir | enametoolong
  deriving DecidableEq

/-- What stands at a location stands in a directory. -/
structure Tree where
  kind : Location → Option Kind
  root : kind [] = some .dir
  parent : ∀ name l, kind (name :: l) ≠ none → kind l = some .dir
  nameMax : ℕ

namespace Tree
variable (t : Tree)

/-- The components of a path, one after the other. -/
def walk : Location → List Name → Except Errno Location
  | l, [] => .ok l
  | l, c :: rest =>
    match t.kind l with
    | none => .error .enoent
    | some .file => .error .enotdir
    | some .dir =>
      if c = [] ∨ c = [dot] then walk l rest
      else if c = [dot, dot] then walk l.tail rest
      else if t.nameMax < c.length then .error .enametoolong
      else walk (c :: l) rest

def base (cwd : Location) (path : List UInt8) : Location := if path.head? = some slash then [] else cwd

def resolve (cwd : Location) (path : List UInt8) : Except Errno Location :=
  if path = [] then .error .enoent else t.walk (base cwd path) (path.splitOn slash)

def stat (cwd : Location) (path : List UInt8) : Except Errno Kind :=
  match t.resolve cwd path with
  | .error e => .error e
  | .ok l =>
    match t.kind l with
    | none => .error .enoent
    | some kind => .ok kind

/-- Where a file can be written. -/
structure Slot where
  name : Name
  dir : Location
  dir_kind : t.kind dir = some .dir
  not_dir : t.kind (name :: dir) ≠ some .dir

variable {t} in
def Slot.loc (p : t.Slot) : Location := p.name :: p.dir

/-- A file is opened for writing, and created where it is not there. -/
def openNew (cwd : Location) (path : List UInt8) : Option t.Slot :=
  let name := (path.splitOn slash).getLastD []
  if name = [] ∨ name = [dot] ∨ name = [dot, dot] ∨ t.nameMax < name.length then none
  else
    match t.walk (base cwd path) (path.splitOn slash).dropLast with
    | .error _ => none
    | .ok dir =>
      if h : t.kind dir = some .dir ∧ t.kind (name :: dir) ≠ some .dir then some ⟨name, dir, h.1, h.2⟩ else none

/-- The tree with the file in it. -/
def store (p : t.Slot) : Tree where
  kind l := if l = p.loc then some .file else t.kind l
  root := by
    have hne : [] ≠ p.loc := (List.cons_ne_nil p.name p.dir).symm
    rw [if_neg hne]
    exact t.root
  parent name l h := by
    have hdir : t.kind l = some .dir := by
      split at h
      · next heq =>
        obtain ⟨rfl, rfl⟩ := List.cons.inj heq
        exact p.dir_kind
      · exact t.parent name l h
    have hne : l ≠ p.loc := by
      intro heq
      rw [heq] at hdir
      exact p.not_dir hdir
    rw [if_neg hne]
    exact hdir
  nameMax := t.nameMax

/-- Files written one after the other: where, and whether a file was there. -/
def storeAll (cwd : Location) : Tree → List (List UInt8) → List (Location × Bool)
  | _, [] => []
  | t, path :: rest =>
    match t.openNew cwd path with
    | some p => (p.loc, (t.kind p.loc).isSome) :: storeAll cwd (t.store p) rest
    | none => storeAll cwd t rest

end Tree

/-- Where the components lead by their text alone. -/
def climb : Location → List Name → Location
  | l, [] => l
  | l, c :: rest =>
    if c = [] ∨ c = [dot] then climb l rest
    else if c = [dot, dot] then climb l.tail rest
    else climb (c :: l) rest

def stripSlashes (path : List UInt8) : List UInt8 := path.rdropWhile (· = slash)

variable {t : Tree} {cwd host l m : Location} {path : List UInt8}

theorem walk_append (t : Tree) (l : Location) (front back : List Name) :
    t.walk l (front ++ back) = (t.walk l front).bind fun m => t.walk m back := by
  induction front generalizing l with
  | nil => rfl
  | cons c rest ih =>
    simp only [List.cons_append, Tree.walk]
    split
    · rfl
    · rfl
    split_ifs
    · exact ih l
    · exact ih l.tail
    · rfl
    · exact ih (c :: l)

/-- Without links `..` takes back the name in front of it. -/
theorem walk_climb {names : List Name} (h : t.walk l names = .ok m) : m = climb l names := by
  induction names generalizing l with
  | nil => exact (Except.ok.inj h).symm
  | cons c rest ih =>
    rw [Tree.walk] at h
    rw [climb]
    split at h
    · cases h
    · cases h
    split_ifs at h ⊢
    · exact ih h
    · exact ih h
    · exact ih h

/-- A name with no separator in it stays. -/
theorem climb_plain {name : Name} (hslash : slash ∉ name) (hnil : name ≠ []) (hdot : name ≠ [dot])
    (hup : name ≠ [dot, dot]) : climb l (name.splitOn slash) = name :: l := by
  rw [List.splitOn_eq_singleton hslash, climb, if_neg (not_or.mpr ⟨hnil, hdot⟩), if_neg hup, climb]

theorem climb_append (l : Location) (front back : List Name) : climb l (front ++ back) = climb (climb l front) back := by
  induction front generalizing l with
  | nil => rfl
  | cons c rest ih =>
    simp only [List.cons_append, climb]
    split_ifs
    · exact ih l
    · exact ih l.tail
    · exact ih (c :: l)

theorem climb_slashes (h : ∀ x ∈ path, x = slash) : climb l (path.splitOn slash) = l := by
  induction path with
  | nil => rfl
  | cons x rest ih =>
    have hsplit := List.splitOn_append_cons_self (a := slash) [] rest
    rw [List.nil_append] at hsplit
    rw [h x List.mem_cons_self, hsplit, climb_append]
    exact ih fun y hy => h y (List.mem_cons_of_mem _ hy)

/-- A path below a directory goes on from the directory. -/
theorem resolve_under (h : t.resolve cwd path = .ok host) (name : List UInt8) :
    t.resolve cwd (path ++ slash :: name) = t.walk host (name.splitOn slash) := by
  rw [Tree.resolve] at h
  split at h
  · cases h
  · next hpath =>
    have hbase : Tree.base cwd (path ++ slash :: name) = Tree.base cwd path := by
      rw [Tree.base, Tree.base, List.head?_append_of_ne_nil path hpath]
    have hne : path ++ slash :: name ≠ [] := List.append_ne_nil_of_left_ne_nil hpath _
    rw [Tree.resolve, if_neg hne, hbase, List.splitOn_append_cons_self, walk_append, h]
    rfl

theorem resolve_snoc (hpath : path ≠ []) :
    t.resolve cwd (path ++ [slash]) = (t.resolve cwd path).bind fun l => t.walk l [[]] := by
  have hbase : Tree.base cwd (path ++ [slash]) = Tree.base cwd path := by
    rw [Tree.base, Tree.base, List.head?_append_of_ne_nil path hpath]
  have hne : path ++ [slash] ≠ [] := List.append_ne_nil_of_left_ne_nil hpath _
  rw [Tree.resolve, if_neg hne, hbase, List.splitOn_append_cons_self, walk_append, Tree.resolve, if_neg hpath]
  rfl

theorem walk_here (h : t.walk l [[]] = .ok m) : m = l := by
  rw [walk_climb h]
  rfl

theorem stripSlashes_snoc (path : List UInt8) : stripSlashes (path ++ [slash]) = stripSlashes path :=
  List.rdropWhile_concat_pos (· = slash) path slash (by simp)

theorem stripSlashes_other {x : UInt8} (h : x ≠ slash) : stripSlashes (path ++ [x]) = path ++ [x] :=
  List.rdropWhile_concat_neg (· = slash) path x (by simpa using h)

theorem ne_nil_of_strip (h : stripSlashes path ≠ []) : path ≠ [] := by
  intro hnil
  rw [hnil] at h
  exact h rfl

theorem climb_strip (l : Location) (path : List UInt8) :
    climb l ((stripSlashes path).splitOn slash) = climb l (path.splitOn slash) := by
  induction path using List.reverseRecOn with
  | nil => rfl
  | append_singleton path x ih =>
    by_cases hx : x = slash
    · rw [hx, stripSlashes_snoc, ih, List.splitOn_append_cons_self, climb_append]
      rfl
    · rw [stripSlashes_other hx]

/-- Where a path leads, it leads by its text. -/
theorem resolve_climb (h : t.resolve cwd path = .ok l) : l = climb (Tree.base cwd path) (path.splitOn slash) := by
  rw [Tree.resolve] at h
  split at h
  · cases h
  · exact walk_climb h

theorem base_strip (h : stripSlashes path ≠ []) : Tree.base cwd (stripSlashes path) = Tree.base cwd path := by
  obtain ⟨back, hback⟩ := List.rdropWhile_prefix (fun x => decide (x = slash)) (l := path)
  have hhead : (stripSlashes path).head? = path.head? := by
    have happend : (stripSlashes path ++ back).head? = (stripSlashes path).head? := List.head?_append_of_ne_nil _ h
    exact happend.symm.trans (congrArg List.head? hback)
  rw [Tree.base, Tree.base, hhead]

theorem resolve_strip (h : t.resolve cwd path = .ok l) (hne : stripSlashes path ≠ []) :
    t.resolve cwd (stripSlashes path) = .ok l := by
  induction path using List.reverseRecOn with
  | nil => exact absurd rfl hne
  | append_singleton path x ih =>
    by_cases hx : x = slash
    · rw [hx] at h hne ⊢
      rw [stripSlashes_snoc] at hne ⊢
      rw [resolve_snoc (ne_nil_of_strip hne)] at h
      cases hresolve : t.resolve cwd path with
      | error e =>
        rw [hresolve] at h
        cases h
      | ok m =>
        rw [hresolve] at h
        rw [walk_here h] at ih ⊢
        exact ih hresolve hne
    · rw [stripSlashes_other hx]
      exact h

/-- A file does not get out of the way by the separators behind its name. -/
theorem resolve_file (h : t.resolve cwd (stripSlashes path) = .ok l) (hfile : t.kind l = some .file) :
    t.resolve cwd path = .ok l ∨ t.resolve cwd path = .error .enotdir := by
  induction path using List.reverseRecOn with
  | nil => exact Or.inl h
  | append_singleton path x ih =>
    by_cases hx : x = slash
    · rw [hx] at h ⊢
      rw [stripSlashes_snoc] at h
      have hne : stripSlashes path ≠ [] := by
        intro hnil
        rw [hnil] at h
        cases h
      right
      rw [resolve_snoc (ne_nil_of_strip hne)]
      cases ih h with
      | inl hok =>
        rw [hok]
        change t.walk l [[]] = _
        rw [Tree.walk, hfile]
      | inr herror =>
        rw [herror]
        rfl
    · rw [stripSlashes_other hx] at h
      exact Or.inl h

theorem resolve_openNew {p : t.Slot} (h : t.openNew cwd path = some p) : t.resolve cwd path = .ok p.loc := by
  rw [Tree.openNew] at h
  split at h
  · cases h
  next hname =>
  split at h
  · cases h
  next dir hwalk =>
  split at h
  · next hdir =>
    obtain rfl := Option.some.inj h
    have hsplit := List.splitOn_ne_nil slash path
    have hlast : (path.splitOn slash).dropLast ++ [(path.splitOn slash).getLastD []] = path.splitOn slash := by
      rw [List.getLastD_eq_getLast?, List.getLast?_eq_some_getLast hsplit]
      exact List.dropLast_concat_getLast hsplit
    have hpath : path ≠ [] := by
      intro hnil
      rw [hnil] at hname
      exact hname (Or.inl rfl)
    simp only [not_or] at hname
    obtain ⟨hnil, hdot, hup, hlong⟩ := hname
    have hlastStep : t.walk dir [(path.splitOn slash).getLastD []] = .ok ((path.splitOn slash).getLastD [] :: dir) := by
      rw [Tree.walk, hdir.1]
      dsimp only
      rw [if_neg (not_or.mpr ⟨hnil, hdot⟩), if_neg hup, if_neg hlong]
      rfl
    have hall := walk_append t (Tree.base cwd path) (path.splitOn slash).dropLast [(path.splitOn slash).getLastD []]
    rw [hlast, hwalk] at hall
    rw [Tree.resolve, if_neg hpath, hall]
    exact hlastStep
  · cases h

/-- Two trees with the same directories. -/
structure SameDirs (t u : Tree) : Prop where
  kind : ∀ l, t.kind l = some .dir ↔ u.kind l = some .dir
  nameMax : t.nameMax = u.nameMax

theorem SameDirs.symm {u : Tree} (h : SameDirs t u) : SameDirs u t := ⟨fun l => (h.kind l).symm, h.nameMax.symm⟩

theorem SameDirs.walk {u : Tree} (h : SameDirs t u) {names : List Name} (hwalk : t.walk l names = .ok m) :
    u.walk l names = .ok m := by
  induction names generalizing l with
  | nil => exact hwalk
  | cons c rest ih =>
    rw [Tree.walk] at hwalk ⊢
    split at hwalk
    · cases hwalk
    · cases hwalk
    · next hdir =>
      rw [(h.kind l).mp hdir]
      rw [h.nameMax] at hwalk
      dsimp only
      split_ifs at hwalk ⊢
      · exact ih hwalk
      · exact ih hwalk
      · exact ih hwalk

theorem SameDirs.openNew {u : Tree} (h : SameDirs t u) {p : t.Slot} (hopen : t.openNew cwd path = some p) :
    (u.openNew cwd path).map Tree.Slot.loc = some p.loc := by
  rw [Tree.openNew] at hopen ⊢
  rw [h.nameMax] at hopen
  split at hopen
  · cases hopen
  next hname =>
  split at hopen
  · cases hopen
  next dir hwalk =>
  split at hopen
  · next hdir =>
    obtain rfl := Option.some.inj hopen
    have hsame : u.kind dir = some .dir ∧ u.kind ((path.splitOn slash).getLastD [] :: dir) ≠ some .dir :=
      ⟨(h.kind _).mp hdir.1, fun hother => hdir.2 ((h.kind _).mpr hother)⟩
    rw [if_neg hname, h.walk hwalk]
    dsimp only
    rw [dif_pos hsame]
    rfl
  · cases hopen

/-- Where a file is written depends on the directories alone. -/
theorem SameDirs.loc {u : Tree} (h : SameDirs t u) (cwd : Location) (path : List UInt8) :
    (u.openNew cwd path).map Tree.Slot.loc = (t.openNew cwd path).map Tree.Slot.loc := by
  cases ht : t.openNew cwd path with
  | some p => exact h.openNew ht
  | none =>
    cases hu : u.openNew cwd path with
    | none => rfl
    | some p =>
      have hback := h.symm.openNew hu
      rw [ht] at hback
      cases hback

theorem sameDirs_store (p : t.Slot) : SameDirs (t.store p) t where
  kind l := by
    simp only [Tree.store]
    split
    · next hl =>
      rw [hl]
      constructor
      · intro h
        cases h
      · intro h
        exact absurd h p.not_dir
    · exact Iff.rfl
  nameMax := rfl

theorem store_none (p : t.Slot) (l : Location) : (t.store p).kind l = none ↔ l ≠ p.loc ∧ t.kind l = none := by
  simp only [Tree.store]
  split
  · next hl => simp [hl]
  · next hl => simp [hl]

/-- The places where the files of a row are written. -/
def places (t : Tree) (cwd : Location) (paths : List (List UInt8)) : List Location :=
  paths.filterMap fun path => (t.openNew cwd path).map Tree.Slot.loc

theorem places_same {u : Tree} (h : SameDirs t u) (paths : List (List UInt8)) :
    places u cwd paths = places t cwd paths := by
  simp only [places, h.loc]

/-- No file is written over when the places are free and no two of them are the same. -/
theorem storeAll_new (t : Tree) (paths : List (List UInt8)) :
    (∀ x ∈ t.storeAll cwd paths, x.2 = false) ↔
      (places t cwd paths).Nodup ∧ ∀ l ∈ places t cwd paths, t.kind l = none := by
  induction paths generalizing t with
  | nil => simp [Tree.storeAll, places]
  | cons path rest ih =>
    cases hopen : t.openNew cwd path with
    | none =>
      have hplaces : places t cwd (path :: rest) = places t cwd rest := by
        rw [places, List.filterMap_cons_none (by rw [hopen]; rfl)]
        rfl
      rw [Tree.storeAll, hopen, hplaces]
      exact ih t
    | some p =>
      have hplaces : places t cwd (path :: rest) = p.loc :: places t cwd rest := by
        rw [places, List.filterMap_cons_some (b := p.loc) (by rw [hopen]; rfl)]
        rfl
      rw [Tree.storeAll, hopen, hplaces]
      dsimp only
      rw [List.forall_mem_cons, ih (t.store p), places_same (sameDirs_store p).symm, List.nodup_cons, List.forall_mem_cons]
      simp only [store_none, Option.isSome_eq_false_iff, Option.isNone_iff_eq_none]
      constructor
      · intro h
        obtain ⟨hfree, hnodup, hrest⟩ := h
        refine ⟨⟨?_, hnodup⟩, hfree, fun l hl => (hrest l hl).2⟩
        intro hmem
        exact (hrest p.loc hmem).1 rfl
      · intro h
        obtain ⟨⟨hnot, hnodup⟩, hfree, hrest⟩ := h
        refine ⟨hfree, hnodup, fun l hl => ⟨?_, hrest l hl⟩⟩
        rintro rfl
        exact hnot hl

end CProgram.Paths
