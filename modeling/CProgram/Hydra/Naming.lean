import CProgram.Hydra.Store
import Mathlib.Data.Finset.Card
import Mathlib.Data.List.TakeWhile
import Mathlib.Logic.Relation

/-! What `unique_name` finds: it counts in the last three characters of a path, and these are the extension as long
as its dot is the first one and the extension is filled up. -/
namespace CProgram.Hydra.Naming
open Bytes

def separator (ch : UInt8) : Bool := ch = 92 ∨ ch = 47 ∨ ch = 58

def plain (ch : UInt8) : Bool := ch ≠ 46 && !separator ch

/-- A directory part up to its last separator, and the base name of a file. -/
structure Place where
  dir : List UInt8
  base : List UInt8
  base_ne : base ≠ []
  base_plain : ∀ ch ∈ base, plain ch = true
  dir_ends : ∀ ch ∈ dir.getLast?, separator ch = true

/-- The path with an extension, or without. -/
def Place.name (p : Place) : Option (List UInt8) → List UInt8
  | none => p.dir ++ p.base
  | some ext => p.dir ++ p.base ++ 46 :: ext

/-- At most three characters. -/
def Short (ext : Option (List UInt8)) : Prop := ∀ e ∈ ext, e.length ≤ 3 ∧ ∀ ch ∈ e, plain ch = true

/-- A file in the directory with the base name. -/
def Place.shares (p : Place) (file : List UInt8) : Bool :=
  (p.dir ++ p.base).isPrefixOf file &&
    match file.drop (p.dir ++ p.base).length with
    | [] => true
    | ch :: ext => ch = 46 && ext.all plain

/-- The names that are there, as `fexist` sees them. -/
def taken (files : Finset (List UInt8)) (file : List UInt8) : Bool := file ∈ files

/-- A free name with the directory part and the base name that were given, and the one that was given if it is free. -/
structure Unique (files : Finset (List UInt8)) (p : Place) (ext : Option (List UInt8)) (new : List UInt8) : Prop where
  free : new ∉ files
  kept : ∃ ext', new = p.name ext'
  same : p.name ext ∉ files → new = p.name ext

/-- A digit, or nought for anything else. -/
def figure (ch : UInt8) : UInt8 := if isDigit ch then ch else 48

/-- A number is counted up in its digits, the last one first; anything else counts as nought. -/
def counted : List UInt8 → Option (List UInt8)
  | [] => none
  | ch :: rest =>
    if figure ch + 1 ≤ 57 then some ((figure ch + 1) :: rest) else (counted rest).map (48 :: ·)

/-- The next extension of the same length, unless there is none. -/
def count (ext : List UInt8) : Option (List UInt8) :=
  match ext.reverse with
  | [] => none
  | ch :: rest => (if isDigit ch then counted (ch :: rest) else some (48 :: rest)).map List.reverse

def Counts (ext ext' : List UInt8) : Prop := Relation.ReflTransGen (fun e e' => count e = some e') ext ext'

/-- The name is free, or no directory has a dot in its name, or the extension has three characters, or a free name
is reached by counting in it. -/
def Found (files : Finset (List UInt8)) (p : Place) (ext : Option (List UInt8)) : Prop :=
  p.name ext ∉ files ∨ 46 ∉ p.dir ∨
    ∃ e, ext = some e ∧ (e.length = 3 ∨ ∃ e', Counts e e' ∧ p.name (some e') ∉ files)

variable {files : Finset (List UInt8)} {p : Place} {ext : Option (List UInt8)} {e e' front rest new path : List UInt8}
  {a b c ch : UInt8} {k n : ℕ}

/-! ### The loop -/

/-- What the loop gives is free, and some number of turns away. -/
theorem firstFree_iterate (h : firstFree (taken files) n path = some new) : new ∉ files ∧ ∃ k, new = bumped^[k] path := by
  induction n generalizing path with
  | zero => cases h
  | succ n ih =>
    rw [firstFree] at h
    split at h
    · obtain ⟨hfree, k, hk⟩ := ih h
      exact ⟨hfree, k + 1, hk⟩
    · next hfree =>
      obtain rfl := Option.some.inj h
      exact ⟨by simpa [taken] using hfree, 0, rfl⟩

theorem firstFree_ends_of_free (k : ℕ) (h : bumped^[k] path ∉ files) :
    ∃ n new, firstFree (taken files) n path = some new := by
  induction k generalizing path with
  | zero => exact ⟨1, path, by rw [firstFree, if_neg (by simpa [taken] using h)]⟩
  | succ k ih =>
    by_cases hfree : path ∈ files
    · obtain ⟨n, new, hn⟩ := ih h
      exact ⟨n + 1, new, by rw [firstFree, if_pos (by simpa [taken] using hfree), hn]⟩
    · exact ⟨1, path, by rw [firstFree, if_neg (by simpa [taken] using hfree)]⟩

/-! ### One turn -/

/-- One turn from the last character back. -/
def turned : List UInt8 → List UInt8
  | [] => []
  | ch :: rest => if isDigit ch then carry 3 (ch :: rest) else 48 :: rest

theorem bumped_eq (path : List UInt8) : bumped path = (turned path.reverse).reverse := by
  rw [bumped]
  cases path.reverse <;> rfl

theorem carry_cons (n : ℕ) (ch : UInt8) (rest : List UInt8) : carry (n + 1) (ch :: rest) =
    if figure ch + 1 ≤ 57 then (figure ch + 1) :: rest else 48 :: carry n rest := rfl

theorem counted_cons (ch : UInt8) (rest : List UInt8) : counted (ch :: rest) =
    if figure ch + 1 ≤ 57 then some ((figure ch + 1) :: rest) else (counted rest).map (48 :: ·) := rfl

/-- A carry that does not leave the front is counting in it, and otherwise it goes on behind noughts. -/
theorem carry_counted (n : ℕ) (r rest : List UInt8) (hr : r.length ≤ n) : carry n (r ++ rest) =
    match counted r with
    | some r' => r' ++ rest
    | none => List.replicate r.length 48 ++ carry (n - r.length) rest := by
  induction r generalizing n with
  | nil => rfl
  | cons ch r ih =>
    obtain ⟨n, rfl⟩ : ∃ m, n = m + 1 := ⟨n - 1, by rw [List.length_cons] at hr; omega⟩
    have hshort : r.length ≤ n := by simpa using hr
    rw [List.cons_append, carry_cons, counted_cons]
    split
    · rfl
    · rw [ih n hshort]
      cases counted r with
      | some r' => rfl
      | none =>
        rw [Option.map_none, List.length_cons, List.replicate_succ, List.cons_append]
        simp only [Nat.add_sub_add_right]

theorem length_counted {r r' : List UInt8} (h : counted r = some r') : r'.length = r.length := by
  induction r generalizing r' with
  | nil => cases h
  | cons ch r ih =>
    rw [counted_cons] at h
    split at h
    · obtain rfl := Option.some.inj h
      rfl
    · obtain ⟨r'', hr, rfl⟩ := Option.map_eq_some_iff.mp h
      rw [List.length_cons, List.length_cons, ih hr]

theorem length_count (h : count e = some e') : e'.length = e.length := by
  rw [count] at h
  split at h
  · cases h
  · next ch rest hreverse =>
    obtain ⟨r', hr, rfl⟩ := Option.map_eq_some_iff.mp h
    have hlength : e.length = (ch :: rest).length := by rw [← hreverse, List.length_reverse]
    rw [List.length_reverse, hlength]
    split at hr
    · exact length_counted hr
    · obtain rfl := Option.some.inj hr
      rfl

theorem reverse_dot (front e : List UInt8) : (front ++ 46 :: e).reverse = e.reverse ++ 46 :: front.reverse := by simp

/-- With a short extension a turn counts in it, or the dot is lost. -/
theorem bumped_count (front : List UInt8) (he : e.length ≤ 2) :
    (∃ e', count e = some e' ∧ bumped (front ++ 46 :: e) = front ++ 46 :: e') ∨
      count e = none ∧ ∃ ch e', ch ≠ 46 ∧ bumped (front ++ 46 :: e) = front ++ ch :: e' := by
  rw [bumped_eq, reverse_dot, count]
  have hlength : e.reverse.length ≤ 2 := by rwa [List.length_reverse]
  generalize e.reverse = r at hlength
  cases r with
  | nil => exact .inr ⟨rfl, 48, [], by decide, by rw [List.nil_append, turned, if_neg (by decide)]; simp⟩
  | cons ch r =>
    rw [List.cons_append, turned, ← List.cons_append]
    dsimp only
    by_cases hdigit : isDigit ch = true
    · rw [if_pos hdigit, if_pos hdigit, carry_counted 3 (ch :: r) _ (by omega)]
      cases hcount : counted (ch :: r) with
      | some r' => exact .inl ⟨r'.reverse, rfl, by simp⟩
      | none =>
        refine .inr ⟨rfl, 49, (List.replicate (ch :: r).length 48).reverse, by decide, ?_⟩
        obtain ⟨m, hm⟩ : ∃ m, 3 - (ch :: r).length = m + 1 := ⟨3 - (ch :: r).length - 1, by omega⟩
        have hdot : carry (m + 1) (46 :: front.reverse) = 49 :: front.reverse := rfl
        dsimp only
        rw [hm, hdot]
        simp
    · rw [if_neg hdigit, if_neg hdigit]
      exact .inl ⟨(48 :: r).reverse, rfl, by simp⟩

theorem isDigit_figure (ch : UInt8) : isDigit (figure ch) = true := by
  rw [figure]
  split
  · assumption
  · rfl

/-- A turn writes no dots. -/
theorem carry_dot (n : ℕ) (r : List UInt8) (i : ℕ) :
    (carry n r).length = r.length ∧ ((carry n r)[i]? = some 46 → r[i]? = some 46) := by
  induction n generalizing r i with
  | zero => cases r <;> exact ⟨rfl, id⟩
  | succ n ih =>
    cases r with
    | nil => exact ⟨rfl, id⟩
    | cons ch r =>
      have hdigits : ∀ c : UInt8, c + 1 ≤ 57 → isDigit c = true → c + 1 ≠ 46 := forall_byte (by decide +kernel)
      have hdigit := isDigit_figure ch
      rw [carry_cons]
      split
      · next hle =>
        refine ⟨rfl, fun hdot => ?_⟩
        cases i with
        | zero => exact absurd (Option.some.inj hdot) (hdigits _ hle hdigit)
        | succ i => exact hdot
      · obtain ⟨hlength, -⟩ := ih r 0
        refine ⟨by rw [List.length_cons, List.length_cons, hlength], fun hdot => ?_⟩
        cases i with
        | zero => exact absurd (Option.some.inj hdot) (by decide)
        | succ i => exact (ih r i).2 hdot

theorem turned_dot (r : List UInt8) (i : ℕ) :
    (turned r).length = r.length ∧ ((turned r)[i]? = some 46 → r[i]? = some 46) := by
  cases r with
  | nil => exact ⟨rfl, id⟩
  | cons ch r =>
    rw [turned]
    split
    · exact carry_dot 3 (ch :: r) i
    · refine ⟨rfl, fun hdot => ?_⟩
      cases i with
      | zero => exact absurd (Option.some.inj hdot) (by decide)
      | succ i => exact hdot

theorem bumped_dot (path : List UInt8) (i : ℕ) :
    (bumped path).length = path.length ∧ ((bumped path)[i]? = some 46 → path[i]? = some 46) := by
  have hlength : (bumped path).length = path.length := by
    rw [bumped_eq, List.length_reverse, (turned_dot path.reverse 0).1, List.length_reverse]
  refine ⟨hlength, fun hdot => ?_⟩
  obtain ⟨hi, -⟩ := List.getElem?_eq_some_iff.mp hdot
  rw [hlength] at hi
  have hturned := (turned_dot path.reverse 0).1
  rw [List.length_reverse] at hturned
  rw [bumped_eq, List.getElem?_reverse (by rw [hturned]; exact hi), hturned] at hdot
  have hback := (turned_dot path.reverse (path.length - 1 - i)).2 hdot
  rw [List.getElem?_reverse (by omega)] at hback
  rwa [show path.length - 1 - (path.length - 1 - i) = i by omega] at hback

theorem iterate_dot (k : ℕ) (path : List UInt8) (i : ℕ) :
    (bumped^[k] path).length = path.length ∧ ((bumped^[k] path)[i]? = some 46 → path[i]? = some 46) := by
  induction k generalizing path with
  | zero => exact ⟨rfl, id⟩
  | succ k ih =>
    obtain ⟨hlength, hdot⟩ := ih (bumped path)
    obtain ⟨hlength', hdot'⟩ := bumped_dot path i
    exact ⟨hlength.trans hlength', fun h => hdot' (hdot h)⟩

theorem getElem?_dot (front e : List UInt8) (ch : UInt8) : (front ++ ch :: e)[front.length]? = some ch := by
  rw [List.getElem?_append_right (Nat.le_refl _), Nat.sub_self]
  rfl

/-- As long as the dot is there the turns count in the extension. -/
theorem iterate_counts (k : ℕ) (he : e.length ≤ 2)
    (hdot : (bumped^[k] (front ++ 46 :: e))[front.length]? = some 46) :
    ∃ e', Counts e e' ∧ bumped^[k] (front ++ 46 :: e) = front ++ 46 :: e' := by
  induction k generalizing e with
  | zero => exact ⟨e, .refl, rfl⟩
  | succ k ih =>
    rw [Function.iterate_succ_apply] at hdot ⊢
    rcases bumped_count front he with ⟨e₁, hcount, heq⟩ | ⟨-, ch, e₁, hch, heq⟩
    · rw [heq] at hdot ⊢
      obtain ⟨e', hcounts, hend⟩ := ih ((length_count hcount).trans_le he) hdot
      exact ⟨e', .head hcount hcounts, hend⟩
    · rw [heq] at hdot
      have hback := (iterate_dot k (front ++ ch :: e₁) front.length).2 hdot
      rw [getElem?_dot] at hback
      exact absurd (Option.some.inj hback) hch

/-! ### Three characters -/

def digit (ch : UInt8) : ℕ := if isDigit ch then ch.toNat - 48 else 0

def value (a b c : UInt8) : ℕ := 100 * digit a + 10 * digit b + digit c

/-- One digit is counted up, or it is a nine. -/
theorem digit_step (ch : UInt8) :
    figure ch + 1 ≤ 57 ∧ isDigit (figure ch + 1) = true ∧ digit (figure ch + 1) = digit ch + 1 ∨
      ¬ figure ch + 1 ≤ 57 ∧ digit ch = 9 := by
  have hall : ∀ c : UInt8, figure c + 1 ≤ 57 ∧ isDigit (figure c + 1) = true ∧ digit (figure c + 1) = digit c + 1 ∨
      ¬ figure c + 1 ≤ 57 ∧ digit c = 9 := forall_byte (by decide +kernel)
  exact hall ch

/-- A turn over three characters adds one, and puts nothing but digits there. -/
theorem carry_value (rest : List UInt8) : ∃ a' b' c', carry 3 (c :: b :: a :: rest) = c' :: b' :: a' :: rest ∧
    isDigit c' = true ∧ value a' b' c' % 1000 = (value a b c + 1) % 1000 ∧
    ∀ ch ∈ [a', b', c'], ch ∈ [a, b, c] ∨ isDigit ch = true := by
  have hzero : isDigit 48 = true := rfl
  have hnought : digit 48 = 0 := rfl
  rw [carry_cons]
  rcases digit_step c with ⟨hle, hdigit, hup⟩ | ⟨hle, hnine⟩
  · rw [if_pos hle]
    refine ⟨a, b, _, rfl, hdigit, by rw [value, value, hup]; omega, ?_⟩
    simp [hdigit]
  · rw [if_neg hle, carry_cons]
    rcases digit_step b with ⟨hle₁, hdigit₁, hup₁⟩ | ⟨hle₁, hnine₁⟩
    · rw [if_pos hle₁]
      refine ⟨a, _, 48, rfl, hzero, by rw [value, value, hup₁, hnought, hnine]; omega, ?_⟩
      simp [hdigit₁, hzero]
    · rw [if_neg hle₁, carry_cons]
      rcases digit_step a with ⟨hle₂, hdigit₂, hup₂⟩ | ⟨hle₂, hnine₂⟩
      · rw [if_pos hle₂]
        refine ⟨_, 48, 48, rfl, hzero, by rw [value, value, hup₂, hnought, hnine, hnine₁]; omega, ?_⟩
        simp [hdigit₂, hzero]
      · rw [if_neg hle₂]
        refine ⟨48, 48, 48, rfl, hzero, by rw [value, value, hnought, hnine, hnine₁, hnine₂], ?_⟩
        simp [hzero]

theorem plain_of_digit (h : isDigit ch = true) : plain ch = true := by
  have hall : ∀ c : UInt8, isDigit c = true → plain c = true := forall_byte (by decide +kernel)
  exact hall ch h

/-- An extension of three characters with a digit at its end, so many numbers behind the first one. -/
structure Numbered (front : List UInt8) (v : ℕ) (path : List UInt8) : Prop where
  shape : ∃ a b c, path = front ++ [a, b, c] ∧ isDigit c = true ∧ value a b c % 1000 = v % 1000 ∧
    ∀ ch ∈ [a, b, c], plain ch = true

theorem Numbered.bumped (h : Numbered front n path) : Numbered front (n + 1) (bumped path) := by
  obtain ⟨a, b, c, rfl, hdigit, hvalue, hplain⟩ := h.shape
  obtain ⟨a', b', c', hcarry, hdigit', hvalue', hfrom⟩ := carry_value (a := a) (b := b) (c := c) front.reverse
  refine ⟨a', b', c', ?_, hdigit', by omega, fun ch hch => ?_⟩
  · rw [bumped_eq]
    simp only [List.reverse_append, List.reverse_cons, List.reverse_nil, List.nil_append, List.cons_append]
    rw [turned, if_pos hdigit, hcarry]
    simp
  · rcases hfrom ch hch with hold | hnew
    · exact hplain ch hold
    · exact plain_of_digit hnew

theorem Numbered.iterate (h : Numbered front n path) (k : ℕ) : Numbered front (n + k) (Hydra.bumped^[k] path) := by
  induction k generalizing n path with
  | zero => exact h
  | succ k ih =>
    have hnext := ih h.bumped
    rwa [show n + 1 + k = n + (k + 1) by omega] at hnext

theorem Numbered.apart {v w : ℕ} (h : Numbered front v path) (h' : Numbered front w path) : v % 1000 = w % 1000 := by
  obtain ⟨a, b, c, rfl, -, hvalue, -⟩ := h.shape
  obtain ⟨a', b', c', heq, -, hvalue', -⟩ := h'.shape
  obtain ⟨rfl, rfl, rfl⟩ : a = a' ∧ b = b' ∧ c = c' := by simpa using List.append_cancel_left heq
  omega

theorem name_some (p : Place) (e : List UInt8) : p.name (some e) = p.dir ++ p.base ++ [46] ++ e := by simp [Place.name]

theorem shares_name (he : ∀ ch ∈ e, plain ch = true) : p.shares (p.name (some e)) = true := by
  have hprefix : (p.dir ++ p.base).isPrefixOf (p.dir ++ p.base ++ 46 :: e) = true :=
    List.isPrefixOf_iff_prefix.mpr (List.prefix_append _ _)
  rw [Place.shares, Place.name, List.drop_left, hprefix]
  simpa using he

/-- A thousand numbers are a thousand names, and fewer are taken. -/
theorem free_of_numbered (hfew : (files.filter (p.shares ·)).card < 1000)
    (h : Numbered (p.dir ++ p.base ++ [46]) n path) : ∃ k, bumped^[k] path ∉ files := by
  by_contra hall
  push Not at hall
  have hmaps : ∀ k ∈ Finset.range 1000, bumped^[k] path ∈ files.filter (p.shares ·) := by
    intro k _
    obtain ⟨a, b, c, heq, -, -, hplain⟩ := (h.iterate k).shape
    refine Finset.mem_filter.mpr ⟨hall k, ?_⟩
    rw [heq, ← name_some]
    exact shares_name hplain
  have hinjective : Set.InjOn (fun k => bumped^[k] path) (Finset.range 1000 : Finset ℕ) := by
    intro i hi j hj heq
    have hi' : i < 1000 := by simpa using hi
    have hj' : j < 1000 := by simpa using hj
    have hsame : bumped^[i] path = bumped^[j] path := heq
    have hnumber := h.iterate j
    rw [← hsame] at hnumber
    have hmod := (h.iterate i).apart hnumber
    omega
  have hcard := Finset.card_le_card_of_injOn _ hmaps hinjective
  rw [Finset.card_range] at hcard
  omega

/-- With an extension of three characters a free name is found beside it. -/
theorem found_three (hfew : (files.filter (p.shares ·)).card < 1000) (hplain : ∀ ch ∈ [a, b, c], plain ch = true) :
    ∃ n new, firstFree (taken files) n (p.name (some [a, b, c])) = some new ∧ new ∉ files ∧
      ∃ e, new = p.name (some e) := by
  have hshape (v : ℕ) (path : List UInt8) (h : Numbered (p.dir ++ p.base ++ [46]) v path) :
      ∃ e, path = p.name (some e) := by
    obtain ⟨a, b, c, heq, -⟩ := h.shape
    exact ⟨[a, b, c], by rw [name_some, heq]⟩
  by_cases hdigit : isDigit c = true
  · have hstart : Numbered (p.dir ++ p.base ++ [46]) (value a b c) (p.name (some [a, b, c])) :=
      ⟨a, b, c, name_some p _, hdigit, rfl, hplain⟩
    obtain ⟨k, hk⟩ := free_of_numbered hfew hstart
    obtain ⟨n, new, hn⟩ := firstFree_ends_of_free k hk
    obtain ⟨hfree, j, rfl⟩ := firstFree_iterate hn
    exact ⟨n, _, hn, hfree, hshape _ _ (hstart.iterate j)⟩
  · have hnext : bumped (p.name (some [a, b, c])) = p.name (some [a, b, 48]) := by
      rw [name_some, bumped_eq]
      simp only [List.reverse_append, List.reverse_cons, List.reverse_nil, List.nil_append, List.cons_append]
      rw [turned, if_neg hdigit, name_some]
      simp
    have hstart : Numbered (p.dir ++ p.base ++ [46]) (value a b 48) (p.name (some [a, b, 48])) := by
      refine ⟨a, b, 48, name_some p _, rfl, rfl, fun ch hch => ?_⟩
      simp only [List.mem_cons, List.not_mem_nil, or_false] at hch
      rcases hch with rfl | rfl | rfl
      · exact hplain _ (by simp)
      · exact hplain _ (by simp)
      · rfl
    obtain ⟨k, hk⟩ := free_of_numbered hfew hstart
    rw [← hnext] at hk
    obtain ⟨n, new, hn⟩ := firstFree_ends_of_free (k + 1) hk
    obtain ⟨hfree, j, rfl⟩ := firstFree_iterate hn
    refine ⟨n, _, hn, hfree, ?_⟩
    cases j with
    | zero => exact ⟨[a, b, c], rfl⟩
    | succ j =>
      rw [Function.iterate_succ_apply, hnext]
      exact hshape _ _ (hstart.iterate j)

/-! ### The dot -/

theorem dropWhile_dot (h : 46 ∉ front) (rest : List UInt8) :
    (front ++ rest).dropWhile (· ≠ 46) = rest.dropWhile (· ≠ 46) := by
  apply List.dropWhile_append_of_pos
  intro ch hch
  simpa using fun heq : ch = 46 => h (heq ▸ hch)

theorem dot_not_mem_base (p : Place) : 46 ∉ p.base := by
  intro hmem
  exact absurd (p.base_plain 46 hmem) (by decide)

/-- Without a dot in front the extension is filled up to three characters. -/
theorem suffixed_name (hdir : 46 ∉ p.dir) (hshort : Short ext) :
    ∃ a b c, suffixed (p.name ext) = p.name (some [a, b, c]) ∧ ∀ ch ∈ [a, b, c], plain ch = true := by
  have hfront : 46 ∉ p.dir ++ p.base := by
    rw [List.mem_append, not_or]
    exact ⟨hdir, dot_not_mem_base p⟩
  have hzero : plain 48 = true := rfl
  cases ext with
  | none =>
    refine ⟨48, 48, 48, ?_, by simp [hzero]⟩
    have hnone : (p.dir ++ p.base).dropWhile (· ≠ 46) = [] := by
      have hdrop := dropWhile_dot hfront []
      rwa [List.append_nil] at hdrop
    rw [suffixed, Place.name, hnone]
    rfl
  | some e =>
    obtain ⟨hlength, hplain⟩ := hshort e rfl
    have hdrop : (p.name (some e)).dropWhile (· ≠ 46) = 46 :: e := by
      rw [Place.name, dropWhile_dot hfront, List.dropWhile_cons_of_neg (by decide)]
    have hsuffixed (filled : List UInt8) (hfilled : e ++ [48, 48, 48].drop e.length = filled) :
        suffixed (p.name (some e)) = p.name (some filled) := by
      rw [suffixed, hdrop, List.length_cons, List.drop_succ_cons, Place.name, Place.name, ← hfilled]
      simp
    rcases e with _ | ⟨a, _ | ⟨b, _ | ⟨c, _ | ⟨d, rest⟩⟩⟩⟩
    · exact ⟨48, 48, 48, hsuffixed _ rfl, by simp [hzero]⟩
    · exact ⟨a, 48, 48, hsuffixed _ rfl, by simpa [hzero] using hplain⟩
    · exact ⟨a, b, 48, hsuffixed _ rfl, by simpa [hzero] using hplain⟩
    · exact ⟨a, b, c, hsuffixed _ rfl, hplain⟩
    · simp only [List.length_cons] at hlength
      omega

/-- With a dot in front a name with an extension stays as it is. -/
theorem suffixed_dotted (hdir : 46 ∈ p.dir) (e : List UInt8) : suffixed (p.name (some e)) = p.name (some e) := by
  obtain ⟨front, back, hsplit⟩ := List.append_of_mem hdir
  have hback : back ≠ [] := by
    rintro rfl
    have hends := p.dir_ends 46 (by rw [hsplit]; simp)
    exact absurd hends (by decide)
  have hpos := List.length_pos_iff.mpr hback
  have hbase := List.length_pos_iff.mpr p.base_ne
  have hname : p.name (some e) = front ++ 46 :: (back ++ p.base ++ 46 :: e) := by
    rw [Place.name, hsplit]
    simp
  rw [hname]
  apply suffixed_of_dot
  simp only [List.length_append, List.length_cons]
  omega

/-- And one without gets no dot of its own. -/
theorem suffixed_bare (hdir : 46 ∈ p.dir) : ∃ s, 46 ∉ s ∧ suffixed (p.name none) = p.dir ++ p.base ++ s := by
  have hmem : (46 : UInt8) ∈ p.dir ++ p.base := List.mem_append_left _ hdir
  have hne : (p.dir ++ p.base).dropWhile (· ≠ 46) ≠ [] := by
    rw [ne_eq, List.dropWhile_eq_nil_iff]
    intro hall
    simpa using hall 46 hmem
  obtain ⟨ch, rest, hcons⟩ := List.exists_cons_of_ne_nil hne
  refine ⟨[48, 48, 48].drop rest.length, fun hdot => ?_, ?_⟩
  · exact absurd (List.mem_of_mem_drop hdot) (by decide)
  · rw [suffixed, Place.name, hcons, List.length_cons, List.drop_succ_cons]

/-- Counting in a short extension ends at a free name, if there is one to come to. -/
theorem found_counts (hcounts : Counts e e') (he : e.length ≤ 2) (hfree : p.name (some e') ∉ files) :
    ∃ n new, firstFree (taken files) n (p.name (some e)) = some new ∧ ∃ e'', new = p.name (some e'') := by
  induction hcounts using Relation.ReflTransGen.head_induction_on with
  | refl => exact ⟨1, _, by rw [firstFree, if_neg (by simpa [taken] using hfree)], _, rfl⟩
  | @head e₁ e₂ hstep _ ih =>
    by_cases hnow : p.name (some e₁) ∈ files
    · obtain ⟨n, new, hn, hnew⟩ := ih ((length_count hstep).trans_le he)
      refine ⟨n + 1, new, ?_, hnew⟩
      have hturn : bumped (p.name (some e₁)) = p.name (some e₂) := by
        rcases bumped_count (p.dir ++ p.base) he with ⟨e₃, hcount, heq⟩ | ⟨hnone, -⟩
        · obtain rfl := Option.some.inj (hstep.symm.trans hcount)
          exact heq
        · rw [hstep] at hnone
          cases hnone
      rw [firstFree, if_pos (by simpa [taken] using hnow), hturn, hn]
    · exact ⟨1, _, by rw [firstFree, if_neg (by simpa [taken] using hnow)], e₁, rfl⟩

/-- What is found with a dot in front and a short extension has been counted in it. -/
theorem counts_of_found (hdir : 46 ∈ p.dir) (hshort : Short ext) (htaken : p.name ext ∈ files)
    (hnew : firstFree (taken files) n (suffixed (p.name ext)) = some new) (hkept : ∃ ext', new = p.name ext') :
    ∃ e, ext = some e ∧ (e.length = 3 ∨ ∃ e', Counts e e' ∧ p.name (some e') ∉ files) := by
  obtain ⟨hfree, k, rfl⟩ := firstFree_iterate hnew
  obtain ⟨ext', hext'⟩ := hkept
  cases ext with
  | none =>
    exfalso
    cases ext' with
    | none =>
      rw [hext'] at hfree
      exact hfree htaken
    | some e' =>
      obtain ⟨s, hs, hsuffixed⟩ := suffixed_bare hdir
      have hdot : (bumped^[k] (suffixed (p.name none)))[(p.dir ++ p.base).length]? = some 46 := by
        rw [hext', Place.name, getElem?_dot]
      have hback := (iterate_dot k _ _).2 hdot
      rw [hsuffixed, List.getElem?_append_right (Nat.le_refl _)] at hback
      exact hs (List.mem_of_getElem? hback)
  | some e =>
    refine ⟨e, rfl, ?_⟩
    by_cases hthree : e.length = 3
    · exact .inl hthree
    have he : e.length ≤ 2 := by
      have hlength := (hshort e rfl).1
      omega
    rw [suffixed_dotted hdir] at hext' hfree
    cases ext' with
    | none =>
      have hlength := congrArg List.length hext'
      rw [(iterate_dot k _ 0).1] at hlength
      simp [Place.name] at hlength
    | some e'' =>
      have hdot : (bumped^[k] (p.dir ++ p.base ++ 46 :: e))[(p.dir ++ p.base).length]? = some 46 := by
        have hsame : bumped^[k] (p.dir ++ p.base ++ 46 :: e) = p.dir ++ p.base ++ 46 :: e'' := hext'
        rw [hsame, getElem?_dot]
      obtain ⟨e', hcounts, heq⟩ := iterate_counts k he hdot
      refine .inr ⟨e', hcounts, ?_⟩
      have hname : bumped^[k] (p.name (some e)) = p.name (some e') := heq
      rwa [← hname]

theorem ends_of_found (hshort : Short ext) (hfew : (files.filter (p.shares ·)).card < 1000)
    (hfound : Found files p ext) :
    ∃ n new, uniqueName (taken files) n (p.name ext) = some new ∧ Unique files p ext new := by
  by_cases hfree : p.name ext ∈ files
  · have hpos : taken files (p.name ext) = true := by simpa [taken] using hfree
    have hunique (n : ℕ) (new : List UInt8) (h : firstFree (taken files) n (suffixed (p.name ext)) = some new)
        (hkept : ∃ e, new = p.name (some e)) :
        ∃ n new, uniqueName (taken files) n (p.name ext) = some new ∧ Unique files p ext new := by
      obtain ⟨e, he⟩ := hkept
      refine ⟨n, new, by rw [uniqueName, if_pos hpos, h], (firstFree_iterate h).1, ⟨some e, he⟩, ?_⟩
      exact fun hnot => absurd hfree hnot
    by_cases hdir : 46 ∈ p.dir
    · obtain ⟨e, rfl, hcount⟩ := (hfound.resolve_left (not_not.mpr hfree)).resolve_left (not_not.mpr hdir)
      obtain ⟨hlength, hplain⟩ := hshort e rfl
      by_cases hthree : e.length = 3
      · obtain ⟨a, b, c, rfl⟩ := List.length_eq_three.mp hthree
        obtain ⟨n, new, hn, -, hkept⟩ := found_three (p := p) hfew hplain
        exact hunique n new (by rw [suffixed_dotted hdir, hn]) hkept
      · obtain ⟨e', hcounts, hgoal⟩ := hcount.resolve_left hthree
        obtain ⟨n, new, hn, hkept⟩ := found_counts hcounts (by omega) hgoal
        exact hunique n new (by rw [suffixed_dotted hdir, hn]) hkept
    · obtain ⟨a, b, c, hsuffixed, hplain⟩ := suffixed_name hdir hshort
      obtain ⟨n, new, hn, -, hkept⟩ := found_three (p := p) hfew hplain
      exact hunique n new (by rw [hsuffixed, hn]) hkept
  · refine ⟨0, p.name ext, ?_, hfree, ⟨ext, rfl⟩, fun _ => rfl⟩
    rw [uniqueName, if_neg (by simpa [taken] using hfree)]

/-- For every path and every set of files in which fewer than a thousand names in the directory have the base name:
a free name beside it is found, and a free one left alone, if and only if the extension is where the function counts. -/
theorem unique_name_iff (files : Finset (List UInt8)) (p : Place) (ext : Option (List UInt8)) (hshort : Short ext)
    (hfew : (files.filter (p.shares ·)).card < 1000) :
    (∃ n new, uniqueName (taken files) n (p.name ext) = some new ∧ Unique files p ext new) ↔ Found files p ext := by
  constructor
  · rintro ⟨n, new, hnew, hunique⟩
    by_cases hfree : p.name ext ∈ files
    · by_cases hdir : 46 ∈ p.dir
      · rw [uniqueName, if_pos (by simpa [taken] using hfree)] at hnew
        exact .inr (.inr (counts_of_found hdir hshort hfree hnew hunique.kept))
      · exact .inr (.inl hdir)
    · exact .inl hfree
  · exact ends_of_found hshort hfew

/-- `D.X\F` -/
def bare : Place where
  dir := [68, 46, 88, 92]
  base := [70]
  base_ne := by decide
  base_plain := by
    intro ch hch
    rw [List.mem_singleton.mp hch]
    decide
  dir_ends := by
    intro ch hch
    obtain rfl : 92 = ch := Option.some.inj hch
    decide

theorem unique_name_free :
    (∃ n new, uniqueName (taken ∅) n (bare.name none) = some new ∧ Unique ∅ bare none new) ↔ Found ∅ bare none :=
  unique_name_iff ∅ bare none (by simp [Short]) (by simp)

/-- The file `F` in the directory `D.X` is there, and it becomes `D.X\0`. -/
theorem not_unique_name : ¬ ∀ (files : Finset (List UInt8)) (p : Place) (ext : Option (List UInt8)), Short ext →
    (files.filter (p.shares ·)).card < 1000 →
    ∃ n new, uniqueName (taken files) n (p.name ext) = some new ∧ Unique files p ext new := by
  intro hall
  let files : Finset (List UInt8) := {bare.name none}
  have hcard : (files.filter (bare.shares ·)).card < 1000 := by
    have hle := Finset.card_filter_le files (bare.shares ·)
    have hone : files.card = 1 := Finset.card_singleton _
    omega
  obtain ⟨n, new, hnew, hunique⟩ := hall files bare none (by simp [Short]) hcard
  have htaken : bare.name none ∈ files := Finset.mem_singleton_self _
  have hdir : 46 ∈ bare.dir := by decide
  rw [uniqueName, if_pos (by simpa [taken] using htaken)] at hnew
  obtain ⟨e, hnone, -⟩ := counts_of_found hdir (by simp [Short]) htaken hnew hunique.kept
  cases hnone

end CProgram.Hydra.Naming
