import Mathlib.Data.List.Basic
import Mathlib.Data.List.Nodup
import Mathlib.Logic.Function.Basic
import Mathlib.Tactic.Common

/-! Doubly linked lists: cells with a pointer to either side, and what taking a cell out, exchanging two and
turning the whole list round make of them. -/
namespace CProgram.Links
variable {P : Type} [DecidableEq P]

structure Cell (P : Type) where
  prev : Option P
  next : Option P

/-- The cells in a row, with what stands in front of the first and behind the last. -/
def Row (cell : P → Cell P) : Option P → List P → Option P → Prop
  | _, [], _ => True
  | before, x :: xs, behind =>
    (cell x).prev = before ∧ (cell x).next = xs.head?.or behind ∧ Row cell (some x) xs behind

def setNext (cell : P → Cell P) : Option P → Option P → P → Cell P
  | none, _ => cell
  | some p, next => Function.update cell p { cell p with next }

def setPrev (cell : P → Cell P) : Option P → Option P → P → Cell P
  | none, _ => cell
  | some p, prev => Function.update cell p { cell p with prev }

variable {cell other : P → Cell P} {before behind : Option P} {x y p : P} {xs ys zs : List P}

theorem setNext_other {q : Option P} (h : q ≠ some p) (next : Option P) : setNext cell q next p = cell p := by
  cases q with
  | none => rfl
  | some q => exact Function.update_of_ne (fun heq => h (congrArg some heq.symm)) _ _

theorem setPrev_other {q : Option P} (h : q ≠ some p) (prev : Option P) : setPrev cell q prev p = cell p := by
  cases q with
  | none => rfl
  | some q => exact Function.update_of_ne (fun heq => h (congrArg some heq.symm)) _ _

theorem setNext_self (cell : P → Cell P) (p : P) (next : Option P) :
    setNext cell (some p) next p = { cell p with next } := Function.update_self _ _ _

theorem setPrev_self (cell : P → Cell P) (p : P) (prev : Option P) :
    setPrev cell (some p) prev p = { cell p with prev } := Function.update_self _ _ _

omit [DecidableEq P] in
theorem Row.congr (h : Row cell before xs behind) (hsame : ∀ p ∈ xs, other p = cell p) : Row other before xs behind := by
  induction xs generalizing before with
  | nil => trivial
  | cons x xs ih =>
    obtain ⟨hprev, hnext, hrest⟩ := h
    have hx := hsame x List.mem_cons_self
    exact ⟨by rw [hx, hprev], by rw [hx, hnext], ih hrest fun p hp => hsame p (List.mem_cons_of_mem _ hp)⟩

omit [DecidableEq P] in
theorem row_append : Row cell before (xs ++ ys) behind ↔
    Row cell before xs (ys.head?.or behind) ∧ Row cell (xs.getLast?.or before) ys behind := by
  induction xs generalizing before with
  | nil => simp [Row]
  | cons x xs ih =>
    have hhead : (xs ++ ys).head?.or behind = xs.head?.or (ys.head?.or behind) := by
      cases xs <;> simp
    have hlast : (x :: xs).getLast?.or before = xs.getLast?.or (some x) := by
      cases xs with
      | nil => rfl
      | cons y xs => simp [List.getLast?_eq_some_getLast]
    rw [List.cons_append, Row, Row, ih, hhead, hlast]
    simp only [and_assoc]

/-- A row with another cell in front. -/
theorem Row.front (h : Row cell before xs behind) (hnodup : xs.Nodup) (prev : Option P) :
    Row (setPrev cell xs.head? prev) prev xs behind := by
  cases xs with
  | nil => trivial
  | cons x xs =>
    obtain ⟨-, hnext, hrest⟩ := h
    have hx := (List.nodup_cons.mp hnodup).1
    rw [List.head?_cons]
    refine ⟨by rw [setPrev_self], by rw [setPrev_self, hnext], hrest.congr fun p hp => ?_⟩
    apply setPrev_other
    rintro ⟨⟩
    exact hx hp

/-- A row with another cell behind. -/
theorem Row.back (h : Row cell before xs behind) (hnodup : xs.Nodup) (next : Option P) :
    Row (setNext cell xs.getLast? next) before xs next := by
  induction xs generalizing before with
  | nil => trivial
  | cons x xs ih =>
    obtain ⟨hprev, hnext, hrest⟩ := h
    obtain ⟨hx, hnodup⟩ := List.nodup_cons.mp hnodup
    cases xs with
    | nil => exact ⟨by rw [List.getLast?_singleton, setNext_self, hprev], by rw [List.getLast?_singleton, setNext_self]; rfl, trivial⟩
    | cons y xs =>
      rw [List.getLast?_cons_cons]
      have hlast : (y :: xs).getLast? ≠ some x := fun heq => hx (List.mem_of_getLast? heq)
      rw [Row, setNext_other hlast, hprev, hnext]
      exact ⟨rfl, rfl, ih hrest hnodup⟩

omit [DecidableEq P] in
theorem Row.next_mem (h : Row cell before xs none) (hx : x ∈ xs) (hnext : (cell x).next = some y) : y ∈ xs := by
  induction xs generalizing before with
  | nil => cases hx
  | cons z xs ih =>
    obtain ⟨-, hz, hrest⟩ := h
    cases List.mem_cons.mp hx with
    | inl heq =>
      rw [heq, hz, Option.or_none] at hnext
      exact List.mem_cons_of_mem _ (List.mem_of_head? hnext)
    | inr hmem => exact List.mem_cons_of_mem _ (ih hrest hmem)

omit [DecidableEq P] in
theorem Row.prev_mem (h : Row cell none xs behind) (hx : x ∈ xs) (hprev : (cell x).prev = some y) : y ∈ xs := by
  obtain ⟨front, back, rfl⟩ := List.append_of_mem hx
  obtain ⟨-, hback⟩ := row_append.mp h
  rw [Row, hprev, Option.or_none] at hback
  exact List.mem_append_left _ (List.mem_of_getLast? hback.1.symm)

omit [DecidableEq P] in
/-- The next cell stands right behind. -/
theorem Row.next_split (h : Row cell before xs none) (hx : x ∈ xs) (hnext : (cell x).next = some y) :
    ∃ front back, xs = front ++ x :: y :: back := by
  obtain ⟨front, back, rfl⟩ := List.append_of_mem hx
  obtain ⟨-, -, hback, -⟩ := row_append.mp h
  rw [hnext, Option.or_none] at hback
  cases back with
  | nil => cases hback
  | cons z back =>
    obtain rfl := Option.some.inj hback
    exact ⟨front, back, rfl⟩

omit [DecidableEq P] in
theorem Row.next_eq (h : Row cell before (xs ++ x :: ys) none) : (cell x).next = ys.head? := by
  obtain ⟨-, -, hnext, -⟩ := row_append.mp h
  rw [hnext, Option.or_none]

/-- A cell is put behind the last one. -/
theorem Row.push (h : Row cell none xs none) (hnodup : xs.Nodup) (hx : x ∉ xs) :
    Row (Function.update (setNext cell xs.getLast? (some x)) x ⟨xs.getLast?, none⟩) none (xs ++ [x]) none := by
  refine row_append.mpr ⟨?_, ?_, ?_, trivial⟩
  · apply (h.back hnodup (some x)).congr
    intro p hp
    apply Function.update_of_ne
    rintro rfl
    exact hx hp
  · rw [Function.update_self, Option.or_none]
  · rw [Function.update_self]
    rfl

/-- The cell is taken out. -/
theorem Row.unlink (h : Row cell none (xs ++ x :: ys) none) (hnodup : (xs ++ x :: ys).Nodup) :
    (cell x).prev = xs.getLast? ∧ (cell x).next = ys.head? ∧
      Row (setPrev (setNext cell xs.getLast? ys.head?) ys.head? xs.getLast?) none (xs ++ ys) none := by
  obtain ⟨hfront, hprev, hnext, hback⟩ := row_append.mp h
  rw [Option.or_none] at hprev hnext
  obtain ⟨hxs, hxys, hdisjoint⟩ := List.nodup_append.mp hnodup
  obtain ⟨hx, hys⟩ := List.nodup_cons.mp hxys
  refine ⟨hprev, hnext, row_append.mpr ⟨?_, ?_⟩⟩
  · rw [Option.or_none]
    apply (hfront.back hxs ys.head?).congr
    intro p hp
    apply setPrev_other
    intro heq
    exact hdisjoint p hp p (List.mem_cons_of_mem _ (List.mem_of_head? heq)) rfl
  · rw [Option.or_none]
    have hkept : Row (setNext cell xs.getLast? ys.head?) (some x) ys none := by
      apply hback.congr
      intro p hp
      apply setNext_other
      intro heq
      exact hdisjoint p (List.mem_of_getLast? heq) p (List.mem_cons_of_mem _ hp) rfl
    exact hkept.front hys _

/-- Two cells side by side change places. -/
theorem Row.exchange (h : Row cell none (xs ++ x :: y :: zs) none) (hnodup : (xs ++ x :: y :: zs).Nodup) :
    Row (setPrev (Function.update (Function.update (setNext cell xs.getLast? (some y)) y ⟨xs.getLast?, some x⟩)
      x ⟨some y, zs.head?⟩) zs.head? (some x)) none (xs ++ y :: x :: zs) none := by
  obtain ⟨hfront, hprev, hnext, hprevY, hnextY, hback⟩ := row_append.mp h
  obtain ⟨hxs, hxyzs, hdisjoint⟩ := List.nodup_append.mp hnodup
  obtain ⟨hx, hyzs⟩ := List.nodup_cons.mp hxyzs
  obtain ⟨hy, hzs⟩ := List.nodup_cons.mp hyzs
  have hxy : x ≠ y := fun heq => hx (heq ▸ List.mem_cons_self)
  have hxz : zs.head? ≠ some x := fun heq => hx (List.mem_cons_of_mem _ (List.mem_of_head? heq))
  have hyz : zs.head? ≠ some y := fun heq => hy (List.mem_of_head? heq)
  refine row_append.mpr ⟨?_, ?_, ?_, ?_, ?_, ?_⟩
  · apply (hfront.back hxs (some y)).congr
    intro p hp
    have hpx : p ≠ x := fun heq => hdisjoint p hp x List.mem_cons_self heq
    have hpy : p ≠ y := fun heq => hdisjoint p hp y (List.mem_cons_of_mem _ List.mem_cons_self) heq
    have hpz : zs.head? ≠ some p := fun heq =>
      hdisjoint p hp p (List.mem_cons_of_mem _ (List.mem_cons_of_mem _ (List.mem_of_head? heq))) rfl
    rw [setPrev_other hpz, Function.update_of_ne hpx, Function.update_of_ne hpy]
  · rw [setPrev_other hyz, Function.update_of_ne hxy.symm, Function.update_self, Option.or_none]
  · rw [setPrev_other hyz, Function.update_of_ne hxy.symm, Function.update_self]
    rfl
  · rw [setPrev_other hxz, Function.update_self]
  · rw [setPrev_other hxz, Function.update_self, Option.or_none]
  · have hkept : Row (Function.update (Function.update (setNext cell xs.getLast? (some y)) y ⟨xs.getLast?, some x⟩)
        x ⟨some y, zs.head?⟩) (some y) zs none := by
      apply hback.congr
      intro p hp
      have hpx : p ≠ x := fun heq => hx (heq ▸ List.mem_cons_of_mem _ hp)
      have hpy : p ≠ y := fun heq => hy (heq ▸ hp)
      rw [Function.update_of_ne hpx, Function.update_of_ne hpy]
      apply setNext_other
      intro heq
      exact hdisjoint p (List.mem_of_getLast? heq) p (List.mem_cons_of_mem _ (List.mem_cons_of_mem _ hp)) rfl
    exact hkept.front hzs _

omit [DecidableEq P] in
/-- With the pointers of each cell exchanged the row is the other way round. -/
theorem Row.turned (h : Row cell before xs behind)
    (hturned : ∀ p ∈ xs, other p = ⟨(cell p).next, (cell p).prev⟩) : Row other behind xs.reverse before := by
  induction xs generalizing before with
  | nil => trivial
  | cons x xs ih =>
    obtain ⟨hprev, hnext, hrest⟩ := h
    rw [List.reverse_cons, row_append]
    have hx := hturned x List.mem_cons_self
    refine ⟨ih hrest fun p hp => hturned p (List.mem_cons_of_mem _ hp), ?_, ?_, trivial⟩
    · rw [hx, hnext, List.getLast?_reverse]
    · rw [hx, hprev]
      rfl

end CProgram.Links
