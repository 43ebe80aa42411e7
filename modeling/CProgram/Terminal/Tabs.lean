import CProgram.Terminal.Moves

/-! The tab stops: an array that grows and shrinks, and the columns that tabs lead to. -/
namespace CProgram.Terminal
open CProgram.Programs

/-- `tab_stops` and `tab_stops_n`. -/
structure Tabs where
  tabStops : Option (List ℤ)
  tabStopsN : ℕ
deriving DecidableEq, Repr

/-- `realloc` of `tab_stops`; nothing at all is freed. What is new is written before it is read. -/
def realloc (block : Option (List ℤ)) (n : ℕ) : Option (List ℤ) :=
  if n = 0 then none else some ((block.getD []).take n ++ List.replicate (n - (block.getD []).length) 0)

/-- `memmove` of `n` elements inside the block. -/
def moveElements (block : List ℤ) (dst src n : ℕ) : List ℤ :=
  block.take dst ++ (block.drop src).take n ++ block.drop (dst + n)

namespace Tabs

/-- `tab_stops[i]`. -/
def read (t : Tabs) (i : ℕ) : Option ℤ := t.tabStops.bind fun block => block[i]?

/-- `tab_stops[i] = x`. -/
def write (i : ℕ) (x : ℤ) (t : Tabs) : Option Tabs := do
  let block ← t.tabStops
  if i < block.length then some { t with tabStops := some (block.set i x) } else none

/-- `tab_stops[tab_stops_n] = x`, in a block that has grown. -/
def append (x : ℤ) (t : Tabs) : Option Tabs := do
  let t ← { t with tabStops := realloc t.tabStops (t.tabStopsN + 1) }.write t.tabStopsN x
  some { t with tabStopsN := t.tabStopsN + 1 }

/-- The loop of `reset_tab_stops`. -/
def fill : ℕ → ℕ → Tabs → Option Tabs
  | 0, _, t => some t
  | k + 1, i, t => do fill k (i + 1) (← t.append (8 * i))

/-- `reset_tab_stops`. -/
def reset (width : ℤ) (t : Tabs) : Option Tabs :=
  fill ((width + 7) / 8).toNat 0 (if t.tabStops.isSome then ⟨none, 0⟩ else t)

/-- A tab stop is inserted. -/
def insert (i : ℕ) (x : ℤ) (t : Tabs) : Option Tabs := do
  let block ← realloc t.tabStops (t.tabStopsN + 1)
  { tabStops := some (moveElements block (i + 1) i (t.tabStopsN - i)), tabStopsN := t.tabStopsN + 1 : Tabs }.write i x

/-- The loop of `hts`, from the stop `i` on. -/
def htsFrom (x : ℤ) (t : Tabs) : ℕ → ℕ → Option Tabs
  | 0, _ => t.append x
  | k + 1, i => do
    let stop ← t.read i
    if stop = x then some t
    else if x < stop then t.insert i x
    else htsFrom x t k (i + 1)

def hts (x : ℤ) (t : Tabs) : Option Tabs := t.htsFrom x t.tabStopsN 0

/-- This tab stop is removed. -/
def remove (i : ℕ) (t : Tabs) : Option Tabs := do
  let block ← t.tabStops
  some { tabStops := realloc (some (moveElements block i (i + 1) (t.tabStopsN - i - 1))) (t.tabStopsN - 1),
         tabStopsN := t.tabStopsN - 1 }

/-- The loop of `tbc`, from the stop `i` on. -/
def tbcFrom (x : ℤ) (t : Tabs) : ℕ → ℕ → Option Tabs
  | 0, _ => some t
  | k + 1, i => do
    let stop ← t.read i
    if x < stop then some t
    else if stop = x then t.remove i
    else tbcFrom x t k (i + 1)

/-- `tbc` with its parameter. -/
def tbc (i x : ℤ) (t : Tabs) : Option Tabs :=
  if i = 0 then t.tbcFrom x t.tabStopsN 0
  else if i = 3 then some ⟨none, 0⟩
  else some t

/-- The loop of `advance_to_next_tab_stop`: the first stop beyond the column. -/
def nextFrom (x : ℤ) (t : Tabs) : ℕ → ℕ → Option (Option ℤ)
  | 0, _ => some none
  | k + 1, i => do
    let stop ← t.read i
    if x < stop then some (some stop) else nextFrom x t k (i + 1)

/-- The column that `advance_to_next_tab_stop` is to reach. -/
def next (width x : ℤ) (t : Tabs) : Option ℤ :=
  if t.tabStops.isNone then some (width - 1)
  else do
    let stop ← t.nextFrom x t.tabStopsN 0
    some (stop.getD (width - 1))

/-- The loop of `cbt`: the index of the first stop that is not before the column. -/
def indexFrom (x : ℤ) (t : Tabs) : ℕ → ℕ → Option ℕ
  | 0, i => some i
  | k + 1, i => do
    let stop ← t.read i
    if x ≤ stop then some i else indexFrom x t k (i + 1)

/-- One round of `cbt`; the first stop is not looked at. -/
def before (x : ℤ) (t : Tabs) : Option ℤ := do
  let tab ← t.indexFrom x t.tabStopsN 0
  if tab ≤ 1 then some 0 else t.read (tab - 1)

/-- The block that holds these stops. -/
def ofList (stops : List ℤ) : Tabs := ⟨if stops = [] then none else some stops, stops.length⟩

/-! ### The array -/

section
variable {stops pre rest : List ℤ} {x stop width : ℤ} {i k : ℕ}

theorem read_ofList : (ofList stops).read i = stops[i]? := by
  unfold read ofList
  split
  · subst_vars
    rfl
  · rfl

theorem tabStops_ofList : (ofList stops).tabStops.getD [] = stops := by
  unfold ofList
  split
  · subst_vars
    rfl
  · rfl

theorem ofList_of_ne (h : stops ≠ []) : ofList stops = ⟨some stops, stops.length⟩ := by rw [ofList, if_neg h]

theorem realloc_ofList : realloc (ofList stops).tabStops (stops.length + 1) = some (stops ++ [0]) := by
  rw [realloc, if_neg (Nat.succ_ne_zero _), tabStops_ofList, List.take_of_length_le (Nat.le_succ _)]
  simp

theorem append_ofList : (ofList stops).append x = some (ofList (stops ++ [x])) := by
  have hlength : (ofList stops).tabStopsN = stops.length := rfl
  rw [append, hlength, realloc_ofList, ofList_of_ne (by simp)]
  simp [write]

theorem insert_ofList : (ofList (pre ++ rest)).insert pre.length x = some (ofList (pre ++ x :: rest)) := by
  have hlength : (ofList (pre ++ rest)).tabStopsN = (pre ++ rest).length := rfl
  rw [insert, hlength, realloc_ofList, ofList_of_ne (by simp)]
  obtain ⟨y, ys, hy⟩ : ∃ y ys, rest ++ [0] = y :: ys := by cases rest <;> exact ⟨_, _, rfl⟩
  have hmoved : moveElements (pre ++ rest ++ [0]) (pre.length + 1) pre.length ((pre ++ rest).length - pre.length) =
      pre ++ y :: rest := by
    have htail : (pre ++ (rest ++ [0])).drop (pre.length + 1 + rest.length) = [] :=
      List.drop_eq_nil_of_le (by simp; omega)
    have hfirst : (pre ++ (rest ++ [0])).take (pre.length + 1) = pre ++ [y] := by simp [hy, List.take_append]
    simp only [moveElements, List.append_assoc, List.length_append, Nat.add_sub_cancel_left, htail, hfirst]
    simp
  simp only [Option.bind_eq_bind, Option.bind_some, hmoved]
  simp [write]
  omega

theorem remove_ofList : (ofList (pre ++ stop :: rest)).remove pre.length = some (ofList (pre ++ rest)) := by
  rw [remove, ofList_of_ne (by simp)]
  have hmoved : moveElements (pre ++ stop :: rest) pre.length (pre.length + 1)
      ((pre ++ stop :: rest).length - pre.length - 1) = pre ++ rest ++ (stop :: rest).drop rest.length := by
    simp [moveElements]
  simp only [Option.bind_eq_bind, Option.bind_some, hmoved]
  have hlength : (pre ++ stop :: rest).length - 1 = (pre ++ rest).length := by simp
  rw [hlength]
  by_cases h : pre ++ rest = []
  · rw [ofList, if_pos h, h]
    rfl
  · rw [ofList_of_ne h, realloc, if_neg (by simpa using h)]
    simp
    rw [← List.append_assoc, List.take_left' (by simp)]

theorem htsFrom_ofList : (ofList (pre ++ rest)).htsFrom x rest.length pre.length =
    some (ofList (pre ++ setStop x rest)) := by
  induction rest generalizing pre with
  | nil => rw [List.append_nil]; exact append_ofList
  | cons stop rest ih =>
    have hread : (ofList (pre ++ stop :: rest)).read pre.length = some stop := by simp [read_ofList]
    rw [List.length_cons, htsFrom, hread, setStop]
    simp only [Option.bind_some, Option.bind_eq_bind]
    split_ifs with heq hlt
    · rfl
    · exact insert_ofList
    · have hrest := @ih (pre ++ [stop])
      simpa using hrest

theorem hts_ofList : (ofList stops).hts x = some (ofList (setStop x stops)) := @htsFrom_ofList [] stops x

theorem tbcFrom_ofList : (ofList (pre ++ rest)).tbcFrom x rest.length pre.length =
    some (ofList (pre ++ clearStop x rest)) := by
  induction rest generalizing pre with
  | nil => rfl
  | cons stop rest ih =>
    have hread : (ofList (pre ++ stop :: rest)).read pre.length = some stop := by simp [read_ofList]
    rw [List.length_cons, tbcFrom, hread, clearStop]
    simp only [Option.bind_some, Option.bind_eq_bind]
    split_ifs with hlt heq
    · rfl
    · exact remove_ofList
    · have hrest := @ih (pre ++ [stop])
      simpa using hrest

theorem tbc_ofList {i : ℤ} : (ofList stops).tbc i x =
    some (ofList (if i = 0 then clearStop x stops else if i = 3 then [] else stops)) := by
  unfold tbc
  split_ifs
  · exact @tbcFrom_ofList [] stops x
  · rfl
  · rfl

theorem fill_ofList : fill k i (ofList stops) =
    some (ofList (stops ++ (List.range k).map fun j => (8 * (i + j : ℕ) : ℤ))) := by
  induction k generalizing i stops with
  | zero => simp [fill]
  | succ k ih =>
    rw [fill, append_ofList, Option.bind_eq_bind, Option.bind_some, ih, List.range_succ_eq_map]
    simp [Function.comp_def, Nat.add_assoc, Nat.add_comm 1]

theorem reset_ofList : (ofList stops).reset width = some (ofList (resetTabStops width)) := by
  have hstart : (if (ofList stops).tabStops.isSome then (⟨none, 0⟩ : Tabs) else ofList stops) = ofList [] := by
    unfold ofList
    by_cases h : stops = []
    · subst h
      rfl
    · simp [h]
  rw [reset, hstart, fill_ofList, resetTabStops]
  simp [List.map_eq_flatMap, List.flatMap_assoc]

theorem nextFrom_ofList : (ofList (pre ++ rest)).nextFrom x rest.length pre.length =
    some (rest.find? fun stop => decide (x < stop)) := by
  induction rest generalizing pre with
  | nil => rfl
  | cons stop rest ih =>
    have hread : (ofList (pre ++ stop :: rest)).read pre.length = some stop := by simp [read_ofList]
    rw [List.length_cons, nextFrom, hread, Option.bind_eq_bind, Option.bind_some]
    split_ifs with hlt
    · rw [List.find?_cons_of_pos (by simpa using hlt)]
    · rw [List.find?_cons_of_neg (by simpa using hlt)]
      have hrest := @ih (pre ++ [stop])
      simpa using hrest

/-- What HT looks for. -/
theorem next_ofList : (ofList stops).next width x =
    some ((stops.find? fun stop => decide (x < stop)).getD (width - 1)) := by
  unfold next
  by_cases h : stops = []
  · subst h
    rfl
  · rw [ofList_of_ne h, if_neg (by simp), ← ofList_of_ne h]
    have hnext := @nextFrom_ofList [] stops x
    rw [List.nil_append] at hnext
    simp [ofList_of_ne h] at hnext ⊢
    rw [hnext]
    rfl

theorem indexFrom_ofList : (ofList (pre ++ rest)).indexFrom x rest.length pre.length =
    some (pre.length + (rest.takeWhile fun stop => decide (stop < x)).length) := by
  induction rest generalizing pre with
  | nil => rfl
  | cons stop rest ih =>
    have hread : (ofList (pre ++ stop :: rest)).read pre.length = some stop := by simp [read_ofList]
    rw [List.length_cons, indexFrom, hread, Option.bind_eq_bind, Option.bind_some]
    split_ifs with hle
    · rw [List.takeWhile_cons_of_neg (by simpa using hle)]
      rfl
    · rw [List.takeWhile_cons_of_pos (by simpa using hle)]
      have hrest := @ih (pre ++ [stop])
      simpa [Nat.add_assoc, Nat.add_comm 1] using hrest

/-- What a round of CBT looks for. -/
theorem before_ofList : (ofList stops).before x = some (stopBefore x stops) := by
  have hindex := @indexFrom_ofList [] stops x
  rw [List.nil_append, List.length_nil, Nat.zero_add] at hindex
  have hlength : (ofList stops).tabStopsN = stops.length := rfl
  rw [before, hlength, hindex, Option.bind_eq_bind, Option.bind_some, stopBefore]
  generalize hbefore : (stops.takeWhile fun stop => decide (stop < x)) = before
  split_ifs with hfew
  · rfl
  · obtain ⟨after, hafter⟩ : before <+: stops := hbefore ▸ List.takeWhile_prefix _
    have hin : before.length - 1 < before.length := by omega
    rw [read_ofList, ← hafter, List.getElem?_append_left hin, ← List.getLast?_eq_getElem?, List.getLastD_eq_getLast?]
    obtain ⟨last, hlast⟩ : ∃ last, before.getLast? = some last :=
      ⟨_, List.getLast?_eq_some_getLast (by rintro rfl; simp at hfew)⟩
    rw [hlast]
    rfl

end

/-- The stops that are in use. -/
def stops (t : Tabs) : List ℤ := t.tabStops.getD []

@[simp] theorem stops_ofList {stops : List ℤ} : (ofList stops).stops = stops := tabStops_ofList

end Tabs

/-! ### The columns -/

/-- `WIDTH`, `q_emulation_right_margin`, and whether the line is a double-width one. -/
structure Margins where
  width : ℤ
  emulationRightMargin : ℤ
  doubleWidth : Bool
  width_pos : 0 < width
deriving DecidableEq, Repr

namespace Margins

def cursorMargin (m : Margins) : ℤ := if 0 < m.emulationRightMargin then m.emulationRightMargin else m.width - 1

/-- The right margin of `cursor_right`. -/
def edge (m : Margins) : ℤ := Screen.halved m.cursorMargin m.doubleWidth

/-- The right-most column that a cursor can be moved to. -/
def rightEdge (m : Margins) : ℤ := min m.edge (m.width - 1)

/-- The loop of `cursor_right`. -/
def right (m : Margins) : ℕ → ℤ → ℤ
  | 0, x => x
  | count + 1, x => m.right count (if x < m.edge then x + 1 else x)

/-- The column of `cursor_position`. -/
def toColumn (col : ℤ) (m : Margins) : ℤ :=
  let x := if m.width - 1 < col then m.width - 1 else col
  if 0 < m.emulationRightMargin ∧ m.emulationRightMargin < x then m.edge else x

/-- Neither outside the screen nor beyond the margin. -/
def Inside (x : ℤ) (m : Margins) : Prop := x ≤ m.width - 1 ∧ (0 < m.emulationRightMargin → x ≤ m.emulationRightMargin)

variable {m : Margins} {x col : ℤ} {count : ℕ}

theorem right_eq : m.right count x = if x < m.edge then min (x + count) m.edge else x := by
  induction count generalizing x with
  | zero =>
    rw [right]
    split_ifs
    · simp
      omega
    · rfl
  | succ count ih =>
    rw [right, ih]
    push_cast
    split_ifs <;> omega

theorem toColumn_of_inside (h : m.Inside col) : m.toColumn col = col := by
  obtain ⟨hwidth, hmargin⟩ := h
  unfold toColumn
  rw [if_neg (by omega), if_neg (by omega)]

theorem nonneg_toColumn (h : 0 ≤ col) : 0 ≤ m.toColumn col := by
  have hwidth := m.width_pos
  unfold toColumn edge cursorMargin Screen.halved
  dsimp only
  split_ifs <;> omega

theorem le_right : x ≤ m.right count x := by
  rw [right_eq]
  split_ifs <;> omega

end Margins

/-! ### The tabs -/

/-- The stops, the column of the cursor, and the margins of its line. -/
structure TabState where
  tabs : Tabs
  cursorX : ℤ
  margins : Margins
deriving DecidableEq, Repr

/-- HTS, TBC, HT and CBT, a reset of the stops, and whatever else moves the cursor. -/
inductive TabOp where
  | hts
  | tbc (i : ℤ)
  | ht
  | cbt (count : ℕ)
  | move (cursorX : ℕ) (margins : Margins)
  | reset
deriving DecidableEq, Repr

namespace TabState

/-- `advance_to_next_tab_stop`. -/
def ht (s : TabState) : Option TabState := do
  let target ← s.tabs.next s.margins.width s.cursorX
  some { s with cursorX := s.margins.right (target - s.cursorX).toNat s.cursorX }

/-- The rounds of `cbt`. -/
def cbt : ℕ → TabState → Option TabState
  | 0, s => some s
  | count + 1, s => do
    let j ← s.tabs.before s.cursorX
    cbt count { s with cursorX := s.margins.toColumn j }

def step (s : TabState) : TabOp → Option TabState
  | .hts => do some { s with tabs := ← s.tabs.hts s.cursorX }
  | .tbc i => do some { s with tabs := ← s.tabs.tbc i s.cursorX }
  | .ht => s.ht
  | .cbt count => s.cbt count
  | .move cursorX margins => some { s with cursorX := cursorX, margins := margins }
  | .reset => do some { s with tabs := ← s.tabs.reset s.margins.width }

def run : List TabOp → TabState → Option TabState
  | [], s => some s
  | op :: ops, s => do run ops (← s.step op)

/-- What `vt100_reset` leaves, wherever the cursor is. -/
def start (cursorX : ℕ) (margins : Margins) : Option TabState := do
  some ⟨← Tabs.reset margins.width ⟨none, 0⟩, cursorX, margins⟩

end TabState

/-! ### Stops in ascending order -/

namespace Tabs
variable {stops : List ℤ} {x y : ℤ}

theorem mem_setStop : y ∈ setStop x stops ↔ y = x ∨ y ∈ stops := by
  induction stops with
  | nil => simp [setStop]
  | cons stop stops ih =>
    rw [setStop]
    split_ifs with heq hlt
    · subst heq
      simp
    · simp
    · simp only [List.mem_cons, ih]
      tauto

theorem ascending_setStop (h : stops.Pairwise (· < ·)) : (setStop x stops).Pairwise (· < ·) := by
  induction stops with
  | nil => simp [setStop]
  | cons stop stops ih =>
    obtain ⟨hfirst, hrest⟩ := List.pairwise_cons.mp h
    rw [setStop]
    split_ifs with heq hlt
    · exact h
    · refine List.pairwise_cons.mpr ⟨fun y hy => ?_, h⟩
      rcases List.mem_cons.mp hy with rfl | hy
      · exact hlt
      · exact hlt.trans (hfirst y hy)
    · refine List.pairwise_cons.mpr ⟨fun y hy => ?_, ih hrest⟩
      rcases mem_setStop.mp hy with rfl | hy
      · omega
      · exact hfirst y hy

theorem clearStop_sublist : (clearStop x stops).Sublist stops := by
  induction stops with
  | nil => exact List.Sublist.refl _
  | cons stop stops ih =>
    rw [clearStop]
    split_ifs
    · exact List.Sublist.refl _
    · exact List.sublist_cons_self _ _
    · exact ih.cons_cons _

theorem resetTabStops_eq {width : ℤ} :
    resetTabStops width = (List.range ((width + 7) / 8).toNat).map fun i => (8 * (i : ℕ) : ℤ) := by
  rw [resetTabStops]
  simp [List.map_eq_flatMap, List.flatMap_assoc]

/-- The stops that a sequence of operations leaves. -/
structure Ordered (stops : List ℤ) : Prop where
  ascending : stops.Pairwise (· < ·)
  nonneg : ∀ stop ∈ stops, 0 ≤ stop

theorem Ordered.setStop (h : Ordered stops) (hx : 0 ≤ x) : Ordered (setStop x stops) := by
  refine ⟨ascending_setStop h.ascending, fun stop hstop => ?_⟩
  rcases mem_setStop.mp hstop with rfl | hstop
  · exact hx
  · exact h.nonneg stop hstop

theorem Ordered.sublist {fewer : List ℤ} (h : Ordered stops) (hfewer : fewer.Sublist stops) : Ordered fewer :=
  ⟨h.ascending.sublist hfewer, fun stop hstop => h.nonneg stop (hfewer.subset hstop)⟩

theorem ordered_reset {width : ℤ} : Ordered (resetTabStops width) := by
  rw [resetTabStops_eq]
  constructor
  · refine List.pairwise_map.mpr (List.pairwise_lt_range.imp fun h => ?_)
    omega
  · intro stop hstop
    obtain ⟨i, -, rfl⟩ := List.mem_map.mp hstop
    omega

/-! ### What HT looks for -/

theorem Ordered.find (h : Ordered stops) {stop : ℤ} (hfind : (stops.find? fun stop => decide (x < stop)) = some stop) :
    IsLeast {stop | stop ∈ stops ∧ x < stop} stop := by
  refine ⟨⟨List.mem_of_find?_eq_some hfind, by simpa using List.find?_some hfind⟩, fun y hy => ?_⟩
  obtain ⟨-, before, after, rfl, hbefore⟩ := List.find?_eq_some_iff_append.mp hfind
  rcases List.mem_append.mp hy.1 with hmem | hmem
  · exact absurd hy.2 (by simpa using hbefore y hmem)
  · rcases List.mem_cons.mp hmem with rfl | hmem
    · exact le_rfl
    · exact ((List.pairwise_cons.mp (List.pairwise_append.mp h.ascending).2.1).1 y hmem).le

/-! ### What CBT looks for -/

/-- The `n`-th greatest stop before the column, or column 0. -/
def nthBefore (n : ℕ) (x : ℤ) (stops : List ℤ) : ℤ :=
  ((stops.filter fun stop => decide (stop < x)).reverse[n - 1]?).getD 0

theorem takeWhile_eq {pre rest : List ℤ} {stop : ℤ} (hpre : ∀ y ∈ pre, y < stop) :
    ((pre ++ stop :: rest).takeWhile fun y => decide (y < stop)) = pre := by
  induction pre with
  | nil => simp
  | cons y pre ih =>
    rw [List.cons_append, List.takeWhile_cons_of_pos (by simpa using hpre y List.mem_cons_self),
      ih fun z hz => hpre z (List.mem_cons_of_mem _ hz)]

theorem Ordered.takeWhile (h : Ordered stops) :
    (stops.takeWhile fun stop => decide (stop < x)) = stops.filter fun stop => decide (stop < x) := by
  induction stops with
  | nil => rfl
  | cons stop stops ih =>
    obtain ⟨hfirst, hrest⟩ := List.pairwise_cons.mp h.ascending
    by_cases hstop : stop < x
    · rw [List.takeWhile_cons_of_pos (by simpa using hstop), List.filter_cons_of_pos (by simpa using hstop),
        ih ⟨hrest, fun y hy => h.nonneg y (List.mem_cons_of_mem _ hy)⟩]
    · rw [List.takeWhile_cons_of_neg (by simpa using hstop), List.filter_cons_of_neg (by simpa using hstop), eq_comm,
        List.filter_eq_nil_iff]
      intro y hy
      have hlt := hfirst y hy
      simp only [decide_eq_true_eq]
      omega

/-- The column that so many rounds of CBT lead to: the first of the stops before it does not count. -/
def reached (n : ℕ) (x : ℤ) (stops : List ℤ) : ℤ :=
  ((stops.takeWhile fun stop => decide (stop < x)).tail.reverse[n]?).getD 0

theorem getLast_concat {first last : ℤ} {init : List ℤ} : (first :: (init ++ [last])).getLast? = some last := by
  rw [← List.cons_append, List.getLast?_append]
  rfl

theorem reached_zero : reached 0 x stops = stopBefore x stops := by
  rw [reached, stopBefore]
  generalize (stops.takeWhile fun stop => decide (stop < x)) = before
  cases before with
  | nil => rfl
  | cons first tail =>
    rcases List.eq_nil_or_concat tail with rfl | ⟨init, last, rfl⟩
    · rfl
    · simp [List.getLastD_eq_getLast?, getLast_concat]

/-- One round, and then the others. -/
theorem Ordered.reached_succ (h : Ordered stops) {n : ℕ} :
    reached n (stopBefore x stops) stops = reached (n + 1) x stops := by
  have hnone : ∀ n, reached n 0 stops = 0 := by
    intro n
    have hempty : (stops.takeWhile fun stop => decide (stop < 0)) = [] := by
      cases stops with
      | nil => rfl
      | cons stop stops =>
        have := h.nonneg stop List.mem_cons_self
        rw [List.takeWhile_cons_of_neg (by simpa using this)]
    rw [reached, hempty]
    rfl
  obtain ⟨after, hafter⟩ := List.takeWhile_prefix (l := stops) fun stop => decide (stop < x)
  rw [stopBefore, reached.eq_1 (n + 1)]
  generalize (stops.takeWhile fun stop => decide (stop < x)) = before at hafter
  cases before with
  | nil => exact hnone n
  | cons first tail =>
    rcases List.eq_nil_or_concat tail with rfl | ⟨init, last, rfl⟩
    · exact hnone n
    · have hlast : stops = (first :: init) ++ last :: after := by simpa using hafter.symm
      have hpre : ∀ y ∈ first :: init, y < last := fun y hy =>
        (List.pairwise_append.mp (hlast ▸ h.ascending)).2.2 y hy last List.mem_cons_self
      have hwhile : (stops.takeWhile fun stop => decide (stop < last)) = first :: init := by
        rw [hlast]
        exact takeWhile_eq hpre
      simp [List.getLastD_eq_getLast?, getLast_concat, reached, hwhile]

/-- The first stop of all is the one that CBT misses. -/
theorem Ordered.reached_eq_iff (h : Ordered stops) {n : ℕ} : reached n x stops = nthBefore (n + 1) x stops ↔
    ((stops.filter fun stop => decide (stop < x)).length = n + 1 → ∀ first ∈ stops.head?, first = 0) := by
  obtain ⟨after, hafter⟩ := List.takeWhile_prefix (l := stops) fun stop => decide (stop < x)
  rw [reached, nthBefore, ← h.takeWhile, Nat.add_sub_cancel]
  generalize (stops.takeWhile fun stop => decide (stop < x)) = before at hafter
  cases before with
  | nil => simp
  | cons first tail =>
    rw [← hafter, List.tail_cons, List.reverse_cons]
    rcases Nat.lt_trichotomy n tail.length with hn | hn | hn
    · rw [List.getElem?_append_left (by simpa using hn)]
      exact iff_of_true rfl fun hlength => absurd hlength (by simp; omega)
    · rw [List.getElem?_eq_none (by simp; omega), List.getElem?_append_right (by simp; omega)]
      simp [hn, eq_comm]
    · rw [List.getElem?_eq_none (by simp; omega), List.getElem?_eq_none (by simp; omega)]
      exact iff_of_true rfl fun hlength => absurd hlength (by simp; omega)

end Tabs

namespace TabState
variable {s t : TabState} {stops : List ℤ} {count : ℕ} {op : TabOp} {ops : List TabOp}

/-- What every sequence of operations keeps. -/
structure Sound (s : TabState) : Prop where
  tabs : s.tabs = .ofList s.tabs.stops
  ordered : Tabs.Ordered s.tabs.stops
  nonneg : 0 ≤ s.cursorX

theorem Sound.of_ofList {tabs : Tabs} (htabs : tabs = .ofList stops) (h : Tabs.Ordered stops) {cursorX : ℤ}
    (hx : 0 ≤ cursorX) {margins : Margins} : Sound ⟨tabs, cursorX, margins⟩ := by
  subst htabs
  exact ⟨by rw [Tabs.stops_ofList], by rwa [Tabs.stops_ofList], hx⟩

theorem nonneg_stopBefore (h : Tabs.Ordered stops) {x : ℤ} : 0 ≤ stopBefore x stops := by
  rw [← Tabs.reached_zero, Tabs.reached]
  generalize hbefore : (stops.takeWhile fun stop => decide (stop < x)) = before
  cases hstop : before.tail.reverse[0]? with
  | none => exact le_rfl
  | some stop =>
    have hmem : stop ∈ before.tail.reverse := List.mem_of_getElem? hstop
    have hin : stop ∈ stops.takeWhile fun stop => decide (stop < x) :=
      hbefore ▸ List.mem_of_mem_tail (List.mem_reverse.mp hmem)
    exact h.nonneg stop ((List.takeWhile_prefix _).subset hin)

/-- One round of CBT, and the others. -/
theorem Sound.cbt_succ (hs : s.Sound) :
    s.cbt (count + 1) =
      cbt count { s with cursorX := s.margins.toColumn (stopBefore s.cursorX s.tabs.stops) } := by
  have hbefore := @Tabs.before_ofList s.tabs.stops s.cursorX
  rw [← hs.tabs] at hbefore
  rw [cbt, hbefore]
  rfl

theorem Sound.cbt (hs : s.Sound) : ∃ t, s.cbt count = some t ∧ t.Sound := by
  induction count generalizing s with
  | zero => exact ⟨s, rfl, hs⟩
  | succ count ih =>
    rw [hs.cbt_succ]
    exact ih ⟨hs.tabs, hs.ordered, Margins.nonneg_toColumn (nonneg_stopBefore hs.ordered)⟩

theorem Sound.ht (hs : s.Sound) : s.ht = some { s with
    cursorX := s.margins.right
      (((s.tabs.stops.find? fun stop => decide (s.cursorX < stop)).getD (s.margins.width - 1)) - s.cursorX).toNat
      s.cursorX } := by
  have hnext := @Tabs.next_ofList s.tabs.stops s.cursorX s.margins.width
  rw [← hs.tabs] at hnext
  rw [TabState.ht, hnext]
  rfl

theorem Sound.step (hs : s.Sound) : ∃ t, s.step op = some t ∧ t.Sound := by
  cases op with
  | hts =>
    have hhts := @Tabs.hts_ofList s.tabs.stops s.cursorX
    rw [← hs.tabs] at hhts
    exact ⟨_, by rw [TabState.step, hhts]; rfl, Sound.of_ofList rfl (hs.ordered.setStop hs.nonneg) hs.nonneg⟩
  | tbc i =>
    have htbc := @Tabs.tbc_ofList s.tabs.stops s.cursorX i
    rw [← hs.tabs] at htbc
    refine ⟨_, by rw [TabState.step, htbc]; rfl, Sound.of_ofList rfl ?_ hs.nonneg⟩
    split_ifs
    · exact hs.ordered.sublist Tabs.clearStop_sublist
    · exact ⟨List.Pairwise.nil, fun _ h => absurd h (by simp)⟩
    · exact hs.ordered
  | ht => exact ⟨_, hs.ht, hs.tabs, hs.ordered, hs.nonneg.trans Margins.le_right⟩
  | cbt count => exact hs.cbt
  | move cursorX margins => exact ⟨_, rfl, hs.tabs, hs.ordered, Int.natCast_nonneg cursorX⟩
  | reset =>
    have hreset := @Tabs.reset_ofList s.tabs.stops s.margins.width
    rw [← hs.tabs] at hreset
    exact ⟨_, by rw [TabState.step, hreset]; rfl, Sound.of_ofList rfl Tabs.ordered_reset hs.nonneg⟩

theorem Sound.run (hs : s.Sound) : ∃ t, run ops s = some t ∧ t.Sound := by
  induction ops generalizing s with
  | nil => exact ⟨s, rfl, hs⟩
  | cons op ops ih =>
    obtain ⟨t, ht, htsound⟩ := @Sound.step s op hs
    obtain ⟨u, hu, husound⟩ := ih htsound
    exact ⟨u, by rw [TabState.run, ht]; exact hu, husound⟩

/-- HT goes to the next stop, or to the right edge. -/
def HtRight (s t : TabState) : Prop :=
  IsLeast {stop | stop ∈ s.tabs.stops ∧ s.cursorX < stop} t.cursorX ∨
    (∀ stop ∈ s.tabs.stops, stop ≤ s.cursorX) ∧ t.cursorX = s.margins.rightEdge

/-- The next stop is not beyond the margin of the line; where there is none, the cursor is not either. -/
def HtFine (s : TabState) : Prop :=
  (∀ stop, IsLeast {stop | stop ∈ s.tabs.stops ∧ s.cursorX < stop} stop → stop ≤ s.margins.edge) ∧
    ((∀ stop ∈ s.tabs.stops, stop ≤ s.cursorX) → s.cursorX ≤ s.margins.rightEdge)

/-- Not all of the stops before the column are passed, or the first one is column 0. -/
def CbtFine (n : ℕ) (s : TabState) : Prop :=
  (s.tabs.stops.filter fun stop => decide (stop < s.cursorX)).length = n → ∀ first ∈ s.tabs.stops.head?, first = 0

theorem Sound.ht_iff (hs : s.Sound) : ∃ t, s.ht = some t ∧ (HtRight s t ↔ HtFine s) := by
  refine ⟨_, hs.ht, ?_⟩
  rw [HtRight, HtFine]
  dsimp only
  rw [Margins.right_eq]
  cases hfind : s.tabs.stops.find? fun stop => decide (s.cursorX < stop) with
  | none =>
    have hnone : ∀ stop ∈ s.tabs.stops, stop ≤ s.cursorX := by simpa using hfind
    have hnever : ∀ stop, ¬ IsLeast {stop | stop ∈ s.tabs.stops ∧ s.cursorX < stop} stop := fun stop hstop =>
      absurd (hnone stop hstop.1.1) (not_le.mpr hstop.1.2)
    rw [Option.getD_none, or_iff_right (hnever _), and_iff_right hnone,
      and_iff_right fun stop hstop => absurd hstop (hnever stop), imp_iff_right hnone, Margins.rightEdge]
    split_ifs <;> omega
  | some stop =>
    have hleast := hs.ordered.find hfind
    have hbeyond : s.cursorX < stop := hleast.1.2
    have hnot : ¬ ∀ stop ∈ s.tabs.stops, stop ≤ s.cursorX := fun h => absurd (h stop hleast.1.1) (not_le.mpr hbeyond)
    have hunique : ∀ x, IsLeast {stop | stop ∈ s.tabs.stops ∧ s.cursorX < stop} x ↔ x = stop :=
      fun x => ⟨fun hx => hx.unique hleast, fun hx => hx ▸ hleast⟩
    simp only [hunique, hnot, false_and, or_false, forall_eq, false_imp_iff, and_true, Option.getD_some]
    split_ifs <;> omega

theorem stopBefore_le (h : Tabs.Ordered stops) {x : ℤ} (hx : 0 ≤ x) : stopBefore x stops ≤ x := by
  rw [← Tabs.reached_zero, Tabs.reached, h.takeWhile]
  generalize hbefore : (stops.filter fun stop => decide (stop < x)) = before
  cases hstop : before.tail.reverse[0]? with
  | none => exact hx
  | some stop =>
    have hmem : stop ∈ before.tail.reverse := List.mem_of_getElem? hstop
    have hin : stop ∈ stops.filter fun stop => decide (stop < x) :=
      hbefore ▸ List.mem_of_mem_tail (List.mem_reverse.mp hmem)
    simpa using (of_decide_eq_true (List.mem_filter.mp hin).2).le

theorem Sound.cbt_inside (hs : s.Sound) (hinside : s.margins.Inside s.cursorX) :
    s.cbt (count + 1) = some { s with cursorX := Tabs.reached count s.cursorX s.tabs.stops } := by
  induction count generalizing s with
  | zero =>
    have hle := stopBefore_le hs.ordered hs.nonneg
    rw [hs.cbt_succ, Margins.toColumn_of_inside ⟨hle.trans hinside.1, fun h => hle.trans (hinside.2 h)⟩,
      Tabs.reached_zero]
    rfl
  | succ count ih =>
    have hle := stopBefore_le hs.ordered hs.nonneg
    have hin : s.margins.Inside (stopBefore s.cursorX s.tabs.stops) :=
      ⟨hle.trans hinside.1, fun h => hle.trans (hinside.2 h)⟩
    rw [hs.cbt_succ, Margins.toColumn_of_inside hin, ← hs.ordered.reached_succ]
    exact ih ⟨hs.tabs, hs.ordered, nonneg_stopBefore hs.ordered⟩ hin

/-- What holds in a state. -/
structure Behaves (s : TabState) : Prop where
  ascending : s.tabs.stops.Pairwise (· < ·)
  count : s.tabs.tabStopsN = s.tabs.stops.length
  null : s.tabs.tabStops = none ↔ s.tabs.tabStopsN = 0
  ht : ∃ t, s.ht = some t ∧ (HtRight s t ↔ HtFine s)
  cbt : ∀ n, ∃ t, s.cbt (n + 1) = some t ∧ (s.margins.Inside s.cursorX →
    (t.cursorX = Tabs.nthBefore (n + 1) s.cursorX s.tabs.stops ↔ CbtFine (n + 1) s))

theorem Sound.behaves (hs : s.Sound) : s.Behaves := by
  have hcount : s.tabs.tabStopsN = s.tabs.stops.length := congrArg Tabs.tabStopsN hs.tabs
  refine ⟨hs.ordered.ascending, hcount, ?_, hs.ht_iff, fun n => ?_⟩
  · have hblock : s.tabs.tabStops = (Tabs.ofList s.tabs.stops).tabStops := congrArg Tabs.tabStops hs.tabs
    rw [hblock, hcount, Tabs.ofList, List.length_eq_zero_iff]
    split_ifs with h <;> simp [h]
  · by_cases hinside : s.margins.Inside s.cursorX
    · exact ⟨_, hs.cbt_inside hinside, fun _ => hs.ordered.reached_eq_iff⟩
    · obtain ⟨t, ht, -⟩ := @Sound.cbt s (n + 1) hs
      exact ⟨t, ht, fun h => absurd h hinside⟩

/-- After a reset and every sequence of operations. -/
theorem behaves_of_reset (cursorX : ℕ) (margins : Margins) (ops : List TabOp) :
    ∃ s t, start cursorX margins = some s ∧ run ops s = some t ∧ t.Behaves := by
  have hreset := @Tabs.reset_ofList [] margins.width
  have hstart : start cursorX margins = some ⟨.ofList (resetTabStops margins.width), cursorX, margins⟩ := by
    rw [start, show (⟨none, 0⟩ : Tabs) = .ofList [] from rfl, hreset]
    rfl
  have hsound : Sound ⟨.ofList (resetTabStops margins.width), cursorX, margins⟩ :=
    Sound.of_ofList rfl Tabs.ordered_reset (Int.natCast_nonneg cursorX)
  obtain ⟨t, ht, htsound⟩ := @Sound.run _ ops hsound
  exact ⟨_, t, hstart, ht, htsound.behaves⟩

/-- One stop at column 8, and the cursor behind it: CBT goes to column 0. -/
theorem cbt_misses_first : ∃ s t u : TabState,
    start 8 ⟨80, 79, false, by decide⟩ = some s ∧
    run [.tbc 3, .hts, .move 20 ⟨80, 79, false, by decide⟩] s = some t ∧ t.cbt 1 = some u ∧
    t.tabs.stops = [8] ∧ t.cursorX = 20 ∧ Tabs.nthBefore 1 20 [8] = 8 ∧ u.cursorX = 0 :=
  ⟨_, _, _, rfl, rfl, rfl, rfl, rfl, by decide, rfl⟩

end TabState

/-! ### The terminal -/

namespace Screen

/-- The margins of the line that the cursor is in. -/
def marginsOf (doubleWidth : Bool) (s : Screen) (h : 0 < s.width) : Margins :=
  ⟨s.width, s.emulationRightMargin, doubleWidth, h⟩

instance : Unlisted Screen.cursorX := ⟨fun _ _ _ _ _ _ _ _ => rfl⟩

end Screen

variable {s : Screen} {t : Vt}

theorem toColumn_eq {col : ℤ} {doubleWidth : Bool} (h : 0 < s.width) :
    (s.toColumn col doubleWidth).cursorX = (s.marginsOf doubleWidth h).toColumn col := rfl

theorem ends_rightOne {rightMargin : ℤ} : Ends (rightOne false rightMargin) (fun _ => True)
    (fun _ u => u.cursorX = if s.cursorX < rightMargin then s.cursorX + 1 else s.cursorX) s := by
  rw [rightOne, ends_bind, ends_get]
  dsimp only
  rw [if_neg (by simp), ends_ite]
  refine ⟨fun hroom => ?_, fun hend => ?_⟩
  · rw [if_pos hroom]
    apply ((keeps_textAt : Keeps Screen.cursorX _) s).bind
    intro text u hu
    rw [ends_ite]
    refine ⟨fun _ => ?_, fun _ => congrArg (· + 1) hu⟩
    apply ((keeps_onText : Keeps Screen.cursorX _) u).bind
    exact fun _ v hv => congrArg (· + 1) (hv.trans hu)
  · rw [if_neg hend]
    exact rfl

theorem ends_rightLoop {m : Margins} {n : ℕ} : Ends (repeatFrom (fun _ => rightOne false m.edge) n ()) (fun _ => True)
    (fun _ u => u.cursorX = m.right n s.cursorX) s := by
  induction n generalizing s with
  | zero => exact rfl
  | succ n ih =>
    refine ends_rightOne.bind fun _ u hu => ?_
    rw [Margins.right, ← hu]
    exact ih

/-- The column that `cursor_right` leads to. -/
theorem ends_cursorRight {count : ℤ} (h : 0 < s.width) : Ends (cursorRight count false) (fun _ => True)
    (fun _ u => ∃ doubleWidth, u.cursorX = (s.marginsOf doubleWidth h).right count.toNat s.cursorX) s := by
  rw [cursorRight, ends_bind, ends_modify, ends_bind, ends_get, ends_bind]
  apply ((keeps_textAt : Keeps Screen.cursorX _) (s.leaveMargin count)).post
  intro text u hu
  have hstart : u.cursorX = s.cursorX := hu
  refine (@ends_rightLoop u (s.marginsOf text.doubleWidth h) count.toNat).post fun _ v hv => ⟨text.doubleWidth, ?_⟩
  rw [hv, hstart]

/-! ### The handlers do the same -/

theorem ends_hts : Ends hts (fun _ => True)
    (fun _ u => (Tabs.ofList t.tabStops).hts t.cursorX = some (.ofList u.tabStops)) t := Tabs.hts_ofList

theorem ends_tbc {a : Args} : Ends (tbc a) (fun _ => True)
    (fun _ u => (Tabs.ofList t.tabStops).tbc (a.param 0) t.cursorX = some (.ofList u.tabStops)) t := by
  rw [tbc, ends_modify, Tabs.tbc_ofList]

theorem ends_advanceToNextTabStop (h : 0 < t.width) : Ends advanceToNextTabStop (fun _ => True)
    (fun _ u => ∃ doubleWidth, TabState.ht ⟨.ofList t.tabStops, t.cursorX, t.marginsOf doubleWidth h⟩ =
      some ⟨.ofList t.tabStops, u.cursorX, t.marginsOf doubleWidth h⟩) t := by
  rw [advanceToNextTabStop, ends_bind, ends_get, ends_onScreen]
  refine (ends_cursorRight h).post fun _ u hu => ?_
  obtain ⟨doubleWidth, hu⟩ := hu
  refine ⟨doubleWidth, ?_⟩
  show _ = some (⟨_, u.cursorX, _⟩ : TabState)
  rw [TabState.ht, hu, Tabs.next_ofList]
  rfl

theorem ends_cbtRound (hb : t.band.Bounded) (h : 0 < t.width) : Ends cbtOne (fun _ => True)
    (fun _ u => ∃ doubleWidth, TabState.cbt 1 ⟨.ofList t.tabStops, t.cursorX, t.marginsOf doubleWidth h⟩ =
      some ⟨.ofList t.tabStops, u.cursorX, t.marginsOf doubleWidth h⟩) t := by
  rw [cbtOne, ends_bind, ends_get, ends_onScreen]
  refine (ends_position hb).post fun _ u hu => ?_
  obtain ⟨-, -, doubleWidth, hcolumn⟩ := hu
  refine ⟨doubleWidth, ?_⟩
  have hx := cursorX_of_besideRows hcolumn
  show _ = some (⟨_, u.cursorX, _⟩ : TabState)
  rw [TabState.cbt, Tabs.before_ofList, hx]
  rfl

end CProgram.Terminal
