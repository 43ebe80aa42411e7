import CProgram.Lib.Strings
import Mathlib.Data.List.GetD

/-! The environment block of the father process as `getglobenv` and `putglobenv` read and change it: strings one behind
the other, the last one empty. A block has at most 32 KB, so no `int` overflows. -/
namespace CProgram.Netpc.Globenv
open Strings

def equals : UInt8 := 61

/-- The loop over the strings, from a place on: where it stops. -/
def advance (env : List UInt8) (bound : ℕ) (found : ℕ → Bool) (search : ℕ) : ℕ :=
  if env.getD search 0 ≠ 0 ∧ search < bound ∧ found search = false then advance env bound found (next env search)
  else search
  termination_by bound - search
  decreasing_by
    simp only [next]
    omega

/-- `aktsize` of `getglobenvironment`; `maxsize` is the length of the block. -/
def aktsize (env : List UInt8) : ℕ :=
  if env.length = 0 then 0 else max 2 (advance env env.length (fun _ => false) 0 + 1)

/-- The test of a string for a name that is the front of an option. -/
def named (env : List UInt8) (option : List UInt8) (length search : ℕ) : Bool :=
  length < (cstr env search).length ∧ env.getD (search + length) 0 = equals ∧
    (cstr env search).take length = option.take length

/-- `getglobenv`. -/
def getglobenv (env : List UInt8) (option : List UInt8) : Option (List UInt8) :=
  let length := option.length
  if aktsize env ≠ 0 ∧ length ≠ 0 then
    let search := advance env (aktsize env) (named env option length) 0
    if env.getD search 0 ≠ 0 ∧ search < aktsize env then some (cstr env (search + length + 1)) else none
  else none

/-- Bytes that are written in a row, nothing past the end of the block. -/
def store (env : List UInt8) (place : ℕ) (data : List UInt8) : Option (List UInt8) :=
  if place + data.length ≤ env.length then some (env.take place ++ data ++ env.drop (place + data.length)) else none

/-- `putglobenv`: what is returned, and the block. -/
def putglobenv (env : List UInt8) (option : List UInt8) : Option (ℤ × List UInt8) :=
  let optionlen := option.length
  let length := (option.takeWhile (· ≠ equals)).length
  let value := option.drop (length + 1)
  if optionlen ≠ 0 ∧ env.length ≠ 0 ∧ 0 < length ∧ option.getD length 0 = equals then
    let search := advance env (aktsize env) (named env option length) 0
    if env.getD search 0 ≠ 0 ∧ search < aktsize env then
      let slen := (cstr env search).length
      let nextp := search + slen + 1
      let diffsize := (optionlen : ℤ) - slen
      if diffsize ≠ 0 ∧ (env.length : ℤ) - aktsize env < diffsize then some (-1, env)
      else do
        let env ←
          if diffsize ≠ 0 then
            let movesize := aktsize env - nextp
            let diffsize := if value = [] then diffsize - (length + 2) else diffsize
            store env (nextp + diffsize).toNat ((env.drop nextp).take movesize)
          else some env
        let env ← if value ≠ [] then store env search (option ++ [0]) else some env
        some (0, env)
    else if value ≠ [] ∧ (optionlen : ℤ) < (env.length : ℤ) - aktsize env then do
      let env ← store env search (option ++ [0])
      let env ← store env (search + optionlen + 1) [0]
      some (0, env)
    else some (-1, env)
  else some (-1, env)

/-! ### Well-formed blocks -/

/-- A variable. -/
structure Entry where
  name : List UInt8
  value : List UInt8
  deriving DecidableEq

def Entry.text (e : Entry) : List UInt8 := e.name ++ equals :: e.value

/-- The strings of some variables, each with its NUL. -/
def strings (entries : List Entry) : List UInt8 := entries.flatMap fun e => e.text ++ [0]

structure Entry.Proper (e : Entry) : Prop where
  name : equals ∉ e.name
  text : Text e.text

/-- A block of paragraphs that holds these variables, the empty string and what was left behind it. -/
structure Block (env : List UInt8) (entries : List Entry) : Prop where
  held : ∃ rest, env = strings entries ++ 0 :: rest
  proper : ∀ e ∈ entries, e.Proper
  paragraphs : 16 ∣ env.length

@[simp] theorem strings_nil : strings [] = [] := rfl

@[simp] theorem strings_cons (e : Entry) (entries : List Entry) :
    strings (e :: entries) = e.text ++ 0 :: strings entries := by
  simp [strings]

@[simp] theorem strings_append (pre post : List Entry) : strings (pre ++ post) = strings pre ++ strings post := by
  simp [strings]

theorem Entry.text_eq (e : Entry) : e.text = e.name ++ equals :: e.value := rfl

theorem Entry.text_ne_nil (e : Entry) : e.text ≠ [] := by simp [Entry.text]

theorem takeWhile_equals {name : List UInt8} (hname : equals ∉ name) (value : List UInt8) :
    (name ++ equals :: value).takeWhile (· ≠ equals) = name := by
  rw [List.takeWhile_append_of_pos fun ch hch => by
    simp only [ne_eq, decide_eq_true_eq]
    exact fun h => hname (h ▸ hch)]
  simp

/-- The front of a string up to its `=` is its name. -/
theorem Entry.named_iff {e : Entry} (he : e.Proper) {name : List UInt8} (hname : equals ∉ name) :
    (name.length < e.text.length ∧ e.text.getD name.length 0 = equals ∧ e.text.take name.length = name) ↔
      e.name = name := by
  constructor
  · rintro ⟨hlt, hequals, htake⟩
    have htext : e.text = name ++ equals :: e.text.drop (name.length + 1) := by
      rw [List.getD_eq_getElem _ _ hlt] at hequals
      rw [← hequals, ← List.drop_eq_getElem_cons hlt]
      conv_lhs => rw [← List.take_append_drop name.length e.text, htake]
    have hboth := takeWhile_equals he.name e.value
    rw [← Entry.text_eq, htext, takeWhile_equals hname] at hboth
    exact hboth.symm
  · rintro rfl
    simp [Entry.text]

/-! The loop over the strings. -/
section Loop
variable {env rest : List UInt8} {bound : ℕ} {found : ℕ → Bool}

theorem next_entry {pre post : List Entry} {e : Entry} (he : e.Proper)
    (henv : env = strings (pre ++ e :: post) ++ 0 :: rest) :
    cstr env (strings pre).length = e.text ∧ next env (strings pre).length = (strings (pre ++ [e])).length := by
  have hsplit : env = strings pre ++ (e.text ++ 0 :: (strings post ++ 0 :: rest)) := by simp [henv]
  rw [hsplit]
  exact ⟨cstr_at _ he.text, by rw [next_at _ he.text]; simp⟩

theorem getD_entry {pre post : List Entry} {e : Entry} (henv : env = strings (pre ++ e :: post) ++ 0 :: rest) {i : ℕ}
    (hi : i < e.text.length) : env.getD ((strings pre).length + i) 0 = e.text.getD i 0 := by
  have hsplit : env = strings pre ++ (e.text ++ 0 :: (strings post ++ 0 :: rest)) := by simp [henv]
  rw [hsplit, List.getD_append_right _ _ _ _ (by omega), Nat.add_sub_cancel_left, List.getD_append _ _ _ _ hi]

theorem getD_entry_ne_zero {pre post : List Entry} {e : Entry} (he : e.Proper)
    (henv : env = strings (pre ++ e :: post) ++ 0 :: rest) : env.getD (strings pre).length 0 ≠ 0 := by
  have hpos : 0 < e.text.length := List.length_pos_of_ne_nil e.text_ne_nil
  have hget := getD_entry henv hpos
  rw [Nat.add_zero, List.getD_eq_getElem _ _ hpos] at hget
  rw [hget]
  exact he.text _ (List.getElem_mem hpos)

theorem getD_end {entries : List Entry} (henv : env = strings entries ++ 0 :: rest) :
    env.getD (strings entries).length 0 = 0 := by
  rw [henv, List.getD_append_right _ _ _ _ le_rfl]
  simp

/-- The loop goes past strings that are not the one it looks for. -/
theorem advance_past (pre mid post : List Entry) (hproper : ∀ e ∈ mid, e.Proper)
    (henv : env = strings (pre ++ (mid ++ post)) ++ 0 :: rest) (hbound : (strings (pre ++ mid)).length ≤ bound)
    (hfound : ∀ front e back, mid = front ++ e :: back → found (strings (pre ++ front)).length = false) :
    advance env bound found (strings pre).length = advance env bound found (strings (pre ++ mid)).length := by
  induction mid generalizing pre with
  | nil => simp
  | cons e mid ih =>
    have he := hproper e List.mem_cons_self
    have hhere : found (strings pre).length = false := by simpa using hfound [] e mid rfl
    have hlt : (strings pre).length < bound := by
      simp only [strings_append, strings_cons, List.length_append, List.length_cons] at hbound
      omega
    rw [List.cons_append] at henv
    rw [advance, if_pos ⟨getD_entry_ne_zero he henv, hlt, hhere⟩, (next_entry he henv).2,
      ih _ (fun x hx => hproper x (List.mem_cons_of_mem _ hx)) (by rw [henv]; simp) (by simpa using hbound)]
    · simp
    · intro front x back hsplit
      simpa using hfound (e :: front) x back (by rw [hsplit]; rfl)

theorem advance_end {entries : List Entry} (hproper : ∀ e ∈ entries, e.Proper)
    (henv : env = strings entries ++ 0 :: rest) (hbound : (strings entries).length ≤ bound)
    (hfound : ∀ front e back, entries = front ++ e :: back → found (strings front).length = false) :
    advance env bound found 0 = (strings entries).length := by
  have hpast := advance_past [] entries [] hproper (by simpa using henv) hbound
    (by simpa using hfound)
  rw [strings_nil, List.length_nil, List.nil_append] at hpast
  rw [hpast, advance, if_neg fun h => h.1 (getD_end henv)]

theorem advance_found {pre post : List Entry} {e : Entry} (hproper : ∀ x ∈ pre ++ e :: post, x.Proper)
    (henv : env = strings (pre ++ e :: post) ++ 0 :: rest) (hbound : (strings pre).length ≤ bound)
    (hfound : ∀ front x back, pre = front ++ x :: back → found (strings front).length = false)
    (hhere : found (strings pre).length = true) : advance env bound found 0 = (strings pre).length := by
  have hpast := advance_past [] pre (e :: post) (fun x hx => hproper x (by simp [hx])) henv hbound
    (by simpa using hfound)
  rw [strings_nil, List.length_nil, List.nil_append] at hpast
  rw [hpast, advance, if_neg fun h => by simp [hhere] at h]

end Loop

theorem Block.sixteen_le {env : List UInt8} {entries : List Entry} (h : Block env entries) : 16 ≤ env.length := by
  obtain ⟨rest, henv⟩ := h.held
  exact Nat.le_of_dvd (by rw [henv]; simp) h.paragraphs

theorem Block.aktsize_eq {env : List UInt8} {entries : List Entry} (h : Block env entries) :
    aktsize env = max 2 ((strings entries).length + 1) := by
  obtain ⟨rest, henv⟩ := h.held
  have hlength := h.sixteen_le
  rw [aktsize, if_neg (by omega), advance_end h.proper henv (by rw [henv]; simp) fun _ _ _ _ => rfl]

theorem Block.aktsize_le {env : List UInt8} {entries : List Entry} (h : Block env entries) :
    aktsize env ≤ env.length := by
  have hlength := h.sixteen_le
  obtain ⟨rest, henv⟩ := h.held
  have hlen := congrArg List.length henv
  rw [h.aktsize_eq]
  simp only [List.length_append, List.length_cons] at hlen
  omega

/-- The test of the code finds a name. -/
theorem named_eq {env rest option name : List UInt8} {pre post : List Entry} {e : Entry} (he : e.Proper)
    (henv : env = strings (pre ++ e :: post) ++ 0 :: rest) (hname : equals ∉ name)
    (hoption : option.take name.length = name) :
    named env option name.length (strings pre).length = decide (e.name = name) := by
  rw [named, (next_entry he henv).1, hoption, decide_eq_decide, ← Entry.named_iff he hname]
  constructor
  · rintro ⟨hlt, hequals, htake⟩
    exact ⟨hlt, by rwa [getD_entry henv hlt] at hequals, htake⟩
  · rintro ⟨hlt, hequals, htake⟩
    exact ⟨hlt, by rwa [getD_entry henv hlt], htake⟩

/-- A name is held nowhere, or first by one of the variables. -/
theorem absent_or_first (entries : List Entry) (name : List UInt8) :
    (∀ e ∈ entries, e.name ≠ name) ∨
      ∃ pre e post, entries = pre ++ e :: post ∧ e.name = name ∧ ∀ x ∈ pre, x.name ≠ name := by
  induction entries with
  | nil => simp
  | cons e entries ih =>
    by_cases he : e.name = name
    · exact .inr ⟨[], e, entries, rfl, he, by simp⟩
    · rcases ih with habsent | ⟨pre, x, post, rfl, hx, hpre⟩
      · exact .inl (List.forall_mem_cons.2 ⟨he, habsent⟩)
      · exact .inr ⟨e :: pre, x, post, rfl, hx, List.forall_mem_cons.2 ⟨he, hpre⟩⟩

section Searched
variable {env option name : List UInt8}

theorem searched_absent {entries : List Entry} (h : Block env entries) (hname : equals ∉ name)
    (hoption : option.take name.length = name) (habsent : ∀ e ∈ entries, e.name ≠ name) :
    advance env (aktsize env) (named env option name.length) 0 = (strings entries).length ∧
      env.getD (strings entries).length 0 = 0 := by
  obtain ⟨rest, henv⟩ := h.held
  refine ⟨advance_end h.proper henv (by rw [h.aktsize_eq]; omega) ?_, getD_end henv⟩
  intro front e back hsplit
  have hmem : e ∈ entries := by simp [hsplit]
  rw [hsplit] at henv
  rw [named_eq (h.proper e hmem) henv hname hoption]
  exact decide_eq_false (habsent e hmem)

theorem searched_first {pre post : List Entry} {e : Entry} (h : Block env (pre ++ e :: post)) (hname : equals ∉ name)
    (hoption : option.take name.length = name) (he : e.name = name) (hpre : ∀ x ∈ pre, x.name ≠ name) :
    advance env (aktsize env) (named env option name.length) 0 = (strings pre).length ∧
      env.getD (strings pre).length 0 ≠ 0 ∧ (strings pre).length < aktsize env := by
  obtain ⟨rest, henv⟩ := h.held
  have hplace : (strings pre).length < aktsize env := by
    rw [h.aktsize_eq]
    simp only [strings_append, List.length_append]
    omega
  have hproper := h.proper e (by simp)
  refine ⟨advance_found h.proper henv hplace.le ?_ ?_, getD_entry_ne_zero hproper henv, hplace⟩
  · intro front x back hsplit
    have hmem : x ∈ pre := by simp [hsplit]
    rw [hsplit, List.append_assoc, List.cons_append] at henv
    rw [named_eq (h.proper x (by simp [hmem])) henv hname hoption]
    exact decide_eq_false (hpre x hmem)
  · rw [named_eq hproper henv hname hoption]
    exact decide_eq_true he

/-- `getglobenv` looks a name up. -/
theorem getglobenv_eq {entries : List Entry} (h : Block env entries) (hne : name ≠ []) (hname : equals ∉ name) :
    getglobenv env name = (entries.find? fun e => e.name = name).map Entry.value := by
  have hakt : aktsize env ≠ 0 := by rw [h.aktsize_eq]; omega
  have hlength : name.length ≠ 0 := fun h => hne (List.length_eq_zero_iff.1 h)
  rw [getglobenv]
  simp only [hakt, hlength, ne_eq, not_false_eq_true, and_self, if_true]
  rcases absent_or_first entries name with habsent | ⟨pre, e, post, rfl, he, hpre⟩
  · obtain ⟨hsearch, hzero⟩ := searched_absent h hname (List.take_length ..) habsent
    have hfind : (entries.find? fun e => e.name = name) = none := by simpa using habsent
    rw [hsearch, hfind, if_neg fun hand => hand.1 hzero, Option.map_none]
  · obtain ⟨hsearch, hnonzero, hlt⟩ := searched_first h hname (List.take_length ..) he hpre
    obtain ⟨rest, henv⟩ := h.held
    have hfind : ((pre ++ e :: post).find? fun e => e.name = name) = some e :=
      List.find?_eq_some_iff_append.2 ⟨by simpa using he, pre, post, rfl, by simpa using hpre⟩
    have hcut : cstr env ((strings pre).length + name.length + 1) = e.value := by
      have hsplit : env = (strings pre ++ e.name ++ [equals]) ++ (e.value ++ 0 :: (strings post ++ 0 :: rest)) := by
        simp [henv, Entry.text]
      have hplace : (strings pre).length + name.length + 1 = (strings pre ++ e.name ++ [equals]).length := by
        simp [he, Nat.add_assoc]
      rw [hplace, hsplit]
      exact cstr_at _ fun ch hch => (h.proper e (by simp)).text ch (by simp [Entry.text, hch])
    rw [hsearch, hfind, if_pos ⟨hnonzero, hlt⟩, hcut, Option.map_some]

end Searched

/-! ### What `putglobenv` leaves -/

/-- The variables after an assignment, beside what is returned: refused, another value in its place, taken out, left as
it was with its empty value, or put at the end. -/
inductive Puts (entries : List Entry) (name value : List UInt8) : ℤ → List Entry → Prop
  | refused (h : value = [] → ∀ e ∈ entries, e.name ≠ name) : Puts entries name value (-1) entries
  | replaced (pre post : List Entry) (e : Entry) (h : entries = pre ++ e :: post) (he : e.name = name)
      (hpre : ∀ x ∈ pre, x.name ≠ name) (hvalue : value ≠ []) : Puts entries name value 0 (pre ++ ⟨name, value⟩ :: post)
  | removed (pre post : List Entry) (e : Entry) (h : entries = pre ++ e :: post) (he : e.name = name)
      (hpre : ∀ x ∈ pre, x.name ≠ name) (hvalue : value = []) (hold : e.value ≠ []) :
      Puts entries name value 0 (pre ++ post)
  | kept (e : Entry) (h : e ∈ entries) (he : e.name = name) (hvalue : value = []) (hold : e.value = []) :
      Puts entries name value 0 entries
  | appended (h : ∀ e ∈ entries, e.name ≠ name) (hvalue : value ≠ []) :
      Puts entries name value 0 (entries ++ [⟨name, value⟩])

theorem store_front (front back data : List UInt8) {place : ℕ} (hplace : place = front.length)
    (hroom : place + data.length ≤ (front ++ back).length) :
    ∃ rest, store (front ++ back) place data = some (front ++ (data ++ rest)) ∧
      (front ++ (data ++ rest)).length = (front ++ back).length := by
  subst hplace
  refine ⟨(front ++ back).drop (front.length + data.length), ?_, ?_⟩
  · rw [store, if_pos hroom, List.take_left, List.append_assoc]
  · simp only [List.length_append, List.length_drop] at hroom ⊢
    omega

theorem store_over (front back : List UInt8) {old data : List UInt8} (h : data.length = old.length) :
    store (front ++ (old ++ back)) front.length data = some (front ++ (data ++ back)) := by
  rw [store, if_pos (by simp [h]), List.take_left, h, ← List.append_assoc, List.drop_left' (by simp), List.append_assoc]

/-- Two pieces written one behind the other, the later one first. -/
theorem store_both (front back data later : List UInt8) {place : ℕ} (hplace : place = front.length)
    (hroom : place + data.length + later.length ≤ (front ++ back).length) :
    ∃ mid rest, store (front ++ back) (place + data.length) later = some mid ∧
      store mid place data = some (front ++ (data ++ (later ++ rest))) ∧
      (front ++ (data ++ (later ++ rest))).length = (front ++ back).length := by
  subst hplace
  have hfirst : data.length ≤ back.length := by
    simp only [List.length_append] at hroom
    omega
  have hsplit : front ++ back = (front ++ back.take data.length) ++ back.drop data.length := by simp
  obtain ⟨rest, hstore, hlength⟩ := store_front (front ++ back.take data.length) (back.drop data.length) later
    (by simp [hfirst] : front.length + data.length = (front ++ back.take data.length).length)
    (by rw [← hsplit]; exact hroom)
  rw [← hsplit] at hstore hlength
  refine ⟨_, rest, hstore, ?_, ?_⟩
  · have hwide : front.length + data.length ≤ (front ++ back.take data.length ++ (later ++ rest)).length := by
      rw [hlength]
      omega
    have htake : List.take front.length (front ++ back.take data.length ++ (later ++ rest)) = front := by
      rw [List.append_assoc, List.take_left]
    have hdrop : List.drop (front.length + data.length) (front ++ back.take data.length ++ (later ++ rest)) =
        later ++ rest := List.drop_left' (by simp [hfirst])
    rw [store, if_pos hwide, htake, hdrop, List.append_assoc]
  · simpa [hfirst] using hlength

/-- An assignment to a name. -/
theorem putglobenv_puts {env : List UInt8} {entries : List Entry} (h : Block env entries) {name value : List UInt8}
    (hne : name ≠ []) (hname : equals ∉ name) (htext : Text (name ++ equals :: value)) :
    ∃ r env' entries', putglobenv env (name ++ equals :: value) = some (r, env') ∧ (r = -1 → env' = env) ∧
      env'.length = env.length ∧ Block env' entries' ∧ Puts entries name value r entries' := by
  have hfront : (name ++ equals :: value).takeWhile (· ≠ equals) = name := takeWhile_equals hname value
  have hback : (name ++ equals :: value).drop (name.length + 1) = value := by
    rw [show name ++ equals :: value = (name ++ [equals]) ++ value by simp, List.drop_left' (by simp)]
  have hpos : 0 < name.length := List.length_pos_of_ne_nil hne
  have hsixteen := h.sixteen_le
  have hguard : (name ++ equals :: value).length ≠ 0 ∧ env.length ≠ 0 ∧ 0 < name.length ∧
      (name ++ equals :: value).getD name.length 0 = equals := by
    refine ⟨by simp, by omega, hpos, ?_⟩
    rw [List.getD_append_right _ _ _ _ le_rfl]
    simp
  have hakt := h.aktsize_eq
  have hmax := h.aktsize_le
  have hnew : Entry.Proper ⟨name, value⟩ := ⟨hname, htext⟩
  rw [putglobenv]
  simp only [hfront, hback, hguard, ne_eq, not_false_eq_true, and_self, if_true]
  rcases absent_or_first entries name with habsent | ⟨pre, e, post, rfl, he, hpre⟩
  · obtain ⟨hsearch, hzero⟩ := searched_absent h hname
      (by simp : (name ++ equals :: value).take name.length = name) habsent
    rw [hsearch, if_neg fun hand => hand.1 hzero]
    split
    case isFalse => exact ⟨_, _, entries, rfl, fun _ => rfl, rfl, h, .refused fun _ => habsent⟩
    case isTrue hroom =>
      obtain ⟨rest, henv⟩ := h.held
      have hlen : env.length = (strings entries ++ 0 :: rest).length := congrArg List.length henv
      obtain ⟨rest₁, hstore, hlength⟩ := store_front (strings entries) (0 :: rest) (name ++ equals :: value ++ [0]) rfl (by
          rw [← hlen]
          simp only [List.length_append, List.length_cons, List.length_nil] at hroom ⊢
          omega)
      have hback : strings entries ++ (name ++ equals :: value ++ [0] ++ rest₁) =
          strings (entries ++ [⟨name, value⟩]) ++ rest₁ := by simp [Entry.text]
      have hplace : (strings entries).length + (name ++ equals :: value).length + 1 =
          (strings (entries ++ [⟨name, value⟩])).length := by
        simp [Entry.text]
        omega
      rw [hback] at hstore hlength
      obtain ⟨rest₂, hstore₂, hlength₂⟩ := store_front (strings (entries ++ [⟨name, value⟩])) rest₁ [0]
        hplace (by
          rw [hlength, ← hlen]
          simp only [List.length_append, List.length_cons, List.length_nil] at hroom ⊢
          omega)
      have hsame := hlength₂.trans (hlength.trans hlen.symm)
      refine ⟨0, _, entries ++ [⟨name, value⟩], ?_, by simp, hsame, ⟨⟨rest₂, rfl⟩, ?_, hsame ▸ h.paragraphs⟩,
        .appended habsent hroom.1⟩
      · rw [henv, hstore, Option.bind_eq_bind, Option.bind_some, hstore₂]
        rfl
      · intro x hx
        rcases List.mem_append.1 hx with hx | hx
        · exact h.proper x hx
        · exact List.mem_singleton.1 hx ▸ hnew
  · obtain ⟨hsearch, hnonzero, hlt⟩ := searched_first h hname
      (by simp : (name ++ equals :: value).take name.length = name) he hpre
    obtain ⟨rest, henv⟩ := h.held
    have hlen : env.length = (strings (pre ++ e :: post) ++ 0 :: rest).length := congrArg List.length henv
    have hsplit : strings (pre ++ e :: post) ++ 0 :: rest =
        strings pre ++ (e.text ++ 0 :: (strings post ++ 0 :: rest)) := by
      simp
    have hakt' : aktsize env = (strings pre).length + e.text.length + 1 + ((strings post).length + 1) := by
      have hpos := List.length_pos_of_ne_nil e.text_ne_nil
      rw [hakt]
      simp only [strings_append, strings_cons, List.length_append, List.length_cons]
      omega
    have htail : (env.drop ((strings pre).length + e.text.length + 1)).take
        (aktsize env - ((strings pre).length + e.text.length + 1)) = strings post ++ [0] := by
      rw [hakt', Nat.add_sub_cancel_left, henv, hsplit,
        show strings pre ++ (e.text ++ 0 :: (strings post ++ 0 :: rest)) =
          (strings pre ++ e.text ++ [0]) ++ ((strings post ++ [0]) ++ rest) by simp,
        List.drop_left' (by simp; omega), List.take_left' (by simp)]
    have htextlen : e.text.length = name.length + 1 + e.value.length := by
      simp [Entry.text, he]
      omega
    have hproper : ∀ x ∈ pre ++ post, x.Proper := fun x hx => h.proper x (by
      rcases List.mem_append.1 hx with hx | hx <;> simp [hx])
    rw [hsearch, if_pos ⟨hnonzero, hlt⟩, (next_entry (h.proper e (by simp)) henv).1, htail]
    split
    case isTrue hfull =>
      refine ⟨_, _, _, rfl, fun _ => rfl, rfl, h, .refused fun hvalue => ?_⟩
      exfalso
      simp only [hvalue, List.length_append, List.length_cons, List.length_nil] at hfull
      omega
    case isFalse hroom =>
      by_cases hvalue : value = []
      · subst hvalue
        by_cases hold : e.value = []
        · refine ⟨0, env, _, ?_, by simp, rfl, h, .kept e (by simp) he rfl hold⟩
          rw [if_neg (by simp [htextlen, hold])]
          simp
        · have hsize := List.length_pos_of_ne_nil hold
          obtain ⟨rest₁, hstore, hlength⟩ := store_front (strings pre) (e.text ++ 0 :: (strings post ++ 0 :: rest)) (strings post ++ [0])
            rfl (by simp; omega)
          rw [← hsplit, ← hlen] at hlength
          refine ⟨0, _, pre ++ post, ?_, by simp, hlength, ⟨⟨rest₁, by simp⟩, hproper, hlength ▸ h.paragraphs⟩,
            .removed pre post e rfl he hpre rfl hold⟩
          have hplace : ((((strings pre).length + e.text.length + 1 : ℕ) : ℤ) +
              (((name ++ [equals]).length : ℤ) - e.text.length - (name.length + 2))).toNat = (strings pre).length := by
            simp only [List.length_append, List.length_cons, List.length_nil]
            omega
          rw [if_pos (by simp [htextlen]; omega), if_pos rfl, hplace, henv, hsplit, hstore]
          simp
      · have hlast : ∀ x ∈ pre ++ ⟨name, value⟩ :: post, x.Proper := by
          intro x hx
          rcases List.mem_append.1 hx with hx | hx
          · exact h.proper x (by simp [hx])
          · rcases List.mem_cons.1 hx with rfl | hx
            · exact hnew
            · exact h.proper x (by simp [hx])
        have hwritten (rest₁ : List UInt8) :
            strings pre ++ (name ++ equals :: value ++ [0] ++ (strings post ++ [0] ++ rest₁)) =
              strings (pre ++ ⟨name, value⟩ :: post) ++ 0 :: rest₁ := by simp [Entry.text]
        by_cases hdiff : ((name ++ equals :: value).length : ℤ) - e.text.length = 0
        · have hsame : (name ++ equals :: value ++ [0]).length = (e.text ++ [0]).length := by
            simp only [List.length_append, List.length_cons, List.length_nil] at hdiff ⊢
            omega
          have hstore := store_over (strings pre) (strings post ++ 0 :: rest) hsame
          have hover : strings pre ++ (e.text ++ [0] ++ (strings post ++ 0 :: rest)) = env := by simp [henv]
          have hnow : strings pre ++ (name ++ equals :: value ++ [0] ++ (strings post ++ 0 :: rest)) =
              strings (pre ++ ⟨name, value⟩ :: post) ++ 0 :: rest := by simp [Entry.text]
          rw [hover, hnow] at hstore
          have hlength : (strings (pre ++ ⟨name, value⟩ :: post) ++ 0 :: rest).length = env.length := by
            rw [← hnow, ← hover]
            simp only [List.length_append, hsame]
          refine ⟨0, _, pre ++ ⟨name, value⟩ :: post, ?_, by simp, hlength,
            ⟨⟨rest, rfl⟩, hlast, hlength ▸ h.paragraphs⟩, .replaced pre post e rfl he hpre hvalue⟩
          rw [if_neg (not_not.2 hdiff), Option.bind_eq_bind, Option.bind_some, if_pos hvalue, hstore]
          rfl
        · obtain ⟨mid, rest₁, hlater, hstore, hlength⟩ := store_both (strings pre) (e.text ++ 0 :: (strings post ++ 0 :: rest))
            (name ++ equals :: value ++ [0]) (strings post ++ [0]) rfl (by
              rw [← hsplit, ← hlen]
              simp only [List.length_append, List.length_cons, List.length_nil] at hdiff hroom ⊢
              omega)
          rw [hwritten] at hstore hlength
          rw [← hsplit, ← hlen] at hlength
          rw [← hsplit, ← henv] at hlater
          refine ⟨0, _, pre ++ ⟨name, value⟩ :: post, ?_, by simp, hlength,
            ⟨⟨rest₁, rfl⟩, hlast, hlength ▸ h.paragraphs⟩, .replaced pre post e rfl he hpre hvalue⟩
          have hplace : ((((strings pre).length + e.text.length + 1 : ℕ) : ℤ) +
              (((name ++ equals :: value).length : ℤ) - e.text.length)).toNat =
                (strings pre).length + (name ++ equals :: value ++ [0]).length := by
            simp only [List.length_append, List.length_cons, List.length_nil]
            omega
          rw [if_pos hdiff, if_neg hvalue, hplace, hlater, Option.bind_eq_bind, Option.bind_some, if_pos hvalue, hstore]
          rfl

/-- What does not begin with a name and `=` is refused. -/
theorem putglobenv_malformed {option : List UInt8}
    (h : ∀ name value, option = name ++ equals :: value → name ≠ [] → equals ∈ name) (env : List UInt8) :
    putglobenv env option = some (-1, env) := by
  rw [putglobenv]
  refine if_neg fun hguard => ?_
  obtain ⟨-, -, hpos, hequals⟩ := hguard
  have hfront : equals ∉ option.takeWhile (· ≠ equals) := fun hmem => by
    simpa using List.all_eq_true.1 List.all_takeWhile _ hmem
  have hsplit := List.takeWhile_append_dropWhile (p := fun ch : UInt8 => decide (ch ≠ equals)) (l := option)
  generalize option.takeWhile (fun ch : UInt8 => decide (ch ≠ equals)) = name at hpos hequals hfront hsplit
  generalize option.dropWhile (fun ch : UInt8 => decide (ch ≠ equals)) = back at hsplit
  subst hsplit
  rw [List.getD_append_right _ _ _ _ le_rfl, Nat.sub_self] at hequals
  cases back with
  | nil => simp [equals] at hequals
  | cons ch value =>
    have hch : ch = equals := by simpa using hequals
    exact hfront (h name value (by rw [hch]) (List.length_pos_iff.1 hpos))

/-! ### As a map -/

/-- The variables of other names, in their order. -/
def others (name : List UInt8) (entries : List Entry) : List Entry := entries.filter fun e => e.name ≠ name

theorem find_others {name other : List UInt8} (h : other ≠ name) (entries : List Entry) :
    ((others name entries).find? fun e => e.name = other) = entries.find? fun e => e.name = other := by
  rw [others, List.find?_filter]
  congr 1
  funext e
  by_cases he : e.name = other
  · simp [he, h]
  · simp [he]

/-- What an assignment makes of a map. -/
structure Assigned (env env' : List UInt8) (entries : List Entry) (name value : List UInt8) : Prop where
  block : ∃ entries', Block env' entries' ∧ others name entries' = others name entries
  size : env'.length = env.length
  value : getglobenv env' name = if value = [] then none else some value
  rest : ∀ other, other ≠ [] → equals ∉ other → other ≠ name → getglobenv env' other = getglobenv env other

/-- A call that leaves the block alone, or assigns as in a map. -/
def Maps (env : List UInt8) (entries : List Entry) (option : List UInt8) : Prop :=
  ∃ r env', putglobenv env option = some (r, env') ∧ (r = -1 ∧ env' = env ∨
    r = 0 ∧ ∃ name value, option = name ++ equals :: value ∧ equals ∉ name ∧ Assigned env env' entries name value)

/-- What is to be taken out is there at most once, and not with an empty value. -/
def Plain (entries : List Entry) (option : List UInt8) : Prop :=
  ∀ name, option = name ++ [equals] → name ≠ [] → equals ∉ name →
    (entries.filter fun e => e.name = name).length ≤ 1 ∧ ∀ e ∈ entries, e.name = name → e.value ≠ []

theorem Puts.others_eq {entries entries' : List Entry} {name value : List UInt8} {r : ℤ}
    (h : Puts entries name value r entries') : others name entries' = others name entries := by
  cases h with
  | refused | kept => rfl
  | replaced pre post e h he => simp [others, h, he]
  | removed pre post e h he => simp [others, h, he]
  | appended h => simp [others]

theorem split_name {name name' value value' : List UInt8} (hname : equals ∉ name) (hname' : equals ∉ name')
    (h : name ++ equals :: value = name' ++ equals :: value') : name = name' ∧ value = value' := by
  have hfront := takeWhile_equals hname value
  rw [h, takeWhile_equals hname'] at hfront
  subst hfront
  simpa using h

theorem find_none_iff {entries : List Entry} {name : List UInt8} :
    (entries.find? fun e => e.name = name).map Entry.value = none ↔ ∀ e ∈ entries, e.name ≠ name := by
  simp

theorem plain_iff {entries : List Entry} {name value : List UInt8} (hne : name ≠ []) (hname : equals ∉ name) :
    Plain entries (name ++ equals :: value) ↔
      (value = [] →
        (entries.filter fun e => e.name = name).length ≤ 1 ∧ ∀ e ∈ entries, e.name = name → e.value ≠ []) := by
  constructor
  · intro h hvalue
    exact h name (by rw [hvalue]) hne hname
  · intro h name' hoption _ hname'
    obtain ⟨rfl, rfl⟩ := split_name hname hname' hoption
    exact h rfl

/-- The value read back is the one assigned where nothing stands in the way of taking the old one out. -/
theorem Puts.value_iff {entries entries' : List Entry} {name value : List UInt8} (hne : name ≠ [])
    (hname : equals ∉ name) (h : Puts entries name value 0 entries') :
    (entries'.find? fun e => e.name = name).map Entry.value = (if value = [] then none else some value) ↔
      Plain entries (name ++ equals :: value) := by
  rw [plain_iff hne hname]
  cases h with
  | replaced pre post e h he hpre hvalue =>
    have hfind : ((pre ++ ⟨name, value⟩ :: post).find? fun e : Entry => e.name = name) = some ⟨name, value⟩ :=
      List.find?_eq_some_iff_append.2 ⟨by simp, pre, post, rfl, by simpa using hpre⟩
    rw [hfind, if_neg hvalue]
    simp [hvalue]
  | appended h hvalue =>
    have hfind : ((entries ++ [(⟨name, value⟩ : Entry)]).find? fun e : Entry => e.name = name) = some ⟨name, value⟩ :=
      List.find?_eq_some_iff_append.2 ⟨by simp, entries, [], rfl, by simpa using h⟩
    rw [hfind, if_neg hvalue]
    simp [hvalue]
  | kept e hmem he hvalue hold =>
    rw [if_pos hvalue, find_none_iff]
    exact ⟨fun h => absurd he (h e hmem), fun h => absurd hold ((h hvalue).2 e hmem he)⟩
  | removed pre post e h he hpre hvalue hold =>
    have hfilter : (entries.filter fun e => e.name = name) = e :: post.filter fun e => e.name = name := by
      rw [h, List.filter_append, List.filter_eq_nil_iff.2 (by simpa using hpre),
        List.filter_cons_of_pos (by simpa using he), List.nil_append]
    rw [if_pos hvalue, find_none_iff, hfilter]
    constructor
    · intro habsent _
      have hnil : (post.filter fun e => e.name = name) = [] :=
        List.filter_eq_nil_iff.2 fun x hx => by simpa using habsent x (by simp [hx])
      refine ⟨by simp [hnil], fun x hx hxname => ?_⟩
      rw [h] at hx
      rcases List.mem_append.1 hx with hx | hx
      · exact absurd hxname (hpre x hx)
      · rcases List.mem_cons.1 hx with rfl | hx
        · exact hold
        · exact absurd hxname (habsent x (by simp [hx]))
    · intro hplain x hx hxname
      have hnil : (post.filter fun e => e.name = name) = [] := by
        have hone := (hplain hvalue).1
        rw [List.length_cons] at hone
        exact List.length_eq_zero_iff.1 (by omega)
      rcases List.mem_append.1 hx with hx | hx
      · exact hpre x hx hxname
      · exact List.filter_eq_nil_iff.1 hnil x hx (by simpa using hxname)

/-- One call on a well-formed block. -/
theorem maps_iff_plain {env : List UInt8} {entries : List Entry} (h : Block env entries) {option : List UInt8}
    (htext : Text option) : Maps env entries option ↔ Plain entries option := by
  by_cases hassigns : ∃ name value, option = name ++ equals :: value ∧ name ≠ [] ∧ equals ∉ name
  · obtain ⟨name, value, rfl, hne, hname⟩ := hassigns
    obtain ⟨r, env', entries', hput, hminus, hsize, hblock, hputs⟩ := putglobenv_puts h hne hname htext
    by_cases hr : r = -1
    · refine ⟨fun _ => ?_, fun _ => ⟨r, env', hput, .inl ⟨hr, hminus hr⟩⟩⟩
      subst hr
      cases hputs with
      | refused habsent =>
        rw [plain_iff hne hname]
        intro hvalue
        have hnil : (entries.filter fun e => e.name = name) = [] :=
          List.filter_eq_nil_iff.2 fun x hx => by simpa using habsent hvalue x hx
        exact ⟨by simp [hnil], fun e he hename => absurd hename (habsent hvalue e he)⟩
    · have hzero : r = 0 := by cases hputs <;> first | rfl | exact absurd rfl hr
      subst hzero
      rw [← hputs.value_iff hne hname, ← getglobenv_eq hblock hne hname]
      constructor
      · rintro ⟨r, env'', hput', ⟨rfl, -⟩ | ⟨-, name', value', hoption, hname', hassigned⟩⟩
        · simp [hput] at hput'
        · obtain ⟨rfl, rfl⟩ := split_name hname hname' hoption
          obtain ⟨-, rfl⟩ : _ ∧ env' = env'' := by simpa [hput] using hput'
          exact hassigned.value
      · intro hvalue
        refine ⟨0, env', hput,
          .inr ⟨rfl, name, value, rfl, hname, ⟨entries', hblock, hputs.others_eq⟩, hsize, hvalue, ?_⟩⟩
        intro other hother hfront hdiff
        rw [getglobenv_eq hblock hother hfront, getglobenv_eq h hother hfront, ← find_others hdiff entries,
          ← hputs.others_eq, find_others hdiff]
  · have hmalformed : ∀ name value, option = name ++ equals :: value → name ≠ [] → equals ∈ name :=
      fun name value hoption hne => by_contra fun hname => hassigns ⟨name, value, hoption, hne, hname⟩
    refine ⟨fun _ name hoption hne hname => absurd (hmalformed name [] hoption hne) hname, fun _ => ?_⟩
    exact ⟨-1, env, putglobenv_malformed hmalformed env, .inl ⟨rfl, rfl⟩⟩

/-- The block after some calls. -/
def puts (env : List UInt8) : List (List UInt8) → Option (List UInt8)
  | [] => some env
  | option :: calls => (putglobenv env option).bind fun done => puts done.2 calls

/-- A call leaves a well-formed block of the same size. -/
theorem putglobenv_block {env : List UInt8} {entries : List Entry} (h : Block env entries) {option : List UInt8}
    (htext : Text option) : ∃ r env' entries', putglobenv env option = some (r, env') ∧ env'.length = env.length ∧
      Block env' entries' := by
  by_cases hassigns : ∃ name value, option = name ++ equals :: value ∧ name ≠ [] ∧ equals ∉ name
  · obtain ⟨name, value, rfl, hne, hname⟩ := hassigns
    obtain ⟨r, env', entries', hput, -, hsize, hblock, -⟩ := putglobenv_puts h hne hname htext
    exact ⟨r, env', entries', hput, hsize, hblock⟩
  · exact ⟨-1, env, entries, putglobenv_malformed (fun name value hoption hne =>
      by_contra fun hname => hassigns ⟨name, value, hoption, hne, hname⟩) env, rfl, h⟩

theorem puts_block {env : List UInt8} {entries : List Entry} (h : Block env entries) {calls : List (List UInt8)}
    (hcalls : ∀ option ∈ calls, Text option) :
    ∃ reached held, puts env calls = some reached ∧ reached.length = env.length ∧ Block reached held := by
  induction calls generalizing env entries with
  | nil => exact ⟨env, entries, rfl, rfl, h⟩
  | cons option calls ih =>
    obtain ⟨r, env', entries', hput, hsize, hblock⟩ := putglobenv_block h (hcalls option List.mem_cons_self)
    obtain ⟨reached, held, hputs, hlength, hheld⟩ := ih hblock fun x hx => hcalls x (List.mem_cons_of_mem _ hx)
    exact ⟨reached, held, by rw [puts, hput, Option.bind_some, hputs], hlength.trans hsize, hheld⟩

/-- After any calls on a well-formed block, the next one does what a map does exactly where a variable to be taken out
is there once and has a value. -/
theorem puts_maps_iff {env : List UInt8} {entries : List Entry} (h : Block env entries) {calls : List (List UInt8)}
    (hcalls : ∀ option ∈ calls, Text option) :
    ∃ reached, puts env calls = some reached ∧ reached.length = env.length ∧ (∃ held, Block reached held) ∧
      ∀ held, Block reached held → ∀ option, Text option → (Maps reached held option ↔ Plain held option) := by
  obtain ⟨reached, held, hputs, hlength, hheld⟩ := puts_block h hcalls
  exact ⟨reached, hputs, hlength, ⟨held, hheld⟩, fun _ hblock _ htext => maps_iff_plain hblock htext⟩

/-- `A=1` in a paragraph, and `B=2` put behind it. -/
theorem puts_maps_iff_second :
    ∃ reached, puts ([65, 61, 49, 0] ++ List.replicate 12 0) [[66, 61, 50]] = some reached ∧
      reached.length = ([65, 61, 49, 0] ++ List.replicate 12 (0 : UInt8)).length ∧ (∃ held, Block reached held) ∧
        ∀ held, Block reached held → ∀ option, Text option → (Maps reached held option ↔ Plain held option) :=
  have hblock : Block ([65, 61, 49, 0] ++ List.replicate 12 0) [⟨[65], [49]⟩] :=
    ⟨⟨List.replicate 11 0, by decide⟩, by
      intro e he
      rw [List.mem_singleton.1 he]
      exact ⟨by decide, by simp [Text, Entry.text, equals]⟩, by decide⟩
  puts_maps_iff hblock
    (by
      intro option hoption
      rw [List.mem_singleton.1 hoption]
      simp [Text])

/-- Taking out a variable with an empty value: the call says it is done, and the variable is still there. -/
theorem not_maps_emptyValue :
    Block ([65, 61, 0] ++ List.replicate 13 0) [⟨[65], []⟩] ∧ Text [65, 61] ∧
      putglobenv ([65, 61, 0] ++ List.replicate 13 0) [65, 61] = some (0, [65, 61, 0] ++ List.replicate 13 0) ∧
      getglobenv ([65, 61, 0] ++ List.replicate 13 0) [65] = some [] ∧
      ¬ Maps ([65, 61, 0] ++ List.replicate 13 0) [⟨[65], []⟩] [65, 61] := by
  have hblock : Block ([65, 61, 0] ++ List.replicate 13 0) [⟨[65], []⟩] :=
    ⟨⟨List.replicate 12 0, by decide⟩, by
      intro e he
      rw [List.mem_singleton.1 he]
      exact ⟨by decide, by simp [Text, Entry.text, equals]⟩, by decide⟩
  have htext : Text [65, 61] := by simp [Text]
  have hnot : ¬ Plain [⟨[65], []⟩] [65, 61] := fun h =>
    (h [65] rfl (by decide) (by decide)).2 ⟨[65], []⟩ (by simp) rfl rfl
  refine ⟨hblock, htext, ?_, ?_, fun h => hnot ((maps_iff_plain hblock htext).1 h)⟩
  · simp [putglobenv, advance, aktsize, named, cstr, next, equals]
  · simp [getglobenv, advance, aktsize, named, cstr, next, equals]

end CProgram.Netpc.Globenv
