import CProgram.Terminal.Collected

/-! What the emulations make of one byte: they go on and keep it, or they give the sequence up and keep all of it. -/
namespace CProgram.Terminal.Collected

variable {cfg : Config} {s : State} {ch : UInt8} {kept : List UInt8} {count : ℕ} {events : List Event}

/-! The parameters are read inside the buffer -/

theorem readChar_eq (h : count < room) : readChar kept count = some (kept.getD count 0) := by
  rw [readChar, if_pos h]

theorem lt_of_getD {ch : UInt8} (h : kept.getD count 0 = ch) (hch : ch ≠ 0) : count < kept.length := by
  by_contra hge
  rw [List.getD_eq_getElem?_getD, List.getElem?_eq_none (Nat.le_of_not_lt hge)] at h
  exact hch h.symm

theorem lt_of_digit (h : ¬ (!isDigit (kept.getD count 0)) = true) : count < kept.length := by
  apply lt_of_getD rfl
  intro hzero
  rw [hzero] at h
  exact h rfl

theorem ansiPs_some (kept : List UInt8) (count : ℕ) (hroom : kept.length < room) (hcount : count < room) :
    ∃ ps next, ansiPs kept count = some (ps, next) ∧ next ≤ max count kept.length := by
  rw [ansiPs, readChar_eq hcount, Option.bind_some]
  split
  · exact ⟨_, _, rfl, le_max_left _ _⟩
  · next hfirst =>
    have hone := lt_of_digit hfirst
    rw [readChar_eq (by omega), Option.bind_some]
    split
    · exact ⟨_, _, rfl, by omega⟩
    · next hsecond =>
      have htwo := lt_of_digit hsecond
      rw [readChar_eq (by omega), Option.bind_some]
      split
      · exact ⟨_, _, rfl, by omega⟩
      · next hthird =>
        have hthree := lt_of_digit hthird
        rw [readChar_eq (by omega), Option.bind_some]
        split
        · exact ⟨_, _, rfl, by omega⟩
        · exact ⟨_, _, rfl, by omega⟩

theorem oneParameter_some (least omitted : ℕ) (count : ℕ) (hroom : kept.length + 1 < room) (hcount : count + 1 < room) :
    ∃ value, oneParameter least omitted kept count = some value := by
  rw [oneParameter, readChar_eq (by omega), Option.bind_some]
  split
  · exact ⟨_, rfl⟩
  · obtain ⟨ps, next, hps, hnext⟩ := ansiPs_some kept count (by omega) (by omega)
    rw [hps, Option.bind_some]
    cases ps with
    | none => exact ⟨_, rfl⟩
    | some n =>
      dsimp only
      split
      · exact ⟨_, rfl⟩
      · rw [readChar_eq (by omega), Option.bind_some]
        split
        · exact ⟨_, rfl⟩
        · split
          · exact ⟨_, rfl⟩
          · next hsemi =>
            have hinside := lt_of_getD (not_not.mp hsemi) (by decide)
            rw [readChar_eq (by omega), Option.bind_some]
            split
            · exact ⟨_, rfl⟩
            · exact ⟨_, rfl⟩

theorem ansiPosition_behind (row col c : ℕ) (hc : c + 1 < room) : ∃ position : Option (ℕ × ℕ),
    ((readChar kept (c + 1)).bind fun last =>
      if last = 0 then some (some (row, col)) else if c + 1 < room then some none else some (some (row, col))) =
      some position := by
  rw [readChar_eq hc, Option.bind_some]
  split
  · exact ⟨_, rfl⟩
  · exact ⟨_, rfl⟩

theorem ansiPosition_column (row c : ℕ) (hroom : kept.length + 1 < room) (hc : c + 1 < room) : ∃ position : Option (ℕ × ℕ),
    ((readChar kept c).bind fun next =>
      if next = 0 then ((readChar kept (c + 1)).bind fun last =>
        if last = 0 then some (some (row, 0)) else if c + 1 < room then some none else some (some (row, 0)))
      else if next ≠ code ';' then some none
      else (ansiPs kept (c + 1)).bind fun (ps, count) =>
        match ps with
        | none => some none
        | some n => ((readChar kept (count + 1)).bind fun last =>
            if last = 0 then some (some (row, n - 1)) else if count + 1 < room then some none
            else some (some (row, n - 1)))) = some position := by
  rw [readChar_eq (by omega), Option.bind_some]
  by_cases hzero : kept.getD c 0 = 0
  · rw [if_pos hzero]
    exact ansiPosition_behind row 0 c hc
  · rw [if_neg hzero]
    by_cases hother : kept.getD c 0 ≠ code ';'
    · rw [if_pos hother]
      exact ⟨_, rfl⟩
    · rw [if_neg hother]
      have hinside := lt_of_getD (not_not.mp hother) (by decide)
      obtain ⟨ps, next, hps, hnext⟩ := ansiPs_some kept (c + 1) (by omega) hc
      rw [hps, Option.bind_some]
      cases ps with
      | none => exact ⟨_, rfl⟩
      | some n => exact ansiPosition_behind row (n - 1) next (by omega)

theorem ansiPosition_some (count : ℕ) (hroom : kept.length + 1 < room) (hcount : count + 2 < room) :
    ∃ position, ansiPosition kept count = some position := by
  rw [ansiPosition, readChar_eq (by omega), Option.bind_some]
  split
  · exact ansiPosition_column 0 (count + 1) hroom (by omega)
  · obtain ⟨ps, next, hps, hnext⟩ := ansiPs_some kept count (by omega) (by omega)
    rw [hps, Option.bind_some]
    cases ps with
    | none => exact ⟨_, rfl⟩
    | some n => exact ansiPosition_column (n - 1) next hroom (by omega)

theorem ansiColorLoop_some (cfg : Config) (fuel count : ℕ) (hroom : kept.length < room) (output : Attr) (fg bg : ℕ) :
    ∃ result, ansiColorLoop cfg kept fuel count output fg bg = some result := by
  induction fuel generalizing count output fg bg with
  | zero => exact ⟨_, rfl⟩
  | succ fuel ih =>
    rw [ansiColorLoop]
    split
    · next hcount =>
      obtain ⟨ps, next, hps, hnext⟩ := ansiPs_some kept count hroom hcount
      rw [hps, Option.bind_some]
      cases ps with
      | none => exact ⟨_, rfl⟩
      | some n =>
        dsimp only
        rw [readChar_eq (by omega), Option.bind_some]
        split
        · exact ⟨_, rfl⟩
        · exact ih _ _ _ _
    · exact ⟨_, rfl⟩

theorem ansiColor_some (cfg : Config) (s : State) (kept : List UInt8) (hroom : kept.length < room) :
    ∃ parsed output, ansiColor cfg s kept = some (parsed, output) := by
  obtain ⟨⟨parsed, output⟩, hresult⟩ := ansiColorLoop_some cfg room s.count hroom
    { s.attributes with pair := 0 } (s.color.pair / 8 % 8) (s.color.pair % 8)
  exact ⟨parsed, output, hresult⟩

/-! What is seen -/

/-- The sequence that began last: what the emulation had then, and the bytes that were stored since. -/
structure Seen where
  start : Option Memory
  bytes : List UInt8

def Seen.next (seen : Seen) : Event → Seen
  | .began memory => ⟨some memory, []⟩
  | .stored ch => { seen with bytes := seen.bytes ++ [ch] }
  | .act _ | .print _ | .rejected => seen

def seen (events : List Event) : Seen := events.foldl Seen.next ⟨none, []⟩

def prints (events : List Event) : List ℕ :=
  events.filterMap fun
    | .print ch => some ch
    | _ => none

/-- A sequence with its ESC in front, as it is shown. -/
def shown (cfg : Config) : List UInt8 → List ℕ
  | [] => []
  | ch :: rest => (if cfg.emulator = .petscii then cfg.codepageMapChar ch else ch.toNat) :: rest.map cfg.codepageMapChar

/-- The byte makes the emulation give up the sequence. -/
def Rejects (cfg : Config) (s : State) (ch : UInt8) : Prop :=
  ∃ reply, terminalEmulator cfg s ch = some reply ∧ .rejected ∈ reply.events

def Ground (s : State) : Prop := s.scan = .none ∧ s.kept = [] ∧ s.i = 0 ∧ s.lastState ≠ .manyChars

/-- What goes to the buffer: VT52 strips the high bit. -/
def stored (cfg : Config) (ch : UInt8) : UInt8 := if cfg.emulator = .vt52 then ch &&& 127 else ch

/-- A color sequence that fails changes no attribute; in PETSCII its `m` is in the buffer before it is read. -/
def Colors (cfg : Config) (s : State) (ch : UInt8) : Prop :=
  cfg.emulator ≠ .ansi → s.scan = .csiParam → stored cfg ch = code 'm' → ∀ output,
    ansiColor cfg s (if cfg.emulator = .petscii then s.kept ++ [stored cfg ch] else s.kept) = some (false, output) →
      { output with pair := 0 } = { s.attributes with pair := 0 }

/-- The buffer has not been emptied behind the sequence and has room for two more bytes, no mode is set, and a color
sequence that fails changes no attribute. -/
structure Fit (cfg : Config) (s : State) (ch : UInt8) : Prop where
  whole : s.kept.head? = some escape
  short : s.kept.length + 2 < room
  modes : s.privateMode = false ∧ s.decPrivateMode = false
  colors : Colors cfg s ch

/-! Between two bytes -/

/-- The states in which parameters are collected, however many. -/
def Scan.long : Scan → Bool
  | .count | .countTwo | .countMany | .csiParam => true
  | _ => false

/-- How much is in the buffer in the other states. -/
def Scan.size : Scan → ℕ
  | .esc => 1
  | .startSequence | .music | .y1 | .csi => 2
  | .y2 => 3
  | _ => 0

def scansOf : Emulator → List Scan
  | .ansi => [.none, .esc, .startSequence, .count, .countTwo, .countMany, .music]
  | .vt52 => [.none, .esc, .y1, .y2, .csi, .csiParam]
  | .petscii => [.none, .esc, .csi, .csiParam]

/-- The memory without the modes of a sequence. -/
def Memory.plain (m : Memory) : Memory := { m with privateMode := false, decPrivateMode := false }

/-- In a sequence: what there was at its begin is there still, and its bytes are in the buffer unless that was emptied
behind it. -/
structure Inside (cfg : Config) (s : State) (seen : Seen) : Prop where
  start : seen.start = some (memory cfg s).plain
  bytes : s.kept = seen.bytes ∧ s.kept.head? = some escape ∨ s.kept.head? ≠ some escape ∧ s.scan.long = true

structure Inv (cfg : Config) (s : State) (events : List Event) : Prop where
  scan : s.scan ∈ scansOf cfg.emulator
  read : s.i = 0
  room : s.kept.length < room
  size : s.scan.long = false → s.kept.length = s.scan.size
  count : s.scan.long = true → s.count = 2
  music : s.scan = .music → s.music.length < musicRoom
  modes : s.scan = .none ∨ cfg.emulator ≠ .ansi → s.privateMode = false ∧ s.decPrivateMode = false
  inside : s.scan ≠ .none → Inside cfg s (seen events)

theorem seen_append (events more : List Event) : seen (events ++ more) = more.foldl Seen.next (seen events) :=
  List.foldl_append

/-- The emulation has gone on, or is in the ground state. -/
structure Goes (cfg : Config) (events : List Event) (reply : Reply) : Prop where
  once : reply.status ≠ .manyChars
  known : .rejected ∉ reply.events
  inv : Inv cfg reply.state (events ++ reply.events)

/-- The emulation has given up a sequence, and shows its first byte. -/
structure GivesUp (cfg : Config) (s : State) (ch : UInt8) (reply : Reply) : Prop where
  rejected : reply.events = [.stored (stored cfg ch), .rejected]
  dumps : ∀ first rest, s.kept = first :: rest → ∃ attributes,
    reply.status = .manyChars ∧ reply.toScreen = (if cfg.emulator = .petscii then cfg.codepageMapChar first else first.toNat) ∧
    reply.state = { s with
      scan := if cfg.emulator = .petscii then .dump else .none
      kept := s.kept ++ [stored cfg ch]
      i := 1
      attributes := attributes } ∧
    (Colors cfg s ch → cfg.emulator ≠ .ansi → { attributes with pair := 0 } = { s.attributes with pair := 0 })

def Moves (cfg : Config) (s : State) (events : List Event) (ch : UInt8) (reply : Option Reply) : Prop :=
  ∃ r, reply = some r ∧ (Goes cfg events r ∨ GivesUp cfg s ch r)

theorem none_mem (e : Emulator) : Scan.none ∈ scansOf e := by cases e <;> decide

/-- Where the scan was before is not read. -/
theorem keep_scan (s : State) (scan other : Scan) (c : UInt8) : keep { s with scan := other } c scan = keep s c scan := by
  rw [keep, keep, State.saveChar, State.saveChar]
  split <;> rfl

theorem inv_clear (cfg : Config) (s : State) (events : List Event) : Inv cfg s.clear events where
  scan := none_mem _
  read := rfl
  room := by simp [State.clear, Collected.room]
  size _ := rfl
  count hlong := by cases hlong
  music hscan := by cases hscan
  modes _ := ⟨rfl, rfl⟩
  inside hscan := absurd rfl hscan

theorem done_moves (s t : State) (actions : List Action) : Moves cfg s events ch (done t actions) := by
  refine ⟨_, rfl, Or.inl ⟨by simp, by simp, inv_clear cfg t _⟩⟩

/-- A byte of a sequence goes to the buffer. -/
theorem keep_moves (ch : UInt8) (h : Inv cfg s events) (hroom : s.kept.length + 1 < room) (hs : s.scan ≠ .none) (n : ℕ) (scan : Scan)
    (hmem : scan ∈ scansOf cfg.emulator) (hnone : scan ≠ .none) (hmusic : scan ≠ .music)
    (hcount : scan.long = true → n = 2) (hsize : scan.long = false → s.scan.long = false ∧ s.scan.size + 1 = scan.size)
    (hlong : s.scan.long = true → scan.long = true ∧ stored cfg ch ≠ escape) :
    Moves cfg s events ch (keep { s with count := n } (stored cfg ch) scan) := by
  obtain ⟨hstart, hbytes⟩ := h.inside hs
  refine ⟨⟨.noCharYet, 1, [.stored (stored cfg ch)],
    { s with count := n, kept := s.kept ++ [stored cfg ch], scan := scan }⟩, ?_, Or.inl ⟨by simp, by simp, ?_⟩⟩
  · rw [keep, State.saveChar, if_pos (Nat.lt_of_succ_lt hroom)]
    rfl
  · constructor
    · exact hmem
    · exact h.read
    · simpa using hroom
    · intro hshort
      obtain ⟨hbefore, hnext⟩ := hsize hshort
      simp [h.size hbefore, hnext]
    · exact hcount
    · exact fun hscan => absurd hscan hmusic
    · intro hmodes
      exact h.modes (Or.inr (hmodes.resolve_left hnone))
    · intro _
      rw [seen_append]
      constructor
      · exact hstart
      · cases hbytes with
        | inl hwhole =>
          obtain ⟨hkept, hhead⟩ := hwhole
          refine Or.inl ⟨by simp [Seen.next, hkept], ?_⟩
          cases hk : s.kept with
          | nil => rw [hk] at hhead; cases hhead
          | cons first rest => rw [hk] at hhead; simpa using hhead
        | inr hcut =>
          obtain ⟨hhead, hl⟩ := hcut
          refine Or.inr ⟨?_, (hlong hl).1⟩
          cases hk : s.kept with
          | nil => simpa using (hlong hl).2
          | cons first rest => rw [hk] at hhead; simpa using hhead

theorem unknown_moves (ch : UInt8) (h : Inv cfg s events) (hroom : s.kept.length + 1 < room) (he : cfg.emulator ≠ .petscii)
    (attributes : Attr)
    (hcolors : Colors cfg s ch → cfg.emulator ≠ .ansi → { attributes with pair := 0 } = { s.attributes with pair := 0 }) :
    Moves cfg s events ch (unknown { s with attributes := attributes } (stored cfg ch)) := by
  have hsave : ({ s with attributes := attributes } : State).saveChar (stored cfg ch) =
      some { s with attributes := attributes, kept := s.kept ++ [stored cfg ch] } :=
    if_pos (Nat.lt_of_succ_lt hroom)
  have hread : readChar (s.kept ++ [stored cfg ch]) s.i = some ((s.kept ++ [stored cfg ch]).getD 0 0) := by
    rw [h.read]
    exact readChar_eq (by decide)
  rw [unknown, hsave, Option.bind_some]
  dsimp only
  rw [hread, Option.map_some]
  refine ⟨_, rfl, Or.inr ⟨by split <;> rfl, ?_⟩⟩
  intro first rest hkept
  refine ⟨attributes, ?_⟩
  rw [if_neg (by simp [hkept])]
  exact ⟨rfl, by simp [he, hkept], by simp [he, h.read], hcolors⟩

theorem inv_ground {t : State} (hscan : t.scan = .none) (hkept : t.kept = []) (hread : t.i = 0)
    (hmodes : t.privateMode = false ∧ t.decPrivateMode = false) (events : List Event) : Inv cfg t events where
  scan := hscan ▸ none_mem _
  read := hread
  room := by simp [hkept, Collected.room]
  size _ := by simp [hkept, hscan, Scan.size]
  count hlong := by rw [hscan] at hlong; cases hlong
  music hmusic := by rw [hscan] at hmusic; cases hmusic
  modes _ := hmodes
  inside hnone := absurd hscan hnone

theorem Inv.empty (h : Inv cfg s events) (hs : s.scan = .none) : s.kept = [] := by
  have hlength := h.size (by rw [hs]; rfl)
  rw [hs] at hlength
  exact List.length_eq_zero_iff.mp hlength

theorem ground_moves (h : Inv cfg s events) (hs : s.scan = .none) {t : State} {status : Status} {c : ℕ} {more : List Event}
    (hscan : t.scan = .none) (hkept : t.kept = s.kept) (hread : t.i = s.i) (hprivate : t.privateMode = s.privateMode)
    (hdec : t.decPrivateMode = s.decPrivateMode) (hstatus : status ≠ .manyChars) (hknown : .rejected ∉ more) :
    Moves cfg s events ch (some ⟨status, c, more, t⟩) := by
  obtain ⟨hp, hd⟩ := h.modes (Or.inl hs)
  exact ⟨_, rfl, Or.inl ⟨hstatus, hknown, inv_ground hscan (hkept.trans (h.empty hs)) (hread.trans h.read)
    ⟨hprivate.trans hp, hdec.trans hd⟩ _⟩⟩

theorem seen_acts (seen : Seen) (actions : List Action) : (actions.map Event.act).foldl Seen.next seen = seen := by
  induction actions with
  | nil => rfl
  | cons action actions ih => exact ih

/-- An ESC in the ground state, behind what else the byte does. -/
theorem begin_moves (cfg : Config) (events : List Event) (ch : UInt8) {t : State} (hkept : t.kept = []) (hread : t.i = 0)
    (hmodes : t.privateMode = false ∧ t.decPrivateMode = false) (s : State) (actions : List Action) :
    Moves cfg s events ch ((beginSequence cfg t).map fun reply =>
      { reply with events := actions.map .act ++ reply.events }) := by
  have hsave : t.saveChar escape = some { t with kept := [escape] } := by
    rw [State.saveChar, if_pos (by simp [hkept, room]), hkept]
    rfl
  rw [beginSequence, hsave, Option.map_some, Option.map_some]
  refine ⟨_, rfl, Or.inl ⟨by simp, by simp, ?_⟩⟩
  constructor
  · change Scan.esc ∈ scansOf cfg.emulator
    cases cfg.emulator <;> decide
  · exact hread
  · simp [room]
  · intro _
    rfl
  · intro hlong
    cases hlong
  · intro hmusic
    cases hmusic
  · intro _
    exact hmodes
  · intro _
    rw [seen_append, List.foldl_append, seen_acts]
    refine ⟨?_, Or.inl ⟨rfl, rfl⟩⟩
    obtain ⟨hp, hd⟩ := hmodes
    simp [Seen.next, memory, Memory.plain, hp, hd]

theorem stays_moves (h : Inv cfg s events) (hs : s.scan ≠ .none) {t : State}
    (hmemory : (memory cfg t).plain = (memory cfg s).plain) (hkept : t.kept = s.kept) (hread : t.i = s.i)
    (hcount : t.count = s.count) (hscan : t.scan ∈ scansOf cfg.emulator) (hnone : t.scan ≠ .none)
    (hlong : t.scan.long = s.scan.long) (hsize : t.scan.size = s.scan.size)
    (hmusic : t.scan = .music → t.music.length < musicRoom)
    (hmodes : cfg.emulator ≠ .ansi → t.privateMode = false ∧ t.decPrivateMode = false) :
    Moves cfg s events ch (some ⟨.noCharYet, 1, [], t⟩) := by
  obtain ⟨hstart, hbytes⟩ := h.inside hs
  refine ⟨_, rfl, Or.inl ⟨by simp, by simp, ?_⟩⟩
  constructor
  · exact hscan
  · exact hread.trans h.read
  · exact hkept ▸ h.room
  · intro hshort
    rw [hkept, hsize]
    exact h.size (hlong ▸ hshort)
  · intro hl
    exact hcount.trans (h.count (hlong ▸ hl))
  · exact hmusic
  · intro hor
    exact hmodes (hor.resolve_left hnone)
  · intro _
    rw [List.append_nil]
    refine ⟨hstart.trans (congrArg some hmemory.symm), ?_⟩
    rw [hkept, hlong]
    exact hbytes

/-! ANSI -/

theorem not_escape_of_digit (h : isDigit ch = true) : ch ≠ escape := by
  rintro rfl
  cases h

theorem sgr_moves (ch : UInt8) (h : Inv cfg s events) (hroom : s.kept.length + 1 < room) (he : cfg.emulator ≠ .petscii)
    (hscan : cfg.emulator ≠ .ansi → s.scan = .csiParam) (hm : stored cfg ch = code 'm') :
    Moves cfg s events ch (ansiSgr cfg s (stored cfg ch)) := by
  obtain ⟨parsed, output, hcolor⟩ := ansiColor_some cfg s s.kept h.room
  rw [ansiSgr, hcolor, Option.bind_some]
  cases parsed with
  | true => exact done_moves s _ _
  | false =>
    apply unknown_moves _ h hroom he output
    intro hcolors hansi
    apply hcolors hansi (hscan hansi) hm output
    rw [if_neg he]
    exact hcolor

theorem cursor_moves (ch : UInt8) (h : Inv cfg s events) (hroom : s.kept.length + 1 < room) (he : cfg.emulator ≠ .petscii)
    (hlong : s.scan.long = true) : Moves cfg s events ch (ansiCursor s (stored cfg ch)) := by
  obtain ⟨position, hposition⟩ := ansiPosition_some s.count hroom (by rw [h.count hlong]; decide)
  rw [ansiCursor, hposition, Option.bind_some]
  cases position with
  | none => exact unknown_moves _ h hroom he s.attributes fun _ _ => rfl
  | some at_ => exact done_moves s _ _

section Ansi
variable (he : cfg.emulator = .ansi)
include he

theorem stored_ansi : stored cfg ch = ch := by rw [stored, he]; rfl

theorem unknown_ansi (h : Inv cfg s events) (hroom : s.kept.length + 1 < room) :
    Moves cfg s events ch (unknown s ch) := by
  have hmoves := unknown_moves ch h hroom (by rw [he]; decide) s.attributes fun _ _ => rfl
  rwa [stored_ansi he] at hmoves

end Ansi

theorem scan_long (h : s.scan = .count ∨ s.scan = .countTwo ∨ s.scan = .countMany ∨ s.scan = .csiParam) :
    s.scan.long = true := by
  rcases h with h | h | h | h <;> rw [h] <;> rfl

section Ansi
variable (he : cfg.emulator = .ansi)
include he

theorem ansiStart_moves (h : Inv cfg s events) (hroom : s.kept.length + 1 < room) (hs : s.scan = .startSequence) :
    Moves cfg s events ch (ansiStart cfg s ch) := by
  have hin : s.scan ≠ .none := by rw [hs]; decide
  have htwo : s.kept.length = 2 := by
    have hsize := h.size (by rw [hs]; rfl)
    rwa [hs] at hsize
  have hkeep (scan : Scan) (hscan : scan = .count ∨ scan = .countTwo) :
      Moves cfg s events ch (keep { s with count := s.kept.length } ch scan) := by
    have hmoves := keep_moves ch h hroom hin s.kept.length scan
      (by rw [he]; rcases hscan with rfl | rfl <;> decide) (by rcases hscan with rfl | rfl <;> decide)
      (by rcases hscan with rfl | rfl <;> decide) (fun _ => htwo)
      (by rcases hscan with rfl | rfl <;> exact fun hlong => by cases hlong) (by rw [hs]; exact fun hlong => by cases hlong)
    rwa [stored_ansi he] at hmoves
  rw [ansiStart]
  split
  · exact hkeep .count (Or.inl rfl)
  · split
    · exact done_moves s _ _
    · split
      · exact hkeep .countTwo (Or.inr rfl)
      · split
        · split
          · apply stays_moves (t := { s with scan := .music, music := [ch] }) h hin rfl rfl rfl rfl <;>
              simp_all [scansOf, Scan.long, Scan.size, musicRoom]
          · exact done_moves s _ _
        · split
          · apply stays_moves (t := { s with privateMode := true }) h hin rfl rfl rfl rfl <;> simp_all [scansOf]
          · split
            · apply stays_moves (t := { s with decPrivateMode := true }) h hin rfl rfl rfl rfl <;> simp_all [scansOf]
            · split
              · exact done_moves s _ _
              · exact unknown_ansi he h hroom

theorem keep_ansi (h : Inv cfg s events) (hroom : s.kept.length + 1 < room)
    (hs : s.scan = .count ∨ s.scan = .countTwo ∨ s.scan = .countMany) {scan : Scan}
    (hscan : scan = .count ∨ scan = .countTwo ∨ scan = .countMany) (hch : ch ≠ escape) :
    Moves cfg s events ch (keep s ch scan) := by
  have hlong : s.scan.long = true := scan_long (by tauto)
  have hmoves := keep_moves ch h hroom (by rcases hs with hs | hs | hs <;> rw [hs] <;> decide) s.count scan (by rw [he]; rcases hscan with rfl | rfl | rfl <;> decide)
    (by rcases hscan with rfl | rfl | rfl <;> decide) (by rcases hscan with rfl | rfl | rfl <;> decide)
    (fun _ => h.count hlong) (by rcases hscan with rfl | rfl | rfl <;> exact fun hshort => by cases hshort)
    (fun _ => ⟨by rcases hscan with rfl | rfl | rfl <;> rfl, by rw [stored_ansi he]; exact hch⟩)
  rwa [stored_ansi he] at hmoves

theorem sgr_ansi (h : Inv cfg s events) (hroom : s.kept.length + 1 < room) (hm : ch = code 'm') :
    Moves cfg s events ch (ansiSgr cfg s ch) := by
  have hmoves := sgr_moves ch h hroom (by rw [he]; decide) (fun hnot => absurd he hnot)
    (by rw [stored_ansi he]; exact hm)
  rwa [stored_ansi he] at hmoves

theorem cursor_ansi (h : Inv cfg s events) (hroom : s.kept.length + 1 < room) (hlong : s.scan.long = true) :
    Moves cfg s events ch (ansiCursor s ch) := by
  have hmoves := cursor_moves ch h hroom (by rw [he]; decide) hlong
  rwa [stored_ansi he] at hmoves

theorem ansiCount_moves (h : Inv cfg s events) (hroom : s.kept.length + 1 < room) (hs : s.scan = .count) :
    Moves cfg s events ch (ansiCount cfg s ch) := by
  have hlong : s.scan.long = true := scan_long (Or.inl hs)
  have hcount := h.count hlong
  rw [ansiCount]
  split
  · next hdigit => exact keep_ansi he h hroom (Or.inl hs) (Or.inl rfl) (not_escape_of_digit hdigit)
  · split
    · next hsemi => exact keep_ansi he h hroom (Or.inl hs) (Or.inr (Or.inl rfl)) (by rw [hsemi]; decide)
    · split
      · exact cursor_ansi he h hroom hlong
      · split
        · next hm => exact sgr_ansi he h hroom hm
        · split
          · exact done_moves s _ _
          · split
            · exact done_moves s _ _
            · split
              · obtain ⟨ps, next, hps, -⟩ := ansiPs_some s.kept s.count h.room (by rw [hcount]; decide)
                rw [hps, Option.bind_some]
                cases ps with
                | none => exact unknown_ansi he h hroom
                | some n => exact done_moves s _ _
              · split
                · next row _ =>
                  obtain ⟨value, hvalue⟩ := oneParameter_some row.2.1 row.2.2.1 s.count hroom
                    (by rw [hcount]; decide)
                  rw [hvalue, Option.bind_some]
                  cases value with
                  | none => exact unknown_ansi he h hroom
                  | some n => exact done_moves s _ _
                · exact unknown_ansi he h hroom

theorem ansiCountTwo_moves (h : Inv cfg s events) (hroom : s.kept.length + 1 < room) (hs : s.scan = .countTwo) :
    Moves cfg s events ch (ansiCountTwo cfg s ch) := by
  have hlong : s.scan.long = true := scan_long (Or.inr (Or.inl hs))
  rw [ansiCountTwo]
  split
  · next hdigit => exact keep_ansi he h hroom (Or.inr (Or.inl hs)) (Or.inr (Or.inl rfl)) (not_escape_of_digit hdigit)
  · split
    · next hsemi => exact keep_ansi he h hroom (Or.inr (Or.inl hs)) (Or.inr (Or.inr rfl)) (by rw [hsemi]; decide)
    · split
      · exact cursor_ansi he h hroom hlong
      · split
        · next hm => exact sgr_ansi he h hroom hm
        · exact unknown_ansi he h hroom

theorem ansiCountMany_moves (h : Inv cfg s events) (hroom : s.kept.length + 1 < room) (hs : s.scan = .countMany) :
    Moves cfg s events ch (ansiCountMany cfg s ch) := by
  rw [ansiCountMany]
  split
  · next hor =>
    apply keep_ansi he h hroom (Or.inr (Or.inr hs)) (Or.inr (Or.inr rfl))
    cases hor with
    | inl hdigit => exact not_escape_of_digit hdigit
    | inr hsemi => rw [hsemi]; decide
  · split
    · next hm => exact sgr_ansi he h hroom hm
    · exact unknown_ansi he h hroom

theorem ansiMusic_moves (h : Inv cfg s events) (hs : s.scan = .music) : Moves cfg s events ch (ansiMusic s ch) := by
  rw [ansiMusic]
  split
  · exact done_moves s _ _
  · rw [if_pos (h.music hs)]
    dsimp only
    split
    · exact done_moves s _ _
    · next hlength =>
      apply stays_moves (t := { s with music := s.music ++ [ch] }) h (by rw [hs]; decide) rfl rfl rfl rfl h.scan (by rw [hs]; decide) rfl rfl
      · exact fun _ => Nat.lt_of_not_le hlength
      · exact fun hnot => absurd he hnot

theorem ansi_moves (h : Inv cfg s events) (hroom : s.kept.length + 1 < room) :
    Moves cfg s events ch (ansi cfg s ch) := by
  have hscans := h.scan
  rw [he] at hscans
  rw [ansi]
  cases hs : s.scan with
  | none =>
    dsimp only
    split
    · have hmoves := begin_moves cfg events ch (t := { s with scan := .none, attributes := s.color })
        (h.empty hs) h.read (h.modes (Or.inl hs)) s []
      simpa using hmoves
    · split
      · exact ground_moves h hs hs rfl rfl rfl rfl (by decide) (by simp)
      · exact ground_moves h hs rfl rfl rfl rfl rfl (by decide) (by simp)
  | esc =>
    dsimp only
    have hin : s.scan ≠ .none := by rw [hs]; decide
    split
    · have hmoves := keep_moves ch h hroom hin s.count .startSequence (by rw [he]; decide)
        (by decide) (by decide) (fun hlong => by cases hlong) (fun _ => by rw [hs]; decide)
        (by rw [hs]; exact fun hlong => by cases hlong)
      rwa [stored_ansi he] at hmoves
    · split
      · exact done_moves s _ _
      · split
        · exact stays_moves h hin rfl rfl rfl rfl h.scan hin rfl rfl (fun hmusic => by rw [hs] at hmusic; cases hmusic)
            fun hnot => absurd he hnot
        · exact unknown_ansi he h hroom
  | startSequence => exact ansiStart_moves he h hroom hs
  | count => exact ansiCount_moves he h hroom hs
  | countTwo => exact ansiCountTwo_moves he h hroom hs
  | countMany => exact ansiCountMany_moves he h hroom hs
  | music => exact ansiMusic_moves he h hs
  | y1 | y2 | csi | csiParam | dump => exact unknown_ansi he h hroom

end Ansi

theorem vt52Ground_moves {t : State} (hscan : t.scan = .none) (hkept : t.kept = []) (hread : t.i = 0)
    (hmodes : t.privateMode = false ∧ t.decPrivateMode = false) (s : State) (c : UInt8) (actions : List Action) :
    Moves cfg s events ch (vt52Ground cfg t c actions) := by
  rw [vt52Ground]
  split
  · exact begin_moves cfg events ch hkept hread hmodes s actions
  · split
    · exact done_moves s _ _
    · split
      · exact done_moves s _ _
      · split
        · exact done_moves s _ _
        · split
          · exact done_moves s _ _
          · exact ⟨_, rfl, Or.inl ⟨by simp, by simp, inv_ground hscan hkept hread hmodes _⟩⟩

section Vt52
variable (he : cfg.emulator = .vt52)
include he

theorem stored_vt52 : stored cfg ch = ch &&& 127 := by rw [stored, he]; rfl

theorem unknown_vt52 (h : Inv cfg s events) (hroom : s.kept.length + 1 < room) :
    Moves cfg s events ch (unknown s (ch &&& 127)) := by
  have hmoves := unknown_moves ch h hroom (by rw [he]; decide) s.attributes fun _ _ => rfl
  rwa [stored_vt52 he] at hmoves

/-- A byte that is kept in VT52. -/
theorem keep_vt52 (ch : UInt8) (h : Inv cfg s events) (hroom : s.kept.length + 1 < room) (hs : s.scan ≠ .none) (n : ℕ) (scan : Scan)
    (hmem : scan ∈ scansOf .vt52) (hnone : scan ≠ .none) (hcount : scan.long = true → n = 2)
    (hsize : scan.long = false → s.scan.long = false ∧ s.scan.size + 1 = scan.size)
    (hlong : s.scan.long = true → scan.long = true ∧ ch &&& 127 ≠ escape) :
    Moves cfg s events ch (keep { s with count := n } (ch &&& 127) scan) := by
  have hmoves := keep_moves ch h hroom hs (n) scan (by rw [he]; exact hmem) hnone
    (by rintro rfl; revert hmem; decide) hcount hsize (by rw [stored_vt52 he]; exact hlong)
  rwa [stored_vt52 he] at hmoves

theorem vt52_moves (h : Inv cfg s events) (hroom : s.kept.length + 1 < room) :
    Moves cfg s events ch (vt52 cfg s ch) := by
  rw [vt52]
  cases hs : s.scan with
  | none => exact vt52Ground_moves hs (h.empty hs) h.read (h.modes (Or.inl hs)) s _ _
  | y1 =>
    exact keep_vt52 he _ h hroom (by rw [hs]; decide) s.count .y2 (by decide) (by decide) (fun hlong => by cases hlong)
      (by rw [hs]; decide) (by rw [hs]; exact fun hlong => by cases hlong)
  | y2 => exact done_moves s _ _
  | esc =>
    dsimp only
    rw [vt52Escape]
    split
    · exact done_moves s _ _
    · split
      · exact done_moves s _ _
      · split
        · exact keep_vt52 he _ h hroom (by rw [hs]; decide) s.count .y1 (by decide) (by decide) (fun hlong => by cases hlong)
            (by rw [hs]; decide) (by rw [hs]; exact fun hlong => by cases hlong)
        · split
          · split
            · exact keep_vt52 he _ h hroom (by rw [hs]; decide) s.count .csi (by decide) (by decide) (fun hlong => by cases hlong)
                (by rw [hs]; decide) (by rw [hs]; exact fun hlong => by cases hlong)
            · exact done_moves s _ _
          · split
            · exact done_moves s _ _
            · exact unknown_vt52 he h hroom
  | csi =>
    dsimp only
    have htwo : s.kept.length = 2 := by
      have hsize := h.size (by rw [hs]; rfl)
      rwa [hs] at hsize
    split
    · have hmoves := keep_vt52 he ch h hroom (by rw [hs]; decide) s.kept.length .csiParam (by decide) (by decide)
        (fun _ => htwo) (fun hshort => by cases hshort) (by rw [hs]; exact fun hlong => by cases hlong)
      rwa [← keep_scan { s with count := s.kept.length } .csiParam .csi] at hmoves
    · split
      · exact done_moves s _ _
      · exact vt52Ground_moves rfl rfl rfl ⟨rfl, rfl⟩ s _ _
  | csiParam =>
    dsimp only
    have hlong : s.scan.long = true := scan_long (by tauto)
    split
    · next hor =>
      have hch : ch &&& 127 ≠ escape := by
        cases hor with
        | inl hdigit => exact not_escape_of_digit hdigit
        | inr hsemi => rw [hsemi]; decide
      exact keep_vt52 he _ h hroom (by rw [hs]; decide) s.count .csiParam (by decide) (by decide)
        (fun _ => h.count hlong) (fun hshort => by cases hshort) fun _ => ⟨rfl, hch⟩
    · split
      · next hm =>
        have hmoves := sgr_moves ch h hroom (by rw [he]; decide) (fun _ => hs) (by rw [stored_vt52 he]; exact hm)
        rwa [stored_vt52 he] at hmoves
      · exact unknown_vt52 he h hroom
  | startSequence | count | countTwo | countMany | music | dump => exact unknown_vt52 he h hroom

end Vt52

theorem petsciiControl_same (s : State) (c : UInt8) : (petsciiControl s c).scan = s.scan ∧
    (petsciiControl s c).kept = s.kept ∧ (petsciiControl s c).i = s.i ∧
    (petsciiControl s c).privateMode = s.privateMode ∧ (petsciiControl s c).decPrivateMode = s.decPrivateMode := by
  rw [petsciiControl]
  dsimp only
  split <;> split_ifs <;> exact ⟨rfl, rfl, rfl, rfl, rfl⟩

theorem petsciiDone_moves (s t : State) : Moves cfg s events ch (petsciiDone t ch) :=
  ⟨_, rfl, Or.inl ⟨by simp, by simp, inv_clear cfg t _⟩⟩

section Petscii
variable (he : cfg.emulator = .petscii)
include he

theorem stored_petscii : stored cfg ch = ch := by rw [stored, he]; rfl

theorem petsciiUnknown_moves (h : Inv cfg s events) (attributes : Attr)
    (hcolors : Colors cfg s ch → { attributes with pair := 0 } = { s.attributes with pair := 0 }) :
    Moves cfg s events ch (petsciiUnknown cfg { s with kept := s.kept ++ [ch], attributes := attributes } ch) := by
  have hread : readChar (s.kept ++ [ch]) s.i = some ((s.kept ++ [ch]).getD 0 0) := by
    rw [h.read]
    exact readChar_eq (by decide)
  rw [petsciiUnknown]
  dsimp only
  rw [hread, Option.map_some]
  refine ⟨_, rfl, Or.inr ⟨by rw [stored_petscii he]; split <;> rfl, ?_⟩⟩
  intro first rest hkept
  refine ⟨attributes, ?_⟩
  rw [if_neg (by simp [hkept]), stored_petscii he]
  exact ⟨rfl, by simp [he, hkept], by simp [he, h.read], fun hc _ => hcolors hc⟩

theorem petscii_moves (h : Inv cfg s events) (hroom : s.kept.length + 1 < room) :
    Moves cfg s events ch (petscii cfg s ch) := by
  have hscans := h.scan
  rw [he] at hscans
  have hsave : s.saveChar ch = some { s with kept := s.kept ++ [ch] } := if_pos (Nat.lt_of_succ_lt hroom)
  have hkeep (n : ℕ) (scan : Scan) : keep { s with count := n } (stored cfg ch) scan =
      some ⟨.noCharYet, 1, [.stored ch], { s with count := n, kept := s.kept ++ [ch], scan := scan }⟩ := by
    rw [stored_petscii he, keep, State.saveChar, if_pos (Nat.lt_of_succ_lt hroom)]
    rfl
  rw [petscii]
  cases hs : s.scan with
  | none =>
    dsimp only
    rw [petsciiGround]
    split
    · have hmoves := begin_moves cfg events ch (h.empty hs) h.read
        (h.modes (Or.inl hs)) s []
      simpa using hmoves
    · split
      · obtain ⟨hscan, hkept, hread, hprivate, hdec⟩ := petsciiControl_same s ch
        exact ground_moves h hs (hscan.trans hs) hkept hread hprivate hdec (by decide) (by simp)
      · split
        · exact ground_moves h hs hs rfl rfl rfl rfl (by decide) (by simp)
        · exact ground_moves h hs hs rfl rfl rfl rfl (by decide) (by simp)
  | esc =>
    dsimp only
    rw [hsave, Option.bind_some]
    split
    · have hmoves := keep_moves ch h hroom (by rw [hs]; decide) s.count .csi
        (by rw [he]; decide) (by decide) (by decide) (fun hlong => by cases hlong) (fun _ => by rw [hs]; decide)
        (by rw [hs]; exact fun hlong => by cases hlong)
      rwa [hkeep] at hmoves
    · exact petsciiUnknown_moves he h s.attributes fun _ => rfl
  | csi =>
    dsimp only
    rw [hsave, Option.bind_some]
    have htwo : s.kept.length = 2 := by
      have hsize := h.size (by rw [hs]; rfl)
      rwa [hs] at hsize
    split
    · have hmoves := keep_moves ch h hroom (by rw [hs]; decide) s.kept.length .csiParam
        (by rw [he]; decide) (by decide) (by decide) (fun _ => htwo) (fun hshort => by cases hshort)
        (by rw [hs]; exact fun hlong => by cases hlong)
      rw [hkeep] at hmoves
      simpa using hmoves
    · split
      · exact petsciiDone_moves s _
      · exact petsciiUnknown_moves he h s.attributes fun _ => rfl
  | csiParam =>
    dsimp only
    rw [hsave, Option.bind_some]
    have hlong : s.scan.long = true := scan_long (by tauto)
    split
    · next hor =>
      have hmoves := keep_moves ch h hroom (by rw [hs]; decide) s.count .csiParam
        (by rw [he]; decide) (by decide) (by decide) (fun _ => h.count hlong) (fun hshort => by cases hshort)
        fun _ => ⟨rfl, by
          rw [stored_petscii he]
          cases hor with
          | inl hdigit => exact not_escape_of_digit hdigit
          | inr hsemi => rw [hsemi]; decide⟩
      rw [hkeep, ← hs] at hmoves
      exact hmoves
    · split
      · next hm =>
        obtain ⟨parsed, output, hcolor⟩ := ansiColor_some cfg s (s.kept ++ [ch]) (by simpa using hroom)
        have hcolor' : ansiColor cfg { s with kept := s.kept ++ [ch] } (s.kept ++ [ch]) = some (parsed, output) := hcolor
        rw [petsciiSgr, hcolor', Option.bind_some]
        cases parsed with
        | true => exact petsciiDone_moves s _
        | false =>
          apply petsciiUnknown_moves he h output
          intro hcolors
          apply hcolors (by rw [he]; decide) hs (by rw [stored_petscii he]; exact hm) output
          rw [if_pos he, stored_petscii he]
          exact hcolor
      · exact petsciiUnknown_moves he h s.attributes fun _ => rfl
  | dump => rw [hs] at hscans; exact absurd hscans (by decide)
  | startSequence | count | countTwo | countMany | music | y1 | y2 => rw [hs] at hscans; exact absurd hscans (by decide)

end Petscii

end CProgram.Terminal.Collected
