import CProgram.Terminal.Collecting

/-! Sequences that an emulation does not know: each byte of them is shown once, and nothing of them stays, as long as
they are shorter than the buffer and leave no mode and no attribute behind. -/
namespace CProgram.Terminal.Collected

variable {cfg : Config} {s : State} {ch : UInt8} {events : List Event}

/-! The terminal and the console -/

theorem emulate_moves (ch : UInt8) (h : Inv cfg s events) (hroom : s.kept.length + 1 < room) :
    Moves cfg s events ch (emulate cfg s ch) := by
  rw [emulate]
  cases he : cfg.emulator with
  | ansi => exact ansi_moves he h hroom
  | vt52 => exact vt52_moves he h hroom
  | petscii => exact petscii_moves he h hroom

theorem junk_of_short (h : s.kept.length + 1 < room) : junk s = s := by
  rw [junk, if_neg]
  exact fun hfull => absurd h (by omega)

theorem inv_junk (h : Inv cfg s events) : Inv cfg (junk s) events ∧ (junk s).kept.length + 1 < room := by
  by_cases hfull : room - 1 ≤ s.kept.length
  · have hlong : s.scan.long = true := by
      by_contra hshort
      have hsize := h.size (by simpa using hshort)
      have hsmall : s.scan.size ≤ 3 := by cases s.scan <;> decide
      rw [hsize, room] at hfull
      omega
    rw [junk, if_pos hfull]
    refine ⟨?_, by simp [room]⟩
    constructor
    · exact h.scan
    · rfl
    · simp [room]
    · intro hshort
      rw [hlong] at hshort
      cases hshort
    · exact h.count
    · exact h.music
    · exact h.modes
    · intro hnone
      exact ⟨(h.inside hnone).start, Or.inr ⟨by simp, hlong⟩⟩
  · have hshort : s.kept.length + 1 < room := by omega
    rw [junk_of_short hshort]
    exact ⟨h, hshort⟩

theorem junk_lastState (h : s.lastState ≠ .manyChars) : (junk s).lastState ≠ .manyChars := by
  rw [junk]
  split
  · simp
  · exact h

theorem Inv.seen_eq (h : Inv cfg s events) {later : List Event} (heq : seen later = seen events) : Inv cfg s later where
  scan := h.scan
  read := h.read
  room := h.room
  size := h.size
  count := h.count
  music := h.music
  modes := h.modes
  inside hnone := heq ▸ h.inside hnone

theorem Inv.remember {t : State} (h : Inv cfg t events) (status : Status) : Inv cfg { t with lastState := status } events where
  scan := h.scan
  read := h.read
  room := h.room
  size := h.size
  count := h.count
  music := h.music
  modes := h.modes
  inside hnone := ⟨(h.inside hnone).start, (h.inside hnone).bytes⟩

/-- What a byte comes to at the terminal. -/
theorem terminal_moves (h : Inv cfg s events) (hlast : s.lastState ≠ .manyChars) (ch : UInt8) :
    ∃ r, terminalEmulator cfg s ch = some r ∧ ((Goes cfg events r ∧ r.state.lastState ≠ .manyChars) ∨
      ∃ q, GivesUp cfg (junk s) ch q ∧ r = q.remember) := by
  obtain ⟨hjunk, hroom⟩ := inv_junk h
  have hquiet (action : Action) : Goes cfg events ⟨.noCharYet, 1, [.act action], junk s⟩ :=
    ⟨by simp, by simp, hjunk.seen_eq (by rw [seen_append]; rfl)⟩
  rw [terminalEmulator, if_neg (junk_lastState hlast)]
  split
  · exact ⟨_, rfl, Or.inl ⟨hquiet .carriageReturn, junk_lastState hlast⟩⟩
  · split
    · exact ⟨_, rfl, Or.inl ⟨hquiet .linefeed, junk_lastState hlast⟩⟩
    · obtain ⟨r, hr, hor⟩ := emulate_moves ch hjunk hroom
      rw [hr, Option.map_some]
      refine ⟨_, rfl, ?_⟩
      cases hor with
      | inl hgoes => exact Or.inl ⟨⟨hgoes.once, hgoes.known, hgoes.inv.remember _⟩, hgoes.once⟩
      | inr hgives => exact Or.inr ⟨r, hgives, rfl⟩

theorem drain_goes {r : Reply} (h : Goes cfg events r) : ∃ more, drain cfg (2 * room) r = some (r.state, more) ∧
    Inv cfg r.state (events ++ more) := by
  change ∃ more, drain cfg (255 + 1) r = some (r.state, more) ∧ _
  rw [drain]
  cases hstatus : r.status with
  | noCharYet => exact ⟨_, rfl, h.inv⟩
  | oneChar =>
    refine ⟨_, rfl, h.inv.seen_eq ?_⟩
    rw [← List.append_assoc, seen_append _ [_]]
    rfl
  | manyChars => exact absurd hstatus h.once

/-- What comes out of the next characters, behind this one. -/
theorem bind_then {x : Option Reply} {g : Reply → Option (State × List Event)}
    {f : State × List Event → State × List Event} {y : State × List Event} (h : x.bind g = some y) :
    (x.bind fun next => (g next).map f) = some (f y) := by
  cases x with
  | none => cases h
  | some reply =>
    rw [Option.bind_some] at h ⊢
    rw [h]
    rfl

/-- The rest of the buffer, one character after the other. -/
theorem drain_dump (front rest : List UInt8) (he : cfg.emulator ≠ .petscii) (hkept : s.kept = front ++ rest)
    (hread : s.i = front.length) (hrest : rest ≠ []) (hlast : s.lastState = .manyChars) (hroom : s.kept.length + 1 < room)
    {fuel : ℕ} (hfuel : rest.length + 1 < fuel) : (terminalEmulator cfg s 255).bind (drain cfg fuel) =
      some ({ s with kept := [], i := 0, lastState := .noCharYet }, rest.map fun ch => .print (cfg.codepageMapChar ch)) := by
  induction rest generalizing s front fuel with
  | nil => exact absurd rfl hrest
  | cons ch rest ih =>
    have hne : s.kept ≠ [] := by simp [hkept]
    have hlength : s.kept.length = front.length + (rest.length + 1) := by simp [hkept]
    have hnext : readChar s.kept s.i = some ch := by
      rw [hread, readChar_eq (by omega), hkept]
      simp [List.getD_eq_getElem?_getD]
    obtain ⟨fuel, rfl⟩ : ∃ f, fuel = f + 1 := ⟨fuel - 1, by omega⟩
    rw [terminalEmulator, junk_of_short hroom, if_pos hlast, if_neg he, dumpNext, if_neg hne, hnext, Option.map_some, Option.bind_some]
    cases rest with
    | nil =>
      rw [if_pos (by simp at hlength; omega), drain]
      dsimp only
      obtain ⟨fuel, rfl⟩ : ∃ f, fuel = f + 1 := ⟨fuel - 1, by simp at hfuel; omega⟩
      rw [terminalEmulator, junk_of_short (by simp [room]), if_pos hlast, if_neg he, dumpNext, if_pos rfl]
      rfl
    | cons second rest =>
      rw [if_neg (by simp at hlength; omega), drain]
      have hlater := ih (s := { s with i := s.i + 1 }) (front ++ [ch]) (by simp [hkept]) (by simp [hread]) (by simp) hlast
        hroom (Nat.lt_of_succ_lt_succ hfuel)
      dsimp only
      exact bind_then hlater

theorem drain_petscii (front rest : List UInt8) (he : cfg.emulator = .petscii) (hkept : s.kept = front ++ rest)
    (hread : s.i = front.length) (hrest : rest ≠ []) (hlast : s.lastState = .manyChars) (hscan : s.scan = .dump)
    (hroom : s.kept.length + 1 < room) {fuel : ℕ} (hfuel : rest.length + 1 < fuel) :
    (terminalEmulator cfg s 255).bind (drain cfg fuel) =
      some ({ s with scan := .none, kept := [], i := 0, lastState := .oneChar },
        rest.map fun ch => .print (cfg.codepageMapChar ch)) := by
  induction rest generalizing s front fuel with
  | nil => exact absurd rfl hrest
  | cons ch rest ih =>
    have hne : s.kept ≠ [] := by simp [hkept]
    have hlength : s.kept.length = front.length + (rest.length + 1) := by simp [hkept]
    have hnext : readChar s.kept s.i = some ch := by
      rw [hread, readChar_eq (by omega), hkept]
      simp [List.getD_eq_getElem?_getD]
    obtain ⟨fuel, rfl⟩ : ∃ f, fuel = f + 1 := ⟨fuel - 1, by omega⟩
    rw [terminalEmulator, junk_of_short hroom, if_pos hlast, if_pos he, petscii, hscan]
    dsimp only
    rw [petsciiDump, if_neg hne, hnext, Option.map_some, Option.map_some, Option.bind_some]
    cases rest with
    | nil =>
      rw [if_pos (by simp at hlength; omega), drain]
      rfl
    | cons second rest =>
      rw [if_neg (by simp at hlength; omega), drain]
      have hlater := ih (s := { s with i := s.i + 1, lastState := .manyChars }) (front ++ [ch]) (by simp [hkept])
        (by simp [hread]) (by simp) rfl hscan hroom (Nat.lt_of_succ_lt_succ hfuel)
      dsimp only [Reply.remember]
      exact bind_then hlater

/-- At each byte of the stream the emulators are where they can be, and a rejected sequence has been shown as it was
stored and has left nothing. -/
def ShownOnce (cfg : Config) (stream : List UInt8) : Prop :=
  ∀ front ch, front ++ [ch] <+: stream → ∃ s events s' more,
    feed cfg (reset cfg) front = some (s, events) ∧ receive cfg s ch = some (s', more) ∧
      (Rejects cfg s ch → prints more = shown cfg (seen (events ++ more)).bytes ∧ Ground s' ∧
        (seen (events ++ more)).start = some (memory cfg s'))

/-- Each byte of the stream that rejects a sequence comes where it can be shown. -/
def Meets (cfg : Config) (stream : List UInt8) : Prop :=
  ∀ front ch, front ++ [ch] <+: stream → ∀ s events, feed cfg (reset cfg) front = some (s, events) →
    Rejects cfg s ch → Fit cfg s ch

theorem prints_prints (cfg : Config) (rest : List UInt8) :
    prints (rest.map fun ch => .print (cfg.codepageMapChar ch)) = rest.map cfg.codepageMapChar := by
  induction rest with
  | nil => rfl
  | cons ch rest ih => exact congrArg (cfg.codepageMapChar ch :: ·) ih

theorem seen_prints (seen : Seen) (cfg : Config) (rest : List UInt8) :
    (rest.map fun ch => Event.print (cfg.codepageMapChar ch)).foldl Seen.next seen = seen := by
  induction rest with
  | nil => rfl
  | cons ch rest ih => exact ih

/-- The rest of a rejected sequence, whichever emulation dumps it. -/
theorem drain_rest (cfg : Config) (front rest : List UInt8) (fuel : ℕ) (hkept : s.kept = front ++ rest) (hread : s.i = front.length)
    (hrest : rest ≠ []) (hlast : s.lastState = .manyChars)
    (hscan : s.scan = if cfg.emulator = .petscii then .dump else .none) (hroom : s.kept.length + 1 < room)
    (hfuel : rest.length + 1 < fuel) : ∃ status, status ≠ .manyChars ∧
      (terminalEmulator cfg s 255).bind (drain cfg fuel) =
        some ({ s with scan := .none, kept := [], i := 0, lastState := status },
          rest.map fun ch => .print (cfg.codepageMapChar ch)) := by
  by_cases he : cfg.emulator = .petscii
  · rw [if_pos he] at hscan
    exact ⟨.oneChar, by decide, drain_petscii front rest he hkept hread hrest hlast hscan hroom hfuel⟩
  · rw [if_neg he] at hscan
    refine ⟨.noCharYet, by decide, ?_⟩
    rw [drain_dump front rest he hkept hread hrest hlast hroom hfuel, ← hscan]

/-- A rejected sequence is shown as it was stored, and what there was before it is there again. -/
theorem receive_gives (h : Inv cfg s events) (hfit : Fit cfg s ch) {q : Reply} (hq : GivesUp cfg (junk s) ch q)
    (hterm : terminalEmulator cfg s ch = some q.remember) : ∃ s' more, receive cfg s ch = some (s', more) ∧
      prints more = shown cfg (seen (events ++ more)).bytes ∧ Ground s' ∧
      (seen (events ++ more)).start = some (memory cfg s') ∧ Inv cfg s' (events ++ more) := by
  obtain ⟨hwhole, hshort, hmodes, hcolors⟩ := hfit
  obtain ⟨rest, hkept⟩ : ∃ rest, s.kept = escape :: rest := by
    cases hk : s.kept with
    | nil => rw [hk] at hwhole; cases hwhole
    | cons first rest =>
      rw [hk] at hwhole
      obtain rfl := Option.some.inj hwhole
      exact ⟨rest, rfl⟩
  have hin : s.scan ≠ .none := by
    intro hnone
    rw [h.empty hnone] at hkept
    cases hkept
  obtain ⟨hstart, hbytes⟩ := h.inside hin
  have hseen : s.kept = (seen events).bytes := by
    cases hbytes with
    | inl hboth => exact hboth.1
    | inr hcut => exact absurd hwhole hcut.1
  rw [junk_of_short (by omega)] at hq
  obtain ⟨attributes, hstatus, hchar, hstate, hsame⟩ := hq.dumps escape rest hkept
  obtain ⟨status, hstatus', hdrain⟩ := drain_rest (s := q.remember.state) cfg [escape]
    (rest ++ [stored cfg ch]) 255 (by simp [Reply.remember, hstate, hkept])
    (by simp [Reply.remember, hstate]) (by simp) hstatus (by simp [Reply.remember, hstate])
    (by simp [Reply.remember, hstate]; omega) (by
      rw [hkept] at hshort
      simp [room] at hshort ⊢
      omega)
  refine ⟨{ q.remember.state with scan := .none, kept := [], i := 0, lastState := status },
    q.remember.events ++ .print q.remember.toScreen :: (rest ++ [stored cfg ch]).map fun c => .print (cfg.codepageMapChar c),
    ?_, ?_⟩
  · rw [receive, hterm, Option.bind_some]
    change drain cfg (255 + 1) q.remember = _
    rw [drain, show q.remember.status = .manyChars from hstatus]
    dsimp only
    exact bind_then hdrain
  · have hevents : seen (events ++ (q.remember.events ++ Event.print q.remember.toScreen ::
        (rest ++ [stored cfg ch]).map fun c => .print (cfg.codepageMapChar c))) =
        ⟨some (memory cfg s).plain, s.kept ++ [stored cfg ch]⟩ := by
      rw [seen_append, List.foldl_append]
      change List.foldl Seen.next (List.foldl Seen.next (seen events) q.events)
        ((rest ++ [stored cfg ch]).map fun c => Event.print (cfg.codepageMapChar c)) = _
      rw [hq.rejected, seen_prints, hseen, ← hstart]
      rfl
    rw [hevents]
    have hmemory : memory cfg { q.remember.state with scan := .none, kept := [], i := 0, lastState := status } =
        (memory cfg s).plain := by
      obtain ⟨hp, hd⟩ := hmodes
      simp only [memory, Memory.plain, Reply.remember, hstate, hp, hd]
      congr 1
      split
      · rfl
      · next hansi => exact hsame hcolors hansi
    refine ⟨?_, ⟨rfl, rfl, rfl, hstatus'⟩, by rw [hmemory], ?_⟩
    · rw [prints, List.filterMap_append]
      change List.filterMap _ q.events ++ _ = _
      rw [hq.rejected, hkept]
      change [] ++ q.toScreen :: prints ((rest ++ [stored cfg ch]).map _) = _
      rw [prints_prints, hchar]
      rfl
    · refine inv_ground rfl rfl rfl ?_ _
      simpa [Reply.remember, hstate] using hmodes

/-! Whole runs -/

theorem feed_append (s : State) (front rest : List UInt8) : feed cfg s (front ++ rest) =
    (feed cfg s front).bind fun next => (feed cfg next.1 rest).map fun last => (last.1, next.2 ++ last.2) := by
  induction front generalizing s with
  | nil => simp [feed]
  | cons ch front ih =>
    rw [List.cons_append, feed, feed]
    cases receive cfg s ch with
    | none => rfl
    | some next =>
      rw [Option.bind_some, Option.bind_some, ih]
      cases feed cfg next.1 front with
      | none => rfl
      | some last =>
        rw [Option.bind_some, Option.map_some, Option.bind_some]
        cases feed cfg last.1 rest with
        | none => rfl
        | some final => simp

theorem feed_single (s : State) (ch : UInt8) : feed cfg s [ch] = receive cfg s ch := by
  rw [feed]
  cases receive cfg s ch with
  | none => rfl
  | some next => simp [feed]

/-- One byte, in a run whose rejected sequences can be shown. -/
theorem receive_step (h : Inv cfg s events) (hlast : s.lastState ≠ .manyChars) (hfit : Rejects cfg s ch → Fit cfg s ch) :
    ∃ s' more, receive cfg s ch = some (s', more) ∧ Inv cfg s' (events ++ more) ∧ s'.lastState ≠ .manyChars ∧
      (Rejects cfg s ch → prints more = shown cfg (seen (events ++ more)).bytes ∧ Ground s' ∧
        (seen (events ++ more)).start = some (memory cfg s')) := by
  obtain ⟨r, hr, hor⟩ := terminal_moves h hlast ch
  cases hor with
  | inl hgoes =>
    obtain ⟨hgoes, hnext⟩ := hgoes
    obtain ⟨more, hmore, hinv⟩ := drain_goes hgoes
    refine ⟨r.state, more, by rw [receive, hr]; exact hmore, hinv, hnext, ?_⟩
    rintro ⟨reply, hreply, hrejected⟩
    obtain rfl := Option.some.inj (hr.symm.trans hreply)
    exact absurd hrejected hgoes.known
  | inr hgives =>
    obtain ⟨q, hq, rfl⟩ := hgives
    have hrejects : Rejects cfg s ch := ⟨_, hr, by
      change Event.rejected ∈ q.events
      rw [hq.rejected]
      simp⟩
    obtain ⟨s', more, hmore, hprints, hground, hstart, hinv⟩ := receive_gives h (hfit hrejects) hq hr
    exact ⟨s', more, hmore, hinv, hground.2.2.2, fun _ => ⟨hprints, hground, hstart⟩⟩

theorem feed_inv {stream front : List UInt8} (h : Meets cfg stream) (hfront : front <+: stream) :
    ∃ s events, feed cfg (reset cfg) front = some (s, events) ∧ Inv cfg s events ∧ s.lastState ≠ .manyChars := by
  induction front using List.reverseRecOn with
  | nil => exact ⟨_, _, rfl, inv_ground rfl rfl rfl ⟨rfl, rfl⟩ _, by simp [reset]⟩
  | append_singleton front ch ih =>
    obtain ⟨s, events, hfeed, hinv, hlast⟩ := ih ((List.prefix_append front [ch]).trans hfront)
    obtain ⟨s', more, hmore, hnext, hlast', -⟩ := receive_step hinv hlast (h front ch hfront s events hfeed)
    refine ⟨s', events ++ more, ?_, hnext, hlast'⟩
    rw [feed_append, hfeed, Option.bind_some, feed_single, hmore, Option.map_some]

/-- In a stream whose rejected sequences can be shown, each of them is shown once, byte for byte, and leaves nothing;
and no stream of that kind takes an emulation out of its buffer. -/
theorem stream_shown (cfg : Config) (stream : List UInt8) (h : Meets cfg stream) : ShownOnce cfg stream := by
  intro front ch hfront
  obtain ⟨s, events, hfeed, hinv, hlast⟩ := feed_inv h ((List.prefix_append front [ch]).trans hfront)
  obtain ⟨s', more, hmore, -, -, hshown⟩ := receive_step hinv hlast (h front ch hfront s events hfeed)
  exact ⟨s, events, s', more, hfeed, hmore, hshown⟩

theorem any_of_rejects (h : Rejects cfg s ch) :
    ((terminalEmulator cfg s ch).any fun reply => reply.events.contains .rejected) = true := by
  obtain ⟨reply, hreply, hmem⟩ := h
  rw [hreply]
  simpa using hmem

/-- ANSI, with the characters as they are. -/
def plainConfig : Config where
  emulator := .ansi
  codepageMapChar := UInt8.toNat
  iscntrl ch := ch < 32 ∨ ch = 127
  vt52Char _ := UInt8.toNat
  c64Char _ _ := UInt8.toNat
  c64Unicode _ := UInt8.toNat
  consoleText := { pair := 56 }
  consoleFg := 7
  consoleBg := 0
  consoleBold := false
  ansiMusic := false
  vt52Color := false
  petsciiColor := false
  petsciiUseUnicode := false

/-- `ESC [ x`. -/
theorem stream_shown_plain : ShownOnce plainConfig [27, 91, 120] := by
  apply stream_shown
  intro front ch hfront s events hfeed hrejects
  match front with
  | [] =>
    obtain ⟨rfl, -⟩ := List.cons_prefix_cons.mp hfront
    obtain ⟨rfl, rfl⟩ := Prod.mk.inj (Option.some.inj hfeed)
    exact absurd (any_of_rejects hrejects) (by decide)
  | [a] =>
    simp only [List.cons_append, List.nil_append, List.cons_prefix_cons] at hfront
    obtain ⟨rfl, rfl, -⟩ := hfront
    obtain ⟨rfl, rfl⟩ := Prod.mk.inj (Option.some.inj hfeed)
    exact absurd (any_of_rejects hrejects) (by decide)
  | [a, b] =>
    simp only [List.cons_append, List.nil_append, List.cons_prefix_cons] at hfront
    obtain ⟨rfl, rfl, rfl, -⟩ := hfront
    obtain ⟨rfl, rfl⟩ := Prod.mk.inj (Option.some.inj hfeed)
    exact ⟨by decide, by decide, by decide, fun hansi => absurd rfl hansi⟩
  | a :: b :: c :: front =>
    have hlength := hfront.length_le
    simp at hlength
    omega

/-- After `ESC [ = x` the private mode is still set. -/
theorem not_stream_shown : ¬ ∀ (cfg : Config) (stream : List UInt8), ShownOnce cfg stream := by
  intro h
  obtain ⟨s, events, s', more, hfeed, hmore, hshown⟩ :=
    h plainConfig [27, 91, 61, 120] [27, 91, 61] 120 (List.prefix_refl _)
  obtain ⟨rfl, rfl⟩ := Prod.mk.inj (Option.some.inj hfeed)
  obtain ⟨rfl, rfl⟩ := Prod.mk.inj (Option.some.inj hmore)
  obtain ⟨-, -, hmemory⟩ := hshown ⟨_, rfl, by decide⟩
  revert hmemory
  decide

end CProgram.Terminal.Collected
