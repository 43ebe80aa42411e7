import CProgram.Terminal.Charsets

/-! The single shifts: what becomes of the first character after one, and of those that follow. -/
namespace CProgram.Terminal

/-- What comes from the remote side: a sequence, or a character that is mapped. -/
inductive Arrival where
  | call (saved : Bool) (call : Call)
  | character (vt100Char : UInt8)
deriving DecidableEq, Repr

namespace Charsets

/-- From here on all characters are mapped alike. -/
def Alike (t : Tables) (e : Emulation) : List Arrival → Charsets → Charsets → Prop
  | [], _, _ => True
  | .call saved call :: arrivals, c, d => Alike t e arrivals (c.perform saved e call) (d.perform saved e call)
  | .character ch :: arrivals, c, d =>
    match c.mapCharacter t e ch, d.mapCharacter t e ch with
    | .ok (shown, c'), .ok (plain, d') => shown = plain ∧ Alike t e arrivals c' d'
    | _, _ => False

/-- `c` has received the single shift, `d` has not: the first 7-bit character is mapped through the set that the single
shift is for, and all that follow as in `d`. -/
def Shifted (t : Tables) (e : Emulation) (shift : Singleshift) : List Arrival → Charsets → Charsets → Prop
  | [], _, _ => True
  | .call saved call :: arrivals, c, d => Shifted t e shift arrivals (c.perform saved e call) (d.perform saved e call)
  | .character ch :: arrivals, c, d =>
    match c.mapCharacter t e ch, d.mapCharacter t e ch with
    | .ok (shown, c'), .ok (_, d') =>
      if ch < 0x80 then shown = t.look (d.shiftedTo shift) ch ∧ Alike t e arrivals c' d'
      else Shifted t e shift arrivals c' d'
    | _, _ => False

/-- Neither a locking shift to G1 nor the VT52 mode keeps `map_character` from looking at a single shift. -/
def Looks (c : Charsets) : Prop := c.vt52Mode = false ∧ c.shiftOut = false

instance {c : Charsets} : Decidable c.Looks := inferInstanceAs (Decidable (_ ∧ _))

/-- The table that a 7-bit character is taken from without a single shift. -/
def plainSet (e : Emulation) (c : Charsets) : Charset :=
  if c.shiftOut then c.g1Charset
  else if c.vt52Mode then c.g0Charset
  else if e = .vt220 then
    match c.lockshiftGl with
    | .g2Gl => c.g2Charset
    | .g3Gl => c.g3Charset
    | _ => c.g0Charset
  else c.g0Charset

/-- The character looks the same in the set that the single shift is for. -/
def Same (t : Tables) (e : Emulation) (shift : Singleshift) (c : Charsets) (ch : UInt8) : Prop :=
  t.look (c.shiftedTo shift) ch = t.look (c.plainSet e) ch

/-- A single shift that is left over makes no difference to the first 7-bit character that uses it up. -/
def Harmless (t : Tables) (e : Emulation) (shift : Singleshift) : List Arrival → Charsets → Prop
  | [], _ => True
  | .call saved call :: arrivals, c => Harmless t e shift arrivals (c.perform saved e call)
  | .character ch :: arrivals, c =>
    if ch < 0x80 ∧ c.Looks then t.look (c.shiftedTo shift) ch = t.look (c.shiftedTo c.singleshift) ch
    else Harmless t e shift arrivals c

/-- In the XTERM emulations the first 7-bit character finds neither shift-out nor VT52 mode, or it looks the same
anyway, and so does the first later one that finds neither; in VT220 it looks the same anyway. -/
def Takes (t : Tables) (e : Emulation) (shift : Singleshift) : List Arrival → Charsets → Prop
  | [], _ => True
  | .call saved call :: arrivals, c => Takes t e shift arrivals (c.perform saved e call)
  | .character ch :: arrivals, c =>
    if ch < 0x80 then
      e.anyXterm = true ∧ c.Looks ∨ c.Same t e shift ch ∧ (e.anyXterm = true → Harmless t e shift arrivals c)
    else Takes t e shift arrivals c

/-- The sequences that set a single shift, or that take it back. -/
def Untouched (e : Emulation) (call : Call) : Prop :=
  match call.handler with
  | .ss2 | .ss3 | .exitVt52 | .ris | .decstr => False
  | .handleControlChar ch => ch ≠ 0x8E ∧ ch ≠ 0x8F
  | .setToggle value => e.vt220s = true → call.args.decPrivateModeFlag = true → value = false → 2 ∉ call.args.modes
  | _ => True

/-- What arrives from one single shift to the next; XTERM with UTF-8 maps 7-bit characters only. -/
def Between (e : Emulation) : Arrival → Prop
  | .call _ call => Untouched e call
  | .character ch => ch < 0x80 ∨ e ≠ .xtermUtf8

/-- The locking shifts are where they belong. -/
structure Sound (c : Charsets) : Prop where
  gl : c.lockshiftGl = .none ∨ c.lockshiftGl = .g2Gl ∨ c.lockshiftGl = .g3Gl
  gr : c.lockshiftGr = .none ∨ c.lockshiftGr = .g1Gr ∨ c.lockshiftGr = .g2Gr ∨ c.lockshiftGr = .g3Gr
  savedGl : c.savedLockshiftGl = .none ∨ c.savedLockshiftGl = .g2Gl ∨ c.savedLockshiftGl = .g3Gl
  savedGr : c.savedLockshiftGr = .none ∨ c.savedLockshiftGr = .g1Gr ∨ c.savedLockshiftGr = .g2Gr ∨
    c.savedLockshiftGr = .g3Gr

variable {t : Tables} {e : Emulation} {shift other : Singleshift} {saved : Bool} {call : Call} {c d : Charsets}
  {ch : UInt8}
  {arrivals : List Arrival}

/-- The same sets with a single shift pending. -/
def pending (shift : Singleshift) (c : Charsets) : Charsets := { c with singleshift := shift }

theorem sound_reset : reset.Sound := ⟨.inl rfl, .inl rfl, .inl rfl, .inl rfl⟩

theorem sound_toggle (h : c.Sound) {decPrivateModeFlag value : Bool} {mode : ℤ} :
    (c.toggle saved e decPrivateModeFlag value mode).Sound := by
  unfold toggle
  split_ifs
  · exact ⟨h.gl, h.gr, h.savedGl, h.savedGr⟩
  · exact ⟨h.gl, h.gr, h.gl, h.gr⟩
  · unfold restore
    split_ifs
    · exact ⟨h.savedGl, h.savedGr, h.savedGl, h.savedGr⟩
    · exact ⟨h.gl, h.gr, h.savedGl, h.savedGr⟩
    · exact ⟨.inl rfl, .inl rfl, h.savedGl, h.savedGr⟩
  · exact h

theorem sound_foldl {decPrivateModeFlag value : Bool} {modes : List ℤ} (h : c.Sound) :
    (modes.foldl (toggle saved e decPrivateModeFlag value) c).Sound := by
  induction modes generalizing c with
  | nil => exact h
  | cons mode modes ih => exact ih (sound_toggle h)

theorem sound_perform (h : c.Sound) : (c.perform saved e call).Sound := by
  obtain ⟨handler, args⟩ := call
  cases handler with
  | setToggle value => exact sound_foldl h
  | lockshift mode =>
    cases mode with
    | none => exact h
    | g2Gl | g3Gl => exact ⟨by simp [perform, lock], h.gr, h.savedGl, h.savedGr⟩
    | g1Gr | g2Gr | g3Gr => exact ⟨h.gl, by simp [perform, lock], h.savedGl, h.savedGr⟩
  | designate set charset =>
    match set with
    | 0 | 1 | 2 | 3 => exact ⟨h.gl, h.gr, h.savedGl, h.savedGr⟩
  | handleControlChar ch =>
    simp only [perform, handleControlChar]
    split
    · exact ⟨.inl rfl, h.gr, h.savedGl, h.savedGr⟩
    · exact ⟨.inl rfl, h.gr, h.savedGl, h.savedGr⟩
    · exact ⟨h.gl, h.gr, h.savedGl, h.savedGr⟩
    · exact ⟨h.gl, h.gr, h.savedGl, h.savedGr⟩
    · exact h
  | decsc => exact ⟨h.gl, h.gr, h.gl, h.gr⟩
  | decrc =>
    simp only [perform, restore]
    split_ifs
    · exact ⟨h.savedGl, h.savedGr, h.savedGl, h.savedGr⟩
    · exact ⟨h.gl, h.gr, h.savedGl, h.savedGr⟩
    · exact ⟨.inl rfl, .inl rfl, h.savedGl, h.savedGr⟩
  | exitVt52 => exact ⟨.inl rfl, .inl rfl, h.savedGl, h.savedGr⟩
  | ris | decstr => exact sound_reset
  | decscl =>
    simp only [perform, decscl]
    split_ifs
    · exact ⟨h.gl, h.gr, h.savedGl, h.savedGr⟩
    · exact h
  | ss2 | ss3 => exact ⟨h.gl, h.gr, h.savedGl, h.savedGr⟩
  | _ => exact h

/-- What a sequence does that leaves single shifts alone. -/
theorem toggle_pending {decPrivateModeFlag value : Bool} {mode : ℤ}
    (h : e.vt220s = true → decPrivateModeFlag = true → value = false → mode ≠ 2) (he : e.vt220s = true) :
    (c.pending shift).toggle saved e decPrivateModeFlag value mode =
        (c.toggle saved e decPrivateModeFlag value mode).pending shift ∧
      (c.toggle saved e decPrivateModeFlag value mode).singleshift = c.singleshift := by
  have hvt52 : ¬ (decPrivateModeFlag = true ∧ mode = 2 ∧ ¬ value = true) := by
    rintro ⟨hprivate, hmode, hvalue⟩
    exact h he hprivate (Bool.not_eq_true _ ▸ hvalue) hmode
  unfold toggle
  rw [if_neg hvt52, if_neg hvt52]
  split_ifs
  · exact ⟨rfl, rfl⟩
  · unfold restore
    split_ifs <;> exact ⟨rfl, rfl⟩
  · exact ⟨rfl, rfl⟩

theorem perform_pending (he : e.vt220s = true) (h : Untouched e call) :
    (c.pending shift).perform saved e call = (c.perform saved e call).pending shift ∧
      (c.perform saved e call).singleshift = c.singleshift := by
  obtain ⟨handler, args⟩ := call
  cases handler with
  | setToggle value =>
    have hmodes : ∀ modes : List ℤ, (args.decPrivateModeFlag = true → value = false → 2 ∉ modes) → ∀ c : Charsets,
        modes.foldl (toggle saved e args.decPrivateModeFlag value) (c.pending shift) =
            (modes.foldl (toggle saved e args.decPrivateModeFlag value) c).pending shift ∧
          (modes.foldl (toggle saved e args.decPrivateModeFlag value) c).singleshift = c.singleshift := by
      intro modes hmodes
      induction modes with
      | nil => exact fun c => ⟨rfl, rfl⟩
      | cons mode modes ih =>
        intro c
        have hstep := @toggle_pending e shift saved c args.decPrivateModeFlag value mode
          (fun _ hprivate hvalue hmode => hmodes hprivate hvalue (hmode ▸ List.mem_cons_self)) he
        have hrest := ih (fun hprivate hvalue hmem => hmodes hprivate hvalue (List.mem_cons_of_mem _ hmem))
          (c.toggle saved e args.decPrivateModeFlag value mode)
        rw [List.foldl_cons, List.foldl_cons, hstep.1, hrest.1, hrest.2, hstep.2]
        exact ⟨rfl, rfl⟩
    exact hmodes _ (h he) c
  | lockshift mode => cases mode <;> exact ⟨rfl, rfl⟩
  | designate set charset =>
    match set with
    | 0 | 1 | 2 | 3 => exact ⟨rfl, rfl⟩
  | handleControlChar ch =>
    have hss2 : ch.toNat ≠ 0x8E := fun hch => h.1 (UInt8.toNat_inj.mp hch)
    have hss3 : ch.toNat ≠ 0x8F := fun hch => h.2 (UInt8.toNat_inj.mp hch)
    simp only [perform, handleControlChar]
    split
    · exact ⟨rfl, rfl⟩
    · exact ⟨rfl, rfl⟩
    · exact absurd ‹_› hss2
    · exact absurd ‹_› hss3
    · exact ⟨rfl, rfl⟩
  | decrc =>
    simp only [perform, restore]
    split_ifs <;> exact ⟨rfl, rfl⟩
  | decscl =>
    simp only [perform, decscl]
    split_ifs <;> exact ⟨rfl, rfl⟩
  | ss2 | ss3 | exitVt52 | ris | decstr => exact h.elim
  | _ => exact ⟨rfl, rfl⟩

/-! ### What a character does -/

@[simp] theorem pending_self : c.pending c.singleshift = c := rfl

theorem Sound.pending (h : c.Sound) : (c.pending shift).Sound := ⟨h.gl, h.gr, h.savedGl, h.savedGr⟩

theorem mapLocked_vt220 (h : c.Sound) :
    ∃ right, ∀ shift glCharset grCharset, (c.pending shift).mapLocked t .vt220 ch glCharset grCharset =
      mapCharacterCharset t .vt220 ch (match c.lockshiftGl with
        | .g2Gl => c.g2Charset
        | .g3Gl => c.g3Charset
        | _ => c.g0Charset) right := by
  obtain ⟨right, hright⟩ : ∃ right, ∀ shift, (c.pending shift).lockedGr = .ok right := by
    rcases h.gr with hgr | hgr | hgr | hgr <;> exact ⟨_, fun shift => by simp only [lockedGr, pending, hgr]; rfl⟩
  refine ⟨right, fun shift glCharset grCharset => ?_⟩
  unfold mapLocked
  rw [if_pos rfl, hright]
  rcases h.gl with hgl | hgl | hgl <;> simp only [lockedGl, pending, hgl] <;> rfl

/-- The state after a character that looks at the single shift, and after one that does not. -/
def looked (c : Charsets) : Charsets := if c.Looks then c.pending .none else c

theorem looked_pending : (c.pending shift).looked = if c.Looks then c.pending .none else c.pending shift := rfl

theorem mapCharacterCharset_vt220 {glCharset grCharset : Charset} :
    ∃ shown, mapCharacterCharset t .vt220 ch glCharset grCharset = .ok shown ∧
      (ch < 0x80 → shown = t.look glCharset ch) := by
  unfold mapCharacterCharset
  by_cases hch : 0x80 ≤ ch
  · exact ⟨_, by rw [if_pos hch, if_pos rfl], fun hlow => absurd hch (UInt8.not_le.mpr hlow)⟩
  · exact ⟨_, by rw [if_neg hch], fun _ => rfl⟩

theorem mapCharacter_vt220 (h : c.Sound) :
    ∃ shown, (ch < 0x80 → shown = t.look (c.plainSet .vt220) ch) ∧
      ∀ shift, (c.pending shift).mapCharacter t .vt220 ch = .ok (shown, (c.pending shift).looked) := by
  by_cases hvt52 : c.vt52Mode = true
  · obtain ⟨shown, hshown, hlow⟩ := @mapCharacterCharset_vt220 t ch (if c.shiftOut then c.g1Charset else c.g0Charset) .us
    refine ⟨shown, fun hch => ?_, fun shift => ?_⟩
    · rw [hlow hch, plainSet, if_pos hvt52]
    · rw [looked_pending, if_neg (by simp [Looks, hvt52])]
      simp only [mapCharacter, pending, hvt52, Emulation.codepage, if_true, Bool.false_eq_true, false_and, if_false,
        hshown]
      rfl
  by_cases hout : c.shiftOut = true
  · obtain ⟨shown, hshown, hlow⟩ := @mapCharacterCharset_vt220 t ch c.g1Charset c.grCharset
    refine ⟨shown, fun hch => ?_, fun shift => ?_⟩
    · rw [hlow hch, plainSet, if_pos hout]
    · rw [looked_pending, if_neg (by simp [Looks, hout])]
      simp only [mapCharacter, pending, hvt52, hout, Emulation.codepage, if_true, Bool.false_eq_true, false_and,
        if_false, hshown]
      rfl
  · obtain ⟨shown, hshown, hlow⟩ : ∃ shown, (ch < 0x80 → shown = t.look (c.plainSet .vt220) ch) ∧
        ∀ shift glCharset grCharset, (c.pending shift).mapLocked t .vt220 ch glCharset grCharset = .ok shown := by
      obtain ⟨right, hright⟩ := @mapLocked_vt220 t c ch h
      obtain ⟨shown, hshown, hlow⟩ := @mapCharacterCharset_vt220 t ch (match c.lockshiftGl with
        | .g2Gl => c.g2Charset
        | .g3Gl => c.g3Charset
        | _ => c.g0Charset) right
      refine ⟨shown, fun hch => ?_, fun shift glCharset grCharset => (hright shift glCharset grCharset).trans hshown⟩
      rw [hlow hch, plainSet, if_neg hout, if_neg hvt52, if_pos rfl]
    refine ⟨shown, hshown, fun shift => ?_⟩
    rw [looked_pending, if_pos ⟨Bool.not_eq_true _ ▸ hvt52, Bool.not_eq_true _ ▸ hout⟩, mapCharacter,
      if_neg (by simp [Emulation.codepage]), if_neg (by exact hvt52), if_neg (by exact hout), hlow]
    rfl

/-- An XTERM takes 8-bit characters from the code page. -/
theorem mapCharacter_xterm_high (he : e.codepage = true) (hch : ¬ ch < 0x80) :
    c.mapCharacter t e ch = .ok (t.codepage ch, c) := by
  unfold mapCharacter
  rw [if_pos ⟨he, UInt8.not_lt.mp hch⟩]

theorem mapCharacter_xterm_low (he : e.anyXterm = true) (hch : ch < 0x80) :
    c.mapCharacter t e ch =
      .ok (t.look (if c.Looks then c.shiftedTo c.singleshift else c.plainSet e) ch, c.looked) := by
  have hvt220 : e ≠ .vt220 := by rintro rfl; cases he
  have hle : ¬ 0x80 ≤ ch := UInt8.not_le.mpr hch
  have hset : ∀ glCharset grCharset,
      mapCharacterCharset t e ch glCharset grCharset = .ok (t.look glCharset ch) := fun _ _ => if_neg hle
  unfold mapCharacter looked plainSet Looks mapLocked
  rw [if_neg (fun h => hle h.2), if_neg hvt220, if_neg hvt220]
  simp only [hset]
  by_cases hvt52 : c.vt52Mode = true <;> by_cases hout : c.shiftOut = true <;> simp [hvt52, hout, pending]

theorem Sound.looked (h : c.Sound) : c.looked.Sound := by
  unfold Charsets.looked
  split_ifs
  · exact h.pending
  · exact h

theorem looked_pending_of_looks (h : c.Looks) : (c.pending shift).looked = c.looked := by
  rw [looked_pending, if_pos h, looked, if_pos h]

theorem looked_pending_of_not_looks (h : ¬ c.Looks) : (c.pending shift).looked = c.looked.pending shift := by
  rw [looked_pending, if_neg h, looked, if_neg h]

/-! ### A single shift that is left over -/

theorem anyXterm_of_ne (he : e.vt220s = true) (h : e ≠ .vt220) : e.anyXterm = true := by
  cases e <;> simp_all [Emulation.vt220s, Emulation.anyXterm]

theorem vt220s_of_anyXterm (he : e.anyXterm = true) : e.vt220s = true := by
  cases e <;> simp_all [Emulation.vt220s, Emulation.anyXterm]

theorem codepage_of_ne (he : e.anyXterm = true) (h : e ≠ .xtermUtf8) : e.codepage = true := by
  cases e <;> simp_all [Emulation.codepage, Emulation.anyXterm]

theorem mapCharacter_ok (he : e.vt220s = true) (h : c.Sound) (hch : ch < 0x80 ∨ e ≠ .xtermUtf8) :
    ∃ shown d, c.mapCharacter t e ch = .ok (shown, d) ∧ d.Sound := by
  by_cases hvt220 : e = .vt220
  · subst hvt220
    obtain ⟨shown, -, hshown⟩ := @mapCharacter_vt220 t c ch h
    exact ⟨shown, _, hshown c.singleshift, h.looked⟩
  have hxterm : e.anyXterm = true := anyXterm_of_ne he hvt220
  by_cases hlow : ch < 0x80
  · exact ⟨_, _, mapCharacter_xterm_low hxterm hlow, h.looked⟩
  · have hcodepage : e.codepage = true := codepage_of_ne hxterm (hch.resolve_left hlow)
    exact ⟨_, _, mapCharacter_xterm_high hcodepage hlow, h⟩

theorem alike_refl (he : e.vt220s = true) (h : c.Sound) (hbetween : ∀ arrival ∈ arrivals, Between e arrival) :
    Alike t e arrivals c c := by
  induction arrivals generalizing c with
  | nil => trivial
  | cons arrival arrivals ih =>
    have hrest := fun arrival harrival => hbetween arrival (List.mem_cons_of_mem _ harrival)
    cases arrival with
    | call saved call => exact ih (sound_perform h) hrest
    | character ch =>
      obtain ⟨shown, d, hshown, hd⟩ := @mapCharacter_ok t e c ch he h (hbetween _ List.mem_cons_self)
      simp only [Alike, hshown]
      exact ⟨trivial, ih hd hrest⟩

theorem alike_vt220 (h : c.Sound) (hbetween : ∀ arrival ∈ arrivals, Between .vt220 arrival) :
    Alike t .vt220 arrivals (c.pending shift) c := by
  induction arrivals generalizing c with
  | nil => trivial
  | cons arrival arrivals ih =>
    have hrest := fun arrival harrival => hbetween arrival (List.mem_cons_of_mem _ harrival)
    cases arrival with
    | call saved call =>
      rw [Alike, (perform_pending rfl (hbetween _ List.mem_cons_self)).1]
      exact ih (sound_perform h) hrest
    | character ch =>
      obtain ⟨shown, -, hshown⟩ := @mapCharacter_vt220 t c ch h
      have hplain := hshown c.singleshift
      rw [pending_self] at hplain
      simp only [Alike, hshown, hplain]
      refine ⟨trivial, ?_⟩
      by_cases hlooks : c.Looks
      · rw [looked_pending_of_looks hlooks]
        exact alike_refl rfl h.looked hrest
      · rw [looked_pending_of_not_looks hlooks]
        exact ih h.looked hrest

theorem alike_xterm (he : e.anyXterm = true) (h : c.Sound) (hbetween : ∀ arrival ∈ arrivals, Between e arrival) :
    Alike t e arrivals (c.pending shift) c ↔ Harmless t e shift arrivals c := by
  have hvt220s : e.vt220s = true := vt220s_of_anyXterm he
  induction arrivals generalizing c with
  | nil => exact Iff.rfl
  | cons arrival arrivals ih =>
    have hrest := fun arrival harrival => hbetween arrival (List.mem_cons_of_mem _ harrival)
    cases arrival with
    | call saved call =>
      rw [Alike, Harmless, (perform_pending hvt220s (hbetween _ List.mem_cons_self)).1]
      exact ih (sound_perform h) hrest
    | character ch =>
      by_cases hlow : ch < 0x80
      · simp only [Alike, Harmless, mapCharacter_xterm_low he hlow]
        by_cases hlooks : c.Looks
        · rw [looked_pending_of_looks hlooks, if_pos (show (c.pending shift).Looks from hlooks), if_pos hlooks,
            if_pos ⟨hlow, hlooks⟩]
          exact and_iff_left (alike_refl hvt220s h.looked hrest)
        · rw [looked_pending_of_not_looks hlooks, if_neg (show ¬ (c.pending shift).Looks from hlooks), if_neg hlooks,
            if_neg (fun h => hlooks h.2), looked, if_neg hlooks]
          exact (and_iff_right rfl).trans (ih h hrest)
      · have hcodepage : e.codepage = true := codepage_of_ne he ((hbetween _ List.mem_cons_self).resolve_left hlow)
        simp only [Alike, Harmless, mapCharacter_xterm_high hcodepage hlow]
        rw [if_neg (fun h => hlow h.1)]
        exact (and_iff_right trivial).trans (ih h hrest)

/-! ### The first character after a single shift -/

/-- In VT220 the condition does not depend on what is pending. -/
theorem takes_pending (hbetween : ∀ arrival ∈ arrivals, Between .vt220 arrival) :
    Takes t .vt220 shift arrivals (c.pending other) ↔ Takes t .vt220 shift arrivals c := by
  induction arrivals generalizing c with
  | nil => exact Iff.rfl
  | cons arrival arrivals ih =>
    have hrest := fun arrival harrival => hbetween arrival (List.mem_cons_of_mem _ harrival)
    cases arrival with
    | call saved call =>
      rw [Takes, Takes, (perform_pending rfl (hbetween _ List.mem_cons_self)).1]
      exact ih hrest
    | character ch =>
      by_cases hlow : ch < 0x80
      · simp only [Takes, if_pos hlow]
        exact ⟨fun h => h.imp id fun h => ⟨h.1, fun he => by cases he⟩,
          fun h => h.imp id fun h => ⟨h.1, fun he => by cases he⟩⟩
      · simp only [Takes, if_neg hlow]
        exact ih hrest

theorem shifted_vt220 (h : c.Sound) (hbetween : ∀ arrival ∈ arrivals, Between .vt220 arrival) :
    Shifted t .vt220 shift arrivals (c.pending other) c ↔ Takes t .vt220 shift arrivals c := by
  induction arrivals generalizing c other with
  | nil => exact Iff.rfl
  | cons arrival arrivals ih =>
    have hrest := fun arrival harrival => hbetween arrival (List.mem_cons_of_mem _ harrival)
    cases arrival with
    | call saved call =>
      rw [Shifted, Takes, (perform_pending rfl (hbetween _ List.mem_cons_self)).1]
      exact ih (sound_perform h) hrest
    | character ch =>
      obtain ⟨shown, hset, hshown⟩ := @mapCharacter_vt220 t c ch h
      have hplain := hshown c.singleshift
      rw [pending_self] at hplain
      obtain ⟨after, hafter⟩ : ∃ after, (c.pending other).looked = c.looked.pending after := by
        by_cases hlooks : c.Looks
        · exact ⟨c.looked.singleshift, looked_pending_of_looks hlooks⟩
        · exact ⟨other, looked_pending_of_not_looks hlooks⟩
      simp only [Shifted, Takes, hshown, hplain, hafter]
      by_cases hlow : ch < 0x80
      · rw [if_pos hlow, if_pos hlow, hset hlow]
        constructor
        · exact fun h => .inr ⟨h.1.symm, fun he => by cases he⟩
        · rintro (⟨he, -⟩ | ⟨hsame, -⟩)
          · cases he
          · exact ⟨hsame.symm, alike_vt220 h.looked hrest⟩
      · rw [if_neg hlow, if_neg hlow, ih h.looked hrest]
        unfold looked
        split_ifs
        · exact takes_pending hrest
        · exact Iff.rfl

theorem shifted_xterm (he : e.anyXterm = true) (h : c.Sound) (hbetween : ∀ arrival ∈ arrivals, Between e arrival) :
    Shifted t e shift arrivals (c.pending shift) c ↔ Takes t e shift arrivals c := by
  have hvt220s : e.vt220s = true := vt220s_of_anyXterm he
  induction arrivals generalizing c with
  | nil => exact Iff.rfl
  | cons arrival arrivals ih =>
    have hrest := fun arrival harrival => hbetween arrival (List.mem_cons_of_mem _ harrival)
    cases arrival with
    | call saved call =>
      rw [Shifted, Takes, (perform_pending hvt220s (hbetween _ List.mem_cons_self)).1]
      exact ih (sound_perform h) hrest
    | character ch =>
      by_cases hlow : ch < 0x80
      · simp only [Shifted, Takes, mapCharacter_xterm_low he hlow, if_pos hlow]
        by_cases hlooks : c.Looks
        · rw [looked_pending_of_looks hlooks, if_pos (show (c.pending shift).Looks from hlooks)]
          exact iff_of_true ⟨rfl, alike_refl hvt220s h.looked hrest⟩ (.inl ⟨he, hlooks⟩)
        · rw [looked_pending_of_not_looks hlooks, if_neg (show ¬ (c.pending shift).Looks from hlooks), looked,
            if_neg hlooks, alike_xterm he h hrest]
          constructor
          · exact fun h => .inr ⟨h.1.symm, fun _ => h.2⟩
          · rintro (⟨-, hbad⟩ | ⟨hsame, hharmless⟩)
            · exact absurd hbad hlooks
            · exact ⟨hsame.symm, hharmless he⟩
      · have hcodepage : e.codepage = true := codepage_of_ne he ((hbetween _ List.mem_cons_self).resolve_left hlow)
        simp only [Shifted, Takes, mapCharacter_xterm_high hcodepage hlow, if_neg hlow]
        exact ih h hrest

/-- What becomes of a single shift, up to the next one. -/
theorem shifted_iff_takes (he : e.vt220s = true) (h : c.Sound) (hbetween : ∀ arrival ∈ arrivals, Between e arrival) :
    Shifted t e shift arrivals (c.pending shift) c ↔ Takes t e shift arrivals c := by
  by_cases hvt220 : e = .vt220
  · subst hvt220
    exact shifted_vt220 h hbetween
  · exact shifted_xterm (anyXterm_of_ne he hvt220) h hbetween

/-- `CHARSET_DRAWING` has lines where the others have letters. -/
def drawn : Tables := ⟨fun charset ch => if charset = .drawing then 0x2500 else ch.toUInt32, UInt8.toUInt32⟩

/-- G2 draws, and nothing is shifted. -/
def drawsG2 : Charsets := { reset with g2Charset := .drawing }

theorem drawsG2_shifted : Shifted drawn .vt220 .ss2 [.character 0x71] (drawsG2.pending .ss2) drawsG2 ↔
    Takes drawn .vt220 .ss2 [.character 0x71] drawsG2 :=
  shifted_iff_takes rfl ⟨.inl rfl, .inl rfl, .inl rfl, .inl rfl⟩ (fun arrival harrival => by
    rw [List.mem_singleton.mp harrival]
    exact .inl (by decide))

/-- The locking shifts of a VT220 have the last word even where there are none. -/
theorem single_shift_lost : ¬ ∀ (t : Tables) (e : Emulation) (c : Charsets) (shift : Singleshift)
    (arrivals : List Arrival), e = .vt220 ∨ e = .xterm → c.Sound → c.singleshift = .none → shift ≠ .none →
    (∀ arrival ∈ arrivals, Between e arrival) → Shifted t e shift arrivals (c.pending shift) c := by
  intro h
  have hfirst := h drawn .vt220 drawsG2 .ss2 [.character 0x71] (.inl rfl) ⟨.inl rfl, .inl rfl, .inl rfl, .inl rfl⟩ rfl
    (by decide) (fun arrival harrival => by
      rw [List.mem_singleton.mp harrival]
      exact .inl (by decide))
  exact absurd hfirst.1 (by decide)

end Charsets
end CProgram.Terminal
