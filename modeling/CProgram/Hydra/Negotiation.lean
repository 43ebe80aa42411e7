import CProgram.Hydra.Options

/-! What two sides make of each other's INIT packet. The strings of the packet stand one behind the
other, and the walk over them goes through the buffer that `strtok` has cut apart by then. -/
namespace CProgram.Hydra
open Strings

/-- `2b1aab00HydraCom,1.00 PC`. -/
def appInfo : List UInt8 :=
  [50, 98, 49, 97, 97, 98, 48, 48, 72, 121, 100, 114, 97, 67, 111, 109, 44, 49, 46, 48, 48, 32, 80, 67]

/-- What one side brings along: `want_options`, both window sizes and `pktprefix`. -/
structure Side where
  wantOptions : Dword
  hydraTxwindow : ℕ
  hydraRxwindow : ℕ
  pktprefix : List UInt8
  txwindow_lt : hydraTxwindow < 2 ^ 31
  rxwindow_lt : hydraRxwindow < 2 ^ 31
  text_pktprefix : Text pktprefix
  length_pktprefix : pktprefix.length ≤ 31

/-- `options`, as `hydra_init` sets them. -/
def Side.options (s : Side) : Dword := (s.wantOptions &&& hcanOptions) &&& ~~~hunnOptions

/-- The data of the INIT packet. -/
def initPkt (s : Side) : List UInt8 :=
  appInfo ++ 0 :: (putFlags hcanOptions ++ 0 :: (putFlags s.options ++ 0 ::
    ((hexField 8 s.hydraTxwindow ++ hexField 8 s.hydraRxwindow) ++ 0 :: (s.pktprefix ++ [0]))))

def long (z : ℤ) : ℤ := (BitVec.ofInt 32 z).toInt

/-- `sscanf(p,"%08lx%08lx",&rxwindow,&txwindow)` with both at 0 before. -/
def scanWindows (p : List UInt8) : ℤ × ℤ :=
  match scanHex 8 p with
  | none => (0, 0)
  | some (first, rest) =>
    match scanHex 8 rest with
    | none => (long first, 0)
    | some (second, _) => (long first, long second)

/-- A window after the negotiation: zero stands for no limit. -/
def window (own : ℕ) (heard : ℤ) : ℤ :=
  let w := if heard < 0 then 0 else heard
  if own ≠ 0 ∧ (w = 0 ∨ (own : ℤ) < w) then own else w

structure Link where
  rxoptions : Dword
  txoptions : Dword
  rxwindow : ℤ
  txwindow : ℤ
  txpktprefix : List UInt8
  deriving DecidableEq

/-- `rxoptions`, and the buffer behind both calls of `get_flags`. -/
def agreedOptions (s : Side) (rxbuf : List UInt8) : Dword × List UInt8 :=
  let p := next rxbuf 0
  let q := next rxbuf p
  let want := getFlags rxbuf q
  let can := getFlags want.2 p
  ((((s.options ||| hunnOptions) ||| want.1) &&& can.1) &&& hcanOptions, can.2)

/-- `HPKT_INIT` in the state `HRX_INIT`; nothing when the session is aborted as incompatible. -/
def hpktInit (s : Side) (rxbuf : List UInt8) : Option Link :=
  let q := next rxbuf (next rxbuf 0)
  let agreed := agreedOptions s rxbuf
  if agreed.1 < (s.options &&& hnecOptions) then none
  else
    let p := next agreed.2 q
    let windows := scanWindows (cstr agreed.2 p)
    some
      { rxoptions := agreed.1
        txoptions := agreed.1
        rxwindow := window s.hydraRxwindow windows.1
        txwindow := window s.hydraTxwindow windows.2
        txpktprefix := (cstr agreed.2 (next agreed.2 p)).take 31 }

/-- The names of the options a side wants. -/
def Side.names (s : Side) : List (List UInt8) := Hydra.names s.options

/-- The windows that the other side reads in the packet: those of the side when it wants at most one
option, else what the name of the second is as a number (of the names only `CTL` begins with a
digit, twelve). -/
def Side.told (s : Side) : ℤ × ℤ :=
  match s.names with
  | _ :: name :: _ => (if name = [67, 84, 76] then 12 else 0, 0)
  | _ => (s.hydraTxwindow, s.hydraRxwindow)

/-- The string that the other side takes for the prefix. -/
def Side.asked (s : Side) : List UInt8 :=
  match s.names with
  | _ :: _ :: name :: _ => name
  | [_, _] => hexField 8 s.hydraTxwindow ++ hexField 8 s.hydraRxwindow
  | _ => s.pktprefix

theorem options_lt (s : Side) : s.options.toNat < 32 := by
  have hmask : s.options = s.wantOptions &&& 31 := by
    rw [Side.options, BitVec.and_assoc]
    rfl
  rw [hmask, BitVec.toNat_and]
  exact Nat.lt_of_le_of_lt Nat.and_le_right (by decide)

/-- Something about the wanted options, from the 32 sets there are. -/
theorem forall_options {P : Dword → Prop} (h : ∀ i : Fin 32, P (BitVec.ofNat 32 i)) (s : Side) :
    P s.options := by
  have hi := h ⟨s.options.toNat, options_lt s⟩
  simpa using hi

theorem foldl_getFlag_options (s : Side) : s.names.foldl getFlag 0 = s.options :=
  forall_options (P := fun o => (Hydra.names o).foldl getFlag 0 = o) (by decide) s

theorem scanWindows_second (s : Side) {first second : List UInt8} {more : List (List UInt8)}
    (h : s.names = first :: second :: more) :
    scanWindows second = (if second = [67, 84, 76] then 12 else 0, 0) := by
  have hall : ∀ i : Fin 32, ∀ w ∈ (Hydra.names (BitVec.ofNat 32 i)).tail,
      scanWindows w = (if w = [67, 84, 76] then 12 else 0, 0) := by decide
  have hmem := forall_options (P := fun o => ∀ w ∈ (Hydra.names o).tail,
    scanWindows w = (if w = [67, 84, 76] then 12 else 0, 0)) hall s
  rw [show Hydra.names s.options = first :: second :: more from h] at hmem
  exact hmem second List.mem_cons_self

theorem long_of_lt {n : ℕ} (h : n < 2 ^ 31) : long (n : ℤ) = n := by
  rw [long, BitVec.toInt_ofInt, Int.bmod_eq_of_le] <;> omega

theorem scanWindows_fields (s : Side) :
    scanWindows (hexField 8 s.hydraTxwindow ++ hexField 8 s.hydraRxwindow) =
      ((s.hydraTxwindow : ℤ), (s.hydraRxwindow : ℤ)) := by
  have htx : s.hydraTxwindow < 16 ^ 8 := Nat.lt_trans s.txwindow_lt (by decide)
  have hrx : s.hydraRxwindow < 16 ^ 8 := Nat.lt_trans s.rxwindow_lt (by decide)
  have hsecond := scanHex_hexField (by decide : 1 < 8) hrx []
  rw [List.append_nil] at hsecond
  simp only [scanWindows, scanHex_hexField (by decide : 1 < 8) htx, hsecond,
    long_of_lt s.txwindow_lt, long_of_lt s.rxwindow_lt]

/-- The strings behind the wanted options, from the place of the wanted options on. -/
theorem walk (pre w u v rest : List UInt8) (hw : Text w) (hu : Text u) (hv : Text v) :
    let buf := pre ++ (w ++ 0 :: (u ++ 0 :: (v ++ 0 :: rest)))
    cstr buf (next buf pre.length) = u ∧ cstr buf (next buf (next buf pre.length)) = v := by
  intro buf
  have hfirst : next buf pre.length = (pre ++ (w ++ [0])).length := next_at pre hw
  have hsecond : buf = (pre ++ (w ++ [0])) ++ (u ++ 0 :: (v ++ 0 :: rest)) := by simp [buf]
  have hthird : buf = ((pre ++ (w ++ [0])) ++ (u ++ [0])) ++ (v ++ 0 :: rest) := by simp [buf]
  constructor
  · rw [hfirst, hsecond, cstr_at _ hu]
  · rw [hfirst]
    have hnext : next buf (pre ++ (w ++ [0])).length =
        ((pre ++ (w ++ [0])) ++ (u ++ [0])).length := by
      rw [hsecond]
      exact next_at _ hu
    rw [hnext, hthird, cstr_at _ hv]

theorem text_windows (s : Side) :
    Text (hexField 8 s.hydraTxwindow ++ hexField 8 s.hydraRxwindow) := by
  intro ch hch
  rcases List.mem_append.mp hch with h | h
  · exact text_hexField _ _ ch h
  · exact text_hexField _ _ ch h

/-- What stands at the second and the third string from the place of the wanted options on. -/
theorem walk_initPkt (pre tail : List UInt8) (s : Side) :
    let buf := pre ++ (joined 0 s.names ++ 0 ::
      ((hexField 8 s.hydraTxwindow ++ hexField 8 s.hydraRxwindow) ++ 0 :: (s.pktprefix ++ 0 :: tail)))
    scanWindows (cstr buf (next buf pre.length)) = s.told ∧
      cstr buf (next buf (next buf pre.length)) = s.asked := by
  intro buf
  have htext : ∀ w ∈ s.names, Text w := fun w hw => (mem_names hw).2.1
  have hsecond {first second : List UInt8} {more : List (List UInt8)} :=
    @scanWindows_second s first second more
  simp only [Side.told, Side.asked]
  cases hnames : s.names with
  | nil =>
    have hwalk := walk pre [] _ _ tail (by intro ch hch; cases hch) (text_windows s) s.text_pktprefix
    have hbuf : buf = pre ++ ([] ++ 0 :: ((hexField 8 s.hydraTxwindow ++ hexField 8 s.hydraRxwindow) ++
      0 :: (s.pktprefix ++ 0 :: tail))) := by simp only [buf, hnames, joined]
    rw [hbuf, hwalk.1, hwalk.2]
    exact ⟨scanWindows_fields s, rfl⟩
  | cons first more =>
    rw [hnames] at htext
    have hfirst := htext first List.mem_cons_self
    cases more with
    | nil =>
      have hwalk := walk pre first _ _ tail hfirst (text_windows s) s.text_pktprefix
      have hbuf : buf = pre ++ (first ++ 0 :: ((hexField 8 s.hydraTxwindow ++
        hexField 8 s.hydraRxwindow) ++ 0 :: (s.pktprefix ++ 0 :: tail))) := by
          simp only [buf, hnames, joined]
      rw [hbuf, hwalk.1, hwalk.2]
      exact ⟨scanWindows_fields s, rfl⟩
    | cons second more =>
      have hsec := htext second (by simp)
      have htold := hsecond hnames
      cases more with
      | nil =>
        have hwalk := walk pre first second _ (s.pktprefix ++ 0 :: tail) hfirst hsec (text_windows s)
        have hbuf : buf = pre ++ (first ++ 0 :: (second ++ 0 :: ((hexField 8 s.hydraTxwindow ++
          hexField 8 s.hydraRxwindow) ++ 0 :: (s.pktprefix ++ 0 :: tail)))) := by
            have hsplit : joined 0 [first, second] = first ++ 0 :: second := rfl
            simp only [buf, hnames, hsplit, List.append_assoc, List.cons_append]
        rw [hbuf, hwalk.1, hwalk.2]
        exact ⟨htold, rfl⟩
      | cons third more =>
        have hthird := htext third (by simp)
        obtain ⟨rest, hrest⟩ : ∃ rest, joined 0 (third :: more) ++ 0 ::
            ((hexField 8 s.hydraTxwindow ++ hexField 8 s.hydraRxwindow) ++
              0 :: (s.pktprefix ++ 0 :: tail)) = third ++ 0 :: rest := by
          cases more with
          | nil => exact ⟨_, rfl⟩
          | cons fourth more =>
            have hsplit : joined 0 (third :: fourth :: more) =
              third ++ 0 :: joined 0 (fourth :: more) := rfl
            exact ⟨_, by rw [hsplit, List.append_assoc, List.cons_append]⟩
        have hwalk := walk pre first second third rest hfirst hsec hthird
        have hbuf : buf = pre ++ (first ++ 0 :: (second ++ 0 :: (third ++ 0 :: rest))) := by
          have hsplit : joined 0 (first :: second :: third :: more) =
            first ++ 0 :: (second ++ 0 :: joined 0 (third :: more)) := rfl
          rw [← hrest]
          simp only [buf, hnames, hsplit, List.append_assoc, List.cons_append]
        rw [hbuf, hwalk.1, hwalk.2]
        exact ⟨htold, rfl⟩

/-- The handler on the packet of another side, whatever lies behind the packet in the buffer. -/
theorem hpktInit_initPkt (s t : Side) (tail : List UInt8) :
    (agreedOptions s (initPkt t ++ tail)).1 = s.options ||| t.options ||| hunnOptions ∧
      hpktInit s (initPkt t ++ tail) = some
        { rxoptions := s.options ||| t.options ||| hunnOptions
          txoptions := s.options ||| t.options ||| hunnOptions
          rxwindow := window s.hydraRxwindow t.told.1
          txwindow := window s.hydraTxwindow t.told.2
          txpktprefix := t.asked.take 31 } := by
  have happ : Text appInfo := by
    have hall : ∀ ch ∈ appInfo, ch ≠ 0 := by decide +kernel
    exact hall
  have hcan : (Hydra.names hcanOptions).foldl getFlag 0 = hcanOptions := by decide
  let fields := (hexField 8 t.hydraTxwindow ++ hexField 8 t.hydraRxwindow) ++ 0 ::
    (t.pktprefix ++ 0 :: tail)
  let pre := appInfo ++ [0]
  let pre' := pre ++ (putFlags hcanOptions ++ [0])
  let pre'' := pre ++ (joined 0 (Hydra.names hcanOptions) ++ [0])
  have hbuf : initPkt t ++ tail = appInfo ++ 0 :: (putFlags hcanOptions ++ 0 ::
      (putFlags t.options ++ 0 :: fields)) := by
    simp only [initPkt, fields, List.append_assoc, List.cons_append, List.nil_append]
  have hp : next (initPkt t ++ tail) 0 = pre.length := by
    rw [hbuf]
    exact next_at [] happ
  have hq : next (initPkt t ++ tail) pre.length = pre'.length := by
    have hshape : initPkt t ++ tail = pre ++ (putFlags hcanOptions ++ 0 ::
        (putFlags t.options ++ 0 :: fields)) := by rw [hbuf]; simp [pre]
    rw [hshape]
    exact next_at pre (text_putFlags _)
  have hwant : getFlags (initPkt t ++ tail) pre'.length =
      (t.options, pre' ++ (joined 0 t.names ++ 0 :: fields)) := by
    have hshape : initPkt t ++ tail = pre' ++ (putFlags t.options ++ 0 :: fields) := by
      rw [hbuf]; simp [pre', pre]
    rw [hshape, getFlags_putFlags, show Hydra.names t.options = t.names from rfl,
      foldl_getFlag_options t]
  have hcan' : getFlags (pre' ++ (joined 0 t.names ++ 0 :: fields)) pre.length =
      (hcanOptions, pre'' ++ (joined 0 t.names ++ 0 :: fields)) := by
    have hshape : pre' ++ (joined 0 t.names ++ 0 :: fields) =
        pre ++ (putFlags hcanOptions ++ 0 :: (joined 0 t.names ++ 0 :: fields)) := by simp [pre']
    rw [hshape, getFlags_putFlags, hcan]
    simp [pre'']
  have hlength : pre'.length = pre''.length := by
    have hjoined : (putFlags hcanOptions).length = (joined 0 (Hydra.names hcanOptions)).length := by
      decide
    simp only [pre', pre'', List.length_append, hjoined]
  have hmask : (((s.options ||| hunnOptions) ||| t.options) &&& hcanOptions) &&& hcanOptions =
      s.options ||| t.options ||| hunnOptions := by
    have hs : s.options &&& hcanOptions = s.options :=
      forall_options (P := fun o => o &&& hcanOptions = o) (by decide) s
    have ht : t.options &&& hcanOptions = t.options :=
      forall_options (P := fun o => o &&& hcanOptions = o) (by decide) t
    have hu : hunnOptions &&& hcanOptions = hunnOptions := by decide
    rw [BitVec.and_assoc, BitVec.and_self, BitVec.or_comm _ t.options, BitVec.and_comm,
      BitVec.and_or_distrib_left, BitVec.and_or_distrib_left, BitVec.and_comm, ht,
      BitVec.and_comm, hs, BitVec.and_comm, hu, BitVec.or_comm s.options t.options, BitVec.or_assoc]
  have hagreed : agreedOptions s (initPkt t ++ tail) =
      (s.options ||| t.options ||| hunnOptions, pre'' ++ (joined 0 t.names ++ 0 :: fields)) := by
    simp only [agreedOptions, hp, hq, hwant, hcan', hmask]
  have hnever : ¬ (s.options ||| t.options ||| hunnOptions) < (s.options &&& hnecOptions) := by
    have hs : s.options &&& hnecOptions = s.options :=
      forall_options (P := fun o => o &&& hnecOptions = o) (by decide) s
    rw [hs, BitVec.lt_def, BitVec.or_assoc, BitVec.toNat_or]
    exact Nat.not_lt.mpr Nat.left_le_or
  have hwalk := walk_initPkt pre'' tail t
  refine ⟨by rw [hagreed], ?_⟩
  simp only [hpktInit, hp, hq, hagreed, if_neg hnever, hlength]
  rw [hwalk.1, hwalk.2]

/-- What the two sides of one link have to hold alike. -/
structure Agrees (a b : Side) (here there : Link) : Prop where
  one : here.rxoptions = here.txoptions
  other : there.rxoptions = there.txoptions
  options : here.rxoptions = there.rxoptions
  forth : here.txwindow = there.rxwindow
  back : there.txwindow = here.rxwindow
  prefixHere : here.txpktprefix = b.pktprefix
  prefixThere : there.txpktprefix = a.pktprefix

/-- Two sides have gone through each other's packet, with something behind it in either buffer. -/
structure Negotiated (a b : Side) (atA atB : List UInt8) : Prop where
  abortsA : hpktInit a (initPkt b ++ atA) = none ↔
    (a.options &&& hnecOptions) &&& ~~~(agreedOptions a (initPkt b ++ atA)).1 ≠ 0
  abortsB : hpktInit b (initPkt a ++ atB) = none ↔
    (b.options &&& hnecOptions) &&& ~~~(agreedOptions b (initPkt a ++ atB)).1 ≠ 0
  agrees : ∀ here there, hpktInit a (initPkt b ++ atA) = some here →
    hpktInit b (initPkt a ++ atB) = some there → Agrees a b here there

/-- Either side's prefix is what its packet is taken to ask for, and the windows told fit. -/
def Plain (a b : Side) : Prop :=
  a.asked = a.pktprefix ∧ b.asked = b.pktprefix ∧
    window a.hydraTxwindow b.told.2 = window b.hydraRxwindow a.told.1 ∧
    window b.hydraTxwindow a.told.2 = window a.hydraRxwindow b.told.1

theorem length_asked (s : Side) : s.asked.length ≤ 31 := by
  rw [Side.asked]
  split
  · next name more h =>
    have hname : name ∈ Hydra.names s.options := by
      rw [show Hydra.names s.options = _ from h]
      simp
    have hlength := (mem_names hname).2.2
    omega
  · simp [length_hexField]
  · exact s.length_pktprefix

theorem missing_eq_zero (s t : Side) :
    (s.options &&& hnecOptions) &&& ~~~(s.options ||| t.options ||| hunnOptions) = 0 := by
  apply BitVec.eq_of_getLsbD_eq
  intro i hi
  simp only [BitVec.getLsbD_and, BitVec.getLsbD_not, BitVec.getLsbD_or, hi, decide_true,
    Bool.true_and]
  cases s.options.getLsbD i <;> simp

theorem window_comm {m n : ℕ} : window m n = window n m := by
  simp only [window]
  split_ifs <;> omega

/-- A side that wants at most one option is understood. -/
theorem told_of_names {s : Side} (h : s.names.length ≤ 1) :
    s.told = ((s.hydraTxwindow : ℤ), (s.hydraRxwindow : ℤ)) ∧ s.asked = s.pktprefix := by
  simp only [Side.told, Side.asked]
  cases hnames : s.names with
  | nil => exact ⟨rfl, rfl⟩
  | cons first more =>
    cases more with
    | nil => exact ⟨rfl, rfl⟩
    | cons second more =>
      rw [hnames] at h
      simp at h

theorem plain_of_names {a b : Side} (ha : a.names.length ≤ 1) (hb : b.names.length ≤ 1) :
    Plain a b := by
  have hta := told_of_names ha
  have htb := told_of_names hb
  refine ⟨hta.2, htb.2, ?_, ?_⟩
  · rw [hta.1, htb.1]
    exact window_comm
  · rw [hta.1, htb.1]
    exact window_comm

theorem negotiated_iff (a b : Side) (atA atB : List UInt8) :
    Negotiated a b atA atB ↔ Plain a b := by
  have hhere := hpktInit_initPkt a b atA
  have hthere := hpktInit_initPkt b a atB
  have htakeA : a.asked.take 31 = a.asked := List.take_of_length_le (length_asked a)
  have htakeB : b.asked.take 31 = b.asked := List.take_of_length_le (length_asked b)
  constructor
  · intro h
    have hagrees := h.agrees _ _ hhere.2 hthere.2
    have hforth := hagrees.forth
    have hback := hagrees.back
    have hprefixHere := hagrees.prefixHere
    have hprefixThere := hagrees.prefixThere
    simp only [htakeA, htakeB] at hforth hback hprefixHere hprefixThere
    exact ⟨hprefixThere, hprefixHere, hforth, hback⟩
  · intro ⟨hasked, hasked', hforth, hback⟩
    constructor
    · rw [hhere.2, hhere.1, missing_eq_zero]
      simp
    · rw [hthere.2, hthere.1, missing_eq_zero]
      simp
    · intro here there hsome hsome'
      rw [hhere.2] at hsome
      rw [hthere.2] at hsome'
      cases hsome
      cases hsome'
      constructor
      · rfl
      · rfl
      · change a.options ||| b.options ||| hunnOptions = b.options ||| a.options ||| hunnOptions
        rw [BitVec.or_comm a.options]
      · exact hforth
      · exact hback
      · exact htakeB.trans hasked'
      · exact htakeA.trans hasked

/-- A side that wants XON/XOFF and Telenet escapes, and one that wants nothing. -/
theorem not_negotiated : ∃ a b : Side, ¬ Negotiated a b [] [] := by
  let a : Side :=
    { wantOptions := hoptXonxoff ||| hoptTelenet, hydraTxwindow := 0, hydraRxwindow := 0,
      pktprefix := [], txwindow_lt := by decide, rxwindow_lt := by decide,
      text_pktprefix := (by intro ch hch; cases hch), length_pktprefix := by decide }
  let b : Side := { a with wantOptions := 0 }
  refine ⟨a, b, fun h => ?_⟩
  have hprefix := (h.agrees _ _ (hpktInit_initPkt a b []).2 (hpktInit_initPkt b a []).2).prefixThere
  exact absurd hprefix (by decide)

end CProgram.Hydra
