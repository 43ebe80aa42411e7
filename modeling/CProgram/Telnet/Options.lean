import CProgram.Telnet.Bounds

/-! Option negotiation between a client and a host, both of them this program. WILL for the window size is
answered with WILL on either side, so that the two never come to an end. -/
namespace CProgram.Telnet

/-- The two ends, what is on its way to each, and how many messages have been sent. -/
structure Net where
  client : Nvt
  host : Nvt
  toHost : List UInt8
  toClient : List UInt8
  sent : ℕ
deriving DecidableEq, Repr

def sending (replies : List Reply) : List UInt8 := replies.flatMap Reply.bytes

/-- Both have sent their options, and nothing has arrived. -/
def Net.start (cc hc : Config) : Net where
  client := Nvt.reset.greet
  host := Nvt.reset.greet
  toHost := sending (cc.sendOptions .reset)
  toClient := sending (hc.sendOptions .reset)
  sent := (cc.sendOptions .reset).length + (hc.sendOptions .reset).length

/-- One byte arrives. -/
inductive Delivers (cc hc : Config) : Net → Net → Prop
  | atHost (client host : Nvt) (ch : UInt8) (toHost toClient : List UInt8) (sent : ℕ) :
    Delivers cc hc ⟨client, host, ch :: toHost, toClient, sent⟩
      ⟨client, (host.readByte hc ch).nvt, toHost, toClient ++ sending (host.readByte hc ch).replies,
        sent + (host.readByte hc ch).replies.length⟩
  | atClient (client host : Nvt) (ch : UInt8) (toHost toClient : List UInt8) (sent : ℕ) :
    Delivers cc hc ⟨client, host, toHost, ch :: toClient, sent⟩
      ⟨(client.readByte cc ch).nvt, host, toHost ++ sending (client.readByte cc ch).replies, toClient,
        sent + (client.readByte cc ch).replies.length⟩

inductive Reaches (cc hc : Config) : Net → Prop
  | start : Reaches cc hc (.start cc hc)
  | step {n n' : Net} : Reaches cc hc n → Delivers cc hc n n' → Reaches cc hc n'

/-- An order in which bytes keep arriving. -/
structure Order (cc hc : Config) (run : ℕ → Net) : Prop where
  start : run 0 = .start cc hc
  step (i : ℕ) : Delivers cc hc (run i) (run (i + 1))

/-- Whether an option is on; one that is not known never is. -/
def Nvt.flag (t : Nvt) (option : UInt8) : Bool :=
  match option with
  | 0 => t.binaryMode
  | 1 => t.echoMode
  | 3 => !t.goAhead
  | 24 => t.doTermType
  | 31 => t.doNaws
  | 32 => t.doTermSpeed
  | 39 => t.doEnvironment
  | _ => false

/-- A request for the state that the option is in already is not answered. -/
def Quiet (c : Config) : Prop :=
  ∀ (t : Nvt) (ch : UInt8), t.subnegEnd = false → t.dowill → t.flag ch = t.wanted →
    (t.readByte c ch).replies = []

variable {c cc hc : Config} {t : Nvt} {ch : UInt8} {bytes more : List UInt8} {n n' : Net}

/-! ### Whole messages -/

/-- No command is half read. -/
structure Ground (t : Nvt) : Prop where
  iac : t.iac = false
  dowill : t.dowill = false
  subnegEnd : t.subnegEnd = false

/-- An answer to DO, DON'T, WILL or WON'T, or a window size. -/
def Plain : Reply → Prop
  | .respond response _ => response = WILL ∨ response = WONT ∨ response = DO ∨ response = DONT
  | .subneg _ _ => False
  | .naws _ _ => True

theorem readBytes_append : t.readBytes c (bytes ++ more) =
    { nvt := ((t.readBytes c bytes).nvt.readBytes c more).nvt
      stored := (t.readBytes c bytes).stored ++ ((t.readBytes c bytes).nvt.readBytes c more).stored
      replies := (t.readBytes c bytes).replies ++ ((t.readBytes c bytes).nvt.readBytes c more).replies } := by
  induction bytes generalizing t with
  | nil => rfl
  | cons ch bytes ih =>
    rw [List.cons_append, Nvt.readBytes, ih]
    simp [Nvt.readBytes]

theorem plain_agree (t : Nvt) (option : UInt8) : ∀ r ∈ t.agree option, Plain r := by
  intro r hr
  unfold Nvt.agree at hr
  split at hr
  · obtain rfl := List.mem_singleton.mp hr
    exact Or.inl rfl
  · simp at hr

theorem plain_dowillOption : ∀ r ∈ (t.dowillOption c ch).replies, Plain r := by
  unfold Nvt.dowillOption
  split
  · exact plain_agree t _
  · exact plain_agree t _
  · exact plain_agree t _
  · exact plain_agree t _
  · intro r hr
    simp only at hr
    split_ifs at hr
    · simp only [List.mem_cons, List.not_mem_nil, or_false] at hr
      rcases hr with rfl | rfl
      · exact Or.inl rfl
      · trivial
    · obtain rfl := List.mem_singleton.mp hr
      trivial
    · simp at hr
  · exact plain_agree t _
  · exact plain_agree t _
  · intro r hr
    obtain rfl := List.mem_singleton.mp hr
    unfold telnetRefuse
    split
    · exact Or.inr (Or.inl rfl)
    · exact Or.inr (Or.inr (Or.inr rfl))

theorem ground_dowillOption (hi : t.iac = false) (hs : t.subnegEnd = false) :
    Ground (t.dowillOption c ch).nvt := by
  unfold Nvt.dowillOption
  split <;> exact ⟨hi, rfl, hs⟩

/-- What the reader is after the command and before the option. -/
theorem readByte_command {response : UInt8} (ht : Ground t)
    (hr : response = WILL ∨ response = WONT ∨ response = DO ∨ response = DONT) :
    t.readBytes c [IAC, response] =
      { nvt := { t with dowill := true, dowillType := response, iac := false } } := by
  obtain ⟨hi, hd, hs⟩ := ht
  have hne : response ≠ IAC ∧ response ≠ SB := by rcases hr with rfl | rfl | rfl | rfl <;> decide
  simp [Nvt.readBytes, Nvt.readByte, Nvt.command, hi, hd, hs, hne, hr]

theorem readBytes_respond {response option : UInt8} (ht : Ground t)
    (hr : response = WILL ∨ response = WONT ∨ response = DO ∨ response = DONT) :
    t.readBytes c [IAC, response, option] =
      ({ t with dowill := true, dowillType := response, iac := false } : Nvt).dowillOption c option := by
  have hsplit : [IAC, response, option] = [IAC, response] ++ [option] := rfl
  have hstored : (({ t with dowill := true, dowillType := response, iac := false } : Nvt).dowillOption c
      option).stored = [] := by
    unfold Nvt.dowillOption
    split <;> rfl
  have hs := ht.subnegEnd
  rw [hsplit, readBytes_append, readByte_command ht hr]
  simp [Nvt.readBytes, Nvt.readByte, hs]

/-- Inside a window size. -/
structure Inner (t : Nvt) : Prop where
  dowill : t.dowill = false
  subnegEnd : t.subnegEnd = true
  subneg : t.subneg.head? = some 31

/-- Inside a window size, or past its end. -/
def Sizing (t : Nvt) : Prop := Ground t ∨ Inner t

theorem readByte_ground (ht : Ground t) (hch : ch ≠ IAC) :
    Ground (t.readByte c ch).nvt ∧ (t.readByte c ch).replies = [] := by
  obtain ⟨hi, hd, hs⟩ := ht
  rw [Nvt.readByte, hs, hd, hi, if_neg (by simp), if_neg (by simp), if_neg hch, if_neg (by simp)]
  split
  · exact ⟨⟨hi, hd, hs⟩, rfl⟩
  · unfold Nvt.asciiMode
    split_ifs <;> exact ⟨⟨hi, hd, hs⟩, rfl⟩

theorem inner_collects (ht : Inner t) (b : UInt8) : Inner { t with subneg := t.subneg ++ [b] } where
  dowill := ht.dowill
  subnegEnd := ht.subnegEnd
  subneg := by
    rw [List.head?_append, ht.subneg]
    rfl

theorem readByte_inner (ht : Inner t) (hch : ch ≠ SE) :
    Inner (t.readByte c ch).nvt ∧ (t.readByte c ch).replies = [] := by
  rw [Nvt.readByte, if_pos ht.subnegEnd, Nvt.collect, if_neg hch]
  split_ifs
  · exact ⟨inner_collects ht IAC, rfl⟩
  · exact ⟨⟨ht.dowill, ht.subnegEnd, ht.subneg⟩, rfl⟩
  · exact ⟨inner_collects ht ch, rfl⟩

/-- The end of a window size is not answered. -/
theorem readByte_se (ht : Inner t) :
    Sizing (t.readByte c SE).nvt ∧ (t.readByte c SE).replies = [] ∧
      (t.iac → Ground (t.readByte c SE).nvt) := by
  have hsubneg : c.handleSubneg t.subneg = [] := by
    have hn := ht.subneg
    cases hlist : t.subneg with
    | nil => simp [hlist] at hn
    | cons option rest =>
      rw [hlist] at hn
      obtain rfl := Option.some.inj hn
      rfl
  rw [Nvt.readByte, if_pos ht.subnegEnd, Nvt.collect, if_pos rfl]
  split
  · have hground : Ground { t with iac := false, subnegEnd := false } := ⟨rfl, ht.dowill, rfl⟩
    exact ⟨Or.inl hground, hsubneg, fun _ => hground⟩
  · exact ⟨Or.inr ht, rfl, fun hi => absurd hi (by assumption)⟩

theorem readBytes_pair (first second : UInt8) : t.readBytes c [first, second] =
    { nvt := ((t.readByte c first).nvt.readByte c second).nvt
      stored := (t.readByte c first).stored ++ (((t.readByte c first).nvt.readByte c second).stored ++ [])
      replies := (t.readByte c first).replies ++
        (((t.readByte c first).nvt.readByte c second).replies ++ []) } := rfl

/-- IAC IAC outside a subnegotiation. -/
theorem readBytes_iacIac (ht : Ground t) :
    Ground (t.readBytes c [IAC, IAC]).nvt ∧ (t.readBytes c [IAC, IAC]).replies = [] := by
  obtain ⟨hi, hd, hs⟩ := ht
  simp only [readBytes_pair, Nvt.readByte, hi, hd, hs, Bool.false_eq_true, if_false, if_true,
    List.append_nil]
  exact ⟨⟨rfl, rfl, rfl⟩, trivial⟩

theorem readBytes_doubled (ht : Sizing t) (b : UInt8) :
    Sizing (t.readBytes c (doubled b)).nvt ∧ (t.readBytes c (doubled b)).replies = [] := by
  have hsingle : t.readBytes c [b] =
      { nvt := (t.readByte c b).nvt
        stored := (t.readByte c b).stored ++ []
        replies := (t.readByte c b).replies ++ [] } := rfl
  unfold doubled
  by_cases hb : b = IAC
  · rw [if_pos hb]
    rcases ht with ht | ht
    · have hpair := readBytes_iacIac (c := c) ht
      exact ⟨Or.inl hpair.1, hpair.2⟩
    · have hfirst := @readByte_inner c _ IAC ht (by decide)
      have hsecond := @readByte_inner c _ IAC hfirst.1 (by decide)
      rw [readBytes_pair]
      exact ⟨Or.inr hsecond.1, by simp [hfirst.2, hsecond.2]⟩
  · rw [if_neg hb, hsingle]
    rcases ht with ht | ht
    · have hone := readByte_ground (c := c) ht hb
      exact ⟨Or.inl hone.1, by simp [hone.2]⟩
    · by_cases hse : b = SE
      · subst hse
        have hend := readByte_se (c := c) ht
        exact ⟨hend.1, by simp [hend.2.1]⟩
      · have hone := readByte_inner (c := c) ht hse
        exact ⟨Or.inr hone.1, by simp [hone.2]⟩

/-- IAC SE ends a window size that has not ended before. -/
theorem readBytes_end (ht : Sizing t) :
    Ground (t.readBytes c [IAC, SE]).nvt ∧ (t.readBytes c [IAC, SE]).replies = [] := by
  rcases ht with ⟨hi, hd, hs⟩ | ht
  · have hne : SE ≠ IAC ∧ SE ≠ SB ∧ SE ≠ WILL ∧ SE ≠ WONT ∧ SE ≠ DO ∧ SE ≠ DONT := by decide
    simp only [readBytes_pair, Nvt.readByte, Nvt.command, hi, hd, hs, hne, Bool.false_eq_true, if_false,
      if_true, List.append_nil, or_self]
    exact ⟨⟨rfl, rfl, rfl⟩, trivial⟩
  · have hfirst := @readByte_inner c _ IAC ht (by decide)
    have hiac : (t.readByte c IAC).nvt.iac := by
      rw [Nvt.readByte, if_pos ht.subnegEnd, Nvt.collect, if_neg (by decide), if_pos rfl]
      split
      · assumption
      · rfl
    have hend := readByte_se (c := c) hfirst.1
    rw [readBytes_pair]
    exact ⟨hend.2.2 hiac, by simp [hfirst.2, hend.2.1]⟩

theorem readBytes_naws (ht : Ground t) (lines columns : ℕ) :
    Ground (t.readBytes c (Reply.naws lines columns).bytes).nvt ∧
      (t.readBytes c (Reply.naws lines columns).bytes).replies = [] := by
  have hstart : Inner (t.readBytes c [IAC, SB, 31]).nvt ∧ (t.readBytes c [IAC, SB, 31]).replies = [] := by
    obtain ⟨hi, hd, hs⟩ := ht
    have hne : SB ≠ IAC ∧ (31 : UInt8) ≠ SE ∧ (31 : UInt8) ≠ IAC := by decide
    simp only [Nvt.readBytes, Nvt.readByte, Nvt.command, Nvt.collect, hi, hd, hs, hne,
      Bool.false_eq_true, if_false, if_true, List.append_nil, List.nil_append]
    exact ⟨⟨rfl, rfl, rfl⟩, trivial⟩
  have hone := readBytes_doubled (c := c) (Or.inr hstart.1) (UInt8.ofNat (columns / 256))
  have htwo := readBytes_doubled (c := c) hone.1 (UInt8.ofNat (columns % 256))
  have hthree := readBytes_doubled (c := c) htwo.1 (UInt8.ofNat (lines / 256))
  have hfour := readBytes_doubled (c := c) hthree.1 (UInt8.ofNat (lines % 256))
  have hend := readBytes_end (c := c) hfour.1
  simp only [Reply.bytes, readBytes_append, hstart.2, hone.2, htwo.2, hthree.2, hfour.2, hend.2,
    List.append_nil]
  exact ⟨hend.1, trivial⟩

/-! ### What is on its way -/

/-- The reader finds whole messages, and answers them with such. -/
structure Good (c : Config) (t : Nvt) (bytes : List UInt8) : Prop where
  ground : Ground (t.readBytes c bytes).nvt
  plain : ∀ r ∈ (t.readBytes c bytes).replies, Plain r

/-- The reader will answer that it will send its window size. -/
def Willing (c : Config) (t : Nvt) (bytes : List UInt8) : Prop :=
  telnetWill 31 ∈ (t.readBytes c bytes).replies

theorem good_reply {r : Reply} (ht : Ground t) (hr : Plain r) :
    Good c t r.bytes ∧ (r = telnetWill 31 → Willing c t r.bytes) := by
  cases r with
  | respond response option =>
    have hread := @readBytes_respond c t response option ht hr
    constructor
    · constructor
      · rw [Reply.bytes, hread]
        exact ground_dowillOption rfl ht.subnegEnd
      · rw [Reply.bytes, hread]
        exact plain_dowillOption
    · intro hwill
      obtain ⟨rfl, rfl⟩ : response = WILL ∧ option = 31 := by simpa [telnetWill] using hwill
      rw [Willing, Reply.bytes, hread]
      exact List.mem_cons_self
  | subneg option response => exact hr.elim
  | naws lines columns =>
    have hread := readBytes_naws (c := c) ht lines columns
    refine ⟨⟨hread.1, ?_⟩, ?_⟩
    · rw [hread.2]
      simp
    · intro hwill
      simp [telnetWill] at hwill

theorem good_append (hg : Good c t bytes) (hm : Good c (t.readBytes c bytes).nvt more) :
    Good c t (bytes ++ more) := by
  constructor
  · rw [readBytes_append]
    exact hm.ground
  · rw [readBytes_append]
    intro r hr
    exact (List.mem_append.mp hr).elim (hg.plain r) (hm.plain r)

theorem willing_append : Willing c t (bytes ++ more) ↔
    Willing c t bytes ∨ Willing c (t.readBytes c bytes).nvt more := by
  rw [Willing, readBytes_append, List.mem_append]
  exact Iff.rfl

/-- Messages that are appended to whole messages. -/
theorem good_sending {replies : List Reply} (hg : Good c t bytes) (hr : ∀ r ∈ replies, Plain r) :
    Good c t (bytes ++ sending replies) ∧
      (Willing c t bytes ∨ telnetWill 31 ∈ replies → Willing c t (bytes ++ sending replies)) := by
  induction replies generalizing bytes with
  | nil =>
    rw [sending, List.flatMap_nil, List.append_nil]
    exact ⟨hg, fun h => h.resolve_right (by simp)⟩
  | cons r replies ih =>
    obtain ⟨hone, hwill⟩ := good_reply (c := c) hg.ground (hr r List.mem_cons_self)
    have hnext := ih (good_append hg hone) (fun r' hr' => hr r' (List.mem_cons_of_mem _ hr'))
    have hbytes : bytes ++ sending (r :: replies) = bytes ++ r.bytes ++ sending replies := by
      simp [sending]
    rw [hbytes]
    refine ⟨hnext.1, ?_⟩
    intro h
    apply hnext.2
    rw [willing_append, List.mem_cons] at *
    rcases h with h | rfl | h
    · exact Or.inl (Or.inl h)
    · exact Or.inl (Or.inr (hwill rfl))
    · exact Or.inr h

theorem good_cons (hg : Good c t (ch :: bytes)) :
    Good c (t.readByte c ch).nvt bytes ∧ (∀ r ∈ (t.readByte c ch).replies, Plain r) := by
  refine ⟨⟨hg.ground, ?_⟩, ?_⟩
  · intro r hr
    exact hg.plain r (List.mem_append_right _ hr)
  · intro r hr
    exact hg.plain r (List.mem_append_left _ hr)

theorem willing_cons : Willing c t (ch :: bytes) ↔
    telnetWill 31 ∈ (t.readByte c ch).replies ∨ Willing c (t.readByte c ch).nvt bytes := by
  rw [Willing, Nvt.readBytes, List.mem_append]
  exact Iff.rfl

/-! ### The two ends -/

/-- Everything on its way is whole, and one WILL for the window size is among it. -/
structure Alive (cc hc : Config) (n : Net) : Prop where
  atHost : Good hc n.host n.toHost
  atClient : Good cc n.client n.toClient
  willing : Willing hc n.host n.toHost ∨ Willing cc n.client n.toClient

theorem plain_sendOptions (c : Config) (t : Nvt) : ∀ r ∈ c.sendOptions t, Plain r := by
  have hplain : ∀ option : UInt8, Plain (telnetDo option) ∧ Plain (telnetDont option) ∧
      Plain (telnetWill option) := by
    intro option
    simp [Plain, telnetDo, telnetDont, telnetWill]
  intro r hr
  unfold Config.sendOptions at hr
  split_ifs at hr <;> grind

theorem alive_start (hcc : cc.host = false) : Alive cc hc (.start cc hc) := by
  have hnil (c : Config) : Good c Nvt.reset.greet [] := ⟨⟨rfl, rfl, rfl⟩, by simp [Nvt.readBytes]⟩
  have hhost := good_sending (hnil hc) (plain_sendOptions cc .reset)
  have hclient := good_sending (hnil cc) (plain_sendOptions hc .reset)
  have hwill : telnetWill 31 ∈ cc.sendOptions .reset := by
    simp [Config.sendOptions, hcc, Nvt.reset]
  exact ⟨hhost.1, hclient.1, Or.inl (hhost.2 (Or.inr hwill))⟩

theorem alive_step (h : Alive cc hc n) (hstep : Delivers cc hc n n') : Alive cc hc n' := by
  obtain ⟨hhost, hclient, hwill⟩ := h
  cases hstep with
  | atHost client host ch toHost toClient sent =>
    obtain ⟨hrest, hplain⟩ := good_cons hhost
    have hsent := good_sending hclient hplain
    rw [willing_cons] at hwill
    refine ⟨hrest, hsent.1, ?_⟩
    rcases hwill with (h | h) | h
    · exact Or.inr (hsent.2 (Or.inr h))
    · exact Or.inl h
    · exact Or.inr (hsent.2 (Or.inl h))
  | atClient client host ch toHost toClient sent =>
    obtain ⟨hrest, hplain⟩ := good_cons hclient
    have hsent := good_sending hhost hplain
    rw [willing_cons] at hwill
    refine ⟨hsent.1, hrest, ?_⟩
    rcases hwill with h | (h | h)
    · exact Or.inl (hsent.2 (Or.inl h))
    · exact Or.inl (hsent.2 (Or.inr h))
    · exact Or.inr h

theorem alive_reaches (hcc : cc.host = false) (h : Reaches cc hc n) : Alive cc hc n := by
  induction h with
  | start => exact alive_start hcc
  | step _ hstep ih => exact alive_step ih hstep

/-- Something is always on its way. -/
theorem delivers_of_alive (h : Alive cc hc n) : ∃ n', Delivers cc hc n n' := by
  obtain ⟨client, host, toHost, toClient, sent⟩ := n
  cases toHost with
  | cons ch toHost => exact ⟨_, .atHost client host ch toHost toClient sent⟩
  | nil =>
    cases toClient with
    | cons ch toClient => exact ⟨_, .atClient client host ch [] toClient sent⟩
    | nil =>
      have hwill := h.willing
      simp [Willing, Nvt.readBytes] at hwill

/-! ### The exchange never ends -/

theorem bytes_length (r : Reply) (hr : Plain r) : r.bytes.length ≤ 13 := by
  have hdoubled (b : UInt8) : (doubled b).length ≤ 2 := by
    unfold doubled
    split <;> simp
  cases r with
  | respond response option => simp [Reply.bytes]
  | subneg option response => exact hr.elim
  | naws lines columns =>
    have h1 := hdoubled (UInt8.ofNat (columns / 256))
    have h2 := hdoubled (UInt8.ofNat (columns % 256))
    have h3 := hdoubled (UInt8.ofNat (lines / 256))
    have h4 := hdoubled (UInt8.ofNat (lines % 256))
    simp only [Reply.bytes, List.length_append, List.length_cons, List.length_nil]
    omega

theorem sending_length {replies : List Reply} (hr : ∀ r ∈ replies, Plain r) :
    (sending replies).length ≤ 13 * replies.length := by
  induction replies with
  | nil => simp [sending]
  | cons r replies ih =>
    have hone := bytes_length r (hr r List.mem_cons_self)
    have hrest := ih (fun r' hr' => hr r' (List.mem_cons_of_mem _ hr'))
    simp only [sending, List.flatMap_cons, List.length_append, List.length_cons] at hrest ⊢
    omega

/-- The bytes that have arrived and those on their way have all been sent. -/
theorem delivered_length {run : ℕ → Net} (hcc : cc.host = false) (ho : Order cc hc run) (i : ℕ) :
    Alive cc hc (run i) ∧
      (run i).toHost.length + (run i).toClient.length + i ≤ 13 * (run i).sent := by
  induction i with
  | zero =>
    rw [ho.start]
    have hhost := sending_length (plain_sendOptions cc .reset)
    have hclient := sending_length (plain_sendOptions hc .reset)
    refine ⟨alive_start hcc, ?_⟩
    simp only [Net.start]
    omega
  | succ i ih =>
    obtain ⟨halive, hlen⟩ := ih
    have hstep := ho.step i
    refine ⟨alive_step halive hstep, ?_⟩
    generalize hn : run i = n at halive hlen hstep
    generalize run (i + 1) = n' at hstep
    cases hstep with
    | atHost client host ch toHost toClient sent =>
      have hplain : ∀ r ∈ (host.readByte hc ch).replies, Plain r := (good_cons halive.atHost).2
      have hsent := sending_length hplain
      simp only [List.length_append, List.length_cons] at hlen ⊢
      omega
    | atClient client host ch toHost toClient sent =>
      have hplain : ∀ r ∈ (client.readByte cc ch).replies, Plain r := (good_cons halive.atClient).2
      have hsent := sending_length hplain
      simp only [List.length_append, List.length_cons] at hlen ⊢
      omega

/-- A run can always be carried on. -/
theorem exists_order (hcc : cc.host = false) : ∃ run, Order cc hc run := by
  have hnext (n : {n // Alive cc hc n}) : ∃ n' : {n // Alive cc hc n}, Delivers cc hc n.1 n'.1 := by
    obtain ⟨n', hstep⟩ := delivers_of_alive n.2
    exact ⟨⟨n', alive_step n.2 hstep⟩, hstep⟩
  choose next hstep using hnext
  let run (i : ℕ) : {n // Alive cc hc n} := Nat.rec ⟨.start cc hc, alive_start hcc⟩ (fun _ n => next n) i
  exact ⟨fun i => (run i).1, rfl, fun i => hstep (run i)⟩

/-- Only finitely many messages are exchanged in this order. -/
def Settles (run : ℕ → Net) : Prop := ∃ bound, ∀ i, (run i).sent ≤ bound

theorem not_settles {run : ℕ → Net} (hcc : cc.host = false) (ho : Order cc hc run) : ¬ Settles run := by
  rintro ⟨bound, hbound⟩
  have hlen := (delivered_length hcc ho (13 * bound + 1)).2
  have hsent := hbound (13 * bound + 1)
  omega

/-- DO for an option that is on is answered once more. -/
theorem not_quiet (c : Config) : ¬ Quiet c := by
  intro h
  have hreplies := h { binaryMode := true, dowill := true, dowillType := DO } 0 rfl rfl rfl
  simp [Nvt.readByte, Nvt.dowillOption, Nvt.agree] at hreplies

/-- Whatever the emulations and the sizes of the two screens: the exchange never comes to rest, in no order
of the bytes does it settle, and neither end keeps quiet about what it knows. -/
theorem negotiation_never_settles (cc hc : Config) (hcc : cc.host = false) :
    (∀ n, Reaches cc hc n → ∃ n', Delivers cc hc n n') ∧ (∀ run, Order cc hc run → ¬ Settles run) ∧
      ¬ Quiet cc ∧ ¬ Quiet hc := by
  refine ⟨?_, ?_, not_quiet cc, not_quiet hc⟩
  · intro n hn
    exact delivers_of_alive (alive_reaches hcc hn)
  · intro run ho
    exact not_settles hcc ho

/-- A host with the defaults. -/
def hostMode : Config := { console with host := true }

theorem negotiation_never_settles_defaults :
    (∀ n, Reaches console hostMode n → ∃ n', Delivers console hostMode n n') ∧
      (∀ run, Order console hostMode run → ¬ Settles run) ∧ ¬ Quiet console ∧ ¬ Quiet hostMode :=
  negotiation_never_settles console hostMode rfl

theorem not_negotiation_settles : ¬ ∀ (cc hc : Config), cc.host = false → hc.host = true →
    (∀ run, Order cc hc run → Settles run) ∧ Quiet cc ∧ Quiet hc := by
  intro h
  obtain ⟨run, ho⟩ := @exists_order console hostMode rfl
  exact not_settles rfl ho ((h console hostMode rfl rfl).1 run ho)

end CProgram.Telnet
