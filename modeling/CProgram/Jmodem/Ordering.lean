import CProgram.Jmodem.Line

/-! What holds in every run of the two loops: the receiver has the first records, each once, and the sender
is at most one record ahead of what the receiver has taken. -/
namespace CProgram.Jmodem

/-- The block of a record that has been read. -/
def Recorded (reads : List (List UInt8)) (num : ℕ) (buffer : List UInt8) : Prop :=
  ∃ beyond last data, 0 < num ∧ reads[num - 1]? = some data ∧ buffer = record beyond num last data

/-- Whether the sender is in `send_blk`. -/
def Sending.Busy : Sending → Prop
  | .writing _ | .flushing _ | .waiting _ => True
  | _ => False

/-- Nothing is outstanding only while the next record is read. -/
def Sending.pending : Sending → ℕ
  | .reading => 0
  | _ => 1

structure ReadSoFar (p : SendSide) : Prop where
  length : p.reads.length = p.sBlk
  short : p.sLen ≤ datMax
  records : ∀ data ∈ p.reads, data.length < 65536
  buffer : p.phase.Busy → Recorded p.reads p.sBlk p.buffer

structure Received (reads : List (List UInt8)) (r : RecvSide) : Prop where
  file : ∀ f, r.file = some f → f = (reads.take r.sBlk).flatten
  storing : ∀ data last, r.phase = .storing data last → reads[r.sBlk]? = some data

def Packet.num? : Packet → Option ℕ
  | .block num _ => some num
  | .garbage => none

/-- The blocks on their way, in the order of their records, none in front of what the receiver has taken. -/
structure OnWay (reads : List (List UInt8)) (low high : ℕ) (forth : List Packet) : Prop where
  recorded : ∀ num buffer, .block num buffer ∈ forth → Recorded reads num buffer ∧ low ≤ num ∧ num ≤ high
  ordered : (forth.filterMap Packet.num?).Pairwise (· ≤ ·)

structure Sound (s : Link) : Prop where
  read : ReadSoFar s.sender
  received : Received s.sender.reads s.receiver
  onWay : OnWay s.sender.reads s.accepted s.sender.sBlk s.forth
  acked : s.acks + s.sender.sBlk ≤ s.accepted + s.sender.phase.pending
  taken : s.accepted ≤ s.sender.sBlk

variable {s t : Link} {reads : List (List UInt8)} {low high : ℕ} {forth : List Packet}

theorem Recorded.append {num : ℕ} {buffer : List UInt8} (h : Recorded reads num buffer) (data : List UInt8) :
    Recorded (reads ++ [data]) num buffer := by
  obtain ⟨beyond, last, d, hpos, hread, hbuffer⟩ := h
  have hlt := (List.getElem?_eq_some_iff.mp hread).1
  exact ⟨beyond, last, d, hpos, by rw [List.getElem?_append_left hlt, hread], hbuffer⟩

theorem OnWay.sublist (h : OnWay reads low high forth) {later : List Packet} (hsub : later.Sublist forth) :
    OnWay reads low high later where
  recorded num buffer hmem := h.recorded num buffer (hsub.mem hmem)
  ordered := h.ordered.sublist (hsub.filterMap _)

theorem filterMap_damage (forth : List Packet) (i : ℕ) :
    ((forth.set i .garbage).filterMap Packet.num?).Sublist (forth.filterMap Packet.num?) := by
  induction forth generalizing i with
  | nil => exact List.Sublist.refl _
  | cons p forth ih =>
    cases i with
    | zero =>
      rw [List.set_cons_zero]
      cases p with
      | block num buffer => exact List.sublist_cons_self _ _
      | garbage => exact List.Sublist.refl _
    | succ i =>
      rw [List.set_cons_succ]
      cases p with
      | block num buffer => exact (ih i).cons_cons num
      | garbage => exact ih i

theorem OnWay.damage (h : OnWay reads low high forth) (i : ℕ) : OnWay reads low high (forth.set i .garbage) where
  recorded num buffer hmem := by
    obtain hold | hnew := List.mem_or_eq_of_mem_set hmem
    · exact h.recorded num buffer hold
    · cases hnew
  ordered := h.ordered.sublist (filterMap_damage forth i)

theorem OnWay.garbage (h : OnWay reads low high forth) : OnWay reads low high (forth ++ [.garbage]) where
  recorded num buffer hmem := by
    obtain hold | hnew := List.mem_append.mp hmem
    · exact h.recorded num buffer hold
    · cases List.mem_singleton.mp hnew
  ordered := by
    have hnone : [Packet.garbage].filterMap Packet.num? = [] := rfl
    rw [List.filterMap_append, hnone, List.append_nil]
    exact h.ordered

/-- The current block comes behind the others. -/
theorem OnWay.block (h : OnWay reads low high forth) {buffer : List UInt8} (hbuffer : Recorded reads high buffer)
    (hlow : low ≤ high) : OnWay reads low high (forth ++ [.block high buffer]) where
  recorded num b hmem := by
    obtain hold | hnew := List.mem_append.mp hmem
    · exact h.recorded num b hold
    · obtain ⟨rfl, rfl⟩ := Packet.block.inj (List.mem_singleton.mp hnew)
      exact ⟨hbuffer, hlow, le_rfl⟩
  ordered := by
    rw [List.filterMap_append, List.pairwise_append]
    apply And.intro h.ordered
    apply And.intro (List.pairwise_singleton _ _)
    intro a ha b hb
    obtain ⟨p, hp, hnum⟩ := List.mem_filterMap.mp ha
    have hb' : b = high := by simpa [Packet.num?] using hb
    cases p with
    | garbage => cases hnum
    | block num buffer =>
      obtain rfl := Option.some.inj hnum
      rw [hb']
      exact (h.recorded num buffer hp).2.2

/-- A record has been read. -/
theorem OnWay.read (h : OnWay reads low high forth) (data : List UInt8) :
    OnWay (reads ++ [data]) low (high + 1) forth where
  recorded num buffer hmem := by
    obtain ⟨hrecorded, hlow, hhigh⟩ := h.recorded num buffer hmem
    exact ⟨hrecorded.append data, hlow, by omega⟩
  ordered := h.ordered

/-- Behind a block that is taken there is none in front of it. -/
theorem OnWay.taken {num : ℕ} {buffer : List UInt8} (h : OnWay reads low high (.block num buffer :: forth)) :
    OnWay reads num high forth where
  recorded n b hmem := by
    obtain ⟨hrecorded, -, hhigh⟩ := h.recorded n b (List.mem_cons_of_mem _ hmem)
    have hordered := h.ordered
    rw [List.filterMap_cons_some (rfl : Packet.num? (.block num buffer) = some num)] at hordered
    have hle := (List.pairwise_cons.mp hordered).1 n (List.mem_filterMap.mpr ⟨.block n b, hmem, rfl⟩)
    exact ⟨hrecorded, hle, hhigh⟩
  ordered := h.ordered.sublist ((List.sublist_cons_self _ _).filterMap _)

theorem Received.append {r : RecvSide} (h : Received reads r) (hle : r.sBlk ≤ reads.length) (data : List UInt8) :
    Received (reads ++ [data]) r where
  file f hf := by
    rw [List.take_append_of_le_length hle]
    exact h.file f hf
  storing d last hphase := by
    have hread := h.storing d last hphase
    rw [List.getElem?_append_left (List.getElem?_eq_some_iff.mp hread).1, hread]

/-- Only the low byte of the number is compared, but only two numbers can be there. -/
theorem num_of_byte {num n : ℕ} (hlow : n ≤ num) (hhigh : num ≤ n + 1)
    (h : UInt8.ofNat num = UInt8.ofNat (n + 1)) : num = n + 1 := by
  have hmod := congrArg UInt8.toNat h
  rw [UInt8.toNat_ofNat', UInt8.toNat_ofNat'] at hmod
  omega

/-! One step -/

theorem pending_le (phase : Sending) : phase.pending ≤ 1 := by
  cases phase <;> simp [Sending.pending]

theorem sound_giveUp (h : Sound s) : Sound s.giveUp := by
  have hacked := h.acked
  have hpending := pending_le s.sender.phase
  constructor
  · exact ⟨h.read.length, h.read.short, h.read.records, fun hfalse => hfalse.elim⟩
  · exact h.received
  · exact h.onWay.garbage
  · change s.acks + s.sender.sBlk ≤ s.accepted + 1
    omega
  · exact h.taken

theorem sound_retry (h : Sound s) (hbusy : s.sender.phase.Busy) (tries : ℕ) : Sound (s.retry tries) := by
  rw [Link.retry]
  split
  · exact sound_giveUp h
  · have hacked := h.acked
    have hpending := pending_le s.sender.phase
    constructor
    · exact ⟨h.read.length, h.read.short, h.read.records, fun _ => h.read.buffer hbusy⟩
    · exact h.received
    · exact h.onWay
    · change s.acks + s.sender.sBlk ≤ s.accepted + 1
      omega
    · exact h.taken

theorem sound_back (h : Sound s) {back : List Answer} (hacks : back.count .ack ≤ s.acks) : Sound { s with back } where
  read := h.read
  received := h.received
  onWay := h.onWay
  acked := by
    have hacked := h.acked
    change back.count .ack + s.sender.sBlk ≤ s.accepted + s.sender.phase.pending
    omega
  taken := h.taken

theorem sound_forth (h : Sound s) {forth : List Packet}
    (hforth : OnWay s.sender.reads s.accepted s.sender.sBlk forth) : Sound { s with forth } where
  read := h.read
  received := h.received
  onWay := hforth
  acked := h.acked
  taken := h.taken

theorem sound_read (h : Sound s) (hphase : s.sender.phase = .reading) (beyond : UInt8) : Sound (s.read beyond) := by
  have hacked := h.acked
  have htaken := h.taken
  have hlength := h.read.length
  rw [hphase] at hacked
  have hcaught : s.acks + s.sender.sBlk ≤ s.accepted := hacked
  have hstored : s.receiver.sBlk ≤ s.accepted := by
    rw [Link.accepted]
    split <;> omega
  rw [Link.read]
  dsimp only
  split
  · constructor
    · exact ⟨h.read.length, h.read.short, h.read.records, fun hfalse => hfalse.elim⟩
    · exact h.received
    · exact h.onWay
    · change s.acks + s.sender.sBlk ≤ s.accepted + 1
      omega
    · exact h.taken
  · have hshort : (s.sender.rest.take s.sender.sLen).length < 65536 := by
      have hle := h.read.short
      simp only [datMax] at hle
      rw [List.length_take]
      omega
    constructor
    · constructor
      · simp [hlength]
      · exact h.read.short
      · intro data hdata
        obtain hold | hnew := List.mem_append.mp hdata
        · exact h.read.records data hold
        · rw [List.mem_singleton.mp hnew]
          exact hshort
      · intro _
        refine ⟨beyond, _, _, Nat.succ_pos _, ?_, rfl⟩
        change (s.sender.reads ++ [s.sender.rest.take s.sender.sLen])[s.sender.sBlk + 1 - 1]? = _
        rw [Nat.add_sub_cancel, ← hlength, List.getElem?_concat_length]
    · exact h.received.append (by omega) _
    · exact h.onWay.read _
    · change s.acks + (s.sender.sBlk + 1) ≤ s.accepted + 1
      omega
    · change s.accepted ≤ s.sender.sBlk + 1
      omega

theorem nextLen_le (sLen tries : ℕ) (h : sLen ≤ datMax) : nextLen sLen tries ≤ datMax := by
  simp only [nextLen, datMax] at h ⊢
  split <;> omega

theorem sound_acked (h : Sound s) (hacked : s.acks + 1 + s.sender.sBlk ≤ s.accepted + 1) (tries : ℕ) :
    Sound (s.acked tries) where
  read := by
    constructor
    · exact h.read.length
    · exact nextLen_le _ _ h.read.short
    · exact h.read.records
    · intro hbusy
      simp only [Link.acked] at hbusy
      split at hbusy
      · exact hbusy.elim
      · exact hbusy.elim
  received := h.received
  onWay := h.onWay
  acked := by
    change s.acks + s.sender.sBlk ≤ s.accepted + _
    omega
  taken := h.taken

/-- The receiver goes on, or leaves without the file. -/
theorem sound_receiving (h : Sound s) {phase : Receiving} {file : Option (List UInt8)}
    (hphase : ∀ data last, phase ≠ .storing data last) (hfile : ∀ f, file = some f → s.receiver.file = some f)
    (haccepted : s.accepted = s.receiver.sBlk) :
    Sound { s with receiver := { s.receiver with phase, file } } := by
  have hsame : Link.accepted { s with receiver := { s.receiver with phase, file } } = s.accepted := by
    rw [haccepted, Link.accepted]
    split
    · next data last hstoring => exact absurd hstoring (hphase data last)
    · rfl
  constructor
  · exact h.read
  · constructor
    · intro f hf
      exact h.received.file f (hfile f hf)
    · intro data last hstoring
      exact absurd hstoring (hphase data last)
  · rw [hsame]
    exact h.onWay
  · rw [hsame]
    exact h.acked
  · rw [hsame]
    exact h.taken

theorem sound_refuse (h : Sound s) (haccepted : s.accepted = s.receiver.sBlk) (tries : ℕ) :
    Sound (s.refuse tries) := by
  have hnak : Sound { s with back := s.back ++ [Answer.nak] } := by
    apply sound_back h
    simp [Link.acks]
  rw [Link.refuse]
  dsimp only
  split
  · exact sound_receiving hnak (by simp) (by simp) haccepted
  · exact sound_receiving hnak (by simp) (fun _ hf => hf) haccepted

theorem sound_take (h : Sound s) {tries own : ℕ} (hphase : s.receiver.phase = .receiving tries own) {p : Packet}
    {forth : List Packet} (hforth : s.forth = p :: forth) : Sound (Link.take { s with forth } tries p) := by
  have haccepted : s.accepted = s.receiver.sBlk := by rw [Link.accepted, hphase]
  have honway := h.onWay
  rw [hforth] at honway
  have hrest : Sound { s with forth } := sound_forth h (honway.sublist (List.sublist_cons_self _ _))
  cases p with
  | garbage => exact sound_refuse hrest haccepted tries
  | block num buffer =>
    obtain ⟨⟨beyond, last, data, hpos, hread, hbuffer⟩, hlow, hhigh⟩ := honway.recorded num buffer List.mem_cons_self
    have hacked := h.acked
    have htaken := h.taken
    have hpending := pending_le s.sender.phase
    have hshort := h.read.records data (List.mem_of_getElem? hread)
    rw [Link.take]
    rw [hbuffer, check_record hshort]
    split
    · next found flag hcheck =>
      split at hcheck
      · next hnum =>
        obtain ⟨rfl, rfl⟩ := Prod.mk.inj (Option.some.inj hcheck)
        have hexact : num = s.receiver.sBlk + 1 := num_of_byte (by omega) (by omega) hnum
        constructor
        · exact h.read
        · constructor
          · exact h.received.file
          · intro d l hstoring
            obtain ⟨rfl, rfl⟩ := Receiving.storing.inj hstoring
            rw [hexact, Nat.add_sub_cancel] at hread
            exact hread
        · have htail := honway.taken
          rw [hexact] at htail
          exact htail
        · change (s.back ++ [Answer.ack]).count .ack + s.sender.sBlk ≤ s.receiver.sBlk + 1 + s.sender.phase.pending
          have hcount : (s.back ++ [Answer.ack]).count .ack = s.acks + 1 := by simp [Link.acks]
          omega
        · change s.receiver.sBlk + 1 ≤ s.sender.sBlk
          omega
      · cases hcheck
    · exact sound_refuse hrest haccepted tries

theorem sound_stored (h : Sound s) {data : List UInt8} {last : Bool} (hphase : s.receiver.phase = .storing data last) :
    Sound (s.stored data last) := by
  have haccepted : s.accepted = s.receiver.sBlk + 1 := by rw [Link.accepted, hphase]
  have hread := h.received.storing data last hphase
  have hfile : ∀ f, s.receiver.file.map (· ++ data) = some f →
      f = (s.sender.reads.take (s.receiver.sBlk + 1)).flatten := by
    intro f hf
    obtain ⟨old, hold, rfl⟩ := Option.map_eq_some_iff.mp hf
    rw [h.received.file old hold, List.take_add_one, hread]
    simp
  have hany (phase : Receiving) (file : Option (List UInt8)) (hnot : ∀ d l, phase ≠ .storing d l)
      (hkept : ∀ f, file = some f → s.receiver.file.map (· ++ data) = some f) :
      Sound { s with receiver := { s.receiver with phase, file, sBlk := s.receiver.sBlk + 1 } } := by
    have hsame : Link.accepted { s with
        receiver := { s.receiver with phase, file, sBlk := s.receiver.sBlk + 1 } } = s.accepted := by
      rw [haccepted, Link.accepted]
      split
      · next d l hstoring => exact absurd hstoring (hnot d l)
      · rfl
    constructor
    · exact h.read
    · constructor
      · exact fun f hf => hfile f (hkept f hf)
      · exact fun d l hstoring => absurd hstoring (hnot d l)
    · rw [hsame]
      exact h.onWay
    · rw [hsame]
      exact h.acked
    · rw [hsame]
      exact h.taken
  rw [Link.stored]
  dsimp only
  split
  · exact hany _ _ (by simp) (fun _ hf => hf)
  split
  · exact hany _ _ (by simp) (by simp)
  · exact hany _ _ (by simp) (fun _ hf => hf)

theorem sound_recvTimeout (h : Sound s) {tries own : ℕ} (hphase : s.receiver.phase = .receiving tries own)
    (arrived : ℕ) : s.step (.recvTimeout arrived) = some t → Sound t := by
  intro hstep
  have haccepted : s.accepted = s.receiver.sBlk := by rw [Link.accepted, hphase]
  have hflushed : Sound { s with forth := s.forth.drop arrived } :=
    sound_forth h (h.onWay.sublist (List.drop_sublist _ _))
  simp only [Link.step, hphase] at hstep
  split at hstep
  · obtain rfl := Option.some.inj hstep
    have hcans : Sound { s with
        forth := s.forth.drop arrived
        back := s.back ++ [Answer.nak] ++ List.replicate 6 Answer.can } := by
      apply sound_back hflushed
      simp [Link.acks]
    exact sound_receiving hcans (by simp) (by simp) haccepted
  · obtain rfl := Option.some.inj hstep
    have hnak : Sound { s with forth := s.forth.drop arrived, back := s.back ++ [Answer.nak] } := by
      apply sound_back hflushed
      simp [Link.acks]
    exact sound_receiving hnak (by simp) (fun _ hf => hf) haccepted

theorem sound_answer (h : Sound s) (hstep : s.step .answer = some t) : Sound t := by
  have hacked := h.acked
  simp only [Link.step] at hstep
  split at hstep
  · next tries back hphase hback =>
    obtain rfl := Option.some.inj hstep
    rw [hphase] at hacked
    have hcount : s.acks = back.count .ack + 1 := by rw [Link.acks, hback, List.count_cons_self]
    apply sound_acked (sound_back h (by omega))
    change back.count .ack + 1 + s.sender.sBlk ≤ s.accepted + 1
    rw [← hcount]
    exact hacked
  · next tries back hphase hback =>
    obtain rfl := Option.some.inj hstep
    have hcount : s.acks = back.count .ack := by rw [Link.acks, hback, List.count_cons_of_ne (by decide)]
    apply sound_retry (sound_back h hcount.ge)
    change s.sender.phase.Busy
    rw [hphase]
    trivial
  · next tries back hphase hback =>
    obtain rfl := Option.some.inj hstep
    have hcount : s.acks = back.count .ack := by rw [Link.acks, hback, List.count_cons_of_ne (by decide)]
    exact sound_giveUp (sound_back h hcount.ge)
  · cases hstep

/-- From one place in `send_blk` to the next, with the block on its way or not. -/
theorem sound_sending (h : Sound s) (hbusy : s.sender.phase.Busy) {phase : Sending} (hphase : phase.Busy) :
    Sound { s with sender := { s.sender with phase } } where
  read := ⟨h.read.length, h.read.short, h.read.records, fun _ => h.read.buffer hbusy⟩
  received := h.received
  onWay := h.onWay
  acked := by
    have hacked := h.acked
    have hpending := pending_le s.sender.phase
    have hone : phase.pending = 1 := by
      cases phase with
      | reading => exact hphase.elim
      | _ => rfl
    change s.acks + s.sender.sBlk ≤ s.accepted + phase.pending
    omega
  taken := h.taken

theorem step_sound (h : Sound s) {e : Event} (hstep : s.step e = some t) : Sound t := by
  cases e with
  | read beyond =>
    simp only [Link.step] at hstep
    split at hstep
    · next hphase =>
      obtain rfl := Option.some.inj hstep
      exact sound_read h hphase beyond
    · cases hstep
  | write =>
    simp only [Link.step] at hstep
    split at hstep
    · next tries hphase =>
      obtain rfl := Option.some.inj hstep
      have hbusy : s.sender.phase.Busy := by rw [hphase]; trivial
      have hsent := sound_forth h (h.onWay.block (h.read.buffer hbusy) h.taken)
      exact sound_sending hsent hbusy trivial
    · cases hstep
  | flush arrived =>
    simp only [Link.step] at hstep
    split at hstep
    · next tries hphase =>
      obtain rfl := Option.some.inj hstep
      have hbusy : s.sender.phase.Busy := by rw [hphase]; trivial
      have hflushed := sound_back h ((List.drop_sublist arrived s.back).count_le .ack)
      exact sound_sending hflushed hbusy trivial
    · cases hstep
  | answer => exact sound_answer h hstep
  | sendTimeout =>
    simp only [Link.step] at hstep
    split at hstep
    · next tries hphase =>
      obtain rfl := Option.some.inj hstep
      apply sound_retry h
      rw [hphase]
      trivial
    · cases hstep
  | receive =>
    simp only [Link.step] at hstep
    split at hstep
    · next tries own p forth hphase hforth =>
      obtain rfl := Option.some.inj hstep
      exact sound_take h hphase hforth
    · cases hstep
  | recvTimeout arrived =>
    cases hphase : s.receiver.phase with
    | receiving tries own => exact sound_recvTimeout h hphase arrived hstep
    | storing data last => simp [Link.step, hphase] at hstep
    | ended status => simp [Link.step, hphase] at hstep
  | store =>
    simp only [Link.step] at hstep
    split at hstep
    · next data last hphase =>
      obtain rfl := Option.some.inj hstep
      exact sound_stored h hphase
    · cases hstep
  | loseForth i =>
    obtain rfl := Option.some.inj hstep
    exact sound_forth h (h.onWay.sublist (List.eraseIdx_sublist _ _))
  | damage i =>
    obtain rfl := Option.some.inj hstep
    exact sound_forth h (h.onWay.damage i)
  | loseBack i =>
    obtain rfl := Option.some.inj hstep
    exact sound_back h ((List.eraseIdx_sublist s.back i).count_le .ack)

theorem start_sound (file : List UInt8) : Sound (Link.start file) where
  read := ⟨rfl, (by decide : blkSiz ≤ datMax), by simp [Link.start], fun hfalse => hfalse.elim⟩
  received := ⟨by simp [Link.start], by simp [Link.start]⟩
  onWay := ⟨by simp [Link.start], List.Pairwise.nil⟩
  acked := le_rfl
  taken := le_rfl

/-! Whole runs -/

theorem run_sound (h : Sound s) {events : List Event} (hrun : s.run events = some t) : Sound t := by
  induction events generalizing s with
  | nil =>
    obtain rfl := Option.some.inj hrun
    exact h
  | cons e later ih =>
    obtain ⟨next, hstep, hlater⟩ := Option.bind_eq_some_iff.mp hrun
    exact ih (step_sound h hstep) hlater

/-- The records are those of the file, and the receiver has the first of them, each once. -/
structure InOrder (file : List UInt8) (s : Link) : Prop where
  source : s.sender.reads.flatten ++ s.sender.rest = file
  written : ∀ f, s.receiver.file = some f → f = (s.sender.reads.take s.receiver.sBlk).flatten
  next : ∀ data last, s.receiver.phase = .storing data last → s.sender.reads[s.receiver.sBlk]? = some data
  ahead : s.sender.sBlk ≤ s.accepted + 1

theorem retry_source (s : Link) (tries : ℕ) :
    (s.retry tries).sender.reads = s.sender.reads ∧ (s.retry tries).sender.rest = s.sender.rest := by
  rw [Link.retry]
  split <;> exact ⟨rfl, rfl⟩

theorem refuse_sender (s : Link) (tries : ℕ) : (s.refuse tries).sender = s.sender := by
  rw [Link.refuse]
  dsimp only
  split <;> rfl

theorem take_sender (s : Link) (tries : ℕ) (p : Packet) : (s.take tries p).sender = s.sender := by
  cases p with
  | garbage => exact refuse_sender s tries
  | block num buffer =>
    rw [Link.take]
    split
    · rfl
    · exact refuse_sender s tries

theorem stored_sender (s : Link) (data : List UInt8) (last : Bool) : (s.stored data last).sender = s.sender := by
  rw [Link.stored]
  dsimp only
  split
  · rfl
  split <;> rfl

/-- The receiver and the line leave the sender as it is. -/
theorem step_sender {e : Event} (hstep : s.step e = some t) :
    (t.sender.reads = s.sender.reads ∧ t.sender.rest = s.sender.rest) ∨
      ∃ beyond, t = s.read beyond := by
  cases e with
  | read beyond =>
    simp only [Link.step] at hstep
    split at hstep
    · obtain rfl := Option.some.inj hstep
      exact Or.inr ⟨beyond, rfl⟩
    · cases hstep
  | write =>
    simp only [Link.step] at hstep
    split at hstep
    · obtain rfl := Option.some.inj hstep
      exact Or.inl ⟨rfl, rfl⟩
    · cases hstep
  | flush arrived =>
    simp only [Link.step] at hstep
    split at hstep
    · obtain rfl := Option.some.inj hstep
      exact Or.inl ⟨rfl, rfl⟩
    · cases hstep
  | answer =>
    simp only [Link.step] at hstep
    split at hstep
    · obtain rfl := Option.some.inj hstep
      exact Or.inl ⟨rfl, rfl⟩
    · obtain rfl := Option.some.inj hstep
      exact Or.inl (retry_source _ _)
    · obtain rfl := Option.some.inj hstep
      exact Or.inl ⟨rfl, rfl⟩
    · cases hstep
  | sendTimeout =>
    simp only [Link.step] at hstep
    split at hstep
    · obtain rfl := Option.some.inj hstep
      exact Or.inl (retry_source _ _)
    · cases hstep
  | receive =>
    simp only [Link.step] at hstep
    split at hstep
    · obtain rfl := Option.some.inj hstep
      rw [take_sender]
      exact Or.inl ⟨rfl, rfl⟩
    · cases hstep
  | recvTimeout arrived =>
    simp only [Link.step] at hstep
    split at hstep
    · split at hstep
      · obtain rfl := Option.some.inj hstep
        exact Or.inl ⟨rfl, rfl⟩
      · obtain rfl := Option.some.inj hstep
        exact Or.inl ⟨rfl, rfl⟩
    · cases hstep
  | store =>
    simp only [Link.step] at hstep
    split at hstep
    · obtain rfl := Option.some.inj hstep
      rw [stored_sender]
      exact Or.inl ⟨rfl, rfl⟩
    · cases hstep
  | loseForth i | damage i | loseBack i =>
    obtain rfl := Option.some.inj hstep
    exact Or.inl ⟨rfl, rfl⟩

theorem step_source {file : List UInt8} (h : s.sender.reads.flatten ++ s.sender.rest = file) {e : Event}
    (hstep : s.step e = some t) : t.sender.reads.flatten ++ t.sender.rest = file := by
  cases step_sender hstep with
  | inl hkept => rw [hkept.1, hkept.2, h]
  | inr hread =>
    obtain ⟨beyond, rfl⟩ := hread
    rw [Link.read]
    dsimp only
    split
    · exact h
    · dsimp only
      rw [List.flatten_append, List.flatten_singleton, List.append_assoc, List.take_append_drop, h]

theorem run_source {file : List UInt8} (h : s.sender.reads.flatten ++ s.sender.rest = file) {events : List Event}
    (hrun : s.run events = some t) : t.sender.reads.flatten ++ t.sender.rest = file := by
  induction events generalizing s with
  | nil =>
    obtain rfl := Option.some.inj hrun
    exact h
  | cons e later ih =>
    obtain ⟨next, hstep, hlater⟩ := Option.bind_eq_some_iff.mp hrun
    exact ih (step_source h hstep) hlater

/-- Whatever the line loses, damages or delays, and whenever a timeout comes. -/
theorem run_inOrder (file : List UInt8) (events : List Event) (hrun : (Link.start file).run events = some s) :
    InOrder file s := by
  have hsound := run_sound (start_sound file) hrun
  have hacked := hsound.acked
  have hpending := pending_le s.sender.phase
  constructor
  · exact run_source (s := Link.start file) (List.nil_append file) hrun
  · exact hsound.received.file
  · exact hsound.received.storing
  · omega

/-- The first block is taken, and its ACK is on its way. -/
theorem first_block {file : List UInt8} (h : file ≠ []) :
    ∃ s, (Link.start file).run [.read 0, .write, .flush 0, .receive] = some s ∧
      s.sender = ⟨.waiting 9, file.drop 512, 512, 1,
        record 0 1 (decide ((file.take 512).length ≠ 512)) (file.take 512), [file.take 512]⟩ ∧
      s.receiver = ⟨.storing (file.take 512) (decide ((file.take 512).length ≠ 512)), 0, some []⟩ ∧
      s.forth = [] ∧ s.back = [.ack] := by
  have hdata : file.take 512 ≠ [] := by
    intro hnil
    cases List.take_eq_nil_iff.mp hnil with
    | inl hzero => omega
    | inr hfile => exact h hfile
  have hshort : (file.take 512).length < 65536 := by
    rw [List.length_take]
    omega
  have hcheck : check 0 (record 0 1 (decide ((file.take 512).length ≠ 512)) (file.take 512)) =
      if UInt8.ofNat 1 = UInt8.ofNat (0 + 1) then some (file.take 512, decide ((file.take 512).length ≠ 512)) else none :=
    check_record hshort 0 1 _
  rw [if_pos rfl] at hcheck
  have hread : (Link.start file).read 0 =
      { Link.start file with sender := ⟨.writing 9, file.drop 512, 512, 1,
          record 0 1 (decide ((file.take 512).length ≠ 512)) (file.take 512), [file.take 512]⟩ } := if_neg hdata
  generalize decide ((file.take 512).length ≠ 512) = last at hcheck hread
  have hstep : (Link.start file).step (.read 0) = some ((Link.start file).read 0) := rfl
  rw [Link.run, hstep, hread]
  simp [Link.run, Link.step, Link.start, Link.take, hcheck]

theorem run_append (s : Link) (events later : List Event) :
    s.run (events ++ later) = (s.run events).bind fun t => t.run later := by
  induction events generalizing s with
  | nil => rfl
  | cons e events ih => simp only [List.cons_append, Link.run, Option.bind_assoc, ih]

/-- The sender can be two records ahead of what is written. -/
theorem overtakes (file : List UInt8) (h : 512 < file.length) :
    ∃ s, (Link.start file).run ([.read 0, .write, .flush 0, .receive] ++ [.answer, .read 0]) = some s ∧
      s.sender.sBlk = 2 ∧ s.receiver.sBlk = 0 := by
  have hfile : file ≠ [] := List.ne_nil_of_length_pos (by omega)
  obtain ⟨⟨sender, receiver, forth, back⟩, hrun, rfl, rfl, rfl, rfl⟩ := first_block hfile
  have hfull : decide ((file.take 512).length ≠ 512) = false := by
    rw [List.length_take]
    exact decide_eq_false (by omega)
  have htyp : ¬ (record 0 1 false (file.take 512)).getD 2 0 = eof := typ_record 1
  have hlong : ¬ file.length ≤ 512 := by omega
  rw [hfull] at hrun
  rw [run_append, hrun]
  simp [Link.run, Link.step, Link.read, Link.acked, htyp, hlong, nextLen, datMax, -List.getD_eq_getElem?_getD]

theorem run_inOrder_ahead : ∃ s, (Link.start (List.replicate 1000 0)).run
    ([.read 0, .write, .flush 0, .receive] ++ [.answer, .read 0]) = some s ∧ InOrder (List.replicate 1000 0) s := by
  obtain ⟨s, hrun, -, -⟩ := overtakes (List.replicate 1000 0) (by rw [List.length_replicate]; omega)
  exact ⟨s, hrun, run_inOrder _ _ hrun⟩

/-- The ACK goes out in front of the write, so that the sender reads on when nothing is written yet. -/
theorem not_written_ahead : ¬ ∀ (file : List UInt8) (events : List Event) (s : Link),
    (Link.start file).run events = some s → s.sender.sBlk ≤ s.receiver.sBlk + 1 := by
  intro hall
  obtain ⟨s, hrun, hsent, hwritten⟩ := overtakes (List.replicate 1000 0) (by rw [List.length_replicate]; omega)
  have hahead := hall _ _ s hrun
  omega

/-! A lost ACK -/

/-- The block of the sender is one that the receiver has taken, and no ACK for it is on its way. -/
structure Stranded (s : Link) : Prop where
  phase : s.sender.phase.Busy ∨ s.sender.phase = .ended .abt
  taken : s.sender.sBlk = s.accepted
  lost : s.acks = 0

/-- Both ends come to the end of the file with the whole of it. -/
def Recovers (file : List UInt8) (s : Link) : Prop :=
  ∃ events t, s.run events = some t ∧ t.sender.phase = .ended .nrm ∧ t.receiver.phase = .ended .nrm ∧
    t.receiver.file = some file

theorem Stranded.kept (h : Stranded s) (hphase : t.sender.phase.Busy ∨ t.sender.phase = .ended .abt)
    (hsBlk : t.sender.sBlk = s.sender.sBlk) (haccepted : t.accepted = s.accepted) (hacks : t.acks ≤ s.acks) :
    Stranded t where
  phase := hphase
  taken := by rw [hsBlk, haccepted, h.taken]
  lost := Nat.le_zero.mp (hacks.trans_eq h.lost)

theorem Stranded.back (h : Stranded s) {back : List Answer} (hacks : back.count .ack ≤ s.acks) :
    Stranded { s with back } := h.kept (t := { s with back }) h.phase rfl rfl hacks

theorem Stranded.giveUp (h : Stranded s) : Stranded s.giveUp := h.kept (t := s.giveUp) (Or.inr rfl) rfl rfl le_rfl

theorem Stranded.retry (h : Stranded s) (tries : ℕ) : Stranded (s.retry tries) := by
  rw [Link.retry]
  split
  · exact h.giveUp
  · exact h.kept (Or.inl trivial) rfl rfl le_rfl

theorem Stranded.refuse (h : Stranded s) (haccepted : s.accepted = s.receiver.sBlk) (tries : ℕ) :
    Stranded (s.refuse tries) := by
  have hacks : (s.back ++ [Answer.nak]).count .ack ≤ s.acks := by simp [Link.acks]
  rw [Link.refuse]
  dsimp only
  split
  · exact h.kept h.phase rfl haccepted.symm hacks
  · exact h.kept h.phase rfl haccepted.symm hacks

/-- The block that comes again is not the one expected. -/
theorem Stranded.take (h : Stranded s) (hsound : Sound s) {tries own : ℕ}
    (hphase : s.receiver.phase = .receiving tries own) {p : Packet} {forth : List Packet}
    (hforth : s.forth = p :: forth) : Stranded (Link.take { s with forth } tries p) := by
  have haccepted : s.accepted = s.receiver.sBlk := by rw [Link.accepted, hphase]
  have hrest : Stranded { s with forth } := h.kept h.phase rfl rfl le_rfl
  cases p with
  | garbage => exact hrest.refuse haccepted tries
  | block num buffer =>
    have hmem : .block num buffer ∈ s.forth := by
      rw [hforth]
      exact List.mem_cons_self
    obtain ⟨⟨beyond, last, data, hpos, hread, hbuffer⟩, hlow, hhigh⟩ := hsound.onWay.recorded num buffer hmem
    have hshort := hsound.read.records data (List.mem_of_getElem? hread)
    have htaken := h.taken
    have hother : UInt8.ofNat num ≠ UInt8.ofNat (s.receiver.sBlk + 1) := by
      intro hsame
      have hnum := num_of_byte (by omega) (by omega) hsame
      omega
    rw [Link.take]
    rw [hbuffer, check_record hshort, if_neg hother]
    exact hrest.refuse haccepted tries

theorem Stranded.stored (h : Stranded s) {data : List UInt8} {last : Bool}
    (hphase : s.receiver.phase = .storing data last) : Stranded (s.stored data last) := by
  have haccepted : s.receiver.sBlk + 1 = s.accepted := by rw [Link.accepted, hphase]
  rw [Link.stored]
  dsimp only
  split
  · exact h.kept h.phase rfl haccepted le_rfl
  split
  · exact h.kept h.phase rfl haccepted le_rfl
  · exact h.kept h.phase rfl haccepted le_rfl

theorem step_stranded (h : Stranded s) (hsound : Sound s) {e : Event} (hstep : s.step e = some t) : Stranded t := by
  have hlost := h.lost
  cases e with
  | read beyond =>
    simp only [Link.step] at hstep
    split at hstep
    · next hphase =>
      have hbusy := h.phase
      rw [hphase] at hbusy
      cases hbusy with
      | inl hfalse => exact hfalse.elim
      | inr hended => cases hended
    · cases hstep
  | write =>
    simp only [Link.step] at hstep
    split at hstep
    · obtain rfl := Option.some.inj hstep
      exact h.kept (Or.inl trivial) rfl rfl le_rfl
    · cases hstep
  | flush arrived =>
    simp only [Link.step] at hstep
    split at hstep
    · obtain rfl := Option.some.inj hstep
      have hflushed := h.back ((List.drop_sublist arrived s.back).count_le .ack)
      exact hflushed.kept (Or.inl trivial) rfl rfl le_rfl
    · cases hstep
  | answer =>
    simp only [Link.step] at hstep
    split at hstep
    · next tries back hphase hback =>
      rw [Link.acks, hback, List.count_cons_self] at hlost
      omega
    · next tries back hphase hback =>
      obtain rfl := Option.some.inj hstep
      have hrest : back.count Answer.ack ≤ s.acks := by
        rw [Link.acks, hback]
        exact (List.sublist_cons_self _ _).count_le Answer.ack
      exact (h.back hrest).retry tries
    · next tries back hphase hback =>
      obtain rfl := Option.some.inj hstep
      have hrest : back.count Answer.ack ≤ s.acks := by
        rw [Link.acks, hback]
        exact (List.sublist_cons_self _ _).count_le Answer.ack
      exact (h.back hrest).giveUp
    · cases hstep
  | sendTimeout =>
    simp only [Link.step] at hstep
    split at hstep
    · obtain rfl := Option.some.inj hstep
      exact h.retry _
    · cases hstep
  | receive =>
    simp only [Link.step] at hstep
    split at hstep
    · next tries own p forth hphase hforth =>
      obtain rfl := Option.some.inj hstep
      exact h.take hsound hphase hforth
    · cases hstep
  | recvTimeout arrived =>
    simp only [Link.step] at hstep
    split at hstep
    · next tries own hphase =>
      have haccepted : s.receiver.sBlk = s.accepted := by rw [Link.accepted, hphase]
      split at hstep
      · obtain rfl := Option.some.inj hstep
        have hcans : (s.back ++ [Answer.nak] ++ List.replicate 6 Answer.can).count .ack ≤ s.acks := by
          simp [Link.acks]
        exact h.kept h.phase rfl haccepted hcans
      · obtain rfl := Option.some.inj hstep
        have hnak : (s.back ++ [Answer.nak]).count .ack ≤ s.acks := by simp [Link.acks]
        exact h.kept h.phase rfl haccepted hnak
    · cases hstep
  | store =>
    simp only [Link.step] at hstep
    split at hstep
    · next data last hphase =>
      obtain rfl := Option.some.inj hstep
      exact h.stored hphase
    · cases hstep
  | loseForth i | damage i =>
    obtain rfl := Option.some.inj hstep
    exact h.kept h.phase rfl rfl le_rfl
  | loseBack i =>
    obtain rfl := Option.some.inj hstep
    exact h.back ((List.eraseIdx_sublist s.back i).count_le .ack)

theorem run_stranded (h : Stranded s) (hsound : Sound s) {events : List Event} (hrun : s.run events = some t) :
    Stranded t := by
  induction events generalizing s with
  | nil =>
    obtain rfl := Option.some.inj hrun
    exact h
  | cons e later ih =>
    obtain ⟨next, hstep, hlater⟩ := Option.bind_eq_some_iff.mp hrun
    exact ih (step_stranded h hsound hstep) (step_sound hsound hstep) hlater

/-- With its ACK a block loses the sender. -/
theorem stranded_of_lost (hsound : Sound s) {tries i : ℕ} (hphase : s.sender.phase = .waiting tries)
    (hack : s.back[i]? = some .ack) : Stranded { s with back := s.back.eraseIdx i } := by
  obtain ⟨hlt, hget⟩ := List.getElem?_eq_some_iff.mp hack
  have hcount : s.acks = (s.back.eraseIdx i).count .ack + 1 := by
    rw [Link.acks, ← (List.getElem_cons_eraseIdx_perm hlt).count_eq, hget, List.count_cons_self]
  have hacked := hsound.acked
  have htaken := hsound.taken
  rw [hphase] at hacked
  have hpending : s.acks + s.sender.sBlk ≤ s.accepted + 1 := hacked
  constructor
  · left
    change s.sender.phase.Busy
    rw [hphase]
    trivial
  · change s.sender.sBlk = s.accepted
    omega
  · change (s.back.eraseIdx i).count .ack = 0
    omega

theorem stranded_for_good (h : Stranded s) (hsound : Sound s) (file : List UInt8) : ¬ Recovers file s := by
  intro hrecovers
  obtain ⟨events, t, hrun, hended, -, -⟩ := hrecovers
  have hphase := (run_stranded h hsound hrun).phase
  rw [hended] at hphase
  cases hphase with
  | inl hbusy => exact hbusy
  | inr habt => cases habt

/-- For every block: once the ACK the sender waits for is lost, the sender never comes to the end. -/
theorem lost_ack (file : List UInt8) (events : List Event) (hrun : (Link.start file).run events = some s)
    {tries i : ℕ} (hphase : s.sender.phase = .waiting tries) (hack : s.back[i]? = some .ack)
    (hlost : s.step (.loseBack i) = some t) : ¬ Recovers file t := by
  have hsound := run_sound (start_sound file) hrun
  have hstranded := stranded_of_lost hsound hphase hack
  have hsoundLost := step_sound hsound hlost
  obtain rfl := Option.some.inj hlost
  exact stranded_for_good hstranded hsoundLost file

theorem lost_ack_first : ∃ s t, (Link.start [0]).run [.read 0, .write, .flush 0, .receive] = some s ∧
    s.step (.loseBack 0) = some t ∧ ¬ Recovers [0] t := by
  obtain ⟨s, hrun, hsender, -, -, hback⟩ := first_block (List.cons_ne_nil 0 [])
  have hack : s.back[0]? = some .ack := by rw [hback]; rfl
  exact ⟨s, _, hrun, rfl, lost_ack [0] _ hrun (congrArg SendSide.phase hsender) hack rfl⟩

/-- Not even the only block of a file of one byte. -/
theorem not_recovers_first : ¬ ∀ (file : List UInt8) (events : List Event) (s t : Link) (tries i : ℕ),
    (Link.start file).run events = some s → s.sender.phase = .waiting tries → s.back[i]? = some .ack →
      s.step (.loseBack i) = some t → Recovers file t := by
  intro hall
  obtain ⟨s, hrun, hsender, -, -, hback⟩ := first_block (List.cons_ne_nil 0 [])
  have hphase := congrArg SendSide.phase hsender
  have hack : s.back[0]? = some .ack := by rw [hback]; rfl
  have hsound := run_sound (start_sound [0]) hrun
  have hrecovers := hall [0] _ s _ 9 0 hrun hphase hack rfl
  exact stranded_for_good (stranded_of_lost hsound hphase hack) (step_sound (e := .loseBack 0) hsound rfl) [0] hrecovers

end CProgram.Jmodem
