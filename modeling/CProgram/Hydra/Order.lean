import CProgram.Hydra.Machine

/-! The order of a session: what has to be behind before file data or the end of the session go out. -/
namespace CProgram.Hydra

/-- What the log of a session can show. -/
inductive Fact where
  /-- START has been sent. -/
  | started
  /-- INIT has been sent. -/
  | inited
  /-- INITACK has come in. -/
  | acked
  /-- The INIT of the other side has come in. -/
  | processed
  /-- The end of the batch has been sent. -/
  | offered
  /-- The end of the batch has been sent, and acknowledged after that. -/
  | closed
  /-- The end of the batch of the other side has come in. -/
  | finished
  deriving DecidableEq

def Fact.Holds (log : List Entry) : Fact → Prop
  | .started => .sent hpktStart [] ∈ log
  | .inited => ∃ p, .sent hpktInitType p ∈ log
  | .acked => ∃ p, .got hpktInitack p ∈ log
  | .processed => ∃ p, .got hpktInitType p ∈ log
  | .offered => .sent hpktFinfo [0] ∈ log
  | .closed => ∃ p, [.got hpktFinfoack p, .sent hpktFinfo [0]].Sublist log
  | .finished => ∃ p, endOfBatch p ∧ .got hpktFinfo p ∈ log

/-- The log of the session that is on, newest first. -/
def since (log : List Entry) : List Entry := log.takeWhile (· ≠ .session)

/-- The packets that belong to files and devices. -/
def Entry.late : Entry → Bool
  | .sent type _ => type = hpktFinfo || type = hpktData || type = hpktEof || type = hpktDevdata
  | _ => false

def Entry.last : Entry → Bool
  | .sent type _ => type = hpktEnd
  | _ => false

/-- The session is open in both directions. -/
def Opened (log : List Entry) : Prop := ∀ f ∈ [Fact.started, .inited, .acked, .processed], f.Holds log

/-- Both batches have come to their end. -/
def Ended (log : List Entry) : Prop := ∀ f ∈ [Fact.closed, .finished], f.Holds log

def Allowed (e : Entry) (log : List Entry) : Prop := (e.late → Opened log) ∧ (e.last → Ended log)

/-- Everything was sent in its turn; the log has the newest entry first. -/
def InOrder : List Entry → Prop
  | [] => True
  | e :: log => Allowed e (since log) ∧ InOrder log

theorem Fact.Holds.cons {log : List Entry} {f : Fact} (h : f.Holds log) (e : Entry) : f.Holds (e :: log) := by
  cases f with
  | started => exact List.mem_cons_of_mem e h
  | offered => exact List.mem_cons_of_mem e h
  | inited => exact h.imp fun _ hp => List.mem_cons_of_mem e hp
  | acked => exact h.imp fun _ hp => List.mem_cons_of_mem e hp
  | processed => exact h.imp fun _ hp => List.mem_cons_of_mem e hp
  | closed => exact h.imp fun _ hp => hp.cons e
  | finished => exact h.imp fun _ hp => ⟨hp.1, List.mem_cons_of_mem e hp.2⟩

theorem since_cons {e : Entry} (he : e ≠ .session) (log : List Entry) : since (e :: log) = e :: since log :=
  List.takeWhile_cons_of_pos (by simpa using he)

/-! ### What the states owe -/

/-- The part of the machine that the order depends on. -/
structure View where
  txstate : Htx
  rxstate : Hrx
  fresh : Bool
  txtimer : Bool
  phase : Phase
  txfd : Bool
  txfname : List UInt8
  log : List Entry

def Session.view (s : Session) : View where
  txstate := s.txstate
  rxstate := s.rxstate
  fresh := s.txretries = 0
  txtimer := s.txtimer
  phase := s.phase
  txfd := s.txfd
  txfname := s.txfname
  log := s.log

/-- What has to stand in the log of the session. -/
def View.Owes (v : View) : Fact → Prop
  | .started => v.txstate ≠ .done ∧ (v.txstate = .start → v.phase = .receive)
  | .inited => 4 ≤ v.txstate.code ∨ v.txstate = .init ∧ v.fresh = false
  | .acked => 5 ≤ v.txstate.code
  | .processed => v.txstate ≠ .done ∧ v.rxstate ≠ .init
  | .offered => v.txfname = [] ∧ (v.txstate = .finfoack ∨ v.txstate = .finfo ∧ v.fresh = false)
  | .closed => 13 ≤ v.txstate.code
  | .finished => v.txstate ≠ .done ∧ v.rxstate = .done

/-- How the parts of the state go together. -/
structure View.Steady (v : View) : Prop where
  calm : v.txstate = .init ∨ v.txstate = .finfo → v.fresh = true → v.txtimer = false
  ready : 6 ≤ v.txstate.code → v.rxstate ≠ .init
  last : 14 ≤ v.txstate.code → v.rxstate = .done
  rest : v.phase = .outside → v.txstate = .done ∨ 6 ≤ v.txstate.code
  named : v.txfname = [] → v.txfd = false

structure View.Orderly (v : View) : Prop where
  order : InOrder v.log
  steady : v.Steady
  owed : ∀ f, v.Owes f → f.Holds (since v.log)

variable {v v' : View} {s : Session} {w : World} {type : UInt8} {payload rxbuf : List UInt8}

/-- A change of state that owes no more than before, or what the log shows. -/
theorem View.Orderly.move (h : v.Orderly) (hlog : v'.log = v.log) (hsteady : v'.Steady)
    (howed : ∀ f, v'.Owes f → v.Owes f ∨ f.Holds (since v.log)) : v'.Orderly where
  order := hlog ▸ h.order
  steady := hsteady
  owed f hf := by
    rw [hlog]
    exact (howed f hf).elim (h.owed f) id

theorem View.Orderly.opened (h : v.Orderly) (hcode : 6 ≤ v.txstate.code) : Opened (since v.log) := by
  have hdone : v.txstate ≠ .done ∧ v.txstate ≠ .start := by
    constructor <;> rintro heq <;> rw [heq] at hcode <;> exact absurd hcode (by decide)
  intro f hf
  apply h.owed
  simp only [List.mem_cons, List.not_mem_nil, or_false] at hf
  rcases hf with rfl | rfl | rfl | rfl
  · exact ⟨hdone.1, fun heq => absurd heq hdone.2⟩
  · exact Or.inl (by omega)
  · exact le_trans (by decide) hcode
  · exact ⟨hdone.1, h.steady.ready hcode⟩

theorem View.Orderly.ended (h : v.Orderly) (hcode : 14 ≤ v.txstate.code) : Ended (since v.log) := by
  have hdone : v.txstate ≠ .done := by
    rintro heq
    rw [heq] at hcode
    exact absurd hcode (by decide)
  intro f hf
  apply h.owed
  simp only [List.mem_cons, List.not_mem_nil, or_false] at hf
  rcases hf with rfl | rfl
  · exact le_trans (by decide) hcode
  · exact ⟨hdone, h.steady.last hcode⟩

/-- One more entry. -/
theorem View.Orderly.add (h : v.Orderly) {e : Entry} (he : e ≠ .session) (hallowed : Allowed e (since v.log)) :
    View.Orderly { v with log := e :: v.log } where
  order := ⟨hallowed, h.order⟩
  steady := ⟨h.steady.calm, h.steady.ready, h.steady.last, h.steady.rest, h.steady.named⟩
  owed f hf := by
    rw [since_cons he]
    exact (h.owed f hf).cons e

/-- The packets that may go out at any time. -/
def quiet (type : UInt8) : Prop := Entry.late (.sent type []) = false ∧ type ≠ hpktEnd

theorem orderly_quiet (payload : List UInt8) (h : s.view.Orderly) (hquiet : quiet type) :
    (s.txpkt type payload).view.Orderly := by
  apply h.add (e := .sent type payload) (by simp)
  constructor
  · intro hlate
    have hnot := hquiet.1
    simp only [Entry.late] at hlate hnot
    rw [hlate] at hnot
    cases hnot
  · intro hlast
    simp only [Entry.last, decide_eq_true_eq] at hlast
    exact absurd hlast hquiet.2

theorem orderly_late (payload : List UInt8) (h : s.view.Orderly) (hcode : 6 ≤ s.txstate.code)
    (hend : type ≠ hpktEnd) :
    (s.txpkt type payload).view.Orderly := by
  apply h.add (e := .sent type payload) (by simp)
  constructor
  · exact fun _ => h.opened hcode
  · intro hlast
    simp only [Entry.last, decide_eq_true_eq] at hlast
    exact absurd hlast hend

theorem orderly_end (payload : List UInt8) (h : s.view.Orderly) (hcode : 14 ≤ s.txstate.code) :
    (s.txpkt hpktEnd payload).view.Orderly := by
  apply h.add (e := .sent hpktEnd payload) (by simp)
  constructor
  · exact fun hlate => absurd hlate (by simp [Entry.late, hpktEnd, hpktFinfo, hpktData, hpktEof, hpktDevdata])
  · exact fun _ => h.ended hcode

theorem orderly_got (h : s.view.Orderly) (type : UInt8) (rxbuf : List UInt8) :
    (s.heard type rxbuf).view.Orderly :=
  h.add (e := .got type rxbuf) (by simp) ⟨(fun hlate => by cases hlate), (fun hlast => by cases hlast)⟩

/-! ### The switches that send -/

/-- What changes nothing that the order depends on. -/
theorem orderly_same {t : Session} (h : s.view.Orderly) (hview : t.view = s.view) : t.view.Orderly := hview ▸ h

/-- Between the states of a file. -/
theorem View.Orderly.within (h : v.Orderly) (hlog : v'.log = v.log) (hrx : v'.rxstate = v.rxstate)
    (hcode : 6 ≤ v.txstate.code) (hlow : 8 ≤ v'.txstate.code) (hhigh : v'.txstate.code ≤ 12)
    (hnamed : v'.txfname = [] → v'.txfd = false) : v'.Orderly := by
  have hne : v.txstate ≠ .done ∧ v.txstate ≠ .start := by
    constructor <;> rintro heq <;> rw [heq] at hcode <;> exact absurd hcode (by decide)
  apply h.move hlog
  · constructor
    · rintro (heq | heq) <;> rw [heq] at hlow <;> exact absurd hlow (by decide)
    · intro _
      rw [hrx]
      exact h.steady.ready hcode
    · intro hlast
      omega
    · intro _
      exact Or.inr (by omega)
    · exact hnamed
  · intro f hf
    cases f with
    | started => exact Or.inl ⟨hne.1, fun heq => absurd heq hne.2⟩
    | inited => exact Or.inl (Or.inl (by omega))
    | acked => exact Or.inl (le_trans (by decide) hcode)
    | processed => exact Or.inl ⟨hne.1, h.steady.ready hcode⟩
    | offered =>
      rcases hf with ⟨-, heq | ⟨heq, -⟩⟩ <;> rw [heq] at hlow <;> exact absurd hlow (by decide)
    | closed =>
      have : 13 ≤ v'.txstate.code := hf
      omega
    | finished => exact Or.inl ⟨hne.1, hrx ▸ hf.2⟩

theorem orderly_sendDev (h : s.view.Orderly) : (s.sendDev w).view.Orderly := by
  rw [Session.sendDev]
  split
  · next hdev => exact orderly_late _ h hdev.2 (by decide)
  · exact h

theorem orderly_sendEof (h : s.view.Orderly) (hcode : 6 ≤ s.txstate.code) : s.sendEof.view.Orderly := by
  have hsent := orderly_late (put4 s.txpos) h hcode (show hpktEof ≠ hpktEnd by decide)
  exact hsent.within rfl rfl hcode (show 8 ≤ Htx.eofack.code by decide)
    (show Htx.eofack.code ≤ 12 by decide) h.steady.named

theorem grow_view (n : ℕ) : (s.grow n).view = s.view ∧ (s.grow n).txwindow = s.txwindow ∧
    (s.grow n).txlastack = s.txlastack ∧ (s.grow n).txpos = s.txpos := by
  rw [Session.grow]
  split_ifs <;> exact ⟨rfl, rfl, rfl, rfl⟩

theorem orderly_sendData (h : s.view.Orderly) (hstate : s.txstate = .xdata) : (s.sendData w).view.Orderly := by
  have hcode : 6 ≤ s.txstate.code := by rw [hstate]; decide
  rw [Session.sendData]
  split
  · exact h
  split
  · exact orderly_sendEof h hcode
  split
  · have hfile : (Session.view { s with txfd := false, txpos := -2 }).Orderly :=
      h.within rfl rfl hcode (by simp [Session.view, hstate, Htx.code])
        (by simp [Session.view, hstate, Htx.code]) fun _ => rfl
    exact orderly_sendEof hfile hcode
  · dsimp only
    split
    · exact orderly_sendEof h hcode
    · next bytes _ _ =>
      have hpos : (Session.view { s with txpos := s.txpos + (bytes.take s.txblklen).length }).Orderly :=
        orderly_same h rfl
      have hsent := orderly_late (put4 s.txpos ++ bytes.take s.txblklen) hpos hcode
        (show hpktData ≠ hpktEnd by decide)
      have hgrown := orderly_same hsent (grow_view (bytes.take s.txblklen).length).1
      split
      · refine hgrown.within rfl rfl ?_ (show 8 ≤ Htx.dataack.code by decide)
          (show Htx.dataack.code ≤ 12 by decide) hgrown.steady.named
        rw [(grow_view _).1]
        exact hcode
      · exact hgrown

theorem orderly_sendFinfo (h : s.view.Orderly) (hstate : s.txstate = .finfo) : s.sendFinfo.view.Orderly := by
  have hcode : 6 ≤ s.txstate.code := by rw [hstate]; decide
  let named : Session := if s.txfd ∧ s.txretries = 0 then { s with txfname := strlwr s.txfname } else s
  have hview : named.view = { s.view with txfname := named.txfname } := by
    simp only [named]
    split <;> rfl
  have hempty : named.txfname = [] ↔ s.txfname = [] := by
    simp only [named]
    split
    · simp [strlwr]
    · rfl
  have hnamed : named.view.Orderly := by
    rw [hview]
    refine h.move rfl ?_ ?_
    · exact ⟨h.steady.calm, h.steady.ready, h.steady.last, h.steady.rest,
        fun hnil => h.steady.named (hempty.mp hnil)⟩
    · intro f hf
      cases f with
      | offered => exact Or.inl ⟨hempty.mp hf.1, hf.2⟩
      | started => exact Or.inl hf
      | inited => exact Or.inl hf
      | acked => exact Or.inl hf
      | processed => exact Or.inl hf
      | closed => exact Or.inl hf
      | finished => exact Or.inl hf
  have hfinfo : named.txstate = .finfo := by
    rw [← hstate]
    exact congrArg View.txstate hview
  have hsent := orderly_late (finfoPkt named) hnamed (by rw [hfinfo]; decide)
    (show hpktFinfo ≠ hpktEnd by decide)
  have hready := hsent.steady.ready
  have hpkt : named.txfname = [] → Fact.offered.Holds (since (Session.txpkt hpktFinfo (finfoPkt named) named).log) := by
    intro hnil
    have hfd : named.txfd = false := hnamed.steady.named hnil
    have hpkt : finfoPkt named = [0] := by
      rw [finfoPkt, if_neg (by simp [hfd]), hnil]
      rfl
    rw [hpkt]
    exact List.mem_cons_self
  have hsteady := hnamed.steady.named
  change (Session.view { Session.txpkt hpktFinfo (finfoPkt named) named with
    txtimer := true, txstate := .finfoack }).Orderly
  refine hsent.move rfl ?_ fun f hf => ?_
  · constructor <;> simp_all [Session.view, Session.txpkt, Htx.code]
  · cases f <;> simp_all [View.Owes, Session.view, Session.txpkt, Htx.code]

theorem orderly_sendTx (h : s.view.Orderly) (hphase : s.phase ≠ .outside) :
    (Session.view { s.sendTx w with phase := .receive }).Orderly := by
  have hreceive {t : Session} (ht : t.view.Orderly) (hstart : t.txstate ≠ .start) :
      (Session.view { t with phase := .receive }).Orderly := by
    refine ht.move rfl ⟨ht.steady.calm, ht.steady.ready, ht.steady.last, (fun hout => by cases hout),
      ht.steady.named⟩ ?_
    intro f hf
    cases f with
    | started => exact Or.inl ⟨hf.1, fun heq => absurd heq hstart⟩
    | inited => exact Or.inl hf
    | acked => exact Or.inl hf
    | processed => exact Or.inl hf
    | offered => exact Or.inl hf
    | closed => exact Or.inl hf
    | finished => exact Or.inl hf
  rw [Session.sendTx]
  split
  · next hstate =>
    have hsent := orderly_quiet [] h (show quiet hpktStart by unfold quiet; decide)
    have hstarted : Fact.started.Holds (since (s.txpkt hpktStart []).log) := List.mem_cons_self
    have hnamed := h.steady.named
    refine hsent.move rfl ?_ fun f hf => ?_
    · constructor <;> simp_all [Session.view, Session.txpkt, Htx.code]
    · cases f <;> simp_all [View.Owes, Session.view, Session.txpkt, Htx.code]
  · next hstate =>
    have hsent := orderly_quiet (initPkt s.side) h (show quiet hpktInitType by unfold quiet; decide)
    have hinited : Fact.inited.Holds (since (s.txpkt hpktInitType (initPkt s.side)).log) := ⟨_, List.mem_cons_self⟩
    have hnamed := h.steady.named
    refine hsent.move rfl ?_ fun f hf => ?_
    · constructor <;> simp_all [Session.view, Session.txpkt, Htx.code]
    · cases f <;> simp_all [View.Owes, Session.view, Session.txpkt, Htx.code]
  · next hstate => exact hreceive (orderly_sendFinfo h hstate) (by simp [Session.sendFinfo])
  · next hstate =>
    apply hreceive (orderly_sendData h hstate)
    have hkeep : ∀ n t, (Session.grow n t).txstate = t.txstate := fun n t => congrArg View.txstate (grow_view n).1
    rw [Session.sendData]
    split_ifs
    · simp [hstate]
    · simp [Session.sendEof]
    · split
      · simp [Session.sendEof]
      · dsimp only
        split_ifs
        · simp [Session.sendEof]
        · simp
        · rw [hkeep]
          simp [Session.txpkt, hstate]
  · next hstate =>
    exact hreceive (orderly_sendEof h (by rw [hstate]; decide)) (by simp [Session.sendEof])
  · next hstate =>
    have hcode : 14 ≤ s.txstate.code := by rw [hstate]; decide
    have hsent := orderly_end [] (orderly_end [] h hcode) hcode
    have hlast : s.rxstate = .done := h.steady.last hcode
    have hnamed := h.steady.named
    refine hsent.move rfl ?_ fun f hf => ?_
    · constructor <;> simp_all [Session.view, Session.txpkt, Htx.code]
    · cases f <;> simp_all [View.Owes, Session.view, Session.txpkt, Htx.code]
  · next h₁ _ _ _ _ _ => exact hreceive h h₁

theorem orderly_send (h : s.view.Orderly) (hphase : s.phase = .send) : (s.send w).view.Orderly := by
  apply orderly_sendTx (orderly_sendDev h)
  rw [Session.sendDev]
  split <;> simp [Session.txpkt, hphase]

/-! ### The packets -/

/-- The end of a session owes nothing. -/
theorem View.Orderly.stopped (h : v.Orderly) (hlog : v'.log = v.log) (hdone : v'.txstate = .done)
    (hnamed : v'.txfname = [] → v'.txfd = false) : v'.Orderly := by
  have hcode : v'.txstate.code = 0 := by rw [hdone]; rfl
  refine h.move hlog ?_ ?_
  · constructor
    · rintro (heq | heq) <;> rw [hdone] at heq <;> cases heq
    · intro hlow
      omega
    · intro hlow
      omega
    · exact fun _ => Or.inl hdone
    · exact hnamed
  · intro f hf
    cases f with
    | started => exact absurd hdone hf.1
    | inited => rcases hf with hf | ⟨heq, -⟩ <;> simp_all
    | acked => exact absurd hf (by simp [View.Owes, hcode])
    | processed => exact absurd hdone hf.1
    | offered => rcases hf with ⟨-, heq | ⟨heq, -⟩⟩ <;> rw [hdone] at heq <;> cases heq
    | closed => exact absurd hf (by simp [View.Owes, hcode])
    | finished => exact absurd hdone hf.1

theorem orderly_abort (h : s.view.Orderly) : s.abort.view.Orderly := h.stopped rfl rfl h.steady.named

theorem quiet_of (type : UInt8) (h : type ∈ [hpktInitack, hpktFinfoack, hpktDataack, hpktRpos, hpktEofack, hpktIdle,
    hpktDevdack]) : quiet type := by
  simp only [List.mem_cons, List.not_mem_nil, or_false] at h
  rcases h with rfl | rfl | rfl | rfl | rfl | rfl | rfl <;> exact ⟨rfl, by decide⟩

/-- The state that a wait goes back to when its time is over. -/
def Htx.again : Htx → Htx
  | .swait => .start
  | .initack => .init
  | .finfoack => .finfo
  | .dataack => .xdata
  | .eofack => .eof
  | .endack => .end_
  | other => other

theorem code_again (a : Htx) : a.again.code ≤ a.code := by
  cases a <;> decide

theorem ne_done_of_again {a : Htx} (h : a.again ≠ .done) : a ≠ .done := by
  rintro rfl
  exact h rfl

theorem again_init {a : Htx} (h : a.again = .init) : a = .init ∨ a = .initack := by
  cases a <;> first | exact .inl rfl | exact .inr rfl | cases h

theorem again_finfoack {a : Htx} : a.again ≠ .finfoack := by
  cases a <;> decide

theorem again_finfo {a : Htx} (h : a.again = .finfo) : a = .finfo ∨ a = .finfoack := by
  cases a <;> first | exact .inl rfl | exact .inr rfl | cases h

theorem orderly_onTxtime (h : s.view.Orderly) (hphase : s.phase = .receive) (htimer : s.txtimer = true) :
    s.onTxtime.view.Orderly := by
  have hsteady := h.steady
  rw [Session.onTxtime]
  split
  · next hstate =>
    have hsent := orderly_quiet [] h (quiet_of hpktIdle (by decide))
    refine hsent.move rfl ?_ fun f hf => Or.inl ?_
    · exact ⟨(fun hcase => by rcases hstate with h₁ | h₁ <;> simp_all [Session.view, Session.txpkt]),
        hsteady.ready, hsteady.last, hsteady.rest, hsteady.named⟩
    · cases f <;> exact hf
  split
  · exact h.stopped rfl rfl hsteady.named
  · change (Session.view { s with
      txretries := s.txretries + 1, txtimer := false, txstate := s.txstate.again }).Orderly
    have hcode := code_again s.txstate
    -- a state that waits with its timer on has sent what it waits for
    have hfresh (hwaits : s.txstate = .init ∨ s.txstate = .finfo) : s.view.fresh = false := by
      by_contra hne
      exact absurd htimer (by rw [show s.txtimer = false from hsteady.calm hwaits (by simpa using hne)]; decide)
    refine h.move rfl ⟨fun _ _ => rfl, fun hready => hsteady.ready (hready.trans hcode),
      fun hlast => hsteady.last (hlast.trans hcode), fun hout => absurd (hphase.symm.trans hout) (by decide),
      hsteady.named⟩ fun f hf => Or.inl ?_
    cases f with
    | started => exact ⟨ne_done_of_again hf.1, fun _ => hphase⟩
    | inited =>
      rcases hf with hf | ⟨hinit, -⟩
      · exact .inl (hf.trans hcode)
      · rcases again_init hinit with hinit | hinit
        · exact .inr ⟨hinit, hfresh (.inl hinit)⟩
        · exact .inl (by show 4 ≤ s.txstate.code; rw [hinit]; decide)
    | acked => exact hf.trans hcode
    | processed => exact ⟨ne_done_of_again hf.1, hf.2⟩
    | offered =>
      refine ⟨hf.1, ?_⟩
      rcases hf.2 with hack | ⟨hfinfo, -⟩
      · exact absurd hack again_finfoack
      · rcases again_finfo hfinfo with hfinfo | hack
        · exact .inr ⟨hfinfo, hfresh (.inr hfinfo)⟩
        · exact .inl hack
    | closed => exact hf.trans hcode
    | finished => exact ⟨ne_done_of_again hf.1, hf.2⟩

theorem orderly_onDevtxtime (h : s.view.Orderly) : s.onDevtxtime.view.Orderly := by
  rw [Session.onDevtxtime]
  split
  · exact h.stopped rfl rfl h.steady.named
  · exact orderly_same h rfl

theorem orderly_onStart (h : s.view.Orderly) (hphase : s.phase = .receive) : s.onStart.view.Orderly := by
  have hnamed := h.steady.named
  rw [Session.onStart]
  split
  · next hstate =>
    refine h.move rfl ?_ fun f hf => ?_
    · constructor <;> simp_all [Session.view, Htx.code]
    · rcases hstate with hstate | hstate <;> cases f <;> simp_all [View.Owes, Session.view, Htx.code]
  · exact h

/-- The receiver goes on, when the log shows why. -/
theorem View.Orderly.receives (h : v.Orderly) (hlog : v'.log = v.log) (hview : v' = { v with rxstate := v'.rxstate })
    (hinit : v'.rxstate ≠ .init) (hbefore : v.rxstate ≠ .done) (hgot : Fact.processed.Holds (since v.log))
    (hover : v'.rxstate = .done → Fact.finished.Holds (since v.log)) : v'.Orderly := by
  have hlow : ¬ 14 ≤ v.txstate.code := fun hcode => hbefore (h.steady.last hcode)
  rw [hview]
  refine h.move rfl ⟨h.steady.calm, fun _ => hinit, fun hcode => absurd hcode hlow, h.steady.rest, h.steady.named⟩
    fun f hf => ?_
  cases f with
  | started => exact Or.inl hf
  | inited => exact Or.inl hf
  | acked => exact Or.inl hf
  | processed => exact Or.inr hgot
  | offered => exact Or.inl hf
  | closed => exact Or.inl hf
  | finished => exact Or.inr (hover hf.2)

theorem orderly_onInit (h : s.view.Orderly) (hgot : Fact.processed.Holds (since s.log)) :
    (s.onInit rxbuf).view.Orderly := by
  rw [Session.onInit]
  split
  · next hstate =>
    split
    · exact orderly_abort h
    · next link _ =>
      have hinit : (Session.view { s with
          rxoptions := link.rxoptions, rxwindow := link.rxwindow, txwindow := link.txwindow
          txpktprefix := link.txpktprefix, chattimer := if has link.rxoptions hoptDevice then 0 else -2
          txoptions := link.txoptions, rxstate := .finfo }).Orderly :=
        h.receives rfl rfl (by simp [Session.view]) (by simp [Session.view, hstate]) hgot
          (by simp [Session.view])
      exact orderly_quiet [] hinit (quiet_of _ (by decide))
  · exact orderly_quiet [] h (quiet_of _ (by decide))

theorem orderly_onInitack (h : s.view.Orderly) (hphase : s.phase = .receive)
    (hgot : Fact.acked.Holds (since s.log)) (hproper : s.txstate = .init → s.txretries ≠ 0) :
    s.onInitack.view.Orderly := by
  have hnamed := h.steady.named
  rw [Session.onInitack]
  split
  · next hstate =>
    refine h.move rfl ?_ fun f hf => ?_
    · constructor <;> simp_all [Session.view, Htx.code]
    · rcases hstate with hstate | hstate <;> cases f <;> simp_all [View.Owes, Session.view, Htx.code]
  · exact h

theorem orderly_accept (h : s.view.Orderly) (hstate : s.rxstate = .finfo) : (s.accept w).view.Orderly := by
  rw [Session.accept]
  split
  · exact orderly_same h rfl
  split
  · exact orderly_same h rfl
  split
  · exact orderly_same h rfl
  split
  · exact orderly_same h rfl
  · by_cases hdone : s.txstate = .done
    · exact h.stopped rfl hdone h.steady.named
    · have hgot : Fact.processed.Holds (since s.log) := h.owed .processed ⟨hdone, by simp [Session.view, hstate]⟩
      exact h.receives rfl rfl (by simp [Session.view]) (by simp [Session.view, hstate]) hgot
        (by simp [Session.view])

theorem orderly_onFinfo (h : s.view.Orderly) (hgot : Entry.got hpktFinfo rxbuf ∈ since s.log) :
    (s.onFinfo w rxbuf).view.Orderly := by
  rw [Session.onFinfo]
  apply orderly_quiet _ _ (quiet_of _ (by decide))
  split
  · next hstate =>
    split
    · next hend =>
      by_cases hdone : s.txstate = .done
      · exact h.stopped rfl hdone h.steady.named
      · have hinit : Fact.processed.Holds (since s.log) := h.owed .processed ⟨hdone, by simp [Session.view, hstate]⟩
        exact h.receives rfl rfl (by simp [Session.view]) (by simp [Session.view, hstate]) hinit
          fun _ => ⟨rxbuf, hend, hgot⟩
    · exact orderly_accept h hstate
  split
  · exact orderly_same h rfl
  · exact h

theorem orderly_onFinfoack (h : s.view.Orderly) (hphase : s.phase = .receive) {log : List Entry}
    (hlog : since s.log = .got hpktFinfoack rxbuf :: log)
    (hproper : s.txstate = .finfo → s.txfname = [] → s.txretries ≠ 0) : (s.onFinfoack w rxbuf).view.Orderly := by
  have hsteady := h.steady
  rw [Session.onFinfoack]
  split
  · next hstate =>
    have hcode : 6 ≤ s.txstate.code := by rcases hstate with heq | heq <;> rw [heq] <;> decide
    have hready : s.rxstate ≠ .init := hsteady.ready hcode
    dsimp only
    split
    · next hnil =>
      -- the batch is over: its end was sent before
      have hoffered : Fact.offered.Holds (since s.log) := by
        apply h.owed .offered ⟨hnil, _⟩
        rcases hstate with heq | heq
        · exact Or.inr ⟨heq, by simpa [Session.view] using hproper heq hnil⟩
        · exact Or.inl heq
      have hclosed : Fact.closed.Holds (since s.log) := by
        rw [hlog] at hoffered ⊢
        have hmem : Entry.sent hpktFinfo [0] ∈ log := by simpa [Fact.Holds] using hoffered
        exact ⟨rxbuf, (List.singleton_sublist.mpr hmem).cons_cons _⟩
      have hnamed := hsteady.named
      refine h.move rfl ?_ fun f hf => ?_
      · constructor <;> simp_all [Session.view, Htx.code]
      · rcases hstate with hstate | hstate <;> cases f <;> simp_all [View.Owes, Session.view, Htx.code]
    · next hname =>
      split
      · split
        · exact h.within rfl rfl hcode (show 8 ≤ Htx.eof.code by decide) (show Htx.eof.code ≤ 12 by decide)
            fun _ => rfl
        · exact h.within rfl rfl hcode (show 8 ≤ Htx.xdata.code by decide) (show Htx.xdata.code ≤ 12 by decide)
            hsteady.named
      · refine h.move rfl ?_ fun f hf => ?_
        · rcases hstate with hstate | hstate <;> constructor <;> simp_all [Session.view, Htx.code]
        · rcases hstate with hstate | hstate <;> cases f <;> simp_all [View.Owes, Session.view, Htx.code]
  · exact h

theorem orderly_reposition {at_ : ℤ} {fallback : Bool} (h : s.view.Orderly) :
    (s.reposition w at_ fallback).view.Orderly := by
  rw [Session.reposition]
  have hlast : ∀ t : Session, t.view = s.view → t.view.Orderly := fun t ht => ht ▸ h
  dsimp only
  split_ifs
  all_goals first
    | exact hlast _ rfl
    | exact View.Orderly.stopped h rfl rfl h.steady.named
    | exact orderly_same (orderly_quiet (s := s) _ h (quiet_of hpktRpos (by decide))) rfl

theorem orderly_onData (h : s.view.Orderly) : (s.onData w rxbuf).view.Orderly := by
  rw [Session.onData]
  split
  · split
    · exact orderly_reposition h
    · dsimp only
      split
      · exact orderly_same (orderly_quiet (s := s) _ h (quiet_of hpktRpos (by decide))) rfl
      · split
        · exact orderly_same (orderly_quiet (s := s) _ h (quiet_of hpktDataack (by decide))) rfl
        · exact orderly_same h rfl
  · exact h

theorem sending_code (h : s.txstate.sending = true) : 8 ≤ s.txstate.code ∧ s.txstate.code ≤ 12 := by
  cases hstate : s.txstate <;> simp_all [Htx.sending, Htx.code]

theorem orderly_onDataack (h : s.view.Orderly) : (s.onDataack rxbuf).view.Orderly := by
  rw [Session.onDataack]
  split
  · next hsending =>
    have hcode := sending_code hsending.1
    dsimp only
    split
    · exact h.within rfl rfl (by change 6 ≤ s.txstate.code; omega) (show 8 ≤ Htx.xdata.code by decide)
        (show Htx.xdata.code ≤ 12 by decide) h.steady.named
    · exact orderly_same h rfl
  · exact h

theorem orderly_onRpos (h : s.view.Orderly) : (s.onRpos w rxbuf).view.Orderly := by
  have hnamed := h.steady.named
  rw [Session.onRpos]
  split
  · next hsending =>
    have hcode := sending_code hsending
    have hlow : 6 ≤ s.view.txstate.code := by change 6 ≤ s.txstate.code; omega
    have heof : 8 ≤ Htx.eof.code ∧ Htx.eof.code ≤ 12 := by decide
    have hxdata : 8 ≤ Htx.xdata.code ∧ Htx.xdata.code ≤ 12 := by decide
    dsimp only
    split
    · split
      · split_ifs
        · exact h.within rfl rfl hlow heof.1 heof.2 fun _ => rfl
        · exact h.within rfl rfl hlow hcode.1 hcode.2 hnamed
      split
      · exact h.within rfl rfl hlow heof.1 heof.2 fun _ => rfl
      split
      · exact h.within rfl rfl hlow hxdata.1 hxdata.2 hnamed
      · exact h.within rfl rfl hlow hcode.1 hcode.2 hnamed
    split
    · exact h.stopped rfl rfl hnamed
    · exact h.within rfl rfl hlow hcode.1 hcode.2 hnamed
  · exact h

theorem orderly_onEof (h : s.view.Orderly) : (s.onEof w rxbuf).view.Orderly := by
  have hfinfo {t : Session} (hview : t.view = { s.view with rxstate := .finfo }) (hstate : s.rxstate = .data) :
      t.view.Orderly := by
    by_cases hdone : s.txstate = .done
    · rw [hview]
      exact h.stopped rfl hdone h.steady.named
    · have hinit : Fact.processed.Holds (since s.log) := h.owed .processed ⟨hdone, by simp [Session.view, hstate]⟩
      rw [hview]
      exact h.receives rfl rfl (by simp) (by simp [Session.view, hstate]) hinit (by simp)
  let t : Session :=
    if s.rxstate = .data then
      if hLong 1 rxbuf < 0 then { s with rxfd := false, rxstate := .finfo }
      else if hLong 1 rxbuf ≠ s.rxpos then s.reposition w (hLong 1 rxbuf) false
      else { s with rxfd := false, rxstate := .finfo }
    else s
  have ht : t.view.Orderly := by
    simp only [t]
    split
    · next hstate =>
      split
      · exact hfinfo rfl hstate
      split
      · exact orderly_reposition h
      · exact hfinfo rfl hstate
    · exact h
  rw [Session.onEof]
  change (if t.rxstate = .finfo then t.txpkt hpktEofack [] else t).view.Orderly
  split
  · exact orderly_quiet _ ht (quiet_of _ (by decide))
  · exact ht

theorem orderly_onEofack (h : s.view.Orderly) : s.onEofack.view.Orderly := by
  have hsteady := h.steady
  have hready := hsteady.ready
  rw [Session.onEofack]
  split
  · next hstate =>
    refine h.move rfl ?_ fun f hf => ?_
    · rcases hstate with hstate | hstate <;> constructor <;> simp_all [Session.view, Htx.code]
    · rcases hstate with hstate | hstate <;> cases f <;> simp_all [View.Owes, Session.view, Htx.code]
  · exact h

theorem orderly_onIdle (h : s.view.Orderly) : s.onIdle.view.Orderly := by
  rw [Session.onIdle]
  split
  · next hstate =>
    exact h.within rfl rfl (by simp [Session.view, hstate, Htx.code]) (show 8 ≤ Htx.xdata.code by decide)
      (show Htx.xdata.code ≤ 12 by decide) h.steady.named
  · exact h

theorem orderly_onEnd (h : s.view.Orderly) : s.onEnd.view.Orderly := by
  rw [Session.onEnd]
  split
  · exact orderly_same h rfl
  split
  · next hstate =>
    have hcode : 14 ≤ s.txstate.code := by rcases hstate with heq | heq <;> rw [heq] <;> decide
    have h₁ := orderly_end [] h hcode
    have h₂ := orderly_end [] h₁ hcode
    have h₃ := orderly_end [] h₂ hcode
    exact h₃.stopped rfl rfl h.steady.named
  · exact h

theorem devsend_view (dev data : List UInt8) (s : Session) : (s.devsend dev data).view = s.view := by
  rw [Session.devsend]
  split <;> rfl

theorem orderly_onDevdata (h : s.view.Orderly) : (s.onDevdata rxbuf).view.Orderly :=
  orderly_quiet (s := { s with devrxid := hLong1 rxbuf }) _ h (quiet_of _ (by decide))

theorem orderly_onDevdack (h : s.view.Orderly) : (s.onDevdack rxbuf).view.Orderly := by
  rw [Session.onDevdack]
  split
  · exact orderly_same h rfl
  · exact h

theorem orderly_followUp (h : s.view.Orderly) (hphase : s.phase ≠ .outside)
    (hreceive : s.txstate = .start → s.phase = .receive) : s.followUp.view.Orderly := by
  have hnamed := h.steady.named
  have hinit (hstate : s.txstate = .start ∨ s.txstate = .swait) (hrx : s.rxstate = .finfo) :
      (Session.view { s with txtimer := false, txretries := 0, txstate := .init }).Orderly := by
    refine h.move rfl ?_ fun f hf => ?_
    · constructor <;> simp_all [Session.view, Htx.code]
    · rcases hstate with hstate | hstate <;> cases f <;> simp_all [View.Owes, Session.view, Htx.code]
  rw [Session.followUp]
  split
  · next hstate =>
    split
    · next hrx => exact hinit (Or.inl hstate) hrx
    · exact h
  · next hstate =>
    split
    · next hrx => exact hinit (Or.inr hstate) hrx
    · exact h
  · next hstate =>
    split
    · next hrx =>
      refine h.move rfl ?_ fun f hf => ?_
      · constructor <;> simp_all [Session.view, Htx.code]
      · cases f <;> simp_all [View.Owes, Session.view, Htx.code]
    · exact h
  · next hstate =>
    split
    · have hdev := orderly_same h (devsend_view msg hdxmsg s)
      refine hdev.within rfl rfl ?_ (show 8 ≤ Htx.xwait.code by decide) (show Htx.xwait.code ≤ 12 by decide)
        hdev.steady.named
      rw [devsend_view]
      simp [Session.view, hstate, Htx.code]
    · exact h
  · next hstate =>
    split
    · exact h.within rfl rfl (by simp [Session.view, hstate, Htx.code]) (show 8 ≤ Htx.xdata.code by decide)
        (show Htx.xdata.code ≤ 12 by decide) hnamed
    · exact h
  · next hstate =>
    split
    · next hrx =>
      split
      · exact h
      · dsimp only
        split
        · refine h.move rfl ?_ fun f hf => ?_
          · constructor <;> simp_all [Session.view, Htx.code]
          · cases f <;> simp_all [View.Owes, Session.view, Htx.code]
        · refine h.move rfl ?_ fun f hf => ?_
          · constructor <;> simp_all [Session.view, Htx.code]
          · cases f <;> simp_all [View.Owes, Session.view, Htx.code]
    · exact h
  · exact h

theorem orderly_after (h : s.view.Orderly) (hphase : s.phase ≠ .send) : s.after.view.Orderly := by
  rw [Session.after]
  split
  · exact h
  · next hinside =>
    have hreceive : s.phase = .receive := by
      cases hcase : s.phase
      · exact absurd hcase hinside
      · exact absurd hcase hphase
      · rfl
    have hnext := orderly_followUp h hinside fun _ => hreceive
    dsimp only
    split
    · next hdone => exact hnext.stopped rfl hdone fun _ => rfl
    · exact hnext

/-! ### Runs -/

/-- The condition on a step: the file that a session begins with can be opened, and no acknowledgement
comes before what it acknowledges has been sent for the first time. -/
def Step.Proper (e : Step) (s : Session) : Prop :=
  match e with
  | .call (some _) false => s.phase = .outside → s.txstate ≠ .done
  | .packet _ type _ => s.phase = .receive →
    (type = hpktInitack → s.txstate = .init → s.txretries ≠ 0) ∧
      (type = hpktFinfoack → s.txstate = .finfo → s.txfname = [] → s.txretries ≠ 0)
  | _ => True

def Session.ProperRun : Session → List Step → Prop
  | _, [] => True
  | s, e :: steps => e.Proper s ∧ (s.step e).ProperRun steps

instance decidableProper : (e : Step) → (s : Session) → Decidable (e.Proper s)
  | .call (some _) false, s => inferInstanceAs (Decidable (s.phase = .outside → s.txstate ≠ .done))
  | .packet _ type _, s => inferInstanceAs (Decidable (s.phase = .receive →
    (type = hpktInitack → s.txstate = .init → s.txretries ≠ 0) ∧
      (type = hpktFinfoack → s.txstate = .finfo → s.txfname = [] → s.txretries ≠ 0)))
  | .call none _, _ | .call (some _) true, _ | .send _, _ | .stop, _ | .txtime, _ | .devtxtime, _ | .nopkt, _
  | .typed .., _ | .chat _, _ => .isTrue trivial

instance decidableProperRun : (steps : List Step) → (s : Session) → Decidable (s.ProperRun steps)
  | [], _ => .isTrue trivial
  | e :: steps, s => @instDecidableAnd _ _ (decidableProper e s) (decidableProperRun steps (s.step e))

theorem orderly_begin (h : s.view.Orderly) (hphase : s.phase = .outside) :
    (Session.view { s.begin with txfd := false, txfname := [], phase := .send }).Orderly := by
  rw [Session.begin]
  split
  · next hdone =>
    refine ⟨⟨⟨(fun hlate => by cases hlate), (fun hlast => by cases hlast)⟩, h.order⟩, ?_, ?_⟩
    · constructor <;> simp [Session.view, Htx.code]
    · intro f hf
      cases f <;> simp_all [View.Owes, Session.view, Htx.code]
  · next hdone =>
    have hcode : 6 ≤ s.txstate.code := (h.steady.rest hphase).resolve_left hdone
    have hready := h.steady.ready hcode
    have hstart : s.txstate ≠ .start := by
      rintro heq
      rw [heq] at hcode
      exact absurd hcode (by decide)
    refine h.move rfl ?_ fun f hf => ?_
    · constructor <;> simp_all [Session.view, Htx.code]
    · cases f with
      | started => exact Or.inl ⟨hdone, fun heq => absurd heq hstart⟩
      | inited => exact Or.inl (Or.inl (le_trans (by decide) hcode))
      | acked => exact Or.inl (le_trans (by decide) hcode)
      | processed => exact Or.inl ⟨hdone, hready⟩
      | offered => simp [View.Owes, Session.view] at hf
      | closed => simp [View.Owes, Session.view, Htx.code] at hf
      | finished => exact Or.inl ⟨hdone, hf.2⟩

theorem begin_state (s : Session) : (s.begin.txstate = .start ∨ s.begin.txstate = .finfo) ∧
    (s.txstate ≠ .done → s.begin.txstate = .finfo) := by
  rw [Session.begin]
  split
  · next hdone => exact ⟨Or.inl rfl, fun hne => absurd hdone hne⟩
  · exact ⟨Or.inr rfl, fun _ => rfl⟩

theorem begin_fresh (s : Session) : s.begin.txretries = 0 := by
  rw [Session.begin]
  split <;> rfl

theorem orderly_call (h : s.view.Orderly) (hphase : s.phase = .outside) {file : Option Offer} {opened : Bool}
    (hproper : Step.Proper (.call file opened) s) : (s.call file opened).view.Orderly := by
  have hbegin := orderly_begin h hphase
  have hsteady := hbegin.steady
  have hstate := (begin_state s).1
  have hfresh := begin_fresh s
  have hcalm := hsteady.calm
  have hready := hsteady.ready
  cases file with
  | none => exact hbegin
  | some f =>
    cases opened with
    | true =>
      have hname := f.named
      refine hbegin.move rfl ?_ fun e he => ?_
      · rcases hstate with hstate | hstate <;> constructor <;> simp_all [Session.view, Session.call, Htx.code]
      · cases e <;> simp_all [View.Owes, Session.view, Session.call, Htx.code]
    | false =>
      have hfinfo := (begin_state s).2 (hproper hphase)
      refine hbegin.move rfl ?_ fun e he => ?_
      · constructor <;> simp_all [Session.view, Session.call, Htx.code]
      · cases e <;> simp_all [View.Owes, Session.view, Session.call, Htx.code]

theorem onStart_phase : (s.onStart).phase = s.phase := by
  rw [Session.onStart]
  split <;> rfl

theorem onInit_phase : (s.onInit rxbuf).phase = s.phase := by
  rw [Session.onInit]
  split
  · split <;> rfl
  · rfl

theorem onInitack_phase : (s.onInitack).phase = s.phase := by
  rw [Session.onInitack]
  split <;> rfl

theorem accept_phase : (s.accept w).phase = s.phase := by
  rw [Session.accept]
  split
  · rfl
  split
  · rfl
  split
  · rfl
  split <;> rfl

theorem onFinfo_phase : (s.onFinfo w rxbuf).phase = s.phase := by
  rw [Session.onFinfo, Session.txpkt]
  dsimp only
  split
  · split
    · rfl
    · exact accept_phase
  · split <;> rfl

theorem reposition_phase {at_ : ℤ} {fallback : Bool} : (s.reposition w at_ fallback).phase = s.phase := by
  rw [Session.reposition]
  dsimp only
  split_ifs <;> rfl

theorem onData_phase : (s.onData w rxbuf).phase = s.phase := by
  rw [Session.onData]
  split
  · split
    · exact reposition_phase
    · dsimp only
      split
      · rfl
      · split <;> rfl
  · rfl

theorem onDataack_phase : (s.onDataack rxbuf).phase = s.phase := by
  rw [Session.onDataack]
  split
  · dsimp only
    split <;> rfl
  · rfl

theorem onRpos_phase : (s.onRpos w rxbuf).phase = s.phase := by
  rw [Session.onRpos]
  dsimp only
  split_ifs <;> rfl

theorem onEof_phase : (s.onEof w rxbuf).phase = s.phase := by
  have htail (t : Session) : (if t.rxstate = .finfo then t.txpkt hpktEofack [] else t).phase = t.phase := by
    split <;> rfl
  rw [Session.onEof, htail]
  split
  · split
    · rfl
    · split
      · exact reposition_phase
      · rfl
  · rfl

theorem onIdle_phase : (s.onIdle).phase = s.phase := by
  rw [Session.onIdle]
  split <;> rfl

theorem onEnd_phase : (s.onEnd).phase = s.phase := by
  rw [Session.onEnd]
  dsimp only
  split
  · rfl
  · split <;> rfl

theorem onDevdack_phase : (s.onDevdack rxbuf).phase = s.phase := by
  rw [Session.onDevdack]
  split <;> rfl

theorem onFinfoack_phase (h : s.phase ≠ .send) : (s.onFinfoack w rxbuf).phase ≠ .send := by
  rw [Session.onFinfoack]
  dsimp only
  split_ifs <;> simp [h]

theorem onEofack_phase (h : s.phase ≠ .send) : s.onEofack.phase ≠ .send := by
  rw [Session.onEofack]
  split <;> simp [h]

/-- What holds behind every handler holds behind every packet. -/
theorem onPacket_cases {P : Session → Prop}
    (hStart : type = hpktStart → P (s.onStart))
    (hInitType : type = hpktInitType → P (s.onInit rxbuf))
    (hInitack : type = hpktInitack → P (s.onInitack))
    (hFinfo : type = hpktFinfo → P (s.onFinfo w rxbuf))
    (hFinfoack : type = hpktFinfoack → P (s.onFinfoack w rxbuf))
    (hData : type = hpktData → P (s.onData w rxbuf))
    (hDataack : type = hpktDataack → P (s.onDataack rxbuf))
    (hRpos : type = hpktRpos → P (s.onRpos w rxbuf))
    (hEof : type = hpktEof → P (s.onEof w rxbuf))
    (hEofack : type = hpktEofack → P (s.onEofack))
    (hIdle : type = hpktIdle → P (s.onIdle))
    (hEnd : type = hpktEnd → P (s.onEnd))
    (hDevdata : type = hpktDevdata → P (s.onDevdata rxbuf))
    (hDevdack : type = hpktDevdack → P (s.onDevdack rxbuf))
    (hother : P s) : P (s.onPacket w type rxbuf) := by
  rw [Session.onPacket]
  by_cases h : type = hpktStart
  · rw [if_pos h]
    exact hStart h
  rw [if_neg h]
  clear h
  by_cases h : type = hpktInitType
  · rw [if_pos h]
    exact hInitType h
  rw [if_neg h]
  clear h
  by_cases h : type = hpktInitack
  · rw [if_pos h]
    exact hInitack h
  rw [if_neg h]
  clear h
  by_cases h : type = hpktFinfo
  · rw [if_pos h]
    exact hFinfo h
  rw [if_neg h]
  clear h
  by_cases h : type = hpktFinfoack
  · rw [if_pos h]
    exact hFinfoack h
  rw [if_neg h]
  clear h
  by_cases h : type = hpktData
  · rw [if_pos h]
    exact hData h
  rw [if_neg h]
  clear h
  by_cases h : type = hpktDataack
  · rw [if_pos h]
    exact hDataack h
  rw [if_neg h]
  clear h
  by_cases h : type = hpktRpos
  · rw [if_pos h]
    exact hRpos h
  rw [if_neg h]
  clear h
  by_cases h : type = hpktEof
  · rw [if_pos h]
    exact hEof h
  rw [if_neg h]
  clear h
  by_cases h : type = hpktEofack
  · rw [if_pos h]
    exact hEofack h
  rw [if_neg h]
  clear h
  by_cases h : type = hpktIdle
  · rw [if_pos h]
    exact hIdle h
  rw [if_neg h]
  clear h
  by_cases h : type = hpktEnd
  · rw [if_pos h]
    exact hEnd h
  rw [if_neg h]
  clear h
  by_cases h : type = hpktDevdata
  · rw [if_pos h]
    exact hDevdata h
  rw [if_neg h]
  clear h
  by_cases h : type = hpktDevdack
  · rw [if_pos h]
    exact hDevdack h
  rw [if_neg h]
  clear h
  exact hother

/-- No packet takes the machine back in front of the switches. -/
theorem onPacket_phase (h : s.phase ≠ .send) : (s.onPacket w type rxbuf).phase ≠ .send := by
  apply onPacket_cases (P := fun t => t.phase ≠ .send)
  · exact fun _ => onStart_phase.trans_ne h
  · exact fun _ => onInit_phase.trans_ne h
  · exact fun _ => onInitack_phase.trans_ne h
  · exact fun _ => onFinfo_phase.trans_ne h
  · exact fun _ => onFinfoack_phase h
  · exact fun _ => onData_phase.trans_ne h
  · exact fun _ => onDataack_phase.trans_ne h
  · exact fun _ => onRpos_phase.trans_ne h
  · exact fun _ => onEof_phase.trans_ne h
  · exact fun _ => onEofack_phase h
  · exact fun _ => onIdle_phase.trans_ne h
  · exact fun _ => onEnd_phase.trans_ne h
  · exact fun _ => h
  · exact fun _ => onDevdack_phase.trans_ne h
  · exact h

theorem orderly_onPacket (h : s.view.Orderly) (hphase : s.phase = .receive)
    (hproper : Step.Proper (.packet w type rxbuf) s) :
    ((s.heard type rxbuf).onPacket w type rxbuf).view.Orderly := by
  have hgot := orderly_got h type rxbuf
  have hsince : since (s.heard type rxbuf).log = .got type rxbuf :: since s.log :=
    since_cons (by simp) s.log
  have hhead : Entry.got type rxbuf ∈ since (s.heard type rxbuf).log := by
    rw [hsince]
    exact List.mem_cons_self
  have hproper := hproper hphase
  apply onPacket_cases (P := fun t => t.view.Orderly)
  · exact fun _ => orderly_onStart hgot hphase
  · rintro rfl
    exact orderly_onInit hgot ⟨rxbuf, hhead⟩
  · rintro rfl
    exact orderly_onInitack hgot hphase ⟨rxbuf, hhead⟩ (hproper.1 rfl)
  · rintro rfl
    exact orderly_onFinfo hgot hhead
  · rintro rfl
    exact orderly_onFinfoack hgot hphase hsince (hproper.2 rfl)
  · exact fun _ => orderly_onData hgot
  · exact fun _ => orderly_onDataack hgot
  · exact fun _ => orderly_onRpos hgot
  · exact fun _ => orderly_onEof hgot
  · exact fun _ => orderly_onEofack hgot
  · exact fun _ => orderly_onIdle hgot
  · exact fun _ => orderly_onEnd hgot
  · exact fun _ => orderly_onDevdata hgot
  · exact fun _ => orderly_onDevdack hgot
  · exact hgot

theorem onTxtime_phase : s.onTxtime.phase = s.phase := by
  rw [Session.onTxtime]
  split
  · rfl
  · split <;> rfl

theorem onDevtxtime_phase : s.onDevtxtime.phase = s.phase := by
  rw [Session.onDevtxtime]
  split <;> rfl

/-- Back to the switches. -/
theorem orderly_nopkt (h : s.view.Orderly) (hphase : s.phase = .receive) :
    (Session.view { s with phase := .send }).Orderly := by
  have hsteady := h.steady
  refine h.move rfl ⟨hsteady.calm, hsteady.ready, hsteady.last, (fun hout => by cases hout), hsteady.named⟩
    fun f hf => Or.inl ?_
  cases f with
  | started => exact ⟨hf.1, fun _ => hphase⟩
  | inited => exact hf
  | acked => exact hf
  | processed => exact hf
  | offered => exact hf
  | closed => exact hf
  | finished => exact hf

theorem orderly_packet (h : s.view.Orderly) (hphase : s.phase = .receive)
    (hproper : Step.Proper (.packet w type rxbuf) s) :
    ((s.heard type rxbuf).onPacket w type rxbuf).after.view.Orderly := by
  apply orderly_after (orderly_onPacket h hphase hproper)
  apply onPacket_phase
  change s.phase ≠ .send
  rw [hphase]
  decide

theorem orderly_step (h : s.view.Orderly) (e : Step) (hproper : e.Proper s) : (s.step e).view.Orderly := by
  have hopen : s.phase = .receive → s.phase ≠ .send := fun hreceive => by rw [hreceive]; decide
  rw [Session.step.eq_def]
  cases hphase : s.phase with
  | outside =>
    cases e with
    | call file opened => exact orderly_call h hphase hproper
    | _ => exact h
  | send =>
    cases e with
    | send w => exact orderly_send h hphase
    | _ => exact h
  | receive =>
    cases e with
    | packet w type rxbuf => exact orderly_packet h hphase hproper
    | stop => exact orderly_after (orderly_abort h) (hopen hphase)
    | txtime =>
      dsimp only
      split
      · next htimer =>
        apply orderly_after (orderly_onTxtime h hphase htimer)
        rw [onTxtime_phase]
        exact hopen hphase
      · exact h
    | devtxtime =>
      dsimp only
      split
      · apply orderly_after (orderly_onDevtxtime h)
        rw [onDevtxtime_phase]
        exact hopen hphase
      · exact h
    | nopkt => exact orderly_nopkt h hphase
    | typed dev data => exact orderly_same h (devsend_view ..)
    | chat timer =>
      apply orderly_same h
      simp only [Session.view, hphase]
    | call => exact h
    | send => exact h

theorem orderly_run (h : s.view.Orderly) (steps : List Step) (hproper : s.ProperRun steps) :
    (s.run steps).view.Orderly := by
  induction steps generalizing s with
  | nil => exact h
  | cons e steps ih => exact ih (orderly_step h e hproper.1) hproper.2

/-- In a run whose steps all meet the condition, the packets of files and devices go out behind START, INIT
and INITACK and the other side's INIT, and END behind both ends of the batches. -/
theorem session_in_order (side : Side) (originator hdxlink : Bool) (txmaxblklen blklen : ℕ) (steps : List Step)
    (hproper : (Session.ready side originator hdxlink txmaxblklen blklen).ProperRun steps) :
    InOrder ((Session.ready side originator hdxlink txmaxblklen blklen).run steps).log := by
  refine (orderly_run ?_ steps hproper).order
  refine ⟨trivial, ?_, ?_⟩
  · constructor <;> simp [Session.view, Session.ready, Htx.code]
  · intro f hf
    cases f <;> simp [View.Owes, Session.view, Session.ready, Htx.code] at hf

/-- A session without files. -/
def emptyBatch : List Step :=
  [.call none false, .send {}, .packet {} hpktStart [], .nopkt, .send {}, .packet {} hpktInitType (initPkt plainSide),
    .packet {} hpktInitack [], .nopkt, .send {}, .packet {} hpktFinfo [0], .packet {} hpktFinfoack (put4 0), .nopkt,
    .send {}, .packet {} hpktEnd []]

theorem session_in_order_empty : InOrder ((Session.ready plainSide true false 512 512).run emptyBatch).log :=
  session_in_order plainSide true false 512 512 emptyBatch (by decide +kernel)

/-- The first file cannot be opened; the end of the batch follows. -/
def unreadable : List Step :=
  [.call (some { path := [65], txalias := none, size := 0, time := 0, named := by decide }) false, .call none false,
    .send {}]

theorem not_session_in_order : ¬ InOrder ((Session.ready plainSide true false 512 512).run unreadable).log := by
  intro h
  have hlog : ((Session.ready plainSide true false 512 512).run unreadable).log =
      [.sent hpktFinfo [0], .session] := by decide +kernel
  rw [hlog] at h
  have hopened : Opened (since [.session]) := h.1.1 (by decide)
  have hstarted : Fact.started.Holds (since [.session]) := hopened .started (by simp)
  simp [Fact.Holds, since] at hstarted

end CProgram.Hydra
