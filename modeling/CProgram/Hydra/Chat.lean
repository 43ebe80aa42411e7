import CProgram.Hydra.Packet
import CProgram.Lib.Strings
import Mathlib.Logic.Relation

/-! Chat text in device packets: `keyabort` collects what is typed and hands a buffer to
`hydra_devsend`, which keeps the pointer until the acknowledgement is there. -/
namespace CProgram.Hydra
open CProgram.Strings

/-- `h_long1`: the four bytes a packet begins with. -/
def hLong1 : List UInt8 → Dword
  | a :: b :: c :: d :: _ => d.toBitVec ++ (c.toBitVec ++ (b.toBitVec ++ a.toBitVec))
  | _ => 0

def text (s : String) : List UInt8 := s.toList.map fun c => UInt8.ofNat c.toNat

def chatlen : ℕ := 256
def chatTimeout : ℤ := 60
def hFlaglen : ℕ := 3
def esc : ℕ := 0x1b
def altC : ℕ := 0x12e
def con : List UInt8 := [67, 79, 78, 0]
def msg : List UInt8 := [77, 83, 71, 0]
def chatstart : List UInt8 := text "\x07\x07 * Chat mode start\r\n"
def chatend : List UInt8 := text "\x07\x07\r\n * Chat mode end\r\n"
def chattime : List UInt8 := text "\x07\x07\r\n * Chat mode end - timeout\r\n"
def bellOff : List UInt8 := text " * Remote has chat facility with bell disabled\n"
def bellOn : List UInt8 := text " * Remote has chat facility with bell enabled\n"
def hdxmsg : List UInt8 := text "Fallback to one-way xfer"

inductive Chatbuf where
  | chatbuf1 | chatbuf2
  deriving DecidableEq

/-- What `devtxbuf` points to. -/
inductive Source where
  | chat (buf : Chatbuf)
  | static (bytes : List UInt8)
  deriving DecidableEq

/-- `devtxstate` -/
inductive Htd where
  | done | data | dack
  deriving DecidableEq

/-- The side that types; `accepted` records what `hydra_devsend` has taken, for which device. -/
structure Talker where
  chatbuf : Chatbuf → ℕ → UInt8
  curbuf : Chatbuf
  chatfill : ℕ
  chattimer : ℤ
  lasttimer : ℤ
  devtxstate : Htd
  devtxid : Dword
  devtxdev : List UInt8
  devtxbuf : Source
  devtxlen : ℕ
  accepted : List (List UInt8 × List UInt8)

/-- The `devtxlen` bytes at `devtxbuf`. -/
def Talker.pending (t : Talker) : List UInt8 :=
  match t.devtxbuf with
  | .static bytes => bytes.take t.devtxlen
  | .chat buf => (List.range t.devtxlen).map (t.chatbuf buf)

/-! ### `hydra_devsend` and `keyabort` -/

/-- `hydra_devsend`; `allowed` when devices were agreed on and the end of the session is not near. -/
def devsend (allowed : Bool) (dev : List UInt8) (data : Source) (len : ℕ) (t : Talker) : Talker × Bool :=
  if len = 0 ∨ t.devtxstate ≠ .done ∨ allowed = false then (t, false)
  else
    let t := { t with
      devtxdev := dev, devtxbuf := data, devtxlen := min len hMaxblklen
      devtxid := t.devtxid + 1, devtxstate := .data }
    ({ t with accepted := t.accepted ++ [(dev, t.pending)] }, true)

def devsendText (allowed : Bool) (dev bytes : List UInt8) (t : Talker) : Talker :=
  (devsend allowed dev (.static bytes) bytes.length t).1

/-- The part of `keyabort` in front of the keys, at the time `now`. -/
def watch (allowed nobell : Bool) (now : ℤ) (t : Talker) : Talker :=
  if 0 < t.chattimer then
    if t.chattimer < now then devsendText allowed con chattime { t with chattimer := 0, lasttimer := 0 }
    else t
  else if t.chattimer ≠ t.lasttimer then
    let t := if t.chattimer = 0 then devsendText allowed con (if nobell then bellOff else bellOn) t else t
    { t with lasttimer := t.chattimer }
  else t

/-- `curbuf[chatfill++] = c` -/
def put (c : UInt8) (t : Talker) : Talker :=
  { t with
    chatbuf := fun buf i => if buf = t.curbuf ∧ i = t.chatfill then c else t.chatbuf buf i
    chatfill := t.chatfill + 1 }

/-- A backspace takes the last character of the line back. -/
def takesBack (t : Talker) : Bool := 0 < t.chatfill && t.chatbuf t.curbuf (t.chatfill - 1) ≠ 10

/-- The keys that are part of a text. -/
def typed (c : ℕ) : Bool := c = 13 || c = 7 || c = 8 || (decide (32 ≤ c) && decide (c ≤ 126))

/-- One key, read at the time `now`. -/
def key (allowed : Bool) (now : ℤ) (c : ℕ) (t : Talker) : Talker :=
  if c = esc then t
  else if c = altC then
    if t.chattimer = 0 then
      let t := devsendText allowed con chatstart t
      { t with chattimer := now + chatTimeout, lasttimer := now + chatTimeout }
    else if 0 < t.chattimer then devsendText allowed con chatend { t with chattimer := 0, lasttimer := 0 }
    else t
  else if typed c ∧ 0 < t.chattimer then
    let t := { t with chattimer := now + chatTimeout }
    if chatlen ≤ t.chatfill then t
    else if c = 13 then put 10 t
    else if c = 8 then
      if takesBack t then { t with chatfill := t.chatfill - 1 } else put 8 (put 32 (put 8 t))
    else put (UInt8.ofNat c) t
  else t

/-- The text so far is sent, if the last packet has been acknowledged. -/
def flush (allowed : Bool) (t : Talker) : Talker :=
  if 0 < t.chatfill then
    match devsend allowed con (.chat t.curbuf) t.chatfill t with
    | (t, true) =>
      -- both sides of the choice are the second buffer
      { t with curbuf := if t.curbuf = .chatbuf1 then .chatbuf2 else .chatbuf2, chatfill := 0 }
    | (t, false) => t
  else t

def keys (allowed : Bool) (typed : List (ℤ × ℕ)) (t : Talker) : Talker :=
  typed.foldl (fun t k => key allowed k.1 k.2 t) t

def keyabort (allowed nobell : Bool) (now : ℤ) (typed : List (ℤ × ℕ)) (t : Talker) : Talker :=
  flush allowed (keys allowed typed (watch allowed nobell now t))

/-! ### The packets -/

/-- The content of a DEVDATA packet. -/
def devdata (id : Dword) (dev data : List UInt8) : List UInt8 := lowFirst id 4 ++ (dev ++ data)

/-- `h_dev`, as far as there is a function for the device. -/
def hDev : List (List UInt8 × Bool) := [(msg, true), (con, true), ([80, 82, 78, 0], false), ([69, 82, 82, 0], false)]

/-- `hydra_devrecv`: the device whose function is called, and with which bytes. -/
def devrecv (rxbuf : List UInt8) : Option (List UInt8 × List UInt8) :=
  let p := rxbuf.drop 4
  match hDev.find? fun dev => p.take hFlaglen = dev.1.take hFlaglen with
  | some (dev, true) => some (dev, p.drop (next p 0))
  | _ => none

/-- Both sides with what is under way between them, the oldest packet first. -/
structure Talk where
  talker : Talker
  devrxid : Dword
  handed : List (List UInt8 × List UInt8)
  packets : List (List UInt8)
  acks : List (List UInt8)

/-- The start of a session: whatever the buffers hold, and whichever is the current one. -/
def Talk.start (chatbuf : Chatbuf → ℕ → UInt8) (curbuf : Chatbuf) : Talk where
  talker := {
    chatbuf, curbuf
    chatfill := 0, chattimer := -1, lasttimer := 0
    devtxstate := .done, devtxid := 0, devtxdev := [], devtxbuf := .static [], devtxlen := 0
    accepted := [] }
  devrxid := 0
  handed := []
  packets := []
  acks := []

inductive Event where
  /-- `keyabort` with the keys it finds. -/
  | keyabort (allowed nobell : Bool) (now : ℤ) (typed : List (ℤ × ℕ))
  /-- The handlers of the session open (`0`) or close (`-2`, `-3`) the chat. -/
  | chattimer (value : ℤ)
  /-- The session falls back to one way. -/
  | fallback (allowed : Bool)
  | transmit | timeout | receive | acknowledge
  | losePacket (n : ℕ) | loseAck (n : ℕ)

def Talk.step (e : Event) (s : Talk) : Talk :=
  match e with
  | .keyabort allowed nobell now typed =>
    { s with talker := Hydra.keyabort allowed nobell now typed s.talker }
  | .chattimer value => { s with talker := { s.talker with chattimer := value } }
  | .fallback allowed => { s with talker := devsendText allowed msg hdxmsg s.talker }
  | .transmit =>
    let t := s.talker
    if t.devtxstate = .data then
      { s with
        packets := s.packets ++ [devdata t.devtxid t.devtxdev t.pending]
        talker := { t with devtxstate := .dack } }
    else s
  | .timeout =>
    if s.talker.devtxstate = .dack then { s with talker := { s.talker with devtxstate := .data } } else s
  | .receive =>
    match s.packets with
    | [] => s
    | p :: packets =>
      let s := { s with packets := packets }
      let s := if s.devrxid ≠ hLong1 p then
        { s with handed := s.handed ++ (devrecv p).toList, devrxid := hLong1 p } else s
      { s with acks := s.acks ++ [lowFirst s.devrxid 4] }
  | .acknowledge =>
    match s.acks with
    | [] => s
    | p :: acks =>
      let s := { s with acks := acks }
      if s.talker.devtxstate ≠ .done ∧ s.talker.devtxid = hLong1 p then
        { s with talker := { s.talker with devtxstate := .done } }
      else s
  | .losePacket n => { s with packets := s.packets.eraseIdx n }
  | .loseAck n => { s with acks := s.acks.eraseIdx n }

def Talk.run (s : Talk) (events : List Event) : Talk := events.foldl (fun s e => s.step e) s

/-- The buffers for the console. -/
def console (log : List (List UInt8 × List UInt8)) : List (List UInt8) :=
  (log.filter fun entry => entry.1 = con).map Prod.snd

/-! ### When the keys leave the pending bytes alone -/

/-- The key is stored in the current buffer. -/
def stores (c : ℕ) (t : Talker) : Bool :=
  typed c && decide (0 < t.chattimer) && decide (t.chatfill < chatlen) && !(c = 8 && takesBack t)

/-- The key is not stored in bytes that wait for their acknowledgement. -/
def Spares (c : ℕ) (t : Talker) : Prop :=
  stores c t → t.devtxstate ≠ .done → t.devtxbuf = .chat t.curbuf → t.devtxlen ≤ t.chatfill

def SparesAll (allowed : Bool) : List (ℤ × ℕ) → Talker → Prop
  | [], _ => True
  | (now, c) :: typed, t => Spares c t ∧ SparesAll allowed typed (key allowed now c t)

/-- The condition on an event. -/
def Event.Spares (e : Event) (s : Talk) : Prop :=
  match e with
  | .keyabort allowed nobell now typed => SparesAll allowed typed (watch allowed nobell now s.talker)
  | _ => True

/-- Every event of the run meets the condition. -/
def Talk.Spared : Talk → List Event → Prop
  | _, [] => True
  | s, e :: events => e.Spares s ∧ (s.step e).Spared events

/-! ### What the talker does between packets -/

/-- The packet that waits stays as it is, or a new one is taken. -/
inductive Acts (t t' : Talker) : Prop
  | keeps (hstate : t'.devtxstate = t.devtxstate) (hid : t'.devtxid = t.devtxid)
      (hdev : t'.devtxdev = t.devtxdev) (haccepted : t'.accepted = t.accepted)
      (hpending : t.devtxstate ≠ .done → t'.pending = t.pending) : Acts t t'
  | takes (hstate : t.devtxstate = .done) (hdata : t'.devtxstate = .data)
      (hid : t'.devtxid = t.devtxid + 1) (hdev : t'.devtxdev = con ∨ t'.devtxdev = msg)
      (haccepted : t'.accepted = t.accepted ++ [(t'.devtxdev, t'.pending)]) : Acts t t'

/-- What `keyabort` does to the packets. -/
abbrev Works : Talker → Talker → Prop := Relation.ReflTransGen Acts

variable {t t' : Talker} {allowed nobell : Bool} {dev : List UInt8}

theorem Acts.works (h : Acts t t') : Works t t' := Relation.ReflTransGen.single h

/-- Only what belongs to the chat changes. -/
theorem acts_chat {fill : ℕ} {timer last : ℤ} {cur : Chatbuf} :
    Acts t { t with curbuf := cur, chatfill := fill, chattimer := timer, lasttimer := last } :=
  .keeps rfl rfl rfl rfl fun _ => rfl

theorem acts_devsend {data : Source} {len : ℕ} (hdev : dev = con ∨ dev = msg) :
    Acts t (devsend allowed dev data len t).1 := by
  rw [devsend]
  split
  · exact acts_chat
  · next h =>
    have hdone : t.devtxstate = .done := by
      by_contra hbusy
      exact h (Or.inr (Or.inl hbusy))
    exact .takes hdone rfl rfl hdev rfl

theorem works_devsendText {bytes : List UInt8} (hdev : dev = con ∨ dev = msg) :
    Works t (devsendText allowed dev bytes t) := (acts_devsend hdev).works

theorem works_watch {now : ℤ} : Works t (watch allowed nobell now t) := by
  rw [watch]
  split
  · split
    · exact (Acts.works acts_chat).trans (works_devsendText (Or.inl rfl))
    · exact .refl
  · split
    · dsimp only
      split
      · exact (works_devsendText (Or.inl rfl)).trans (Acts.works acts_chat)
      · exact Acts.works acts_chat
    · exact .refl

theorem pending_put {c : UInt8} (h : t.devtxbuf = .chat t.curbuf → t.devtxlen ≤ t.chatfill) :
    (put c t).pending = t.pending := by
  cases hbuf : t.devtxbuf with
  | static bytes => simp [Talker.pending, put, hbuf]
  | chat buf =>
    simp only [Talker.pending, put, hbuf]
    apply List.map_congr_left
    intro i hi
    rw [List.mem_range] at hi
    apply if_neg
    rintro ⟨rfl, rfl⟩
    have := h hbuf
    omega

theorem acts_put {c : UInt8}
    (h : t.devtxstate ≠ .done → t.devtxbuf = .chat t.curbuf → t.devtxlen ≤ t.chatfill) : Acts t (put c t) :=
  .keeps rfl rfl rfl rfl fun hbusy => pending_put (h hbusy)

/-- A key that spares the pending bytes. -/
theorem works_key {now : ℤ} {c : ℕ} (h : Spares c t) : Works t (key allowed now c t) := by
  rw [key]
  split
  · exact .refl
  split
  · split
    · exact (works_devsendText (Or.inl rfl)).trans (Acts.works acts_chat)
    · split
      · exact (Acts.works acts_chat).trans (works_devsendText (Or.inl rfl))
      · exact .refl
  split
  · next htyped =>
    have hchat : Acts t { t with chattimer := now + chatTimeout } := acts_chat
    dsimp only
    split
    · exact hchat.works
    · next hroom =>
      have hfree : ¬ (c = 8 ∧ takesBack t) → t.devtxstate ≠ .done → t.devtxbuf = .chat t.curbuf →
          t.devtxlen ≤ t.chatfill := by
        intro hback
        apply h
        simp only [stores, htyped.1, decide_eq_true htyped.2, decide_eq_true (not_le.mp hroom)]
        by_cases hc : c = 8
        · simp only [hc, true_and, Bool.not_eq_true] at hback
          simp [hback]
        · simp [hc]
      split
      · next hcr =>
        have hput := acts_put (t := { t with chattimer := now + chatTimeout }) (c := 10) (hfree (by omega))
        exact hchat.works.trans hput.works
      split
      · split
        · exact (hchat.works).trans (Acts.works acts_chat)
        · next hback =>
          have hroom₀ := hfree fun hboth => hback hboth.2
          have h₁ := acts_put (t := { t with chattimer := now + chatTimeout }) (c := 8) hroom₀
          have h₂ := acts_put (t := put 8 { t with chattimer := now + chatTimeout }) (c := 32)
            fun hbusy hbuf => le_trans (hroom₀ hbusy hbuf) (Nat.le_succ _)
          have h₃ := acts_put (t := put 32 (put 8 { t with chattimer := now + chatTimeout })) (c := 8)
            fun hbusy hbuf => le_trans (hroom₀ hbusy hbuf) (Nat.le_add_right _ 2)
          exact ((hchat.works.trans h₁.works).trans h₂.works).trans h₃.works
      · next hne =>
        have hput := acts_put (t := { t with chattimer := now + chatTimeout }) (c := UInt8.ofNat c)
          (hfree fun hboth => hne hboth.1)
        exact hchat.works.trans hput.works
  · exact .refl

theorem works_keys {typed : List (ℤ × ℕ)} (h : SparesAll allowed typed t) : Works t (keys allowed typed t) := by
  induction typed generalizing t with
  | nil => exact .refl
  | cons k typed ih => exact (works_key h.1).trans (ih h.2)

theorem works_flush : Works t (flush allowed t) := by
  rw [flush]
  split
  · have hsend : Acts t (devsend allowed con (.chat t.curbuf) t.chatfill t).1 := acts_devsend (Or.inl rfl)
    split
    · next heq =>
      rw [heq] at hsend
      exact hsend.works.trans (Acts.works acts_chat)
    · next heq =>
      rw [heq] at hsend
      exact hsend.works
  · exact .refl

theorem works_keyabort {now : ℤ} {typed : List (ℤ × ℕ)}
    (h : SparesAll allowed typed (watch allowed nobell now t)) :
    Works t (keyabort allowed nobell now typed t) :=
  (works_watch.trans (works_keys h)).trans works_flush

/-! ### The packets read back -/

theorem hLong1_lowFirst (id : Dword) (rest : List UInt8) : hLong1 (lowFirst id 4 ++ rest) = id := by
  simp only [lowFirst, List.cons_append, hLong1]
  apply BitVec.eq_of_getLsbD_eq
  intro i hi
  simp only [BitVec.getLsbD_append, BitVec.getLsbD_setWidth,
    BitVec.getLsbD_ushiftRight]
  grind

theorem hLong1_ack (id : Dword) : hLong1 (lowFirst id 4) = id := by
  have := hLong1_lowFirst id []
  rwa [List.append_nil] at this

theorem hLong1_devdata (id : Dword) (dev data : List UInt8) : hLong1 (devdata id dev data) = id :=
  hLong1_lowFirst id _

/-- The function of the device gets the bytes that were packed. -/
theorem devrecv_devdata {dev : List UInt8} (hdev : dev = con ∨ dev = msg) (id : Dword) (data : List UInt8) :
    devrecv (devdata id dev data) = some (dev, data) := by
  have hskip : (devdata id dev data).drop 4 = dev ++ data := by simp [devdata, lowFirst]
  rw [devrecv, hskip]
  cases hdev with
  | inl h => subst h; simp [hDev, con, msg, hFlaglen, next, cstr]
  | inr h => subst h; simp [hDev, con, msg, hFlaglen, next, cstr]

/-! ### The invariant of a run -/

/-- Where a packet stands: acknowledged, on its way, or handed over and not yet acknowledged. What is
older carries the number before. -/
inductive Talk.Sound (s : Talk) : Prop
  | idle (hstate : s.talker.devtxstate = .done) (hrx : s.devrxid = s.talker.devtxid)
      (hpackets : ∀ p ∈ s.packets, hLong1 p = s.talker.devtxid)
      (hacks : ∀ a ∈ s.acks, hLong1 a = s.talker.devtxid)
      (hhanded : s.handed = s.talker.accepted)
  | sent (before : List (List UInt8 × List UInt8)) (old new : List (List UInt8))
      (hstate : s.talker.devtxstate ≠ .done) (hdev : s.talker.devtxdev = con ∨ s.talker.devtxdev = msg)
      (haccepted : s.talker.accepted = before ++ [(s.talker.devtxdev, s.talker.pending)])
      (hrx : s.devrxid = s.talker.devtxid - 1) (hpackets : s.packets = old ++ new)
      (hold : ∀ p ∈ old, hLong1 p = s.talker.devtxid - 1)
      (hnew : ∀ p ∈ new, p = devdata s.talker.devtxid s.talker.devtxdev s.talker.pending)
      (hacks : ∀ a ∈ s.acks, hLong1 a = s.talker.devtxid - 1) (hhanded : s.handed = before)
  | received (old new : List (List UInt8)) (hstate : s.talker.devtxstate ≠ .done)
      (hrx : s.devrxid = s.talker.devtxid) (hpackets : ∀ p ∈ s.packets, hLong1 p = s.talker.devtxid)
      (hacks : s.acks = old ++ new) (hold : ∀ a ∈ old, hLong1 a = s.talker.devtxid - 1)
      (hnew : ∀ a ∈ new, hLong1 a = s.talker.devtxid) (hhanded : s.handed = s.talker.accepted)

variable {s : Talk}

theorem sound_start (chatbuf : Chatbuf → ℕ → UInt8) (curbuf : Chatbuf) : (Talk.start chatbuf curbuf).Sound := by
  apply Talk.Sound.idle
  · rfl
  · rfl
  · simp [Talk.start]
  · simp [Talk.start]
  · rfl

theorem Talk.Sound.acts (h : s.Sound) (hacts : Acts s.talker t) : Talk.Sound { s with talker := t } := by
  cases hacts with
  | keeps hstate hid hdev haccepted hpending =>
    cases h with
    | idle h₁ h₂ h₃ h₄ h₅ =>
      exact .idle (hstate.trans h₁) (h₂.trans hid.symm) (by simpa only [hid] using h₃)
        (by simpa only [hid] using h₄) (h₅.trans haccepted.symm)
    | sent before old new h₁ h₂ h₃ h₄ h₅ h₆ h₇ h₈ h₉ =>
      have hpend := hpending h₁
      refine .sent before old new ?_ ?_ ?_ ?_ h₅ ?_ ?_ ?_ h₉
      · simpa only [hstate] using h₁
      · simpa only [hdev] using h₂
      · simpa only [haccepted, hdev, hpend] using h₃
      · simpa only [hid] using h₄
      · simpa only [hid] using h₆
      · simpa only [hid, hdev, hpend] using h₇
      · simpa only [hid] using h₈
    | received old new h₁ h₂ h₃ h₄ h₅ h₆ h₇ =>
      refine .received old new ?_ ?_ ?_ h₄ ?_ ?_ ?_
      · simpa only [hstate] using h₁
      · simpa only [hid] using h₂
      · simpa only [hid] using h₃
      · simpa only [hid] using h₅
      · simpa only [hid] using h₆
      · simpa only [haccepted] using h₇
  | takes hstate hdata hid hdev haccepted =>
    have hback : t.devtxid - 1 = s.talker.devtxid := by
      rw [hid]
      exact BitVec.add_sub_cancel ..
    cases h with
    | idle h₁ h₂ h₃ h₄ h₅ =>
      refine .sent s.talker.accepted s.packets [] ?_ hdev haccepted ?_ ?_ ?_ ?_ ?_ h₅
      · simp [hdata]
      · simpa only [hback] using h₂
      · exact (List.append_nil _).symm
      · simpa only [hback] using h₃
      · simp
      · simpa only [hback] using h₄
    | sent _ _ _ h₁ => exact absurd hstate h₁
    | received _ _ h₁ => exact absurd hstate h₁

theorem Talk.Sound.works (h : s.Sound) (hworks : Works s.talker t) : Talk.Sound { s with talker := t } := by
  induction hworks with
  | refl => exact h
  | tail _ hacts ih => exact ih.acts hacts

theorem sub_one_ne (id : Dword) : id - 1 ≠ id := by
  bv_omega

theorem Talk.Sound.transmit (h : s.Sound) : (s.step .transmit).Sound := by
  simp only [Talk.step]
  split
  · next hdata =>
    cases h with
    | idle h₁ => rw [h₁] at hdata; cases hdata
    | sent before old new h₁ h₂ h₃ h₄ h₅ h₆ h₇ h₈ h₉ =>
      let copy := devdata s.talker.devtxid s.talker.devtxdev s.talker.pending
      refine .sent before old (new ++ [copy]) (by simp) h₂ h₃ h₄ ?_ h₆ ?_ h₈ h₉
      · simp only [h₅, List.append_assoc, copy]
      · intro p hp
        rw [List.mem_append, List.mem_singleton] at hp
        exact hp.elim (h₇ p) id
    | received old new h₁ h₂ h₃ h₄ h₅ h₆ h₇ =>
      refine .received old new (by simp) h₂ ?_ h₄ h₅ h₆ h₇
      intro p hp
      rw [List.mem_append, List.mem_singleton] at hp
      cases hp with
      | inl hp => exact h₃ p hp
      | inr hp => rw [hp, hLong1_devdata]
  · exact h

theorem Talk.Sound.timeout (h : s.Sound) : (s.step .timeout).Sound := by
  simp only [Talk.step]
  split
  · next hdack =>
    cases h with
    | idle h₁ => rw [h₁] at hdack; cases hdack
    | sent before old new h₁ h₂ h₃ h₄ h₅ h₆ h₇ h₈ h₉ =>
      exact .sent before old new (by simp) h₂ h₃ h₄ h₅ h₆ h₇ h₈ h₉
    | received old new h₁ h₂ h₃ h₄ h₅ h₆ h₇ => exact .received old new (by simp) h₂ h₃ h₄ h₅ h₆ h₇
  · exact h

/-- A packet that has been seen is acknowledged again. -/
theorem step_receive_seen {p : List UInt8} {packets : List (List UInt8)} (hp : s.packets = p :: packets)
    (hseen : s.devrxid = hLong1 p) :
    s.step .receive = { s with packets := packets, acks := s.acks ++ [lowFirst s.devrxid 4] } := by
  simp only [Talk.step, hp, if_neg (not_not.mpr hseen)]

/-- A new packet goes to its device. -/
theorem step_receive_new {p : List UInt8} {packets : List (List UInt8)} (hp : s.packets = p :: packets)
    (hnew : s.devrxid ≠ hLong1 p) :
    s.step .receive = { s with
      packets := packets, handed := s.handed ++ (devrecv p).toList, devrxid := hLong1 p
      acks := s.acks ++ [lowFirst (hLong1 p) 4] } := by
  simp only [Talk.step, hp, if_pos hnew]

theorem mem_snoc {acks : List (List UInt8)} {rx id : Dword} (h : ∀ a ∈ acks, hLong1 a = id) (hrx : rx = id) :
    ∀ a ∈ acks ++ [lowFirst rx 4], hLong1 a = id := by
  intro a ha
  rw [List.mem_append, List.mem_singleton] at ha
  cases ha with
  | inl ha => exact h a ha
  | inr ha => rw [ha, hLong1_ack, hrx]

theorem Talk.Sound.receive (h : s.Sound) : (s.step .receive).Sound := by
  cases hp : s.packets with
  | nil =>
    have hstill : s.step .receive = s := by simp only [Talk.step, hp]
    rwa [hstill]
  | cons p packets =>
    have hmem : p ∈ s.packets := by rw [hp]; exact List.mem_cons_self
    have hrest : ∀ q ∈ packets, q ∈ s.packets := by
      intro q hq
      rw [hp]
      exact List.mem_cons_of_mem p hq
    cases h with
    | idle h₁ h₂ h₃ h₄ h₅ =>
      rw [step_receive_seen hp (h₂.trans (h₃ p hmem).symm)]
      refine .idle h₁ h₂ (fun q hq => h₃ q (hrest q hq)) (mem_snoc h₄ h₂) h₅
    | sent before old new h₁ h₂ h₃ h₄ h₅ h₆ h₇ h₈ h₉ =>
      cases old with
      | cons q old =>
        -- a copy of the packet before
        rw [List.cons_append, hp] at h₅
        obtain ⟨rfl, hpackets⟩ := List.cons.inj h₅
        rw [step_receive_seen hp (h₄.trans (h₆ p List.mem_cons_self).symm)]
        refine .sent before old new h₁ h₂ h₃ h₄ hpackets
          (fun q hq => h₆ q (List.mem_cons_of_mem p hq)) h₇ (mem_snoc h₈ h₄) h₉
      | nil =>
        rw [List.nil_append] at h₅
        have hid : hLong1 p = s.talker.devtxid := by rw [h₇ p (h₅ ▸ hmem), hLong1_devdata]
        have hdevrecv : devrecv p = some (s.talker.devtxdev, s.talker.pending) := by
          rw [h₇ p (h₅ ▸ hmem), devrecv_devdata h₂]
        have hfresh : s.devrxid ≠ hLong1 p := by
          rw [h₄, hid]
          exact sub_one_ne _
        rw [step_receive_new hp hfresh]
        refine .received s.acks [lowFirst (hLong1 p) 4] h₁ hid ?_ rfl h₈ ?_ ?_
        · intro q hq
          rw [h₇ q (h₅ ▸ hrest q hq), hLong1_devdata]
        · intro a ha
          rw [List.mem_singleton.mp ha, hLong1_ack, hid]
        · change s.handed ++ (devrecv p).toList = s.talker.accepted
          rw [hdevrecv, h₃, h₉]
          rfl
    | received old new h₁ h₂ h₃ h₄ h₅ h₆ h₇ =>
      rw [step_receive_seen hp (h₂.trans (h₃ p hmem).symm)]
      refine .received old (new ++ [lowFirst s.devrxid 4]) h₁ h₂
        (fun q hq => h₃ q (hrest q hq)) ?_ h₅ (mem_snoc h₆ h₂) h₇
      simp only [h₄, List.append_assoc]

/-- An acknowledgement of another packet. -/
theorem step_acknowledge_other {a : List UInt8} {acks : List (List UInt8)} (ha : s.acks = a :: acks)
    (h : s.talker.devtxid ≠ hLong1 a ∨ s.talker.devtxstate = .done) :
    s.step .acknowledge = { s with acks := acks } := by
  simp only [Talk.step, ha]
  rw [if_neg]
  rintro ⟨hbusy, hid⟩
  exact h.elim (fun hne => hne hid) hbusy

/-- The acknowledgement that the talker waits for. -/
theorem step_acknowledge_own {a : List UInt8} {acks : List (List UInt8)} (ha : s.acks = a :: acks)
    (hbusy : s.talker.devtxstate ≠ .done) (hid : s.talker.devtxid = hLong1 a) :
    s.step .acknowledge = { s with acks := acks, talker := { s.talker with devtxstate := .done } } := by
  simp only [Talk.step, ha]
  rw [if_pos ⟨hbusy, hid⟩]

theorem Talk.Sound.acknowledge (h : s.Sound) : (s.step .acknowledge).Sound := by
  cases ha : s.acks with
  | nil =>
    have hstill : s.step .acknowledge = s := by simp only [Talk.step, ha]
    rwa [hstill]
  | cons a acks =>
    have hmem : a ∈ s.acks := by rw [ha]; exact List.mem_cons_self
    have hrest : ∀ b ∈ acks, b ∈ s.acks := by
      intro b hb
      rw [ha]
      exact List.mem_cons_of_mem a hb
    cases h with
    | idle h₁ h₂ h₃ h₄ h₅ =>
      rw [step_acknowledge_other ha (Or.inr h₁)]
      exact .idle h₁ h₂ h₃ (fun b hb => h₄ b (hrest b hb)) h₅
    | sent before old new h₁ h₂ h₃ h₄ h₅ h₆ h₇ h₈ h₉ =>
      have hother : s.talker.devtxid ≠ hLong1 a := by
        rw [h₈ a hmem]
        exact (sub_one_ne _).symm
      rw [step_acknowledge_other ha (Or.inl hother)]
      exact .sent before old new h₁ h₂ h₃ h₄ h₅ h₆ h₇ (fun b hb => h₈ b (hrest b hb)) h₉
    | received old new h₁ h₂ h₃ h₄ h₅ h₆ h₇ =>
      cases old with
      | cons b old =>
        rw [List.cons_append, ha] at h₄
        obtain ⟨rfl, hacks⟩ := List.cons.inj h₄
        have hother : s.talker.devtxid ≠ hLong1 a := by
          rw [h₅ a List.mem_cons_self]
          exact (sub_one_ne _).symm
        rw [step_acknowledge_other ha (Or.inl hother)]
        exact .received old new h₁ h₂ h₃ hacks (fun b hb => h₅ b (List.mem_cons_of_mem a hb)) h₆ h₇
      | nil =>
        -- behind the first acknowledgement of this packet there are only more of the same
        rw [List.nil_append] at h₄
        rw [step_acknowledge_own ha h₁ (h₆ a (h₄ ▸ hmem)).symm]
        exact .idle rfl h₂ h₃ (fun b hb => h₆ b (h₄ ▸ hrest b hb)) h₇

/-- What is lost from two runs of packets is lost from one of them. -/
theorem eraseIdx_append_cases {α : Type*} (old new : List α) (n : ℕ) :
    ∃ old' new', (old ++ new).eraseIdx n = old' ++ new' ∧ old'.Sublist old ∧ new'.Sublist new := by
  by_cases h : n < old.length
  · exact ⟨old.eraseIdx n, new, List.eraseIdx_append_of_lt_length h new, List.eraseIdx_sublist .., .refl new⟩
  · exact ⟨old, new.eraseIdx (n - old.length), List.eraseIdx_append_of_length_le (by omega) new, .refl old,
      List.eraseIdx_sublist ..⟩

theorem Talk.Sound.losePacket (h : s.Sound) (n : ℕ) : (s.step (.losePacket n)).Sound := by
  have hsub : ∀ p ∈ s.packets.eraseIdx n, p ∈ s.packets := fun p hp => List.mem_of_mem_eraseIdx hp
  cases h with
  | idle h₁ h₂ h₃ h₄ h₅ => exact .idle h₁ h₂ (fun p hp => h₃ p (hsub p hp)) h₄ h₅
  | sent before old new h₁ h₂ h₃ h₄ h₅ h₆ h₇ h₈ h₉ =>
    obtain ⟨old', new', hpackets, hold, hnew⟩ := eraseIdx_append_cases old new n
    rw [← h₅] at hpackets
    exact .sent before old' new' h₁ h₂ h₃ h₄ hpackets (fun p hp => h₆ p (hold.subset hp))
      (fun p hp => h₇ p (hnew.subset hp)) h₈ h₉
  | received old new h₁ h₂ h₃ h₄ h₅ h₆ h₇ =>
    exact .received old new h₁ h₂ (fun p hp => h₃ p (hsub p hp)) h₄ h₅ h₆ h₇

theorem Talk.Sound.loseAck (h : s.Sound) (n : ℕ) : (s.step (.loseAck n)).Sound := by
  have hsub : ∀ a ∈ s.acks.eraseIdx n, a ∈ s.acks := fun a ha => List.mem_of_mem_eraseIdx ha
  cases h with
  | idle h₁ h₂ h₃ h₄ h₅ => exact .idle h₁ h₂ h₃ (fun a ha => h₄ a (hsub a ha)) h₅
  | sent before old new h₁ h₂ h₃ h₄ h₅ h₆ h₇ h₈ h₉ =>
    exact .sent before old new h₁ h₂ h₃ h₄ h₅ h₆ h₇ (fun a ha => h₈ a (hsub a ha)) h₉
  | received old new h₁ h₂ h₃ h₄ h₅ h₆ h₇ =>
    obtain ⟨old', new', hacks, hold, hnew⟩ := eraseIdx_append_cases old new n
    rw [← h₄] at hacks
    exact .received old' new' h₁ h₂ h₃ hacks (fun a ha => h₅ a (hold.subset ha))
      (fun a ha => h₆ a (hnew.subset ha)) h₇

theorem Talk.Sound.step (h : s.Sound) (e : Event) (hspares : e.Spares s) : (s.step e).Sound := by
  cases e with
  | keyabort allowed nobell now typed => exact h.works (works_keyabort hspares)
  | chattimer value => exact h.acts acts_chat
  | fallback allowed => exact h.works (works_devsendText (Or.inr rfl))
  | transmit => exact h.transmit
  | timeout => exact h.timeout
  | receive => exact h.receive
  | acknowledge => exact h.acknowledge
  | losePacket n => exact h.losePacket n
  | loseAck n => exact h.loseAck n

theorem Talk.Sound.run (h : s.Sound) (events : List Event) (hspared : s.Spared events) :
    (s.run events).Sound := by
  induction events generalizing s with
  | nil => exact h
  | cons e events ih => exact ih (h.step e hspared.1) hspared.2

theorem Talk.Sound.upTo (h : s.Sound) : s.handed <+: s.talker.accepted := by
  cases h with
  | idle _ _ _ _ hhanded => rw [hhanded]
  | sent before _ _ _ _ haccepted _ _ _ _ _ hhanded =>
    rw [haccepted, hhanded]
    exact List.prefix_append ..
  | received _ _ _ _ _ _ _ _ hhanded => rw [hhanded]

/-- As long as no key goes into bytes that wait for their acknowledgement, the console of the other
side has been handed what `hydra_devsend` took, buffer by buffer, up to some point. -/
theorem chat_delivered (chatbuf : Chatbuf → ℕ → UInt8) (curbuf : Chatbuf) (events : List Event)
    (hspared : (Talk.start chatbuf curbuf).Spared events) :
    console ((Talk.start chatbuf curbuf).run events).handed <+:
      console ((Talk.start chatbuf curbuf).run events).talker.accepted := by
  have hsound := (sound_start chatbuf curbuf).run events hspared
  exact (hsound.upTo.filter _).map _

/-- Chat is opened, `h` and `i` are typed, sent and acknowledged. -/
def chatting : List Event :=
  [.chattimer 0, .keyabort true true 100 [], .transmit, .receive, .acknowledge,
    .keyabort true true 101 [(101, altC)], .transmit, .receive, .acknowledge,
    .keyabort true true 102 [(102, 104), (102, 105)], .transmit, .receive, .acknowledge]

theorem chat_delivered_hi :
    console ((Talk.start (fun _ _ => 0) .chatbuf1).run chatting).handed <+:
      console ((Talk.start (fun _ _ => 0) .chatbuf1).run chatting).talker.accepted :=
  chat_delivered _ _ chatting (by
    simp only [Talk.Spared, chatting, Event.Spares, SparesAll, Spares]
    decide)

/-- A second buffer of text waits while the first letter of the third is stored into it. -/
def retyping : List Event :=
  [.chattimer 0, .keyabort true true 100 [], .transmit, .receive, .acknowledge,
    .keyabort true true 101 [(101, altC)], .transmit, .receive, .acknowledge,
    .keyabort true true 102 [(102, 97)], .transmit, .receive, .acknowledge,
    .keyabort true true 103 [(103, 98)], .keyabort true true 104 [(104, 99)], .transmit, .receive]

theorem not_chat_delivered :
    ¬ (console ((Talk.start (fun _ _ => 0) .chatbuf1).run retyping).handed).flatten <+:
      (console ((Talk.start (fun _ _ => 0) .chatbuf1).run retyping).talker.accepted).flatten := by
  decide

end CProgram.Hydra
