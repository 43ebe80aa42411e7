import Mathlib.Logic.Relation
import CProgram.Lib.Noise
import CProgram.Xmodem.Delivery

/-! Xmodem on a line that loses, delays and damages what is under way, in both directions, while
timers run out at any time. -/
namespace CProgram.Xmodem
open Sender

/-! ### The blocks of a file -/

/-- What `construct_block` reads for the block behind `i` others. -/
def chunk (flavor : Flavor) (file : List UInt8) (i : ℕ) : List UInt8 :=
  (file.drop (i * readSize flavor)).take (readSize flavor)

def blockOf (flavor : Flavor) (file : List UInt8) (i : ℕ) : List UInt8 :=
  blockAround flavor (UInt8.ofNat (i + 1)) (chunk flavor file i)

def blockCount (flavor : Flavor) (file : List UInt8) : ℕ := file.length / readSize flavor + 1

/-- The payloads of the first `n` blocks. -/
def payloads (flavor : Flavor) (file : List UInt8) : ℕ → List UInt8
  | 0 => []
  | n + 1 => payloads flavor file n ++ blockData flavor (chunk flavor file n)

/-! ### The line -/

/-- A byte on its way to the receiver, and how many blocks come before what it is part of. -/
structure Carried where
  byte : UInt8
  before : ℕ
deriving DecidableEq, Repr

/-- The two parties and the bytes under way. `made` and `eotSent` tell what the sender has put on the
line. -/
structure Link where
  sender : Sender
  receiver : Receiver
  toSender : List UInt8
  toReceiver : List Carried
  made : ℕ
  eotSent : Bool
deriving DecidableEq

/-- The receiver would write a block with these bytes. -/
def Receiver.Accepts (r : Receiver) (input : List UInt8) : Prop :=
  (r.inBlock.append input).verifyBlock.2 = true

namespace Link

/-- A call takes the first `count` bytes that are there. -/
def callSender (expired : Bool) (count : ℕ) (c : Link) : Option Link :=
  match c.sender.xmodem expired (c.toSender.take count) [] with
  | .error _ => none
  | .ok (s, output) =>
    let made := c.made + (s.currentBlockNumber - c.sender.currentBlockNumber).toNat
    let before := if output = [cEot] then made else made - 1
    some { c with
      sender := s
      toSender := c.toSender.drop count
      toReceiver := c.toReceiver ++ output.map (⟨·, before⟩)
      made := made
      eotSent := c.eotSent || decide (output = [cEot]) }

/-- The bytes of a read. -/
def read (c : Link) (count : ℕ) : List UInt8 := (c.toReceiver.take count).map (·.byte)

def callReceiver (h : Host) (expired : Bool) (count : ℕ) (c : Link) : Option Link :=
  match c.receiver.xmodem { h with expired := expired } (c.read count) [] with
  | .error _ => none
  | .ok (r, output) =>
    some { c with
      receiver := r
      toSender := c.toSender ++ output
      toReceiver := c.toReceiver.drop count }

/-- Damage is detected: what passes the checks is a block as it was sent, and the read brings a part
of it. -/
def Detected (file : List UInt8) (c : Link) (count : ℕ) : Prop :=
  c.read count ≠ [] → c.receiver.Accepts (c.read count) →
    ∃ carried ∈ c.toReceiver.take count, carried.before < blockCount c.sender.flavor file ∧
      c.receiver.currentBlock ++ c.read count = blockOf c.sender.flavor file carried.before

/-- Where the receiver has no part of a block, a read of one EOT byte was sent as the EOT. -/
def NoStrayEot (file : List UInt8) (c : Link) (count : ℕ) : Prop :=
  c.receiver.currentBlock ++ c.read count = [cEot] →
    ∀ carried ∈ c.toReceiver.take count, carried.before = blockCount c.sender.flavor file

/-- Only reads of one byte can be such. -/
theorem noStrayEot_of_length (file : List UInt8) {c : Link} {count : ℕ} (hlength : (c.read count).length ≠ 1) :
    c.NoStrayEot file count := by
  intro heot
  have htotal := congrArg List.length heot
  rw [List.length_append, List.length_singleton] at htotal
  intro carried hcarried
  have hpos : 0 < (c.read count).length := by
    rw [read, List.length_map]
    exact List.length_pos_of_mem hcarried
  omega

/-- A party is called, or the line does its worst. A reply that is damaged becomes no ACK. -/
inductive Step (h : Host) (Allowed : Link → ℕ → Prop) : Link → Link → Prop
  | sender {c c' : Link} (expired : Bool) (count : ℕ) (hcall : c.callSender expired count = some c') :
      Step h Allowed c c'
  | receiver {c c' : Link} (expired : Bool) (count : ℕ) (hallowed : Allowed c count)
      (hcall : c.callReceiver h expired count = some c') : Step h Allowed c c'
  | replies {c : Link} {left : List UInt8} (hnoise : Noise (fun _ y => y ≠ cAck) c.toSender left) :
      Step h Allowed c { c with toSender := left }
  | blocks {c : Link} {left : List Carried}
      (hnoise : Noise (fun x y => y.before = x.before) c.toReceiver left) :
      Step h Allowed c { c with toReceiver := left }

/-- The receiver has written the first `written` blocks, each once and in order, and an EOT has gone
out only behind the last. -/
structure Safe (h : Host) (file : List UInt8) (c : Link) (written : ℕ) : Prop where
  content : c.receiver.state ≠ .complete →
    c.receiver.file = some (payloads c.sender.flavor file written)
  complete : c.receiver.state = .complete → c.receiver.file = Tail.cleanUp h.rounds
    ⟨payloads c.sender.flavor file written, (payloads c.sender.flavor file written).length, h.garbage⟩
  le : written ≤ blockCount c.sender.flavor file
  eot : c.eotSent = true → written = blockCount c.sender.flavor file

end Link

theorem readSize_pos (flavor : Flavor) : 0 < readSize flavor := by
  obtain ⟨-, h⟩ | ⟨-, h⟩ := readSize_cases flavor <;> omega

theorem lt_blockCount_iff (flavor : Flavor) (file : List UInt8) (i : ℕ) :
    i < blockCount flavor file ↔ i * readSize flavor ≤ file.length := by
  rw [blockCount, Nat.lt_succ_iff, Nat.le_div_iff_mul_le (readSize_pos flavor)]

/-- Fewer bytes than were asked for come with the last block. -/
theorem last_iff {flavor : Flavor} {file : List UInt8} {i : ℕ} (hi : i < blockCount flavor file) :
    (file.drop (i * readSize flavor)).length < readSize flavor ↔ i + 1 = blockCount flavor file := by
  have hlast := lt_blockCount_iff flavor file (i + 1)
  rw [lt_blockCount_iff] at hi
  rw [Nat.succ_mul] at hlast
  rw [List.length_drop]
  have hcount : i < blockCount flavor file := (lt_blockCount_iff flavor file i).mpr hi
  omega

namespace Sender

/-- The sender is in a state, or will be when its input is clear. -/
def At (s : Sender) (state : State) : Prop :=
  s.state = state ∨ s.state = .purgeInput ∧ s.priorState = state

/-- How far the sender is. -/
inductive Phase (file : List UInt8) (made : ℕ) (s : Sender) : Bool → Prop
  | init (hat : s.At .init) (hmade : made = 0) (hfile : s.file = some file) : Phase file made s false
  | block (hat : s.At .block) (hmade : made < blockCount s.flavor file)
      (hfile : s.file = some (file.drop (made * readSize s.flavor))) : Phase file made s false
  | lastBlock (hat : s.At .lastBlock) (hmade : made = blockCount s.flavor file) : Phase file made s false
  | eotAck (hat : s.At .eotAck) : Phase file made s true
  | complete (hstate : s.state = .complete) : Phase file made s true
  | abort (hstate : s.state = .abort) (eotSent : Bool) : Phase file made s eotSent

/-- The sender of `file` that has made `made` blocks. -/
structure Sending (file : List UInt8) (made : ℕ) (eotSent : Bool) (s : Sender) : Prop where
  plain : s.flavor.isG = false
  xmodem : s.flavor.isYmodem = false
  number : s.currentBlockSequenceI = UInt8.ofNat (made + 1)
  block : s.currentBlock = if made = 0 then [] else blockOf s.flavor file (made - 1)
  within : made ≤ blockCount s.flavor file
  phase : s.Phase file made eotSent

/-- What a call does to a sender. -/
inductive Did (file : List UInt8) (made : ℕ) (eotSent : Bool) (s : Sender) (input : List UInt8)
    (s' : Sender) (output : List UInt8) : Prop
  /-- Nothing new goes out. -/
  | same (hsending : s'.Sending file made eotSent) (hflavor : made = 0 ∨ s'.flavor = s.flavor)
      (hnumber : s'.currentBlockNumber = s.currentBlockNumber)
      (houtput : output = [] ∨ output = [cEot] ∧ eotSent = true ∨ output = s.currentBlock ∧ made ≠ 0 ∧ eotSent = false)
  | next (hack : input = [cAck] ∨ made = 0) (heot : eotSent = false) (hsending : s'.Sending file (made + 1) eotSent)
      (hflavor : made = 0 ∨ s'.flavor = s.flavor)
      (hnumber : s'.currentBlockNumber = s.currentBlockNumber + 1)
      (houtput : output = blockOf s'.flavor file made)
  | eot (hack : input = [cAck]) (hmade : made = blockCount s.flavor file)
      (hsending : s'.Sending file made true) (hflavor : s'.flavor = s.flavor)
      (hnumber : s'.currentBlockNumber = s.currentBlockNumber) (houtput : output = [cEot])

variable {file : List UInt8} {made : ℕ} {eotSent expired : Bool} {s s' : Sender}

/-- Only the state and what counts errors may differ. -/
structure Alike (s s' : Sender) : Prop where
  flavor : s'.flavor = s.flavor
  number : s'.currentBlockSequenceI = s.currentBlockSequenceI
  block : s'.currentBlock = s.currentBlock
  count : s'.currentBlockNumber = s.currentBlockNumber

theorem Alike.rfl : s.Alike s := ⟨Eq.refl _, Eq.refl _, Eq.refl _, Eq.refl _⟩

theorem Sending.alike (hs : s.Sending file made eotSent) (h : s.Alike s')
    (hphase : s'.Phase file made eotSent) : s'.Sending file made eotSent :=
  ⟨h.flavor ▸ hs.plain, h.flavor ▸ hs.xmodem, h.number.trans hs.number, h.block.trans (h.flavor ▸ hs.block),
    h.flavor ▸ hs.within, hphase⟩

theorem Sending.quiet {input : List UInt8} (hs : s.Sending file made eotSent) (h : s.Alike s')
    (hphase : s'.Phase file made eotSent) : Did file made eotSent s input s' [] :=
  .same (hs.alike h hphase) (.inr h.flavor) h.count (.inl rfl)

theorem alike_state (s : Sender) (state prior : State) :
    s.Alike { s with state := state, priorState := prior } := ⟨rfl, rfl, rfl, rfl⟩

theorem alike_checkTimeout (s : Sender) (expired : Bool) : s.Alike (s.checkTimeout expired) := by
  unfold checkTimeout
  split_ifs <;> exact ⟨rfl, rfl, rfl, rfl⟩

theorem alike_purge (s : Sender) (prior : State) : s.Alike (s.purge prior).statsIncrementErrors :=
  ⟨rfl, rfl, rfl, rfl⟩

/-- A call that goes on with a sender like `s`. -/
theorem Did.of {input input' output : List UInt8} {s₁ : Sender} (h : Did file made eotSent s₁ input' s' output)
    (hflavor : made = 0 ∨ s₁.flavor = s.flavor) (hinput : made = 0 ∨ input' = input)
    (hnumber : s₁.currentBlockNumber = s.currentBlockNumber) (hblock : s₁.currentBlock = s.currentBlock) :
    Did file made eotSent s input s' output := by
  cases h with
  | same hsending hflavor' hnumber' houtput =>
    refine .same hsending ?_ (hnumber'.trans hnumber) ?_
    · exact hflavor.elim .inl fun hsame => hflavor'.imp_right (·.trans hsame)
    · rwa [hblock] at houtput
  | next hack heot hsending hflavor' hnumber' houtput =>
    refine .next ?_ heot hsending ?_ (hnumber'.trans (by rw [hnumber])) houtput
    · exact hinput.elim .inr fun hsame => hack.imp_left (hsame.symm.trans ·)
    · exact hflavor.elim .inl fun hsame => hflavor'.imp_right (·.trans hsame)
  | eot hack hmade hsending hflavor' hnumber' houtput =>
    have hpos : made ≠ 0 := by
      rw [hmade]
      exact Nat.succ_ne_zero _
    have hsame := hflavor.resolve_left hpos
    exact .eot ((hinput.resolve_left hpos).symm.trans hack) (hsame ▸ hmade) hsending
      (hflavor'.trans hsame) (hnumber'.trans hnumber) houtput

theorem phase_purge {prior : State} (hphase : ∀ s' : Sender, s'.At prior → s'.flavor = s.flavor →
    s'.file = s.file → s'.Phase file made eotSent) :
    (s.purge prior).statsIncrementErrors.Phase file made eotSent := by
  by_cases h : errorsMax ≤ (s.purge prior).errorCount + 1
  · exact .abort (if_pos h) eotSent
  · exact hphase _ (.inr ⟨if_neg h, rfl⟩) rfl rfl

theorem phase_checkTimeout (hphase : ∀ s' : Sender, s'.At s.state → s'.flavor = s.flavor →
    s'.file = s.file → s'.Phase file made eotSent) (expired : Bool) :
    (s.checkTimeout expired).Phase file made eotSent := by
  unfold checkTimeout
  split_ifs
  · exact hphase s (.inl rfl) rfl rfl
  · exact .abort rfl eotSent
  · exact hphase _ (.inr ⟨rfl, rfl⟩) rfl rfl

theorem quiet_checkTimeout {input : List UInt8} (hs : s.Sending file made eotSent)
    (hphase : ∀ s' : Sender, s'.At s.state → s'.flavor = s.flavor → s'.file = s.file →
      s'.Phase file made eotSent) (expired : Bool) :
    Did file made eotSent s input (s.checkTimeout expired) [] :=
  hs.quiet (s.alike_checkTimeout expired) (phase_checkTimeout hphase expired)

theorem quiet_purge {input : List UInt8} {prior : State} (hs : s.Sending file made eotSent)
    (hphase : ∀ s' : Sender, s'.At prior → s'.flavor = s.flavor → s'.file = s.file →
      s'.Phase file made eotSent) :
    Did file made eotSent s input (s.purge prior).statsIncrementErrors [] :=
  hs.quiet (s.alike_purge prior) (phase_purge hphase)

/-- The block behind the ones that are made. -/
theorem Sending.constructBlock (hs : s.Sending file made false) (hstate : s.state = .block)
    (hmade : made < blockCount s.flavor file) :
    (s.clearBlock.constructBlock (file.drop (made * readSize s.flavor))).Sending file (made + 1) false ∧
      (s.clearBlock.constructBlock (file.drop (made * readSize s.flavor))).currentBlock =
        blockOf s.flavor file made := by
  obtain ⟨s', hs'⟩ : ∃ s', s' = s.clearBlock.constructBlock (file.drop (made * readSize s.flavor)) :=
    ⟨_, rfl⟩
  have hflavor : s'.flavor = s.flavor := by rw [hs']; rfl
  have hblock : s'.currentBlock = blockOf s.flavor file made := by
    rw [hs', blockOf, chunk, ← hs.number]
    rfl
  have hnumber : s'.currentBlockSequenceI = UInt8.ofNat (made + 1 + 1) := by
    rw [UInt8.ofNat_add, ← hs.number, hs']
    rfl
  have hleft : s'.file = some (file.drop ((made + 1) * readSize s'.flavor)) := by
    rw [hflavor, Nat.succ_mul, ← List.drop_drop, hs']
    rfl
  have hstate' : s'.state =
      if (file.drop (made * readSize s.flavor)).length < readSize s.flavor then .lastBlock else s.state := by
    rw [hs']
    rfl
  rw [← hs']
  refine ⟨⟨hflavor ▸ hs.plain, hflavor ▸ hs.xmodem, hnumber, ?_, hflavor ▸ hmade, ?_⟩, hblock⟩
  · rw [if_neg (Nat.succ_ne_zero made), hflavor, hblock]
    rfl
  · by_cases hlast : made + 1 = blockCount s.flavor file
    · rw [if_pos ((last_iff hmade).mpr hlast)] at hstate'
      exact .lastBlock (.inl hstate') (by rw [hflavor, hlast])
    · rw [if_neg (mt (last_iff hmade).mp hlast), hstate] at hstate'
      exact .block (.inl hstate') (by rw [hflavor]; omega) hleft

theorem Sending.sendBlock {input rest output : List UInt8} (hs : s.Sending file made false)
    (hstate : s.state = .block) (hmade : made < blockCount s.flavor file)
    (hfile : s.file = some (file.drop (made * readSize s.flavor)))
    (h : s.sendBlock expired input [] = .ok (s', rest, output)) :
    rest = [] ∧ Did file made false s input s' output := by
  have hphase (s' : Sender) (hat : s'.At .block) (hflavor : s'.flavor = s.flavor)
      (hsame : s'.file = s.file) : s'.Phase file made false :=
    .block hat (hflavor ▸ hmade) (by rw [hsame, hflavor, hfile])
  have hempty : ¬ (([] : List UInt8) ≠ [] ∧ s.flavor.isG = false) := by simp
  have hplain : ¬ s.flavor.isG = true := by rw [hs.plain]; decide
  unfold Sender.sendBlock at h
  rw [if_neg hempty, hfile] at h
  split_ifs at h with hack hnak hnil hexpired
  · obtain ⟨hsending, hblock⟩ := hs.constructBlock hstate hmade
    cases h
    exact ⟨rfl, .next (.inl (hack.resolve_right hplain)) rfl hsending (.inr rfl) rfl hblock⟩
  · cases h
    exact ⟨rfl, quiet_purge hs hphase⟩
  · cases h
    have hfile' : ((s.checkTimeout expired).purge .block).file = s.file := by
      unfold Sender.purge checkTimeout
      split_ifs <;> rfl
    have halike := s.alike_checkTimeout expired
    exact ⟨rfl, hs.quiet ⟨halike.flavor, halike.number, halike.block, halike.count⟩
      (hphase _ (.inr ⟨rfl, rfl⟩) halike.flavor hfile')⟩
  · cases h
    exact ⟨rfl, hs.quiet .rfl (hphase s (.inl hstate) rfl rfl)⟩
  · cases h
    exact ⟨rfl, quiet_purge hs hphase⟩

/-- A byte that starts the transfer works as an ACK. -/
theorem sendInit_cases (hplain : s.flavor.isG = false) (hx : s.flavor.isYmodem = false) (byte : UInt8)
    (rest output : List UInt8) :
    s.sendInit expired (byte :: rest) output = .leave s [] output ∨
      ∃ flavor : Flavor, flavor.isG = false ∧ flavor.isYmodem = false ∧
        s.sendInit expired (byte :: rest) output =
          .fall { s with flavor := flavor, state := .block } (cAck :: rest) := by
  have hsame : s.setState .block = { s with flavor := s.flavor, state := .block } := rfl
  unfold sendInit
  cases hflavor : s.flavor <;> rw [hflavor] at hplain hx hsame <;> dsimp only
  case xNormal | xRelaxed =>
    rw [hsame]
    split_ifs
    · exact .inr ⟨_, hplain, hx, rfl⟩
    · exact .inl rfl
  case xCrc | x1k =>
    rw [hsame]
    split_ifs
    · exact .inr ⟨_, hplain, hx, rfl⟩
    · exact .inr ⟨.xNormal, rfl, rfl, rfl⟩
    · exact .inl rfl
  case x1kG => cases hplain
  case yNormal | yG => cases hx

/-- Before the first byte of the receiver has come. -/
theorem Sending.xmodemSend_init {input rest output : List UInt8} (hs : s.Sending file 0 false)
    (hstate : s.state = .init) (hfile : s.file = some file) (hcan : input.head? ≠ some cCan)
    (h : s.xmodemSend expired input [] = .ok (s', rest, output)) :
    rest = [] ∧ Did file 0 false s input s' output := by
  have hphase (s' : Sender) (hat : s'.At .init) (hsame : s'.file = s.file) : s'.Phase file 0 false :=
    .init hat rfl (hsame.trans hfile)
  rw [Sender.xmodemSend, if_neg hcan, if_pos hstate] at h
  cases input with
  | nil =>
    cases h
    exact ⟨rfl, quiet_checkTimeout hs (fun s' hat _ hsame => hphase s' (by rwa [hstate] at hat) hsame) _⟩
  | cons byte tail =>
    obtain hleave | ⟨flavor, hplain, hx, hfall⟩ := sendInit_cases hs.plain hs.xmodem byte tail []
    · rw [hleave] at h
      cases h
      exact ⟨rfl, hs.quiet .rfl (hphase s (.inl hstate) rfl)⟩
    · obtain ⟨s₁, hs₁⟩ : ∃ s₁, s₁ = ({ s with flavor := flavor, state := .block } : Sender) := ⟨_, rfl⟩
      have hstate₁ : s₁.state = .block := by rw [hs₁]
      have hleft : s₁.file = some (file.drop (0 * readSize s₁.flavor)) := by
        rw [Nat.zero_mul, List.drop_zero, hs₁]
        exact hfile
      have hcurrent : s.currentBlock = [] := hs.block.trans (if_pos rfl)
      have hsending : s₁.Sending file 0 false := by
        refine ⟨by rw [hs₁]; exact hplain, by rw [hs₁]; exact hx, by rw [hs₁]; exact hs.number,
          by rw [if_pos rfl, hs₁]; exact hcurrent, Nat.zero_le _, .block (.inl hstate₁) (Nat.succ_pos _) hleft⟩
      rw [hfall, ← hs₁] at h
      dsimp only at h
      rw [sendFromBlockZero, if_neg (by rw [hstate₁]; decide), sendFromAck1,
        if_neg (by rw [hstate₁]; decide), sendFromAck2, if_neg (by rw [hstate₁]; decide), sendBody,
        hstate₁] at h
      dsimp only at h
      obtain ⟨hrest, hdid⟩ := hsending.sendBlock hstate₁ (Nat.succ_pos _) hleft h
      exact ⟨hrest, hdid.of (.inl rfl) (.inl rfl) (by rw [hs₁]) (by rw [hs₁])⟩

/-- What a round does: only noise behind the last block is left in the input. -/
def RoundDid (file : List UInt8) (made : ℕ) (eotSent : Bool) (s : Sender) (input : List UInt8)
    (sent : Sender × List UInt8 × List UInt8) : Prop :=
  (sent.2.1 = [] ∧ Did file made eotSent s input sent.1 sent.2.2) ∨
    sent.2.1 = input ∧ sent.2.2 = [] ∧ Did file made eotSent s input sent.1 [] ∧
      sent.1.Sending file made eotSent ∧ sent.1.flavor = s.flavor ∧
      sent.1.currentBlockNumber = s.currentBlockNumber ∧ sent.1.currentBlock = s.currentBlock

theorem Sending.sendPurge {input : List UInt8} {sent : Sender × List UInt8 × List UInt8} {prior : State}
    (hs : s.Sending file made eotSent) (hprior : s.priorState = prior)
    (heot : prior = .block ∨ prior = .lastBlock → eotSent = false)
    (hphase : ∀ s' : Sender, s'.At prior → s'.flavor = s.flavor → s'.file = s.file →
      s'.Phase file made eotSent)
    (h : s.sendPurge input [] = .ok sent) : RoundDid file made eotSent s input sent := by
  have hempty : ¬ ([] : List UInt8) ≠ [] := by simp
  have hset := hphase (s.setState prior) (.inl rfl) rfl rfl
  rw [Sender.sendPurge, hprior, if_neg hempty] at h
  split_ifs at h with hnil hblock
  · cases h
    refine .inl ⟨rfl, .same (hs.alike (s.alike_state ..) hset) (.inr rfl) rfl ?_⟩
    by_cases hzero : made = 0
    · refine .inl ?_
      have hcurrent := hs.block
      rwa [if_pos hzero] at hcurrent
    · exact .inr (.inr ⟨rfl, hzero, heot hblock⟩)
  · cases h
    exact .inl ⟨rfl, hs.quiet (s.alike_state ..) hset⟩
  · cases h
    exact .inl ⟨rfl, hs.quiet .rfl hs.phase⟩

theorem Sending.sendLastBlock {input : List UInt8} {sent : Sender × List UInt8 × List UInt8}
    (hs : s.Sending file made false) (hstate : s.state = .lastBlock)
    (hmade : made = blockCount s.flavor file) (h : s.sendLastBlock expired input [] = .ok sent) :
    RoundDid file made false s input sent := by
  have hphase (s' : Sender) (hat : s'.At .lastBlock) (hflavor : s'.flavor = s.flavor)
      (_ : s'.file = s.file) : s'.Phase file made false := .lastBlock hat (by rw [hflavor, hmade])
  have hplain : ¬ s.flavor.isG = true := by rw [hs.plain]; decide
  have hpurge : Did file made false s input _ [] := quiet_purge hs hphase
  unfold Sender.sendLastBlock at h
  split_ifs at h with hack hnak hnil
  · cases h
    exact .inl ⟨rfl, .eot (hack.resolve_right hplain) hmade
      ⟨hs.plain, hs.xmodem, hs.number, hs.block, hs.within, .eotAck (.inl rfl)⟩ rfl rfl rfl⟩
  · cases h
    exact .inl ⟨rfl, hpurge⟩
  · cases h
    rw [← hstate] at hphase
    exact .inl ⟨rfl, quiet_checkTimeout hs hphase expired⟩
  · cases h
    exact .inr ⟨rfl, rfl, hpurge, hs.alike (s.alike_purge _) (phase_purge hphase), rfl, rfl, rfl⟩

theorem Sending.sendEotAck {input : List UInt8} {sent : Sender × List UInt8 × List UInt8}
    (hs : s.Sending file made true) (hstate : s.state = .eotAck)
    (h : s.sendEotAck expired input [] = .ok sent) : RoundDid file made true s input sent := by
  have hphase (s' : Sender) (hat : s'.At s.state) (_ : s'.flavor = s.flavor) (_ : s'.file = s.file) :
      s'.Phase file made true := .eotAck (by rwa [hstate] at hat)
  have hx : ¬ s.flavor.isYmodem = true := by rw [hs.xmodem]; decide
  unfold Sender.sendEotAck at h
  cases input with
  | nil =>
    cases h
    have halike := s.alike_checkTimeout expired
    have hsending := hs.alike halike (phase_checkTimeout hphase expired)
    refine .inl ⟨rfl, .same hsending (.inr halike.flavor) halike.count ?_⟩
    cases expired
    · exact .inl rfl
    · exact .inr (.inl ⟨rfl, rfl⟩)
  | cons byte rest =>
    dsimp only at h
    rw [if_neg hx] at h
    split_ifs at h
    · cases h
      exact .inl ⟨rfl, hs.quiet .rfl hs.phase⟩
    · cases h
      exact .inl ⟨rfl, .same ⟨hs.plain, hs.xmodem, hs.number, hs.block, hs.within, .complete rfl⟩ (.inr rfl) rfl
        (.inl rfl)⟩

theorem Sending.xmodemSend {input : List UInt8} {sent : Sender × List UInt8 × List UInt8}
    (hs : s.Sending file made eotSent) (h : s.xmodemSend expired input [] = .ok sent) :
    RoundDid file made eotSent s input sent := by
  by_cases hcan : input.head? = some cCan
  · rw [Sender.xmodemSend, if_pos hcan] at h
    cases h
    exact .inl ⟨rfl, .same (hs.alike (s.alike_state ..) (.abort rfl eotSent)) (.inr rfl) rfl (.inl rfl)⟩
  · have hbody (hstate : s.state ≠ .init ∧ s.state ≠ .ymodemBlock0 ∧ s.state ≠ .ymodemBlock0Ack1 ∧
        s.state ≠ .ymodemBlock0Ack2) : s.sendBody expired input [] = .ok sent := by
      rwa [xmodemSend_of_body hcan hstate] at h
    have hpurge (hstate : s.state = .purgeInput) : s.sendPurge input [] = .ok sent := by
      have hsent := hbody (by rw [hstate]; decide)
      rwa [sendBody, hstate] at hsent
    have hstill (hstate : s.state = .complete ∨ s.state = .abort) :
        RoundDid file made eotSent s input sent := by
      obtain hstate | hstate := hstate <;>
      · have hsent := hbody (by rw [hstate]; decide)
        rw [sendBody, hstate] at hsent
        cases hsent
        exact .inl ⟨rfl, hs.quiet .rfl hs.phase⟩
    have hphase := hs.phase
    cases hphase with
    | init hat hmade hfile =>
      subst hmade
      obtain hstate | ⟨hstate, hprior⟩ := hat
      · obtain ⟨s', rest, output⟩ := sent
        exact .inl (hs.xmodemSend_init hstate hfile hcan h)
      · exact hs.sendPurge hprior (by simp) (fun s' hat _ hsame => .init hat rfl (hsame.trans hfile)) (hpurge hstate)
    | block hat hmade hfile =>
      obtain hstate | ⟨hstate, hprior⟩ := hat
      · have hsent := hbody (by rw [hstate]; decide)
        rw [sendBody, hstate] at hsent
        obtain ⟨s', rest, output⟩ := sent
        exact .inl (hs.sendBlock hstate hmade hfile hsent)
      · refine hs.sendPurge hprior (fun _ => rfl) (fun s' hat hflavor hsame => ?_) (hpurge hstate)
        exact .block hat (hflavor ▸ hmade) (by rw [hsame, hflavor, hfile])
    | lastBlock hat hmade =>
      obtain hstate | ⟨hstate, hprior⟩ := hat
      · have hsent := hbody (by rw [hstate]; decide)
        rw [sendBody, hstate] at hsent
        exact hs.sendLastBlock hstate hmade hsent
      · refine hs.sendPurge hprior (fun _ => rfl) (fun s' hat hflavor _ => ?_) (hpurge hstate)
        exact .lastBlock hat (by rw [hflavor, hmade])
    | eotAck hat =>
      obtain hstate | ⟨hstate, hprior⟩ := hat
      · have hsent := hbody (by rw [hstate]; decide)
        rw [sendBody, hstate] at hsent
        exact hs.sendEotAck hstate hsent
      · exact hs.sendPurge hprior (by simp) (fun s' hat _ _ => .eotAck hat) (hpurge hstate)
    | complete hstate => exact hstill (.inl hstate)
    | abort hstate => exact hstill (.inr hstate)

theorem Sending.sendAll {input output : List UInt8} (hs : s.Sending file made eotSent) {rounds : ℕ}
    (h : sendAll expired rounds s input [] = .ok (s', output)) : Did file made eotSent s input s' output := by
  induction rounds generalizing s with
  | zero => cases h
  | succ rounds ih =>
    rw [Sender.sendAll] at h
    split at h
    · cases h
    · next hsend =>
      cases h
      obtain ⟨-, hdid⟩ | ⟨-, houtput, hdid, -⟩ := hs.xmodemSend hsend
      · exact hdid
      · dsimp only at houtput hdid
        rwa [houtput]
    · next hrest hsend =>
      obtain ⟨hnil, -⟩ | ⟨hinput, houtput, -, hsending, hflavor, hnumber, hblock⟩ := hs.xmodemSend hsend
      · exact absurd hnil hrest
      · dsimp only at hinput houtput
        rw [hinput, houtput] at h
        exact (ih hsending h).of (.inr hflavor) (.inr rfl) hnumber hblock

/-- Whatever a call of the sender finds. -/
theorem Sending.did {input output : List UInt8} (hs : s.Sending file made eotSent)
    (h : s.xmodem expired input [] = .ok (s', output)) : Did file made eotSent s input s' output := by
  rw [Sender.xmodem] at h
  split_ifs at h
  · cases h
    exact hs.quiet .rfl hs.phase
  · exact hs.sendAll h

end Sender

/-! ### The receiver -/

namespace Receiver

/-- Where the receiver is. -/
inductive Phase (h : Host) (content : List UInt8) (r : Receiver) : Prop
  | writing (hstate : r.state = .init ∨ r.state = .firstBlock ∨ r.state = .block ∨ r.state = .abort ∨
      r.state = .purgeInput ∧ r.priorState = .block) (hfile : r.file = some content) : Phase h content r
  | complete (hstate : r.state = .complete)
      (hfile : r.file = Tail.cleanUp h.rounds ⟨content, content.length, h.garbage⟩) : Phase h content r

/-- The receiver that has written `written` blocks, with `content` as their payloads. -/
structure Receiving (h : Host) (content : List UInt8) (written : ℕ) (r : Receiver) : Prop where
  plain : r.flavor.isG = false
  xmodem : r.flavor.isYmodem = false
  number : r.currentBlockSequenceI = UInt8.ofNat (written + 1)
  firstByte_ne : r.firstByte ≠ cAck
  phase : r.Phase h content

/-- What a call does to a receiver. -/
inductive Did (h : Host) (content : List UInt8) (written : ℕ) (r : Receiver) (input : List UInt8)
    (r' : Receiver) (output : List UInt8) : Prop
  | same (hr : r'.Receiving h content written) (houtput : cAck ∉ output)
  | block (hinput : input ≠ []) (haccepts : r.Accepts input)
      (hnumber : byteAt (r.currentBlock ++ input) 1 = r.currentBlockSequenceI)
      (hr : r'.Receiving h (content ++ payload (r.currentBlock ++ input)
        (payloadSize (r.currentBlock ++ input))) (written + 1)) (houtput : output = [cAck])
  | eot (hinput : input ≠ []) (heot : r.currentBlock ++ input = [cEot])
      (hr : r'.Receiving h content written) (houtput : output = [cAck])

variable {h : Host} {content : List UInt8} {written : ℕ} {r r' : Receiver} {expired : Bool}

theorem Receiving.same (hr : r.Receiving h content written) (hflavor : r'.flavor = r.flavor)
    (hnumber : r'.currentBlockSequenceI = r.currentBlockSequenceI) (hfirst : r'.firstByte = r.firstByte)
    (hphase : r'.Phase h content) : r'.Receiving h content written :=
  ⟨hflavor ▸ hr.plain, hflavor ▸ hr.xmodem, hnumber.trans hr.number, hfirst ▸ hr.firstByte_ne, hphase⟩

theorem phase_statsIncrementErrors (hstate : r.state = .init ∨ r.state = .firstBlock ∨ r.state = .block ∨
      r.state = .abort ∨ r.state = .purgeInput ∧ r.priorState = .block) (hfile : r.file = some content) :
    r.statsIncrementErrors.Phase h content := by
  by_cases hmany : errorsMax ≤ r.errorCount + 1
  · exact .writing (.inr (.inr (.inr (.inl (if_pos hmany))))) hfile
  · have hsame : r.statsIncrementErrors.state = r.state := if_neg hmany
    exact .writing (by rw [hsame]; exact hstate) hfile

theorem phase_purge (hfile : r.file = some content) : r.purge.Phase h content :=
  .writing (.inr (.inr (.inr (.inr ⟨rfl, rfl⟩)))) hfile

theorem verifyBlock_accepted (haccepted : r.verifyBlock.2 = true) :
    r.verifyBlock.1 = r.writeBlock ∧ byteAt r.currentBlock 1 = r.currentBlockSequenceI := by
  have hsequence : r.sequencePasses = true := by
    by_contra hnot
    rw [Bool.not_eq_true] at hnot
    unfold verifyBlock at haccepted
    rw [hnot] at haccepted
    split_ifs at haccepted
    simp_all
  refine ⟨?_, r.sequencePasses_iff.mp hsequence⟩
  unfold verifyBlock at haccepted ⊢
  split_ifs at haccepted ⊢
  rfl

theorem Receiving.receiveNothing (hr : r.Receiving h content written) (hstate : r.state = .block)
    (hfile : r.file = some content) (expired : Bool) :
    (r.receiveNothing expired []).1.Receiving h content written ∧
      cAck ∉ (r.receiveNothing expired []).2 := by
  have hfirst : cAck ∉ [r.firstByte] := by simpa using hr.firstByte_ne.symm
  have hcan : cAck ∉ [cCan] := by decide
  unfold Receiver.receiveNothing Receiver.checkTimeout
  by_cases hexpired : expired = true
  · rw [hexpired]
    by_cases hmax : r.timeoutMax ≤ r.timeoutCount + 1
    · simp only [Bool.not_true, Bool.false_eq_true, if_false, if_pos hmax]
      exact ⟨hr.same rfl rfl rfl (.writing (.inr (.inr (.inr (.inl rfl)))) hfile), hcan⟩
    · simp only [Bool.not_true, Bool.false_eq_true, if_false, if_neg hmax]
      rw [if_pos (by simp)]
      refine ⟨?_, hfirst⟩
      dsimp only
      split_ifs
      · exact hr.same rfl rfl rfl (.writing (.inr (.inr (.inl hstate))) hfile)
      · exact hr.same rfl rfl rfl (.writing (.inr (.inr (.inr (.inr ⟨rfl, hstate⟩)))) hfile)
  · rw [Bool.not_eq_true] at hexpired
    rw [hexpired]
    exact ⟨hr, by simp⟩

/-- An EOT ends the file. -/
theorem Receiving.receiveEot {rest output : List UInt8} (hr : r.Receiving h content written)
    (hfile : r.file = some content) (hreceive : r.receiveEot { h with expired := expired } = .ok (r', rest, output)) :
    rest = [] ∧ r'.Receiving h content written ∧ output = [cAck] := by
  have hx : ¬ r.flavor.isYmodem = true := by rw [hr.xmodem]; decide
  unfold Receiver.receiveEot at hreceive
  rw [hfile] at hreceive
  dsimp only at hreceive
  rw [if_neg hx] at hreceive
  split at hreceive
  · cases hreceive
  · next cleaned hclean =>
    cases hreceive
    exact ⟨rfl, hr.same rfl rfl rfl (.complete rfl hclean.symm), rfl⟩

theorem Receiving.receiveData {input : List UInt8} (hr : r.Receiving h content written)
    (hstate : r.state = .block) (hfile : r.file = some content) (hinput : input ≠ []) :
    Did h content written r input ((r.append input).receiveData []).1 ((r.append input).receiveData []).2 := by
  have happend : (r.append input).Receiving h content written :=
    hr.same rfl rfl rfl (.writing (.inr (.inr (.inl hstate))) hfile)
  unfold Receiver.receiveData
  split_ifs with hwaiting
  · exact .same happend (by simp)
  · dsimp only
    have hphase : (r.append input).statsIncrementErrors.Phase h content :=
      phase_statsIncrementErrors (.inr (.inr (.inl hstate))) hfile
    split_ifs with hverified habort
    · obtain ⟨hwrite, hnumber⟩ := verifyBlock_accepted hverified
      have haccepts : r.Accepts input := by
        rw [Accepts, inBlock_eq hstate]
        exact hverified
      refine .block hinput haccepts hnumber ?_ rfl
      rw [hwrite]
      refine ⟨hr.plain, hr.xmodem, ?_, hr.firstByte_ne, .writing (.inr (.inr (.inl hstate))) ?_⟩
      · rw [UInt8.ofNat_add, ← hr.number]
        rfl
      · exact congrArg (Option.map _) hfile
    · rw [verifyBlock_refused (Bool.not_eq_true _ ▸ hverified)]
      exact .same (happend.same rfl rfl rfl hphase) (by simp)
    · rw [verifyBlock_refused (Bool.not_eq_true _ ▸ hverified)]
      exact .same (happend.same rfl rfl rfl (phase_purge hfile)) (by simp)

theorem Receiving.receiveBlock {input rest output : List UInt8} (hr : r.Receiving h content written)
    (hstate : r.state = .block) (hfile : r.file = some content) (hinput : input ≠ [])
    (hreceive : r.receiveBlock { h with expired := expired } input [] = .ok (r', rest, output)) :
    rest = [] ∧ Did h content written r input r' output := by
  have hplain : ¬ r.flavor.isG = true := by rw [hr.plain]; decide
  have hx : ¬ (r.append input).flavor.isYmodem = true := by
    change ¬ r.flavor.isYmodem = true
    rw [hr.xmodem]
    decide
  have happend : (r.append input).Receiving h content written :=
    hr.same rfl rfl rfl (.writing (.inr (.inr (.inl hstate))) hfile)
  unfold Receiver.receiveBlock at hreceive
  dsimp only at hreceive
  by_cases hmuch : xmodemMaxBlockSize < r.currentBlock.length + input.length
  · rw [if_pos ⟨hmuch, hplain⟩] at hreceive
    cases hreceive
    exact ⟨rfl, .same (hr.same rfl rfl rfl (phase_purge hfile)) (by simp)⟩
  · rw [if_neg fun h => hmuch h.1, if_neg fun h => hplain h.1, if_neg hmuch] at hreceive
    by_cases heot : (r.append input).currentBlock = [cEot]
    · rw [if_pos heot] at hreceive
      obtain ⟨hrest, hr', houtput⟩ := happend.receiveEot hfile hreceive
      exact ⟨hrest, .eot hinput heot hr' houtput⟩
    · rw [if_neg heot, if_neg fun h => hx h.1] at hreceive
      cases hreceive
      exact ⟨rfl, hr.receiveData hstate hfile hinput⟩

theorem Did.of_inBlock {input output : List UInt8} (hdid : Did h content written r.inBlock input r' output) :
    Did h content written r input r' output := by
  cases hdid with
  | same hr houtput => exact .same hr houtput
  | block hinput haccepts hnumber hr houtput => exact .block hinput haccepts hnumber hr houtput
  | eot hinput heot hr houtput => exact .eot hinput heot hr houtput

theorem Receiving.firstBlockTimeout (hr : r.Receiving h content written) (hstate : r.state = .firstBlock)
    (hfile : r.file = some content) : r.firstBlockTimeout.Receiving h content written := by
  unfold Receiver.firstBlockTimeout
  dsimp only
  split_ifs
  · exact ⟨rfl, rfl, hr.number, hr.firstByte_ne, .writing (.inr (.inr (.inr (.inr ⟨rfl, rfl⟩)))) hfile⟩
  · exact hr.same rfl rfl rfl (phase_statsIncrementErrors (.inr (.inl hstate)) hfile)

theorem Receiving.xmodemReceive {input rest output : List UInt8} (hr : r.Receiving h content written)
    (hreceive : r.xmodemReceive { h with expired := expired } input [] = .ok (r', rest, output)) :
    rest = [] ∧ Did h content written r input r' output := by
  have hfirst : cAck ∉ [r.firstByte] := by simpa using hr.firstByte_ne.symm
  have hnak : cAck ∉ [cNak] := by decide
  have hnone : cAck ∉ ([] : List UInt8) := by simp
  have hphase := hr.phase
  cases hphase with
  | writing hstate hfile =>
    obtain hstate | hstate | hstate | hstate | ⟨hstate, hprior⟩ := hstate <;>
      rw [Receiver.xmodemReceive, hstate] at hreceive <;> dsimp only at hreceive
    · cases hreceive
      refine ⟨rfl, .same (hr.same rfl rfl rfl (.writing ?_ hfile)) hfirst⟩
      unfold receiveInit
      dsimp only
      split
      · exact .inr (.inr (.inl rfl))
      · exact .inr (.inr (.inl rfl))
      · exact .inr (.inr (.inl rfl))
      · exact .inr (.inr (.inl rfl))
      · exact .inr (.inl rfl)
    · split_ifs at hreceive with hnil hexpired
      · cases hreceive
        exact ⟨rfl, .same (hr.firstBlockTimeout hstate hfile) hfirst⟩
      · cases hreceive
        exact ⟨rfl, .same hr hnone⟩
      · have hblock : r.inBlock.Receiving h content written :=
          hr.same rfl rfl rfl (.writing (.inr (.inr (.inl rfl))) hfile)
        obtain ⟨hrest, hdid⟩ := hblock.receiveBlock rfl hfile hnil hreceive
        exact ⟨hrest, hdid.of_inBlock⟩
    · split_ifs at hreceive with hnil
      · cases hreceive
        obtain ⟨hsame, houtput⟩ := hr.receiveNothing hstate hfile expired
        exact ⟨rfl, .same hsame houtput⟩
      · exact hr.receiveBlock hstate hfile hnil hreceive
    · cases hreceive
      exact ⟨rfl, .same hr hnone⟩
    · split_ifs at hreceive
      · cases hreceive
        exact ⟨rfl, .same (hr.same rfl rfl rfl (.writing (.inr (.inr (.inl hprior))) hfile)) hnak⟩
      · cases hreceive
        exact ⟨rfl, .same hr hnone⟩
  | complete hstate _ =>
    rw [Receiver.xmodemReceive, hstate] at hreceive
    cases hreceive
    exact ⟨rfl, .same hr hnone⟩

/-- Whatever a call of the receiver finds. -/
theorem Receiving.did {input output : List UInt8} (hr : r.Receiving h content written)
    (hcall : r.xmodem { h with expired := expired } input [] = .ok (r', output)) :
    Did h content written r input r' output := by
  rw [Receiver.xmodem] at hcall
  split_ifs at hcall
  · cases hcall
    exact .same hr (by simp)
  · rw [receiveAll] at hcall
    split at hcall
    · cases hcall
    · next hreceive =>
      cases hcall
      exact (hr.xmodemReceive hreceive).2
    · next hrest hreceive => exact absurd (hr.xmodemReceive hreceive).1 hrest

end Receiver

/-! ### The exchange -/

namespace Link

/-- The sender is at most one block ahead, and an ACK under way accounts for each block that it is
behind. What is under way to the receiver is in order. -/
structure Ordered (h : Host) (file : List UInt8) (written : ℕ) (c : Link) : Prop where
  sender : c.sender.Sending file c.made c.eotSent
  receiver : c.receiver.Receiving h (payloads c.sender.flavor file written) written
  behind : written ≤ c.made
  carried : ∀ carried ∈ c.toReceiver, written ≤ carried.before + 1 ∧
    (carried.before < c.made ∨ c.eotSent = true ∧ carried.before = c.made)
  sorted : c.toReceiver.Pairwise (·.before ≤ ·.before)
  acks : c.eotSent = true ∨ c.toSender.count cAck + max c.made 1 ≤ written + 1
  done : c.eotSent = true → written = c.made ∧ c.made = blockCount c.sender.flavor file

variable {h : Host} {file : List UInt8} {written : ℕ} {c c' : Link}

theorem payloads_congr {flavor flavor' : Flavor} {made : ℕ} (hbehind : written ≤ made)
    (hflavor : made = 0 ∨ flavor' = flavor) : payloads flavor' file written = payloads flavor file written := by
  obtain hzero | rfl := hflavor
  · obtain rfl : written = 0 := by omega
    rfl
  · rfl

theorem blockOf_ne_eot (flavor : Flavor) (file : List UInt8) (i : ℕ) : blockOf flavor file i ≠ [cEot] := by
  intro heq
  have hlength := congrArg List.length heq
  rw [blockOf, length_blockAround, List.length_singleton] at hlength
  split_ifs at hlength <;> omega

theorem pairwise_append_map {l : List Carried} {output : List UInt8} {before : ℕ}
    (hl : l.Pairwise (·.before ≤ ·.before)) (hle : ∀ carried ∈ l, carried.before ≤ before) :
    (l ++ output.map (⟨·, before⟩ : UInt8 → Carried)).Pairwise (·.before ≤ ·.before) := by
  refine List.pairwise_append.mpr ⟨hl, ?_, fun carried hcarried other hother => ?_⟩
  · rw [List.pairwise_map]
    exact List.pairwise_of_forall fun _ _ => le_rfl
  · obtain ⟨byte, -, rfl⟩ := List.mem_map.mp hother
    exact hle carried hcarried

theorem count_take_add_drop (l : List UInt8) (count : ℕ) :
    (l.take count).count cAck + (l.drop count).count cAck = l.count cAck := by
  rw [← List.count_append, List.take_append_drop]

/-- What the sender puts on the line comes behind all that is there. -/
theorem Ordered.put (hc : c.Ordered h file written) (output : List UInt8) (before made : ℕ) (eotSent : Bool)
    (hmade : c.made ≤ made) (heotSent : c.eotSent = true → eotSent = true ∧ made = c.made)
    (hbefore : output ≠ [] → (∀ carried ∈ c.toReceiver, carried.before ≤ before) ∧ written ≤ before + 1 ∧
      (before < made ∨ eotSent = true ∧ before = made)) :
    (∀ carried ∈ c.toReceiver ++ output.map (⟨·, before⟩ : UInt8 → Carried), written ≤ carried.before + 1 ∧
      (carried.before < made ∨ eotSent = true ∧ carried.before = made)) ∧
      (c.toReceiver ++ output.map (⟨·, before⟩ : UInt8 → Carried)).Pairwise (·.before ≤ ·.before) := by
  refine ⟨fun carried hcarried => ?_, ?_⟩
  · obtain hcarried | hcarried := List.mem_append.mp hcarried
    · obtain ⟨hwritten, hold⟩ := hc.carried carried hcarried
      refine ⟨hwritten, hold.imp (fun hless => by omega) fun hold => ?_⟩
      obtain ⟨heot, hsame⟩ := heotSent hold.1
      exact ⟨heot, hold.2.trans hsame.symm⟩
    · obtain ⟨byte, hbyte, rfl⟩ := List.mem_map.mp hcarried
      exact (hbefore (List.ne_nil_of_mem hbyte)).2
  · by_cases hnil : output = []
    · rw [hnil, List.map_nil, List.append_nil]
      exact hc.sorted
    · exact pairwise_append_map hc.sorted (hbefore hnil).1

/-- Behind the EOT nothing comes before more than the blocks. -/
theorem Ordered.before_le (hc : c.Ordered h file written) :
    ∀ carried ∈ c.toReceiver, carried.before ≤ c.made := fun carried hcarried =>
  (hc.carried carried hcarried).2.elim le_of_lt fun hsame => hsame.2.le

theorem Ordered.callSender {expired : Bool} {count : ℕ} (hc : c.Ordered h file written)
    (hcall : c.callSender expired count = some c') : c'.Ordered h file written := by
  rw [Link.callSender] at hcall
  split at hcall
  · cases hcall
  · next s output hxmodem =>
    cases hcall
    have hdrop := count_take_add_drop c.toSender count
    have hbehind := hc.behind
    have hone : (1 : UInt32).toNat = 1 := rfl
    cases hc.sender.did hxmodem with
    | same hsending hflavor hnumber houtput =>
      have hmade : c.made + (s.currentBlockNumber - c.sender.currentBlockNumber).toNat = c.made := by
        rw [hnumber, UInt32.sub_self]
        rfl
      have heot : (c.eotSent || decide (output = [cEot])) = c.eotSent := by
        obtain rfl | ⟨-, hsent⟩ | ⟨rfl, hpos, -⟩ := houtput
        · simp
        · rw [hsent, Bool.true_or]
        · rw [hc.sender.block, if_neg hpos, decide_eq_false (blockOf_ne_eot _ _ _), Bool.or_false]
      have hput := hc.put output (if output = [cEot] then c.made else c.made - 1) c.made c.eotSent
        le_rfl (fun hsent => ⟨hsent, rfl⟩) fun hne => by
        obtain hnil | ⟨rfl, hsent⟩ | ⟨rfl, hpos, hnot⟩ := houtput
        · exact absurd hnil hne
        · rw [if_pos rfl]
          exact ⟨hc.before_le, by omega, .inr ⟨hsent, rfl⟩⟩
        · rw [hc.sender.block, if_neg hpos, if_neg (blockOf_ne_eot _ _ _)]
          refine ⟨fun carried hcarried => ?_, by omega, .inl (by omega)⟩
          have hless := (hc.carried carried hcarried).2.resolve_right fun hold => by
            rw [hnot] at hold
            exact absurd hold.1 (by decide)
          omega
      rw [hmade, heot]
      refine ⟨hsending, ?_, hbehind, hput.1, hput.2, hc.acks.imp_right fun hacks => ?_, fun hsent => ?_⟩
      · rw [payloads_congr hbehind hflavor]
        exact hc.receiver
      · dsimp only
        omega
      · obtain ⟨hwritten, hall⟩ := hc.done hsent
        have hpos : c.made ≠ 0 := by
          rw [hall]
          exact Nat.succ_ne_zero _
        exact ⟨hwritten, by rw [hflavor.resolve_left hpos]; exact hall⟩
    | next hack hnot hsending hflavor hnumber houtput =>
      have hmade : c.made + (s.currentBlockNumber - c.sender.currentBlockNumber).toNat = c.made + 1 := by
        rw [hnumber, UInt32.add_comm, UInt32.add_sub_cancel]
        rfl
      have heot : (c.eotSent || decide (output = [cEot])) = false := by
        rw [hnot, houtput, decide_eq_false (blockOf_ne_eot _ _ _)]
        rfl
      have hput := hc.put output c.made (c.made + 1) false (Nat.le_succ c.made)
        (fun hsent => by rw [hnot] at hsent; cases hsent)
        fun _ => ⟨hc.before_le, by omega, .inl (Nat.lt_succ_self _)⟩
      have hacks := hc.acks.resolve_left (by rw [hnot]; decide)
      rw [hmade, heot, if_neg (by rw [houtput]; exact blockOf_ne_eot _ _ _), Nat.add_sub_cancel]
      refine ⟨by rw [← hnot]; exact hsending, ?_, hbehind.trans (Nat.le_succ _), hput.1, hput.2, .inr ?_, by simp⟩
      · rw [payloads_congr hbehind hflavor]
        exact hc.receiver
      · dsimp only
        obtain hack | hzero := hack
        · rw [hack, List.count_singleton_self] at hdrop
          omega
        · omega
    | eot hack hlast hsending hflavor hnumber houtput =>
      have hmade : c.made + (s.currentBlockNumber - c.sender.currentBlockNumber).toNat = c.made := by
        rw [hnumber, UInt32.sub_self]
        rfl
      have heot : (c.eotSent || decide (output = [cEot])) = true := by
        rw [houtput]
        simp
      have hput := hc.put output c.made c.made true le_rfl
        (fun _ => ⟨rfl, rfl⟩) fun _ => ⟨hc.before_le, by omega, .inr ⟨rfl, rfl⟩⟩
      have hwritten : written = c.made := by
        obtain hsent | hacks := hc.acks
        · exact (hc.done hsent).1
        · rw [hack, List.count_singleton_self] at hdrop
          omega
      rw [hmade, heot, if_pos houtput]
      refine ⟨hsending, ?_, hbehind, hput.1, hput.2, .inl rfl, fun _ => ⟨hwritten, by rw [hflavor]; exact hlast⟩⟩
      rw [hflavor]
      exact hc.receiver

theorem ofNat_succ_ne (n : ℕ) : UInt8.ofNat (n + 1) ≠ UInt8.ofNat n := by
  intro heq
  have hnat := congrArg UInt8.toNat heq
  rw [UInt8.toNat_ofNat', UInt8.toNat_ofNat'] at hnat
  omega

/-- Of the blocks under way only the one behind those that are written has the expected number. -/
theorem Ordered.before_eq (hc : c.Ordered h file written) {carried : Carried}
    (hcarried : carried ∈ c.toReceiver) (hblock : carried.before < blockCount c.sender.flavor file)
    (hnumber : UInt8.ofNat (carried.before + 1) = c.receiver.currentBlockSequenceI) :
    carried.before = written ∧ written < c.made ∧ c.eotSent = false := by
  obtain ⟨hwritten, hold⟩ := hc.carried carried hcarried
  rw [hc.receiver.number] at hnumber
  have hnot_before : carried.before + 1 ≠ written := fun heq => by
    rw [heq] at hnumber
    exact ofNat_succ_ne written hnumber.symm
  cases heot : c.eotSent with
  | true =>
    obtain ⟨hall, hmade⟩ := hc.done heot
    obtain hless | ⟨-, hsame⟩ := hold <;> omega
  | false =>
    have hless := hold.resolve_right fun hsame => by
      rw [heot] at hsame
      exact absurd hsame.1 (by decide)
    have hacks := hc.acks.resolve_left (by rw [heot]; decide)
    exact ⟨by omega, by omega, rfl⟩

theorem Ordered.callReceiver {expired : Bool} {count : ℕ} (hc : c.Ordered h file written)
    (hdetected : c.Detected file count) (hstray : c.NoStrayEot file count)
    (hcall : c.callReceiver h expired count = some c') :
    ∃ written', written ≤ written' ∧ c'.Ordered h file written' := by
  rw [Link.callReceiver] at hcall
  split at hcall
  · cases hcall
  · next r output hxmodem =>
    cases hcall
    have hsorted := hc.sorted
    rw [← List.take_append_drop count c.toReceiver, List.pairwise_append] at hsorted
    have hleft : ∀ carried ∈ c.toReceiver.drop count, carried ∈ c.toReceiver :=
      fun carried hcarried => List.mem_of_mem_drop hcarried
    have htaken : ∀ carried ∈ c.toReceiver.take count, carried ∈ c.toReceiver :=
      fun carried hcarried => List.mem_of_mem_take hcarried
    cases hc.receiver.did hxmodem with
    | same hr houtput =>
      refine ⟨written, le_rfl, hc.sender, hr, hc.behind, fun carried hcarried => ?_, hsorted.2.1,
        hc.acks.imp_right fun hacks => ?_, hc.done⟩
      · exact hc.carried carried (hleft carried hcarried)
      · rw [List.count_append, List.count_eq_zero_of_not_mem houtput]
        exact hacks
    | block hinput haccepts hnumber hr houtput =>
      obtain ⟨carried, hcarried, hblock, hbytes⟩ := hdetected hinput haccepts
      rw [hbytes, blockOf, (byteAt_blockAround ..).2.1] at hnumber
      obtain ⟨hbefore, hless, hnot⟩ := hc.before_eq (htaken carried hcarried) hblock hnumber
      rw [hbytes, blockOf, payload_blockAround, hbefore] at hr
      refine ⟨written + 1, Nat.le_succ _, hc.sender, hr, hless, fun other hother => ?_, hsorted.2.1, .inr ?_,
        fun heot => ?_⟩
      · have horder := hsorted.2.2 carried hcarried other hother
        exact ⟨by omega, (hc.carried other (hleft other hother)).2⟩
      · have hacks := hc.acks.resolve_left (by rw [hnot]; decide)
        rw [houtput, List.count_append, List.count_singleton_self]
        change c.toSender.count cAck + 1 + max c.made 1 ≤ written + 1 + 1
        omega
      · rw [hnot] at heot
        cases heot
    | eot hinput heot hr houtput =>
      have hsent : c.eotSent = true := by
        have hne : c.toReceiver.take count ≠ [] := fun hnil => hinput (by rw [read, hnil]; rfl)
        obtain ⟨carried, hcarried⟩ := List.exists_mem_of_ne_nil _ hne
        have hend := hstray heot carried hcarried
        have hwithin := hc.sender.within
        obtain ⟨-, hless | hsame⟩ := hc.carried carried (htaken carried hcarried)
        · omega
        · exact hsame.1
      exact ⟨written, le_rfl, hc.sender, hr, hc.behind,
        fun carried hcarried => hc.carried carried (hleft carried hcarried), hsorted.2.1, .inl hsent, hc.done⟩

theorem Ordered.replies {left : List UInt8} (hc : c.Ordered h file written)
    (hnoise : Noise (fun _ y => y ≠ cAck) c.toSender left) :
    ({ c with toSender := left } : Link).Ordered h file written := by
  have hcount := hnoise.count_le fun _ _ hchange => hchange
  refine ⟨hc.sender, hc.receiver, hc.behind, hc.carried, hc.sorted, hc.acks.imp_right fun hacks => ?_, hc.done⟩
  exact (Nat.add_le_add_right hcount _).trans hacks

theorem Ordered.blocks {left : List Carried} (hc : c.Ordered h file written)
    (hnoise : Noise (fun x y => y.before = x.before) c.toReceiver left) :
    ({ c with toReceiver := left } : Link).Ordered h file written := by
  refine ⟨hc.sender, hc.receiver, hc.behind, ?_, ?_, hc.acks, hc.done⟩
  · exact hnoise.all (fun a b hchange => by rw [hchange]; exact id) hc.carried
  · exact hnoise.pairwise (fun a b other hchange => by rw [hchange]; exact id)
      (fun a b other hchange => by rw [hchange]; exact id) hc.sorted

/-- What is assumed of a read. -/
def Apart (file : List UInt8) (c : Link) (count : ℕ) : Prop := c.Detected file count ∧ c.NoStrayEot file count

theorem Ordered.step (hc : c.Ordered h file written) (hstep : Step h (Apart file) c c') :
    ∃ written', written ≤ written' ∧ c'.Ordered h file written' := by
  cases hstep with
  | sender expired count hcall => exact ⟨written, le_rfl, hc.callSender hcall⟩
  | receiver expired count hallowed hcall => exact hc.callReceiver hallowed.1 hallowed.2 hcall
  | replies hnoise => exact ⟨written, le_rfl, hc.replies hnoise⟩
  | blocks hnoise => exact ⟨written, le_rfl, hc.blocks hnoise⟩

end Link

/-- The flavors that stop and wait. -/
def Flavor.waits (flavor : Flavor) : Bool := !flavor.isG && !flavor.isYmodem

section Xmodem
variable {flavor : Flavor} {file : List UInt8} {s : Sender} {r : Receiver} {upload download : List UInt8}
  {h : Host}

end Xmodem

/-! ### A piece of a block that looks like the EOT -/

/-- Who is called, whether its timer has run out, and how many bytes it finds. -/
structure Turn where
  sender : Bool
  expired : Bool
  count : ℕ
deriving DecidableEq, Repr

instance (file : List UInt8) (c : Link) (count : ℕ) : Decidable (c.Detected file count) := by
  unfold Link.Detected Receiver.Accepts
  infer_instance

instance (file : List UInt8) (c : Link) (count : ℕ) : Decidable (c.NoStrayEot file count) := by
  unfold Link.NoStrayEot
  infer_instance

instance (file : List UInt8) (c : Link) (count : ℕ) : Decidable (c.Apart file count) := by
  unfold Link.Apart
  infer_instance

namespace Link

/-- The calls of a run on a line that loses nothing. -/
def calls (h : Host) (Allowed : Link → ℕ → Prop) [∀ c count, Decidable (Allowed c count)] :
    List Turn → Link → Option Link
  | [], c => some c
  | turn :: turns, c =>
    (if turn.sender then c.callSender turn.expired turn.count
      else if Allowed c turn.count then c.callReceiver h turn.expired turn.count
      else none).bind (calls h Allowed turns)

end Link

end CProgram.Xmodem
