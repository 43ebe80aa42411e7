import CProgram.Kermit.Slots
import CProgram.Kermit.Receive

/-! The receiving side keeps its input window in order. -/
namespace CProgram.Kermit
open Circular

/-- The input window is in order and no window has been indexed out of its range. -/
structure InputOk (s : Transfer) : Prop where
  slots : Slots s.windoIn s.inputWindow
  inside : s.stray = false

/-- The output window and what the windows depend on are the same. -/
structure Outer (s s' : Transfer) : Prop where
  outputWindow : s'.outputWindow = s.outputWindow
  sessionParms : s'.sessionParms = s.sessionParms
  sending : s'.sending = s.sending

/-- The windows are not touched at all. -/
structure SameWindows (s s' : Transfer) : Prop extends Outer s s' where
  inputWindow : s'.inputWindow = s.inputWindow
  stray : s'.stray = s.stray

variable {s s' s'' : Transfer}

theorem InputOk.lastIn_lt (hs : InputOk s) : s.lastIn < s.windoIn := prev_lt hs.slots.wf.next_lt

theorem InputOk.follows_iff (hs : InputOk s) {seq : Nat} :
    Follows (s.inputWindow.entries s.windoIn) seq ↔
      (0 < s.inputWindow.count → seq = (s.lastSeq + 1) % 64) := hs.slots.follows_iff

theorem Outer.refl (s : Transfer) : Outer s s := ⟨rfl, rfl, rfl⟩

theorem Outer.trans (h : Outer s s') (h' : Outer s' s'') : Outer s s'' :=
  ⟨h'.1.trans h.1, h'.2.trans h.2, h'.3.trans h.3⟩

theorem Outer.windoIn (h : Outer s s') : s'.windoIn = s.windoIn :=
  congrArg SessionParameters.windoIn h.sessionParms

theorem Outer.windoOut (h : Outer s s') : s'.windoOut = s.windoOut :=
  congrArg SessionParameters.windoOut h.sessionParms

theorem SameWindows.refl (s : Transfer) : SameWindows s s := ⟨.refl s, rfl, rfl⟩

theorem SameWindows.trans (h : SameWindows s s') (h' : SameWindows s' s'') : SameWindows s s'' :=
  ⟨h.toOuter.trans h'.toOuter, h'.2.trans h.2, h'.3.trans h.3⟩

theorem SameWindows.inputOk (h : SameWindows s s') (hs : InputOk s) : InputOk s' where
  slots := by
    rw [h.windoIn, h.inputWindow]
    exact hs.slots
  inside := h.stray.trans hs.inside

namespace Transfer

theorem same_put (type : PacketType) (seq : Nat) (data : List UInt8) :
    SameWindows s (s.put type seq data) := ⟨⟨rfl, rfl, rfl⟩, rfl, rfl⟩

theorem same_consume : SameWindows s s.consume := ⟨⟨rfl, rfl, rfl⟩, rfl, rfl⟩

theorem same_abort (message : String) : SameWindows s (s.abort message) := ⟨⟨rfl, rfl, rfl⟩, rfl, rfl⟩

theorem same_stop (state : State) : SameWindows s (s.stop state) := ⟨⟨rfl, rfl, rfl⟩, rfl, rfl⟩

theorem same_write (data : List UInt8) : SameWindows s (s.write data) := by
  unfold write
  cases s.fileStream <;> exact ⟨⟨rfl, rfl, rfl⟩, rfl, rfl⟩

theorem same_ackPacket (really : Bool) : SameWindows s (s.ackPacket really) := by
  unfold ackPacket
  split_ifs
  · exact ⟨⟨rfl, rfl, rfl⟩, rfl, rfl⟩
  · exact same_put ..
  · exact .refl s

theorem same_ackAttributes : SameWindows s s.ackAttributes := by
  unfold ackAttributes
  split_ifs <;> exact ⟨⟨rfl, rfl, rfl⟩, rfl, rfl⟩

theorem outer_touchIn (ks : List Nat) : Outer s (s.touchIn ks) := ⟨rfl, rfl, rfl⟩

theorem inputOk_touchIn (hs : InputOk s) {ks : List Nat} (hk : ∀ k ∈ ks, k < s.windoIn) :
    InputOk (s.touchIn ks) where
  slots := hs.slots
  inside := by
    have hany : (ks.any fun k => decide (s.windoIn ≤ k)) = false := by
      rw [List.any_eq_false]
      intro k hmem
      have := hk k hmem
      simp only [decide_eq_true_eq]
      omega
    simp only [touchIn, hs.inside, hany, Bool.or_false]

theorem outer_dropOldest : Outer s s.dropOldest := ⟨rfl, rfl, rfl⟩

theorem outer_rollOff : Outer s s.rollOff := by
  unfold rollOff
  split_ifs
  · exact (same_write _).toOuter.trans outer_dropOldest
  · exact outer_dropOldest

theorem write_inputPacket (data : List UInt8) : (s.write data).inputPacket = s.inputPacket := by
  unfold write
  cases s.fileStream <;> rfl

theorem rollOff_inputWindow : s.rollOff.inputWindow = s.inputWindow.dropFirst s.windoIn := by
  unfold rollOff
  split_ifs
  · change ((s.write _).inputWindow).dropFirst (s.write _).windoIn = _
    rw [(same_write _).inputWindow, (same_write _).windoIn]
  · rfl

theorem inputOk_dropOldest (hs : InputOk s) (hn : 0 < s.inputWindow.count) :
    InputOk s.dropOldest := ⟨hs.slots.dropFirst hn, hs.inside⟩

theorem inputOk_rollOff (hs : InputOk s) (hn : 0 < s.inputWindow.count) : InputOk s.rollOff := by
  unfold rollOff
  split_ifs
  · refine inputOk_dropOldest ((same_write _).inputOk hs) ?_
    rw [(same_write _).inputWindow]
    exact hn
  · exact inputOk_dropOldest hs hn

theorem inputOk_appendSlot (hs : InputOk s) (hn : s.inputWindow.count < s.windoIn) {slot : Slot}
    (hf : Follows (s.inputWindow.entries s.windoIn) slot.seq) : InputOk (s.appendSlot slot) :=
  ⟨hs.slots.push hn hf, hs.inside⟩

/-- The next number follows the slots. -/
theorem follows_of_next (hs : InputOk s) {seq : Nat} (h : s.windowNextPacketSeq seq = true) :
    Follows (s.inputWindow.entries s.windoIn) seq := by
  refine hs.follows_iff.mpr fun hn => ?_
  simpa [windowNextPacketSeq, hn.ne'] using h

theorem follows_dropFirst {w : Nat} {r : Circular Slot} (hn : 0 < r.count) {seq : Nat}
    (h : Follows (r.entries w) seq) : Follows ((r.dropFirst w).entries w) seq := by
  intro a ha
  refine h a ?_
  rw [entries_dropFirst hn]
  exact List.mem_getLast?_cons ha

theorem inputOk_nakGrow (hs : InputOk s)
    (hf : Follows (s.inputWindow.entries s.windoIn) s.inputPacket.seq) : InputOk s.nakGrow := by
  unfold nakGrow
  split_ifs with hfull hacked
  · have hn : 0 < s.inputWindow.count := hfull ▸ Nat.zero_lt_of_lt hs.slots.wf.start_lt
    refine inputOk_appendSlot (inputOk_rollOff hs hn) ?_ ?_
    · rw [rollOff_inputWindow, outer_rollOff.windoIn]
      change s.inputWindow.count - 1 < s.windoIn
      omega
    · rw [rollOff_inputWindow, outer_rollOff.windoIn]
      exact follows_dropFirst hn hf
  · exact ⟨hs.slots, hs.inside⟩
  · exact hs

theorem lastIndexes_lt (hs : InputOk s) : ∀ k ∈ s.lastIndexes, k < s.windoIn := by
  unfold lastIndexes
  split_ifs
  · exact fun k hk => absurd hk List.not_mem_nil
  · simpa using hs.lastIn_lt

theorem inputOk_nakWindow (hs : InputOk s) : InputOk s.nakWindow := by
  unfold nakWindow
  split_ifs with hnext
  · refine inputOk_nakGrow (inputOk_touchIn hs fun k hk => ?_) (follows_of_next hs hnext)
    cases List.mem_append.mp hk with
    | inl hk => exact lastIndexes_lt hs k hk
    | inr hk => exact List.mem_singleton.mp hk ▸ hs.slots.wf.start_lt
  · exact inputOk_touchIn hs (lastIndexes_lt hs)

theorem nakIndexes_lt (hs : InputOk s) : ∀ k ∈ s.nakIndexes, k < s.windoIn := by
  intro k hk
  unfold nakIndexes at hk
  split_ifs at hk with h₀ hwalk
  · cases hk
  · cases List.mem_append.mp hk with
    | inl hk => exact visited_lt hs.slots.wf k hk
    | inr hk =>
      rw [List.mem_singleton.mp hk, nakIndex, prev]
      have := hs.slots.wf.next_lt
      have := hs.slots.wf.count_le
      split_ifs <;> omega
  · rw [List.append_nil] at hk
    exact visited_lt hs.slots.wf k hk

theorem inputOk_nakOnly (hs : InputOk s) : InputOk s.nakOnly :=
  inputOk_touchIn ((same_put _ _ _).inputOk hs) (nakIndexes_lt hs)

theorem inputOk_nakPacket (hs : InputOk s) : InputOk s.nakPacket := by
  unfold nakPacket
  split_ifs
  · exact inputOk_nakWindow (inputOk_nakOnly hs)
  · exact inputOk_nakOnly hs

theorem inputOk_saveSlots {n : Nat} (hs : InputOk s) (hn : n ≤ s.inputWindow.count) :
    InputOk (saveSlots n s) := by
  induction n generalizing s with
  | zero => exact hs
  | succ n ih =>
    have ht : InputOk (s.touchIn [s.inputWindow.start]) :=
      inputOk_touchIn hs (by simpa using hs.slots.wf.start_lt)
    rw [saveSlots]
    split_ifs
    · refine ih (inputOk_rollOff ht (Nat.lt_of_lt_of_le n.succ_pos hn)) ?_
      rw [rollOff_inputWindow]
      change n ≤ s.inputWindow.count - 1
      omega
    · exact ht

theorem inputOk_windowSaveAll (hs : InputOk s) : InputOk s.windowSaveAll :=
  inputOk_saveSlots hs le_rfl

theorem same_withPacket (p : CurrentPacket) : SameWindows s (s.withPacket p) :=
  ⟨⟨rfl, rfl, rfl⟩, rfl, rfl⟩

theorem inputOk_askForNext (hs : InputOk s) : InputOk s.askForNext :=
  (same_withPacket _).inputOk (inputOk_nakPacket ((same_withPacket _).inputOk hs))

theorem inputOk_placeBehindGaps (hs : InputOk s) : InputOk s.placeBehindGaps := by
  have ht : InputOk (s.touchIn [s.lastIn]) := inputOk_touchIn hs (by simpa using hs.lastIn_lt)
  have hfirst : Follows (s.inputWindow.entries s.windoIn) ((s.lastSeq + 1) % 64) :=
    hs.follows_iff.mpr fun _ => rfl
  have hfuel : s.windoIn ≤ s.inputWindow.count + s.windoIn := Nat.le_add_left _ _
  have hgaps := @Slots.fillGaps _ _ hs.slots s.inputPacket.seq _ _ hfirst hfuel
  refine ⟨?_, ht.inside⟩
  change Slots s.windoIn (if s.gaps.count < s.windoIn then _ else _)
  split_ifs with hlt
  · exact hgaps.1.push hlt (hgaps.2 hlt)
  · exact hgaps.1

theorem inputOk_gapInSequence (hs : InputOk s) : InputOk s.gapInSequence :=
  inputOk_placeBehindGaps (inputOk_windowSaveAll (inputOk_askForNext hs))

theorem same_writeOldest : SameWindows s s.writeOldest := by
  unfold writeOldest
  split_ifs
  · exact same_write _
  · exact .refl s

theorem outer_dropReceived : Outer s s.dropReceived := by
  unfold dropReceived
  split_ifs
  · exact outer_dropOldest
  · exact .refl s

theorem outer_nextInSequence : Outer s s.nextInSequence :=
  (outer_touchIn _).trans (same_writeOldest.toOuter.trans outer_dropReceived)

theorem inputOk_nextInSequence (hs : InputOk s) (hn : 0 < s.inputWindow.count) :
    InputOk s.nextInSequence := by
  have ht : InputOk (s.touchIn [s.inputWindow.start]) :=
    inputOk_touchIn hs (by simpa using hs.slots.wf.start_lt)
  have hw := (same_writeOldest (s := s.touchIn [s.inputWindow.start])).inputOk ht
  unfold nextInSequence dropReceived
  split_ifs
  · refine inputOk_dropOldest hw ?_
    rw [same_writeOldest.inputWindow]
    exact hn
  · exact hw

theorem nextInSequence_inputWindow :
    s.nextInSequence.inputWindow =
      if s.oldest.acked ∧ s.inputWindow.count = s.windoIn then s.inputWindow.dropFirst s.windoIn
      else s.inputWindow := by
  have hsame : SameWindows (s.touchIn [s.inputWindow.start])
      (s.touchIn [s.inputWindow.start]).writeOldest := same_writeOldest
  have hold : (s.touchIn [s.inputWindow.start]).writeOldest.oldest = s.oldest := by
    unfold oldest
    rw [hsame.inputWindow]
    rfl
  unfold nextInSequence dropReceived
  rw [hold, hsame.inputWindow, hsame.windoIn, apply_ite inputWindow]
  simp only [dropOldest, hsame.inputWindow, hsame.windoIn]
  rfl

/-- The branch of `find_input_slot` that leaves the window in disorder: the next number comes in
while a full window still waits for its first slot. -/
def Overwrites (s : Transfer) : Prop :=
  s.inputPacket.parsedOk = true ∧ s.sending = false ∧ 1 < s.windoIn ∧
    s.inputWindow.count = s.windoIn ∧ s.oldest.acked = false ∧
    s.inputPacket.seq = (s.lastSeq + 1) % 64

instance : Decidable s.Overwrites := by unfold Overwrites; infer_instance

theorem inputOk_saveAt (hs : InputOk s) {k : Nat} (hk : k < s.windoIn)
    (hslots : Slots s.windoIn (s.savedWindow k)) : InputOk (s.saveAt k) :=
  ⟨hslots, (inputOk_touchIn hs (by simpa using hk)).inside⟩

/-- The packet goes behind the last slot. -/
theorem inputOk_saveAt_next (hs : InputOk s) (hn : s.inputWindow.count < s.windoIn)
    (hf : Follows (s.inputWindow.entries s.windoIn) s.inputPacket.seq) :
    InputOk (s.saveAt s.inputWindow.next) := by
  refine inputOk_saveAt hs hs.slots.wf.next_lt ?_
  rw [savedWindow, if_pos ⟨rfl, hn⟩]
  exact hs.slots.push hn hf

/-- The packet takes the place of the one with its number. -/
theorem inputOk_saveAt_entry (hs : InputOk s) {j : Nat} (hj : j < s.inputWindow.count)
    (hseq : (s.inputWindow.cell ((s.inputWindow.start + j) % s.windoIn)).seq =
      s.inputPacket.seq) :
    InputOk (s.saveAt ((s.inputWindow.start + j) % s.windoIn)) := by
  have hstart := hs.slots.wf.start_lt
  refine inputOk_saveAt hs (Nat.mod_lt _ (by omega)) ?_
  rw [savedWindow, if_neg]
  · exact hs.slots.store hj hseq.symm
  · rintro ⟨he, hlt⟩
    rw [← hs.slots.wf.next_eq] at he
    have := index_inj hstart (hj.trans hlt) hlt he
    omega

/-- A window of one slot takes any packet. -/
theorem inputOk_saveAt_one (hs : InputOk s) (hone : s.windoIn = 1)
    (hfull : s.inputWindow.count = s.windoIn) : InputOk (s.saveAt s.inputWindow.next) := by
  refine inputOk_saveAt hs hs.slots.wf.next_lt ?_
  rw [savedWindow, if_neg (by omega), hone]
  exact Slots.store_one (hone ▸ hs.slots) _ _

theorem writeOldest_inputPacket : s.writeOldest.inputPacket = s.inputPacket := by
  unfold writeOldest
  split_ifs
  · exact write_inputPacket _
  · rfl

theorem dropReceived_inputPacket : s.dropReceived.inputPacket = s.inputPacket := by
  unfold dropReceived
  split_ifs <;> rfl

theorem nextInSequence_inputPacket : s.nextInSequence.inputPacket = s.inputPacket :=
  dropReceived_inputPacket.trans writeOldest_inputPacket

/-- Case 1, unless it overwrites the first slot. -/
theorem inputOk_saveAt_nextInSequence (hs : InputOk s) (hn : 0 < s.inputWindow.count)
    (hseq : s.inputPacket.seq = (s.lastSeq + 1) % 64)
    (hregular : 1 < s.windoIn → s.inputWindow.count = s.windoIn → s.oldest.acked = true) :
    InputOk (s.nextInSequence.saveAt s.inputWindow.next) := by
  have hok := inputOk_nextInSequence hs hn
  have hf : Follows (s.inputWindow.entries s.windoIn) s.inputPacket.seq :=
    hs.follows_iff.mpr fun _ => hseq
  have hwin := nextInSequence_inputWindow (s := s)
  have hnext : s.nextInSequence.inputWindow.next = s.inputWindow.next := by
    rw [hwin]
    split_ifs <;> rfl
  rw [← hnext]
  have hcount := hs.slots.wf.count_le
  by_cases hdrop : s.oldest.acked = true ∧ s.inputWindow.count = s.windoIn
  · rw [if_pos hdrop] at hwin
    refine inputOk_saveAt_next hok ?_ ?_
    · rw [hwin, outer_nextInSequence.windoIn]
      change s.inputWindow.count - 1 < s.windoIn
      omega
    · rw [hwin, outer_nextInSequence.windoIn, nextInSequence_inputPacket]
      exact follows_dropFirst hn hf
  · rw [if_neg hdrop] at hwin
    by_cases hfull : s.inputWindow.count = s.windoIn
    · have hone : s.windoIn = 1 := by
        by_contra hne
        exact hdrop ⟨hregular (by omega) hfull, hfull⟩
      refine inputOk_saveAt_one hok (outer_nextInSequence.windoIn.trans hone) ?_
      rw [hwin, outer_nextInSequence.windoIn]
      exact hfull
    · refine inputOk_saveAt_next hok ?_ ?_
      · rw [hwin, outer_nextInSequence.windoIn]
        omega
      · rw [hwin, outer_nextInSequence.windoIn, nextInSequence_inputPacket]
        exact hf

theorem inputOk_saveInputPacket (hs : InputOk s) (hregular : ¬ s.Overwrites) :
    InputOk s.saveInputPacket := by
  unfold saveInputPacket
  split_ifs with hskip
  · exact hs
  obtain ⟨hparsed, hsending⟩ : s.inputPacket.parsedOk = true ∧ s.sending = false := by
    simpa [not_or] using hskip
  unfold findInputSlot
  simp only
  split_ifs with hempty hseq hlost
  · -- an empty window takes any number
    have hroom : s.inputWindow.count < s.windoIn :=
      hempty ▸ Nat.zero_lt_of_lt hs.slots.wf.start_lt
    exact inputOk_saveAt_next hs hroom (hs.follows_iff.mpr fun hn => absurd hempty hn.ne')
  · have hlast : InputOk (s.touchIn [s.lastIn]) :=
      inputOk_touchIn hs (by simpa using hs.lastIn_lt)
    refine inputOk_saveAt_nextInSequence hlast (Nat.pos_of_ne_zero hempty) hseq fun hw hfull => ?_
    by_contra hacked
    exact hregular ⟨hparsed, hsending, hw, hfull, Bool.eq_false_of_not_eq_true hacked, hseq⟩
  · exact (same_consume).inputOk (inputOk_gapInSequence
      (inputOk_touchIn hs (by simpa using hs.lastIn_lt)))
  · have hvisited : InputOk ((s.touchIn [s.lastIn]).touchIn (s.inputWindow.visited s.windoIn
        fun slot => decide (slot.seq = s.inputPacket.seq))) :=
      inputOk_touchIn (inputOk_touchIn hs (by simpa using hs.lastIn_lt))
        (visited_lt hs.slots.wf)
    rcases walk_spec (p := fun slot : Slot => decide (slot.seq = s.inputPacket.seq)) hs.slots.wf
      (Nat.pos_of_ne_zero hempty) with ⟨j, hj, hp, -, hwalk⟩ | ⟨-, hwalk⟩
    · rw [hwalk]
      exact inputOk_saveAt_entry hvisited hj (of_decide_eq_true hp)
    · rw [hwalk]
      exact same_consume.inputOk hvisited

end Transfer
end CProgram.Kermit
