import CProgram.Telnet.Options
import CProgram.Telnet.Write

/-! When what `telnet_write` takes is what `telnet_read` delivers. Bytes that are queued but not counted
when `send` meets `EAGAIN` are submitted again, and a CR that waits is overtaken by an ordinary
character. -/
namespace CProgram.Telnet
open CProgram.Qodem
variable {binaryMode atConsole : Bool} {c : Config} {w : Writer} {d : Drive} {l : Link} {ch : UInt8}
  {text past ahead delivered : List UInt8} {reader : Nvt} {p : ℕ}

/-! ### What is asked of a run -/

/-- In NVT ASCII an ordinary character is not taken while a CR waits, and neither a CR nor an IAC is
taken after a CR that has gone out by itself. -/
def Admits (binaryMode : Bool) (w : Writer) (past : List UInt8) (ch : UInt8) : Prop :=
  binaryMode = false → (w.writeCr → ch = CR ∨ ch = LF ∨ ch = IAC) ∧
    (w.writeCr = false → past.getLast? = some CR → ch ≠ CR ∧ ch ≠ IAC)

/-- So for each character up to the next flush. -/
def FillsWell (binaryMode : Bool) : List UInt8 → Writer → List UInt8 → Prop
  | [], _, _ => True
  | ch :: rest, w, past =>
    bufferSize - w.buffer.length < 4 ∨ (Admits binaryMode w past ch ∧
      ((w.enqueue binaryMode ch).2 = false →
        FillsWell binaryMode rest (w.enqueue binaryMode ch).1 (past ++ [ch])))

/-- And when the call returns with nothing queued, it has counted what it has taken. -/
def NextWell (binaryMode atConsole : Bool) (text : List UInt8) (p : ℕ) (d : Drive) : Prop :=
  FillsWell binaryMode d.rest d.writer (text.take (p + d.taken)) ∧
    ((d.next binaryMode atConsole).2 = false →
      (d.next binaryMode atConsole).1.taken = (d.next binaryMode atConsole).1.sent)

/-- And a `send` that meets `EAGAIN` finds all counted that has been taken. -/
def PushWell (binaryMode atConsole : Bool) (text : List UInt8) (p : ℕ) : List Send → Drive → Prop
  | [], d | .again :: _, d => d.taken = d.sent
  | .failed :: _, _ => True
  | .takes n :: sends, d => NextWell binaryMode atConsole text p (d.flushed n) ∧
    (((d.flushed n).next binaryMode atConsole).2 →
      PushWell binaryMode atConsole text p sends ((d.flushed n).next binaryMode atConsole).1)

/-- From the start of a call on, where what was queued before is flushed first. -/
def BeginsWell (binaryMode atConsole : Bool) (text : List UInt8) (p : ℕ) (sends : List Send) (d : Drive) :
    Prop :=
  if d.writer.buffer ≠ [] then PushWell binaryMode atConsole text p sends d
  else NextWell binaryMode atConsole text p d ∧ ((d.next binaryMode atConsole).2 →
    PushWell binaryMode atConsole text p sends (d.next binaryMode atConsole).1)

def Link.GoesWell (binaryMode : Bool) (text : List UInt8) (l : Link) : Event → Prop
  | .write atConsole count sends => BeginsWell binaryMode atConsole text l.position sends
    ⟨l.writer, (text.drop l.position).take count, 0, 0, []⟩
  | .read _ => True

/-- In every step of a run. -/
def Link.RunsWell (binaryMode : Bool) (c : Config) (text : List UInt8) : Link → List Event → Prop
  | _, [] => True
  | l, event :: events => l.GoesWell binaryMode text event ∧
    RunsWell binaryMode c text (l.act binaryMode c text event) events

instance {prev : Writer} : Decidable (Admits binaryMode prev past ch) := inferInstanceAs (Decidable (_ → _))

instance decidableFillsWell : ∀ (rest : List UInt8) (w : Writer) (past : List UInt8),
    Decidable (FillsWell binaryMode rest w past)
  | [], _, _ => isTrue trivial
  | ch :: rest, w, past =>
    haveI := decidableFillsWell rest (w.enqueue binaryMode ch).1 (past ++ [ch])
    inferInstanceAs (Decidable (_ ∨ (_ ∧ (_ → _))))

instance : Decidable (NextWell binaryMode atConsole text p d) := inferInstanceAs (Decidable (_ ∧ (_ → _)))

instance decidablePushWell : ∀ (sends : List Send) (d : Drive),
    Decidable (PushWell binaryMode atConsole text p sends d)
  | [], _ => inferInstanceAs (Decidable (_ = _))
  | .again :: _, _ => inferInstanceAs (Decidable (_ = _))
  | .failed :: _, _ => isTrue trivial
  | .takes n :: sends, d =>
    haveI := decidablePushWell sends ((d.flushed n).next binaryMode atConsole).1
    inferInstanceAs (Decidable (_ ∧ (_ → _)))

instance {sends : List Send} : Decidable (BeginsWell binaryMode atConsole text p sends d) := by
  unfold BeginsWell
  infer_instance

instance : ∀ event, Decidable (l.GoesWell binaryMode text event)
  | .write atConsole _ sends => inferInstanceAs (Decidable (BeginsWell binaryMode atConsole text _ sends _))
  | .read _ => isTrue trivial

instance decidableRunsWell : ∀ (l : Link) (events : List Event),
    Decidable (l.RunsWell binaryMode c text events)
  | _, [] => isTrue trivial
  | l, event :: events =>
    haveI := decidableRunsWell (l.act binaryMode c text event) events
    inferInstanceAs (Decidable (_ ∧ _))

/-! ### The reader at work -/

/-- The far end between two commands, with or without a CR that waits. -/
def base (binaryMode r : Bool) : Nvt := { Nvt.reset.greet with binaryMode := binaryMode, readCr := r }

def pending (r : Bool) : List UInt8 := if r then [CR] else []

theorem base_iac : (base binaryMode false).readBytes c [IAC, IAC] =
    { nvt := base binaryMode false, stored := [IAC] } := by
  cases binaryMode <;> rfl

theorem base_binary (h : ch ≠ IAC) :
    (base true false).readBytes c [ch] = { nvt := base true false, stored := [ch] } := by
  simp [Nvt.readBytes, Nvt.readByte, base, Nvt.greet, Nvt.reset, h]

theorem base_ordinary {r : Bool} (hiac : ch ≠ IAC) (hcr : ch ≠ CR) (hnul : ch ≠ NUL) :
    (base false r).readBytes c [ch] = { nvt := base false false, stored := pending r ++ [ch] } := by
  by_cases hlf : ch = LF
  · subst hlf
    cases r <;> rfl
  · cases r <;> simp [Nvt.readBytes, Nvt.readByte, Nvt.asciiMode, base, Nvt.greet, Nvt.reset, pending,
      hiac, hcr, hnul, hlf]

theorem base_cr : (base false false).readBytes c [CR] = { nvt := base false true } := rfl

theorem base_crNul : (base false false).readBytes c [CR, NUL] =
    { nvt := base false false, stored := [CR] } := rfl

theorem base_crNulIac : (base false false).readBytes c [CR, NUL, IAC, IAC] =
    { nvt := base false false, stored := [CR, IAC] } := rfl

theorem base_crLf : (base false false).readBytes c [CR, LF] =
    { nvt := base false false, stored := [CR, LF] } := rfl

/-- Once the reader has read what is ahead of it, the text up to here is delivered, less a CR that waits
at either end. -/
structure Carries (binaryMode : Bool) (c : Config) (reader : Nvt) (delivered ahead : List UInt8)
    (writeCr : Bool) (past : List UInt8) (r : Bool) : Prop where
  nvt : (reader.readBytes c ahead).nvt = base binaryMode r
  text : delivered ++ (reader.readBytes c ahead).stored ++ pending r ++ pending writeCr = past
  bare : r → writeCr = false ∧ past.getLast? = some CR
  binary : binaryMode → writeCr = false ∧ r = false

/-- More bytes behind what is ahead. -/
theorem carries_more {writeCr writeCr' r r' : Bool} {more stored : List UInt8}
    (h : Carries binaryMode c reader delivered ahead writeCr past r)
    (hread : (base binaryMode r).readBytes c more = { nvt := base binaryMode r', stored := stored })
    (htext : stored ++ pending r' ++ pending writeCr' = pending r ++ pending writeCr ++ [ch])
    (hbare : r' → writeCr' = false ∧ ch = CR) (hbinary : binaryMode → writeCr' = false ∧ r' = false) :
    Carries binaryMode c reader delivered (ahead ++ more) writeCr' (past ++ [ch]) r' where
  nvt := by rw [readBytes_append, h.nvt, hread]
  text := by
    rw [readBytes_append, h.nvt, hread, ← h.text]
    simp only [List.append_assoc] at htext ⊢
    rw [htext]
  bare := by
    intro hr
    obtain ⟨hw, rfl⟩ := hbare hr
    exact ⟨hw, by simp⟩
  binary := hbinary

theorem carries_enqueue {r : Bool} (h : Carries binaryMode c reader delivered (ahead ++ w.buffer) w.writeCr past r)
    (hnul : binaryMode = false → ch ≠ NUL) (ha : Admits binaryMode w past ch) :
    ∃ r', Carries binaryMode c reader delivered (ahead ++ (w.enqueue binaryMode ch).1.buffer)
      (w.enqueue binaryMode ch).1.writeCr (past ++ [ch]) r' := by
  cases binaryMode with
  | true =>
    obtain ⟨hw, rfl⟩ := h.binary rfl
    by_cases hiac : ch = IAC
    · refine ⟨false, ?_⟩
      simp only [Writer.enqueue, hiac, if_true, ← List.append_assoc]
      exact carries_more h base_iac (by simp [pending, hw]) (by simp) (by simp [hw])
    · refine ⟨false, ?_⟩
      simp only [Writer.enqueue, hiac, if_true, if_false, ← List.append_assoc]
      exact carries_more h (base_binary hiac) (by simp [pending, hw]) (by simp) (by simp [hw])
  | false =>
    obtain ⟨hwaits, hbare⟩ := ha rfl
    have hwaiting : w.writeCr = true → r = false := by
      intro hw
      by_contra hr
      simp [(h.bare (by simpa using hr)).1] at hw
    have hgone : w.writeCr = false → ch = CR ∨ ch = IAC → r = false := by
      intro hw hch
      by_contra hr
      have hne := hbare hw (h.bare (by simpa using hr)).2
      exact hch.elim hne.1 hne.2
    by_cases hcr : ch = CR
    · subst hcr
      refine ⟨false, ?_⟩
      cases hw : w.writeCr with
      | true =>
        rw [hwaiting hw] at h
        simp only [Writer.enqueue, hw, if_true, Bool.false_eq_true, if_false, ← List.append_assoc]
        exact carries_more h base_crNul (by simp [pending, hw]) (by simp) (by simp)
      | false =>
        rw [hgone hw (Or.inl rfl)] at h
        have hsame : Carries false c reader delivered (ahead ++ w.buffer ++ []) true (past ++ [CR]) false :=
          carries_more h rfl (by simp [pending, hw]) (by simp) (by simp)
        simpa [Writer.enqueue, hw] using hsame
    · by_cases hlf : ch = LF
      · subst hlf
        refine ⟨false, ?_⟩
        cases hw : w.writeCr with
        | true =>
          rw [hwaiting hw] at h
          simp only [Writer.enqueue, hw, hcr, if_true, Bool.false_eq_true, if_false, ← List.append_assoc]
          exact carries_more h base_crLf (by simp [pending, hw]) (by simp) (by simp)
        | false =>
          simp only [Writer.enqueue, hw, hcr, if_true, Bool.false_eq_true, if_false, ← List.append_assoc]
          exact carries_more h (base_ordinary (by decide) hcr (hnul rfl)) (by simp [pending, hw]) (by simp)
            (by simp)
      · by_cases hiac : ch = IAC
        · subst hiac
          refine ⟨false, ?_⟩
          cases hw : w.writeCr with
          | true =>
            rw [hwaiting hw] at h
            have hmore : Carries false c reader delivered (ahead ++ w.buffer ++ [CR, NUL, IAC, IAC]) false
                (past ++ [IAC]) false :=
              carries_more h base_crNulIac (by simp [pending, hw]) (by simp) (by simp)
            simpa [Writer.enqueue, hw, hcr, hlf] using hmore
          | false =>
            rw [hgone hw (Or.inr rfl)] at h
            simp only [Writer.enqueue, hw, hcr, hlf, if_true, Bool.false_eq_true, if_false,
              ← List.append_assoc]
            exact carries_more h base_iac (by simp [pending, hw]) (by simp) (by simp)
        · have hw : w.writeCr = false := by
            by_contra hw
            have hch := hwaits (by simpa using hw)
            simp [hcr, hlf, hiac] at hch
          refine ⟨false, ?_⟩
          simp only [Writer.enqueue, hw, hcr, hlf, hiac, Bool.false_eq_true, if_false, ← List.append_assoc]
          exact carries_more h (base_ordinary hiac hcr (hnul rfl)) (by simp [pending, hw]) (by simp) (by simp)

/-- The CR goes out by itself. -/
theorem carries_release {r : Bool}
    (h : Carries binaryMode c reader delivered (ahead ++ w.buffer) w.writeCr past r) :
    ∃ r', Carries binaryMode c reader delivered (ahead ++ (w.release atConsole).buffer)
      (w.release atConsole).writeCr past r' := by
  unfold Writer.release
  split
  · obtain ⟨hw, -⟩ := Bool.and_eq_true_iff.mp ‹_›
    have hr : r = false := by
      by_contra hr
      simp [(h.bare (by simpa using hr)).1] at hw
    have hmode : binaryMode = false := by
      by_contra hmode
      simp [(h.binary (by simpa using hmode)).1] at hw
    subst hr hmode
    have htext := h.text
    rw [hw] at htext
    refine ⟨true, ?_, ?_, ?_, by simp⟩
    · rw [← List.append_assoc, readBytes_append, h.nvt, base_cr]
    · rw [← List.append_assoc, readBytes_append, h.nvt, base_cr, ← htext]
      simp [pending]
    · rw [← htext]
      simp [pending]
  · exact ⟨r, h⟩

theorem carries_read {writeCr r : Bool} {bytes : List UInt8}
    (h : Carries binaryMode c reader delivered (bytes ++ ahead) writeCr past r) :
    Carries binaryMode c (reader.readBytes c bytes).nvt (delivered ++ (reader.readBytes c bytes).stored) ahead
      writeCr past r where
  nvt := by
    have hnvt := h.nvt
    rwa [readBytes_append] at hnvt
  text := by
    have htext := h.text
    rw [readBytes_append] at htext
    simpa using htext
  bare := h.bare
  binary := h.binary

/-! ### One call -/

theorem take_succ_of_drop {rest : List UInt8} {m : ℕ} (h : ch :: rest = (text.drop p).take m) :
    text.take (p + 1) = text.take p ++ [ch] ∧ ∃ m', rest = (text.drop (p + 1)).take m' := by
  cases m with
  | zero => simp at h
  | succ m =>
    cases hdrop : text.drop p with
    | nil => simp [hdrop] at h
    | cons b more =>
      rw [hdrop, List.take_succ_cons, List.cons.injEq] at h
      obtain ⟨rfl, rfl⟩ := h
      have hp : p < text.length := by
        by_contra hge
        rw [List.drop_eq_nil_of_le (by omega)] at hdrop
        cases hdrop
      have hget : text[p] = ch := by
        have hcons := List.drop_eq_getElem_cons hp
        rw [hdrop] at hcons
        exact (List.cons.inj hcons).1.symm
      have hrest : text.drop (p + 1) = more := by
        have hcons := List.drop_eq_getElem_cons hp
        rw [hdrop] at hcons
        exact (List.cons.inj hcons).2.symm
      refine ⟨?_, m, by rw [hrest]⟩
      rw [← hget]
      exact List.take_succ_eq_append_getElem hp

/-- A call under way that has begun at `p`. -/
structure Going (binaryMode : Bool) (c : Config) (text : List UInt8) (p : ℕ) (l : Link) (d : Drive) : Prop where
  carries : ∃ r, Carries binaryMode c l.reader l.delivered (l.wire ++ d.wire ++ d.writer.buffer)
    d.writer.writeCr (text.take (p + d.taken)) r
  rest : ∃ m, d.rest = (text.drop (p + d.taken)).take m
  noError : d.writer.writeLastError = false

@[simp] theorem enqueue_noError : (w.enqueue binaryMode ch).1.writeLastError = w.writeLastError := by
  unfold Writer.enqueue
  split_ifs <;> rfl

@[simp] theorem release_noError : (w.release atConsole).writeLastError = w.writeLastError := by
  unfold Writer.release
  split_ifs <;> rfl

theorem going_enqueue {sent i : ℕ} {wire rest : List UInt8}
    (htext : binaryMode = false → NUL ∉ text)
    (h : Going binaryMode c text p l ⟨w, ch :: rest, i, sent, wire⟩)
    (ha : Admits binaryMode w (text.take (p + i)) ch) :
    text.take (p + (i + 1)) = text.take (p + i) ++ [ch] ∧
      Going binaryMode c text p l ⟨(w.enqueue binaryMode ch).1, rest, i + 1, sent, wire⟩ := by
  obtain ⟨⟨r, hcarries⟩, ⟨m, hm⟩, hnoError⟩ := h
  obtain ⟨hpast, hrest⟩ := take_succ_of_drop hm
  have hnul : binaryMode = false → ch ≠ NUL := by
    rintro hmode rfl
    have hmem : NUL ∈ (text.drop (p + i)).take m := by
      rw [← hm]
      exact List.mem_cons_self
    exact htext hmode (List.mem_of_mem_drop (List.mem_of_mem_take hmem))
  obtain ⟨r', hcarries'⟩ := carries_enqueue hcarries hnul ha
  refine ⟨hpast, ⟨r', ?_⟩, hrest, ?_⟩
  · rw [← add_assoc, hpast]
    exact hcarries'
  · rw [enqueue_noError]
    exact hnoError

theorem going_fillUp {sent i : ℕ} {wire rest : List UInt8} (htext : binaryMode = false → NUL ∉ text)
    (h : Going binaryMode c text p l ⟨w, rest, i, sent, wire⟩)
    (hw : FillsWell binaryMode rest w (text.take (p + i))) :
    Going binaryMode c text p l ⟨(Drive.fillUp binaryMode rest w i).1, (Drive.fillUp binaryMode rest w i).2.1,
      (Drive.fillUp binaryMode rest w i).2.2.1, sent, wire⟩ := by
  induction rest generalizing w i with
  | nil => exact h
  | cons ch rest ih =>
    unfold Drive.fillUp
    split_ifs with hfull hflush
    · exact h
    · have hadmits := (hw.resolve_left hfull).1
      exact (going_enqueue htext h hadmits).2
    · obtain ⟨hadmits, hrest⟩ := hw.resolve_left hfull
      obtain ⟨hpast, hgoing⟩ := going_enqueue htext h hadmits
      apply ih hgoing
      rw [hpast]
      exact hrest (by simpa using hflush)

theorem going_next (htext : binaryMode = false → NUL ∉ text) (h : Going binaryMode c text p l d)
    (hw : FillsWell binaryMode d.rest d.writer (text.take (p + d.taken))) :
    Going binaryMode c text p l (d.next binaryMode atConsole).1 := by
  have hfill := going_fillUp htext h hw
  unfold Drive.next
  split
  · rename_i w rest i heq
    rw [heq] at hfill
    exact hfill
  · rename_i w rest i heq
    rw [heq] at hfill
    obtain ⟨⟨r, hcarries⟩, hrest, hnoError⟩ := hfill
    exact ⟨carries_release hcarries, hrest, release_noError.trans hnoError⟩

theorem going_flushed (h : Going binaryMode c text p l d) (n : ℕ) :
    Going binaryMode c text p l (d.flushed n) where
  carries := by
    have hbytes : l.wire ++ (d.wire ++ d.writer.buffer.take (n + 1)) ++ d.writer.buffer.drop (n + 1) =
        l.wire ++ d.wire ++ d.writer.buffer := by
      rw [← List.append_assoc l.wire, List.append_assoc (l.wire ++ d.wire), List.take_append_drop]
    rw [Drive.flushed, hbytes]
    exact h.carries
  rest := h.rest
  noError := h.noError

theorem verdict_getD : d.verdict.getD 0 = d.sent := by
  unfold Drive.verdict
  split
  · rfl
  · simp only [Option.getD_none]
    omega

/-- What a call leaves: it has counted what it has taken. -/
def Settled (binaryMode : Bool) (c : Config) (text : List UInt8) (p : ℕ) (l : Link)
    (call : Drive × Option ℕ) : Prop :=
  Going binaryMode c text p l call.1 ∧ call.1.taken = call.2.getD 0

theorem settled_push {sends : List Send} (htext : binaryMode = false → NUL ∉ text)
    (hsends : .failed ∉ sends) (h : Going binaryMode c text p l d)
    (hw : PushWell binaryMode atConsole text p sends d) :
    Settled binaryMode c text p l (d.push binaryMode atConsole sends) := by
  induction sends generalizing d with
  | nil => exact ⟨h, hw.trans verdict_getD.symm⟩
  | cons send sends ih =>
    cases send with
    | again => exact ⟨h, hw.trans verdict_getD.symm⟩
    | failed => simp at hsends
    | takes n =>
      obtain ⟨⟨hfill, hquiet⟩, hpush⟩ := hw
      have hnext := @going_next _ atConsole _ _ _ _ _ htext (going_flushed h n) hfill
      unfold Drive.push
      split_ifs with hflush
      · exact ih (by simpa using hsends) hnext (hpush hflush)
      · exact ⟨hnext, hquiet (by simpa using hflush)⟩

/-! ### Runs -/

/-- The text up to the position is on its way or delivered. -/
structure Sound (binaryMode : Bool) (c : Config) (text : List UInt8) (l : Link) : Prop where
  carries : ∃ r, Carries binaryMode c l.reader l.delivered (l.wire ++ l.writer.buffer) l.writer.writeCr
    (text.take l.position) r
  noError : l.writer.writeLastError = false

theorem sound_start : Sound binaryMode c text (.start binaryMode) := by
  refine ⟨⟨false, rfl, ?_, by simp, fun _ => ⟨rfl, rfl⟩⟩, rfl⟩
  simp [Link.start, Nvt.readBytes, pending]

theorem readByte_connection : (reader.readByte c ch).nvt.isEof = reader.isEof ∧
    (reader.readByte c ch).nvt.sentOptions = reader.sentOptions := by
  unfold Nvt.readByte
  split_ifs
  · unfold Nvt.collect
    split_ifs <;> exact ⟨rfl, rfl⟩
  · unfold Nvt.dowillOption
    split <;> exact ⟨rfl, rfl⟩
  · exact ⟨rfl, rfl⟩
  · exact ⟨rfl, rfl⟩
  · unfold Nvt.command
    split_ifs <;> exact ⟨rfl, rfl⟩
  · exact ⟨rfl, rfl⟩
  · unfold Nvt.asciiMode
    split_ifs <;> exact ⟨rfl, rfl⟩

theorem readBytes_connection : (reader.readBytes c ahead).nvt.isEof = reader.isEof ∧
    (reader.readBytes c ahead).nvt.sentOptions = reader.sentOptions := by
  induction ahead generalizing reader with
  | nil => exact ⟨rfl, rfl⟩
  | cons ch ahead ih =>
    have hrest := @ih (reader.readByte c ch).nvt
    rw [readByte_connection.1, readByte_connection.2] at hrest
    exact hrest

theorem sound_read (h : Sound binaryMode c text l) (n : ℕ) :
    Sound binaryMode c text (l.act binaryMode c text (.read n)) := by
  obtain ⟨⟨r, hcarries⟩, hnoError⟩ := h
  have hconnection := @readBytes_connection c (l.wire ++ l.writer.buffer) l.reader
  rw [hcarries.nvt] at hconnection
  have hread : l.reader.telnetRead c (.bytes (l.wire.take n)) = l.reader.readBytes c (l.wire.take n) := by
    have hgreet : l.reader.greet = l.reader := by
      rw [Nvt.greet, show true = l.reader.sentOptions from hconnection.2]
    have hfill : l.reader.greet.fill c (.bytes (l.wire.take n)) = some (l.reader, l.wire.take n) := by
      rw [hgreet, Nvt.fill, show l.reader.isEof = false from hconnection.1.symm]
      rfl
    rw [Nvt.telnetRead, hfill]
    simp [Nvt.greeting, show l.reader.sentOptions = true from hconnection.2.symm]
  have hsplit : l.wire ++ l.writer.buffer = l.wire.take n ++ (l.wire.drop n ++ l.writer.buffer) := by
    rw [← List.append_assoc, List.take_append_drop]
  rw [hsplit] at hcarries
  simp only [Link.act, hread]
  exact ⟨⟨r, carries_read hcarries⟩, hnoError⟩

theorem sound_write {count : ℕ} {sends : List Send} (htext : binaryMode = false → NUL ∉ text)
    (hsends : .failed ∉ sends) (h : Sound binaryMode c text l)
    (hw : l.GoesWell binaryMode text (.write atConsole count sends)) :
    Sound binaryMode c text (l.act binaryMode c text (.write atConsole count sends)) := by
  have hbegin : Going binaryMode c text l.position l
      ⟨l.writer, (text.drop l.position).take count, 0, 0, []⟩ :=
    ⟨by simpa using h.carries, ⟨count, rfl⟩, h.noError⟩
  have hsettled : Settled binaryMode c text l.position l
      (l.writer.telnetWrite binaryMode atConsole ((text.drop l.position).take count) sends) := by
    have hnoError := h.noError
    unfold Writer.telnetWrite
    simp only [hnoError, Bool.false_eq_true, if_false]
    simp only [Link.GoesWell, BeginsWell] at hw
    split_ifs with hinput hbuffer hflush
    · exact ⟨hbegin, rfl⟩
    · rw [if_pos hbuffer] at hw
      exact settled_push htext hsends hbegin hw
    · rw [if_neg hbuffer] at hw
      exact settled_push htext hsends (going_next htext hbegin hw.1.1) (hw.2 hflush)
    · rw [if_neg hbuffer] at hw
      exact ⟨going_next htext hbegin hw.1.1, hw.1.2 (by simpa using hflush)⟩
  obtain ⟨⟨hcarries, -, hnoError⟩, htaken⟩ := hsettled
  rw [htaken] at hcarries
  exact ⟨hcarries, hnoError⟩

theorem sound_run {events : List Event} (htext : binaryMode = false → NUL ∉ text)
    (herrors : ∀ e ∈ events, e.NoError) (h : Sound binaryMode c text l)
    (hw : l.RunsWell binaryMode c text events) : Sound binaryMode c text (l.run binaryMode c text events) := by
  induction events generalizing l with
  | nil => exact h
  | cons event events ih =>
    obtain ⟨hone, hrest⟩ := hw
    apply ih (fun e he => herrors e (List.mem_cons_of_mem _ he)) _ hrest
    cases event with
    | read n => exact sound_read h n
    | write atConsole count sends =>
      exact sound_write htext (herrors _ List.mem_cons_self) h hone

/-- What is delivered is a prefix of what has been taken, and all of it once nothing is on its way, up to
a last CR in NVT ASCII. -/
def Transparent (binaryMode : Bool) (text : List UInt8) (l : Link) : Prop :=
  l.delivered <+: text.take l.position ∧ (l.writer.buffer = [] → l.wire = [] →
    l.delivered = text.take l.position ∨ (binaryMode = false ∧ l.delivered ++ [CR] = text.take l.position))

theorem transparent_of_sound (h : Sound binaryMode c text l) : Transparent binaryMode text l := by
  obtain ⟨⟨r, hcarries⟩, -⟩ := h
  have htext := hcarries.text
  refine ⟨?_, ?_⟩
  · rw [← htext]
    exact ⟨_, by simp only [List.append_assoc]; rfl⟩
  · intro hbuffer hwire
    rw [hbuffer, hwire] at htext
    have hbare := hcarries.bare
    have hbinary := hcarries.binary
    cases r <;> cases hw : l.writer.writeCr <;>
      simp only [hw, List.append_nil, Nvt.readBytes, pending, Bool.false_eq_true, if_true, if_false] at htext
    · exact Or.inl htext
    · right
      refine ⟨?_, htext⟩
      by_contra hmode
      simp [hw] at hbinary
      exact hmode hbinary
    · right
      refine ⟨?_, htext⟩
      by_contra hmode
      simp at hbinary
      exact hmode hbinary
    · simp [hw] at hbare

/-- The channel is transparent in every run of partial sends and `EAGAIN` whose steps all go well. -/
theorem transparent (binaryMode : Bool) (c : Config) (text : List UInt8) (events : List Event)
    (htext : binaryMode = false → NUL ∉ text) (herrors : ∀ e ∈ events, e.NoError)
    (hw : (Link.start binaryMode).RunsWell binaryMode c text events) :
    Transparent binaryMode text ((Link.start binaryMode).run binaryMode c text events) :=
  transparent_of_sound (sound_run htext herrors sound_start hw)

/-- At the console, in one call, all of it sent at once. -/
def crThenA : List Event := [.write true 2 [.takes 1, .takes 0], .read 2]

/-- The letter overtakes the CR. -/
theorem not_transparent : ¬ ∀ (binaryMode : Bool) (c : Config) (text : List UInt8) (events : List Event),
    (binaryMode = false → NUL ∉ text) → (∀ e ∈ events, e.NoError) →
      Transparent binaryMode text ((Link.start binaryMode).run binaryMode c text events) := by
  intro h
  have hprefix := (h false console [CR, 0x61] crThenA (by decide) (by
    intro e he
    simp only [crThenA, List.mem_cons, List.not_mem_nil, or_false] at he
    rcases he with rfl | rfl <;> simp [Event.NoError])).1
  revert hprefix
  decide

/-- A CR LF at the console, out in two pieces. -/
theorem transparent_crLf : Transparent false [CR, LF] ((Link.start false).run false console [CR, LF]
    [.write true 2 [.takes 0, .takes 0], .read 1, .read 1]) := by
  apply transparent
  · decide
  · intro e he
    simp only [List.mem_cons, List.not_mem_nil, or_false] at he
    rcases he with rfl | rfl | rfl <;> simp [Event.NoError]
  · decide

end CProgram.Telnet
