import CProgram.Qodem.Script

/-! When the bridge loses and alters nothing. The state that errors are told by is taken once for each
call, the character under way is a local variable, the translation to eight bits is overwritten, and what
the terminal prints into a full buffer is dropped. -/
namespace CProgram.Qodem.Script
open CProgram.Bytes CProgram.Terminal CProgram.Terminal.Utf8Decode
variable {t : Tables} {σ outputMax used : ℕ} {acc : UInt32} {m : Mark} {row more : List Mark}
  {output script tail : List UInt8} {b : Bridge} {stretches : List Stretch} {events : List Event}

/-! ### What is asked of a run -/

/-- The bytes of a character come in one call, whose first state is none that the character passes. -/
def Whole : ℕ → List Mark → Prop
  | _, [] => True
  | σ, m :: row =>
    (m.next σ ≠ 0 → m.lastUtf8State ≠ m.next σ ∧ ∀ m' ∈ row.head?, m'.utf8Char = none) ∧ Whole (m.next σ) row

def settles (σ : ℕ) (row : List Mark) : ℕ := row.foldl (fun σ m => m.settle σ) σ

/-- Every character finds the decoder between two characters, and is decoded whole. -/
def Clear : List Mark → List Stretch → Prop
  | _, [] => True
  | row, s :: stretches =>
    settles 0 (row.take s.stray.length) = 0 ∧
      Whole 0 ((row.drop s.stray.length).take (String.utf8EncodeChar s.char).length) ∧
      Clear ((row.drop s.stray.length).drop (String.utf8EncodeChar s.char).length) stretches

/-- The first character of a call fits into the output. -/
def FirstFits (t : Tables) (outputMax used : ℕ) : List Mark → ℕ → UInt32 → Prop
  | [], _, _ => True
  | m :: row, σ, acc =>
    if m.next σ ≠ 0 then FirstFits t outputMax used row (m.settle σ) (m.gather σ acc)
    else used + (t.post (m.gather σ acc)).length ≤ outputMax

/-- The loop writes nothing beyond `outputMax`. -/
def Inside (t : Tables) (outputMax used : ℕ) : List Mark → ℕ → UInt32 → List UInt8 → Prop
  | [], _, _, _ => True
  | m :: row, σ, acc, output =>
    if m.next σ ≠ 0 then Inside t outputMax used row (m.settle σ) (m.gather σ acc) output
    else used + (output ++ t.post (m.gather σ acc)).length ≤ outputMax ∧
      (4 ≤ sub32 outputMax (used + (output ++ t.post (m.gather σ acc)).length) →
        Inside t outputMax used row 0 (m.gather σ acc) (output ++ t.post (m.gather σ acc)))

/-- The bytes that a call decodes. -/
def Bridge.batch (b : Bridge) (utf8Char : UInt32) : List Mark := marks b.stdoutUtf8State utf8Char b.stdoutBuffer

def Bridge.GoesWell (b : Bridge) (t : Tables) (script : List UInt8) : Event → Prop
  | .stdout used outputMax count utf8Char =>
    let b' := b.receive script used outputMax count
    FirstFits t outputMax used (b'.batch utf8Char) b'.stdoutUtf8State utf8Char
  | .stdin _ => True
  | .print _ => b.printBufferFull = false

def Bridge.StaysInside (b : Bridge) (t : Tables) (script : List UInt8) : Event → Prop
  | .stdout used outputMax count utf8Char =>
    let b' := b.receive script used outputMax count
    Inside t outputMax used (b'.batch utf8Char) b'.stdoutUtf8State utf8Char []
  | _ => True

/-- At each event of a run, in the state that it finds. -/
def InEach (t : Tables) (script : List UInt8) (P : Bridge → Event → Prop) : Bridge → List Event → Prop
  | _, [] => True
  | b, event :: events => P b event ∧ InEach t script P (b.act t script event) events

/-- `outputMax` is an `unsigned int`, and the output has not been filled beyond it. -/
def Event.Bounded : Event → Prop
  | .stdout used outputMax _ _ => used ≤ outputMax ∧ outputMax < 2 ^ 32
  | _ => True

/-- What the terminal shows in a run. -/
def shown (events : List Event) : List ℕ :=
  events.filterMap fun
    | .print ch => some ch
    | _ => none

instance decidableWhole : ∀ (σ : ℕ) (row : List Mark), Decidable (Whole σ row)
  | _, [] => isTrue trivial
  | σ, m :: row =>
    haveI := decidableWhole (m.next σ) row
    inferInstanceAs (Decidable ((_ → _ ∧ ∀ m' ∈ row.head?, _) ∧ _))

instance decidableClear : ∀ (row : List Mark) (stretches : List Stretch), Decidable (Clear row stretches)
  | _, [] => isTrue trivial
  | row, s :: stretches =>
    haveI := decidableClear ((row.drop s.stray.length).drop (String.utf8EncodeChar s.char).length) stretches
    inferInstanceAs (Decidable (_ ∧ _ ∧ _))

instance decidableFirstFits : ∀ (row : List Mark) (σ : ℕ) (acc : UInt32),
    Decidable (FirstFits t outputMax used row σ acc)
  | [], _, _ => isTrue trivial
  | m :: row, σ, acc =>
    haveI := decidableFirstFits row (m.settle σ) (m.gather σ acc)
    inferInstanceAs (Decidable (if m.next σ ≠ 0 then
      FirstFits t outputMax used row (m.settle σ) (m.gather σ acc)
      else used + (t.post (m.gather σ acc)).length ≤ outputMax))

instance : ∀ event, Decidable (b.GoesWell t script event)
  | .stdout used outputMax _ _ => inferInstanceAs (Decidable (FirstFits t outputMax used _ _ _))
  | .stdin _ => isTrue trivial
  | .print _ => inferInstanceAs (Decidable (b.printBufferFull = false))

instance decidableInEach {P : Bridge → Event → Prop} [∀ b event, Decidable (P b event)] :
    ∀ (b : Bridge) (events : List Event), Decidable (InEach t script P b events)
  | _, [] => isTrue trivial
  | b, event :: events =>
    haveI := decidableInEach (P := P) (b.act t script event) events
    inferInstanceAs (Decidable (_ ∧ _))

/-! ### The loop -/

theorem settles_cons : settles σ (m :: row) = settles (m.settle σ) row := rfl

end CProgram.Qodem.Script
