import CProgram.Terminal.Avatar

/-! What AVATAR understands: a stream of commands does what the commands mean, and what is repeated is what would have
been sent, but for the characters that the code page does not leave alone. -/
namespace CProgram.Terminal.Avatar
open Collected (room)

/-! ### The language -/

/-- A command that repeats nothing. -/
inductive Basic where
  | text (ch : UInt8)
  | formfeed
  | color (attr : UInt8)
  | blink | up | down | left | right | eraseEol | insert | delete | insertOff
  | goto (row col : UInt8)
  | scroll (upwards : Bool) (lines upper leftmost lower rightmost : UInt8)
  | area (ch attr columns times : UInt8)
  | space (attr columns times : UInt8)

inductive Command where
  | basic (b : Basic)
  | run (ch count : UInt8)
  | pattern (body : List Basic) (count : UInt8)

def Basic.code : Basic → List UInt8
  | .text ch => [ch]
  | .formfeed => [0x0C]
  | .color attr => [0x16, 0x01, attr]
  | .blink => [0x16, 0x02]
  | .up => [0x16, 0x03]
  | .down => [0x16, 0x04]
  | .left => [0x16, 0x05]
  | .right => [0x16, 0x06]
  | .eraseEol => [0x16, 0x07]
  | .insert => [0x16, 0x09]
  | .delete => [0x16, 0x0E]
  | .insertOff => [0x16, 0x10]
  | .goto row col => [0x16, 0x08, row, col]
  | .scroll upwards lines upper leftmost lower rightmost => [0x16, if upwards then 0x0A else 0x0B, lines, upper, leftmost, lower, rightmost]
  | .area ch attr columns times => [0x16, 0x0D, ch, attr, columns, times]
  | .space attr columns times => [0x16, 0x0C, attr, columns, times]

/-- The bytes of a pattern. -/
def codes (body : List Basic) : List UInt8 := body.flatMap Basic.code

def Command.code : Command → List UInt8
  | .basic b => b.code
  | .run ch count => [0x19, ch, count]
  | .pattern body count => 0x16 :: 0x19 :: UInt8.ofNat (codes body).length :: (codes body ++ [count])

/-- A byte that begins no sequence and does not clear the screen. -/
def Plain (ch : UInt8) : Prop := ch ≠ Collected.escape ∧ ch ≠ 0x16 ∧ ch ≠ 0x0C ∧ ch ≠ 0x19

/-- A byte of text, when `out` is what its character goes through on its way. -/
def textEvent (cfg : Config) (out : ℕ → ℕ) (pen : Pen) (ch : UInt8) : Event :=
  ⟨pen, if cfg.iscntrl ch then .act (.control ch) else .print (out (cfg.codepageMapChar ch))⟩

/-- What a command does with the pen, and the pen then. -/
def perform (cfg : Config) (out : ℕ → ℕ) (pen : Pen) : Basic → Pen × List Event
  | .text ch => (pen, [textEvent cfg out pen ch])
  | .formfeed => (⟨cfg.consoleText, false⟩, [⟨pen, .act .formfeed⟩])
  | .color attr => (⟨avatarSetColor attr, false⟩, [])
  | .blink => (⟨{ pen.color with blink := true }, false⟩, [])
  | .up => (pen.off, [⟨pen, .act (.cursorUp 1)⟩])
  | .down => (pen.off, [⟨pen, .act (.cursorDown 1)⟩])
  | .left => (pen.off, [⟨pen, .act (.cursorLeft 1)⟩])
  | .right => (pen.off, [⟨pen, .act (.cursorRight 1)⟩])
  | .eraseEol => (pen.off, [⟨pen, .act (.eraseLine 0)⟩])
  | .insert => (⟨pen.color, true⟩, [])
  | .delete => (pen.off, [⟨pen, .act (.deleteCharacter 1)⟩])
  | .insertOff => (pen.off, [])
  | .goto row col => (pen.off, [⟨pen, .act (.cursorPosition (row.toNat - 1) (col.toNat - 1))⟩])
  | .scroll upwards lines upper leftmost lower rightmost =>
    (pen.off, [⟨pen, if lines.toNat = 0 ∨ cfg.rows < lines.toNat then .eraseScreen
      else .rectangleScroll upwards (upper.toNat - 1) (leftmost.toNat - 1) (lower.toNat - 1) (rightmost.toNat - 1) lines.toNat⟩])
  | .area ch attr columns times =>
    (pen.off, [⟨pen, .fillArea (avatarSetColor attr) ch columns.toNat times.toNat⟩])
  | .space attr columns times =>
    (pen.off, [⟨pen, .fillArea (avatarSetColor attr) 0x20 columns.toNat times.toNat⟩])

/-- One command behind another. -/
def inOrder {α : Type} (f : Pen → α → Pen × List Event) : Pen → List α → Pen × List Event
  | pen, [] => (pen, [])
  | pen, a :: rest =>
    let first := f pen a
    let last := inOrder f first.1 rest
    (last.1, first.2 ++ last.2)

/-- The commands that a command stands for. -/
def Command.expand : Command → List Basic
  | .basic b => [b]
  | .run ch count => List.replicate count.toNat (.text ch)
  | .pattern body count => (List.replicate count.toNat body).flatten

variable {cfg : Config} {out : ℕ → ℕ} {s t : State} {bytes x y : List UInt8} {events : List Event}

/-- Between two commands. -/
structure State.Ground (s : State) : Prop where
  scan : s.scan = .none
  kept : s.kept = []
  i : s.i = 0
  chars : s.vYChars = none
  last : s.lastState ≠ .manyChars

/-- Such calls, with room in the buffer before each. -/
def walk (cfg : Config) (out : ℕ → ℕ) : State → List UInt8 → Option (State × List Event)
  | s, [] => some (s, [])
  | s, ch :: rest =>
    if room - 1 ≤ s.kept.length then none else
    (called cfg s ch).bind fun reply =>
    if reply.status = .noCharYet ∨ reply.status = .oneChar then
      (walk cfg out reply.state rest).map fun last => (last.1, printed out reply ++ last.2)
    else none

theorem walk_append (x y : List UInt8) (s : State) : walk cfg out s (x ++ y) =
    (walk cfg out s x).bind fun first => (walk cfg out first.1 y).map fun last => (last.1, first.2 ++ last.2) := by
  induction x generalizing s with
  | nil => simp [walk]
  | cons ch x ih =>
    rw [List.cons_append, walk, walk]
    split
    · rfl
    rw [Option.bind_assoc]
    refine congrArg _ (funext fun reply => ?_)
    split
    · rw [ih, Option.bind_map, Option.map_bind]
      refine congrArg _ (funext fun first => ?_)
      simp [Function.comp_def]
    · rfl

theorem run_append (x y : List UInt8) (s : State) : run cfg s (x ++ y) =
    (run cfg s x).bind fun first => (run cfg first.1 y).map fun last => (last.1, first.2 ++ last.2) := by
  induction x generalizing s with
  | nil => simp [run]
  | cons ch x ih =>
    rw [List.cons_append, run, run, Option.bind_assoc]
    refine congrArg _ (funext fun next => ?_)
    rw [ih, Option.bind_map, Option.map_bind]
    refine congrArg _ (funext fun first => ?_)
    simp [Function.comp_def]

theorem append_eq_iff {u v : List Event} {before after : List Event} (h : u.length = v.length) :
    u ++ before = v ++ after ↔ u = v ∧ before = after :=
  ⟨fun heq => List.append_inj heq h, fun heq => by rw [heq.1, heq.2]⟩

/-- Two ways to do the same with the pen, and as many events, that differ where some do not keep what they show. -/
structure Twins {α : Type} (f g : Pen → α → Pen × List Event) (kept : α → Prop) : Prop where
  pen : ∀ pen a, (f pen a).1 = (g pen a).1
  length : ∀ pen a, (f pen a).2.length = (g pen a).2.length
  events : ∀ pen a, (f pen a).2 = (g pen a).2 ↔ kept a

theorem Twins.inOrder {α : Type} {f g : Pen → α → Pen × List Event} {kept : α → Prop} (h : Twins f g kept) :
    Twins (inOrder f) (inOrder g) fun l => ∀ a ∈ l, kept a where
  pen := fun pen l => by
    induction l generalizing pen with
    | nil => rfl
    | cons a l ih =>
      rw [Avatar.inOrder, Avatar.inOrder, h.pen]
      exact ih _
  length := fun pen l => by
    induction l generalizing pen with
    | nil => rfl
    | cons a l ih =>
      rw [Avatar.inOrder, Avatar.inOrder, h.pen]
      dsimp only
      rw [List.length_append, List.length_append, h.length, ih]
  events := fun pen l => by
    induction l generalizing pen with
    | nil => simp [Avatar.inOrder]
    | cons a l ih =>
      rw [Avatar.inOrder, Avatar.inOrder, h.pen]
      dsimp only
      rw [append_eq_iff (h.length pen a), h.events, ih, List.forall_mem_cons]

/-- What a pattern shows goes through the code page once more, and should not change there. -/
def Command.Kept (cfg : Config) : Command → Prop
  | .pattern body count => count ≠ 0 → ∀ ch, .text ch ∈ body → cfg.iscntrl ch = false →
      again cfg (cfg.codepageMapChar ch) = cfg.codepageMapChar ch
  | _ => True

/-- The code page knows one shade. -/
def shades : Config where
  toConfig := { Collected.Parameters.grays with
    codepageMapChar := fun ch => if ch = 0xB0 then 0x2591 else ch.toNat }
  avatarColor := false
  avatarAnsiFallback := false
  rows := 24

/-- A terminal that was reset. -/
def fresh : State := resetEmulation shades
  { scan := .none
    kept := []
    i := 0
    behind := []
    lastState := .noCharYet
    pen := ⟨{}, false⟩
    yChar := 0
    yCount := 0
    vYChars := none
    vYCharsN := 0
    vJkScrollup := false
    vJkNumlines := 0
    vJkUpper := 0
    vJkLeft := 0
    vJkLower := 0
    count := 0
    attributes := {}
    ansi := Collected.reset Collected.Parameters.grays
    ansiBuffer := [] }

end CProgram.Terminal.Avatar
