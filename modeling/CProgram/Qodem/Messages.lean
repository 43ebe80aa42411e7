import CProgram.Lib.Lines
import Mathlib.Data.List.DropRight

/-! The message base of host mode: the text file that messages are added to, read from and written back to, and
the keys of the menus around it. Characters are the bytes they are stored as. -/
namespace CProgram.Qodem.Messages
open Lines

abbrev Text := List UInt8

/-- A message as it is typed. -/
structure Letter where
  sender : Text
  recipient : Text
  body : List Text
  deriving DecidableEq

/-- `q_isspace`. -/
def isBlank (ch : UInt8) : Bool := ch = 32 ∨ ch = 13 ∨ ch = 10

def trim (line : Text) : Text := (line.rdropWhile isBlank).dropWhile isBlank

def separator : Text := [46]

/-- `From: `. -/
def fromField : Text := [70, 114, 111, 109, 58, 32]

/-- `To:   `. -/
def toField : Text := [84, 111, 58, 32, 32, 32]

def dashes : Text := List.replicate 40 45

/-- The lines of a message behind its separator. -/
def Letter.lines (m : Letter) : List Text :=
  (fromField ++ m.sender) :: (toField ++ m.recipient) :: dashes :: m.body ++ [dashes]

/-- A message as a reader gets it. -/
def Letter.shown (m : Letter) : List Text := m.lines.map trim

def rows (lines : List Text) : List UInt8 := (lines.map (· ++ [10])).flatten

/-- A slot of `all_messages`; the pointer in it can be unset. -/
abbrev Slot := Option (List Text)

/-- `all_messages` and `message` in `read_all_messages`. -/
structure Reader where
  all : List Slot
  message : Option (List Text)

/-- One line. Without a slot in front the message would go to `all_messages[-1]`. -/
def Reader.line (r : Reader) (line : Text) : Option Reader :=
  if trim line = separator then
    match r.message with
    | none => some ⟨r.all ++ [none], none⟩
    | some message => if r.all = [] then none else some ⟨r.all.dropLast ++ [some message] ++ [none], none⟩
  else some { r with message := some (r.message.getD [] ++ [trim line]) }

def Reader.finish (r : Reader) : Option (List Slot) :=
  match r.message with
  | none => some r.all
  | some message => if r.all = [] then none else some (r.all.dropLast ++ [some message])

/-- `Q_MAX_LINE_LENGTH`, less the closing NUL. -/
def lineRoom : ℕ := 255

def readAllMessages (file : List UInt8) : Option (List Slot) :=
  ((fgets lineRoom [] file).foldlM Reader.line ⟨[], none⟩).bind Reader.finish

/-- The loop of `save_all_messages`, which counts on twice. -/
def everySecond : List Slot → List Slot
  | [] => []
  | [slot] => [slot]
  | slot :: _ :: rest => slot :: everySecond rest

def writeSlots : List Slot → Option (List UInt8)
  | [] => some []
  | none :: _ => none
  | some message :: rest => (writeSlots rest).map (rows (separator :: message) ++ ·)

def saveAllMessages (all : List Slot) : Option (List UInt8) := writeSlots (everySecond all)

/-- `memmove` of as many bytes as there are slots behind the one that is killed: whole pointers of eight bytes,
and then one that is mixed from two. -/
def moveSlots (all : List Slot) (current : ℕ) : List Slot :=
  let bytes := all.length - current - 1
  let rest := all.drop (current + bytes / 8)
  all.take current ++ (all.drop (current + 1)).take (bytes / 8) ++
    if bytes % 8 = 0 then rest else none :: rest.tail

/-- The characters of a line in UTF-8. -/
def chars (text : Text) : ℕ := text.countP fun b => b < 128 ∨ 192 ≤ b

/-- A line that fills `line_buffer` has no NUL behind it. -/
def Letter.Held (m : Letter) : Prop := ∀ text ∈ m.sender :: m.recipient :: m.body, chars text < 80

instance (m : Letter) : Decidable m.Held := inferInstanceAs (Decidable (∀ text ∈ m.sender :: m.recipient :: m.body, _))

/-- The file, the messages in memory and the menu, and beside them what has been saved and not killed. -/
structure Board where
  file : List UInt8
  allMessages : List Slot
  currentMessage : ℤ
  reading : Bool
  kept : List Letter

inductive Key where
  /-- A message is entered, and then saved or not. -/
  | enter (m : Letter) (save : Bool)
  | read
  | view
  | previous
  | next
  | kill
  | quit
  /-- And a further call up to the main menu. -/
  | hangup

namespace Board
variable (s : Board)

def start : Board := ⟨[], [], 0, false, []⟩

def mainMenu : Board := { s with allMessages := [], currentMessage := 0, reading := false }

def enterMessage (m : Letter) (save : Bool) : Option Board :=
  if m.Held then
    some (if save then { s with file := s.file ++ rows (separator :: m.lines), kept := s.kept ++ [m] } else s).mainMenu
  else none

/-- `display_message`: the message that is there, if there are any. -/
def displayMessage : Option Board :=
  if s.allMessages = [] then some s
  else if s.currentMessage < 0 then none
  else
    match s.allMessages[s.currentMessage.toNat]? with
    | some (some _) => some s
    | _ => none

def readMessagesMenu : Option Board :=
  (if s.allMessages = [] then readAllMessages s.file else some s.allMessages).bind fun all =>
    displayMessage { s with
      allMessages := all
      currentMessage := if (all.length : ℤ) ≤ s.currentMessage ∧ 0 < all.length then all.length - 1 else s.currentMessage
      reading := true }

def previousMessage : Option Board :=
  readMessagesMenu { s with
    currentMessage := if 0 < s.currentMessage then s.currentMessage - 1 else s.currentMessage }

def nextMessage : Option Board :=
  readMessagesMenu { s with
    currentMessage :=
      if s.currentMessage < s.allMessages.length - 1 then s.currentMessage + 1 else s.currentMessage }

/-- `kill_read_message`, on a message that is there. -/
def killReadMessage : Option Board :=
  if s.currentMessage < 0 then none
  else
    match s.allMessages[s.currentMessage.toNat]? with
    | some (some _) =>
      let all := (moveSlots s.allMessages s.currentMessage.toNat).dropLast
      (saveAllMessages all).bind fun file =>
        readMessagesMenu { s with
          file
          allMessages := all
          currentMessage := if s.currentMessage = all.length then s.currentMessage - 1 else s.currentMessage
          kept := s.kept.eraseIdx s.currentMessage.toNat }
    | _ => none

def step : Key → Option Board
  | .enter m save => s.enterMessage m save
  | .read => s.readMessagesMenu
  | .view => if s.reading then s.displayMessage else some s
  | .previous => if s.reading then s.previousMessage else some s
  | .next => if s.reading then s.nextMessage else some s
  | .kill => if s.reading then s.killReadMessage else some s
  | .quit => some s.mainMenu
  | .hangup => some s.mainMenu

def run : Board → List Key → Option Board
  | s, [] => some s
  | s, key :: later => (s.step key).bind fun t => run t later

end Board

/-- Nothing in the message is taken for the end of a line or of the message, and each line is read at once. -/
def Letter.Plain (m : Letter) : Prop := ∀ line ∈ m.lines, 10 ∉ line ∧ line.length < lineRoom ∧ trim line ≠ separator

/-- The keys behind which the file is as it should be: a message that is plain, and the kill of the last one, of
at most two. -/
def Meets (s : Board) : Key → Prop
  | .enter m true => m.Plain
  | .kill => s.reading = true → s.allMessages.length ≤ 2 ∧ s.currentMessage + 1 = s.allMessages.length
  | _ => True

def MeetsAll : Board → List Key → Prop
  | _, [] => True
  | s, key :: later => Meets s key ∧ ∀ t, s.step key = some t → MeetsAll t later

end CProgram.Qodem.Messages
