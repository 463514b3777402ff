import Rpn.Session.Basic
import Rpn.Text.Lines

/-!
# Words files

A words file has one definition on each line: a name and the tokens of a body, with
single spaces between them. Lines are read like statements that start with the marker.
Every line is carried out, whatever became of those before it.

A file is read as a whole before its first line is carried out. What cannot be read, or
is not UTF-8, changes nothing.
-/

namespace Rpn

namespace Session

/-- The definition on a line of a words file. -/
def lineDefinition (line : String) : List String :=
  definitionMarker :: (spaceSeparated (trim line.toList)).map String.ofList

/-- Carry out the definitions on all lines and tell whether all were accepted. -/
def defineLines (s : Session) : List String → Session × Bool
  | [] => (s, true)
  | line :: rest =>
    let (s, accepted) := s.define (lineDefinition line)
    let (s, allAccepted) := s.defineLines rest
    (s, accepted && allAccepted)

theorem defineLines_cons (s : Session) (line : String) (lines : List String) :
    s.defineLines (line :: lines) =
      (((s.define (lineDefinition line)).1.defineLines lines).1,
        (s.define (lineDefinition line)).2 &&
          ((s.define (lineDefinition line)).1.defineLines lines).2) := rfl

/-- The reason given for bytes that are not the UTF-8 form of a text. -/
def notUtf8 : String := "stream did not contain valid UTF-8"

/-- The text of a file, given its bytes or the reason why there are none. -/
def decodeContent (content : Except String ByteArray) : Except Fault String :=
  match content with
  | .error reason => .error (.inputOutput reason)
  | .ok bytes =>
    match String.fromUTF8? bytes with
    | none => .error (.inputOutput notUtf8)
    | some text => .ok text

/-- Carry out the definitions of a words file. -/
def load (s : Session) (content : Except String ByteArray) : Session × Except Fault Bool :=
  match decodeContent content with
  | .error fault => (s, .error fault)
  | .ok text =>
    let (s, accepted) := s.defineLines (textLines text)
    (s, .ok accepted)

end Session

end Rpn
