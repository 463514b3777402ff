import Rpn.Session.Words
import Rpn.Text.Typed

/-!
# The line editor

The program takes its lines from an editor. It is known by what it writes when it is given
a prompt, and by what its calls return, one after the other, for the bytes of the input;
after these it says that the input is at its end. The history that an editor may keep of
the lines has no part in a run.

The line loop is the same for every editor. `plainEditor` is the one for input that does
not come from a terminal.
-/

namespace Rpn

/-- What a call of the editor returns before the input is at its end. -/
inductive Editor.Reply where
  /-- A line without its end. -/
  | line (text : String)
  /-- The line was broken off by the user. -/
  | interrupted
  | failed (reason : String)
  /-- The editor comes to grief, and the program with it. -/
  | crashed (report : String)
deriving DecidableEq

structure Editor where
  /-- What is written of a prompt. -/
  shown : String → String
  replies : ByteArray → List Editor.Reply

/-- Prompts are written as they are. -/
def Editor.ShowsPrompts (e : Editor) : Prop := ∀ prompt, e.shown prompt = prompt

def TypedLine.reply : TypedLine → Editor.Reply
  | text line => .line line
  | notUtf8 =>
    .failed ("Io(Error \x7b kind: InvalidData, message: \"" ++ Session.notUtf8 ++ "\" \x7d)")
  | torn => .crashed "a backspace left a part of a character\n"

/-- The editor that takes lines as they come, and may write prompts. -/
def plainEditor (prompts : Bool) : Editor where
  shown prompt := if prompts then prompt else ""
  replies input := (typedLines input).map TypedLine.reply

end Rpn
