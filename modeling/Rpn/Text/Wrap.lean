import Rpn.Text.Blank

/-!
# Wrapped text

The words of a text are filled into lines from the first to the last, each line taking
words as long as they fit. A word that is wider than a line has a line of its own.
Widths are counted in the bytes of the UTF-8 form.
-/

namespace Rpn

/-- The words of a text. -/
def textWords (text : String) : List String := (blankSeparated text.toList).map String.ofList

/-- Go on with a line that is begun and the words that are left. -/
def fillLines (width : Nat) (line : String) : List String → List String
  | [] => [line]
  | word :: rest =>
    if line.utf8ByteSize + 1 + word.utf8ByteSize ≤ width then
      fillLines width (line ++ " " ++ word) rest
    else
      line :: fillLines width word rest

/-- The lines of a text for a width, which is at least one. -/
def wrap (text : String) (width : Nat) : List String :=
  match textWords text with
  | [] => []
  | word :: rest => fillLines (max width 1) word rest

end Rpn
