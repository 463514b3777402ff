import Rpn.Operator
import Rpn.Text.Wrap

/-!
# The help text

Each operator has an entry: a label, filled up with spaces to a column that is the same
for all, and its description, wrapped to what is left of the width. Further lines start
at that column.
-/

namespace Rpn

/-- The least width that a description is wrapped to. -/
def leastTextWidth : Nat := 20

/-- The width of a screen that nothing is known about. -/
def defaultWidth : Nat := 80

/-- A decimal count, which may have a plus sign and has to fit into 64 bits. -/
def parseCount? (cs : List Char) : Option Nat :=
  let digits := match cs with
    | '+' :: rest => rest
    | cs => cs
  if digits.isEmpty || !digits.all Char.isDigit then none
  else
    let count := Nat.ofDigitChars 10 digits 0
    if count < 1 <<< 64 then some count else none

/-- The width to use, given the text of the setting for it and the width that the
terminal reports. What cannot be read and what is zero is passed over. -/
def resolveWidth (columns : Option String) (queried : Option Nat) : Nat :=
  let positive := Option.filter fun width : Nat => decide (0 < width)
  let setting := columns.bind fun text => parseCount? (trim text.toList)
  ((positive setting).or (positive queried)).getD defaultWidth

namespace Operator

def label (op : Operator) : String := "operator: " ++ op.name

/-- The column at which descriptions start: two past the longest label. -/
def helpColumn : Nat := (all.map fun op => op.label.utf8ByteSize).foldl max 0 + 2

def spaces (count : Nat) : String := .ofList (List.replicate count ' ')

/-- The entry of an operator with its description wrapped to `width`. -/
def helpEntry (op : Operator) (width : Nat) : String :=
  let label := op.label ++ spaces (helpColumn - op.label.length)
  match wrap op.description width with
  | [] => label ++ "\n"
  | line :: rest =>
    label ++ line ++ "\n" ++ String.join (rest.map fun line => spaces helpColumn ++ line ++ "\n")

/-- The entries of all operators for a screen of the given width. -/
def helpText (width : Nat) : String :=
  String.join (all.map fun op => op.helpEntry (max (width - helpColumn) leastTextWidth))

end Operator

end Rpn
