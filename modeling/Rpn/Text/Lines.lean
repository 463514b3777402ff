/-!
# Lines

A line ends at a line feed or at a carriage return with a line feed. What follows the
last line feed is a line only if it is not empty, and a carriage return at its end is
part of it. The elements may be characters or bytes.
-/

namespace Rpn

/-- A line without one carriage return at its end. -/
def dropReturn [BEq α] (carriageReturn : α) (line : List α) : List α :=
  if line.getLast? == some carriageReturn then line.dropLast else line

def splitLines [BEq α] (carriageReturn lineFeed : α) (text : List α) : List (List α) :=
  let pieces := text.splitOn lineFeed
  pieces.dropLast.map (dropReturn carriageReturn) ++ pieces.getLast?.toList.filter (!·.isEmpty)

/-- The lines of a text. -/
def textLines (text : String) : List String :=
  (splitLines '\r' '\n' text.toList).map String.ofList

/-- The lines of a sequence of bytes. -/
def byteLines (bytes : ByteArray) : List ByteArray :=
  (splitLines 13 10 bytes.data.toList).map fun line => ⟨line.toArray⟩

end Rpn
