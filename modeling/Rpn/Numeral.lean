import Rpn.Binary64.Arithmetic
import Rpn.Text.Blank

/-!
# Numerals

A numeral is an optional sign followed by `inf`, `infinity` or `nan` in any case, or by
decimal digits with at most one point among them, of which there is at least one, and
an optional exponent. Only the ten ASCII digits count.

In a literal an underscore may stand between two digits, in every part of the numeral,
and means nothing.
-/

namespace Rpn

/-- What a numeral denotes: `±digits * 10 ^ exponent` or one of the special numbers. -/
inductive Numeral where
  | nan
  | infinity (negative : Bool)
  | decimal (negative : Bool) (digits : Nat) (exponent : Int)
deriving DecidableEq

/-- The number that decimal digits denote. -/
def digitsValue (digits : List Char) : Nat := Nat.ofDigitChars 10 digits 0

namespace Numeral

/-- A leading sign and what follows it. -/
def splitSign : List Char → Bool × List Char
  | '-' :: rest => (true, rest)
  | '+' :: rest => (false, rest)
  | cs => (false, cs)

/-- The digits after a point, if the text goes on with one, and what follows them. -/
def splitFraction : List Char → List Char × List Char
  | '.' :: rest => (rest.takeWhile Char.isDigit, rest.dropWhile Char.isDigit)
  | cs => ([], cs)

/-- The value of an exponent part that makes up the whole text; zero for no text. -/
def exponent? : List Char → Option Int
  | [] => some 0
  | mark :: rest =>
    let (negative, digits) := splitSign rest
    if (mark == 'e' || mark == 'E') && !digits.isEmpty && digits.all Char.isDigit then
      some (if negative then -(digitsValue digits : Int) else digitsValue digits)
    else
      none

/-- The unsigned decimal that makes up the whole text. -/
def decimal? (negative : Bool) (cs : List Char) : Option Numeral :=
  let whole := cs.takeWhile Char.isDigit
  let (fraction, rest) := splitFraction (cs.dropWhile Char.isDigit)
  if (whole ++ fraction).isEmpty then none
  else (exponent? rest).map fun exponent =>
    .decimal negative (digitsValue (whole ++ fraction)) (exponent - fraction.length)

/-- Reads a numeral without separators. -/
def parse? (cs : List Char) : Option Numeral :=
  let (negative, body) := splitSign cs
  let folded := body.map Char.toLower
  if folded = ['n', 'a', 'n'] then some .nan
  else if folded = ['i', 'n', 'f'] ∨ folded = ['i', 'n', 'f', 'i', 'n', 'i', 't', 'y'] then
    some (.infinity negative)
  else
    decimal? negative body

/-- The floating-point number nearest to what a numeral denotes. -/
def toBinary64 : Numeral → Binary64
  | nan => .nan
  | infinity negative => .infinite negative
  | decimal negative digits exponent => .ofDecimal negative digits exponent

end Numeral

/-- Whether a text goes on with a digit. -/
def startsWithDigit (cs : List Char) : Bool := cs.head?.any Char.isDigit

/-- The text without its underscores, each of which has to stand between two digits.
`afterDigit` tells whether a digit stands before the text. -/
def dropSeparators (afterDigit : Bool) : List Char → Option (List Char)
  | [] => some []
  | c :: rest =>
    if c = '_' then
      if afterDigit && startsWithDigit rest then dropSeparators false rest else none
    else
      (dropSeparators c.isDigit rest).map (c :: ·)

/-- Reads a literal: a numeral with separators, and perhaps with blank characters
around it. -/
def literal? (token : String) : Option Numeral :=
  (dropSeparators false (trim token.toList)).bind Numeral.parse?

end Rpn
