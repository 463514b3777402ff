import Rpn.Decimal.Shortest
import Rpn.Text.Blank

/-!
# The text of a number

An integer is written in full. A floating-point number is written by its shortest
digits, in positional notation when its leading digit stands at a power of ten from
`10⁻⁴` to `10¹⁵` and otherwise with an exponent, which has a sign and at least two
digits. No point is written when no digit follows it.
-/

namespace Rpn

/-- The sign that stands before a negative number. -/
def signText (negative : Bool) : List Char := if negative then ['-'] else []

def integerText (n : Int) : List Char := signText (decide (n < 0)) ++ decimalDigits n.natAbs

namespace Decimal

/-- Digits with a decimal point after the first `point` of them. -/
def positional (digits : List Char) (point : Int) : List Char :=
  if point ≤ 0 then
    ['0', '.'] ++ List.replicate (-point).toNat '0' ++ digits
  else if digits.length ≤ point.toNat then
    digits ++ List.replicate (point.toNat - digits.length) '0'
  else
    digits.take point.toNat ++ '.' :: digits.drop point.toNat

/-- One digit before the point and the power of ten of that digit. -/
def scientific (digits : List Char) (exponent : Int) : List Char :=
  let fraction := digits.drop 1
  let power := decimalDigits exponent.natAbs
  digits.take 1 ++ (if fraction.isEmpty then [] else '.' :: fraction) ++
    ['e', if exponent < 0 then '-' else '+'] ++
    List.replicate (2 - power.length) '0' ++ power

def text (d : Decimal) : List Char :=
  let written := decimalDigits d.digits
  let digits := dropRightWhile (· == '0') written
  let point := written.length + d.exponent
  if -4 < point ∧ point ≤ 16 then positional digits point
  else scientific digits (point - 1)

end Decimal

namespace Binary64

def text : Binary64 → List Char
  | nan => ['n', 'a', 'n']
  | infinite negative => signText negative ++ ['i', 'n', 'f']
  | finite negative m =>
    signText negative ++ if m.units = 0 then ['0'] else m.shortest.text

end Binary64

end Rpn
