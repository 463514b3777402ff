import Rpn.Binary64.Arithmetic

/-!
# The shortest decimal

A finite number that is not zero is shown by the fewest significant digits that read
back as the same number and, among the decimals of that many digits, by the one
nearest to it.

For each count of digits only the two neighbours of the number on the decimal grid of
that many digits need to be tried: the decimals that read back as the number fill an
interval around it, so if a point of the grid lies there, a neighbour does.
-/

namespace Rpn

/-- The number `digits * 10 ^ exponent`. -/
structure Decimal where
  digits : Nat
  exponent : Int
deriving DecidableEq

/-- The digits of a natural number to base ten. -/
def decimalDigits (n : Nat) : List Char := Nat.toDigits 10 n

namespace Magnitude

/-- The number of digits before the decimal point. It is negative when zeros follow
the point. The factor `10³³⁰` makes every magnitude but zero an integer of some digits. -/
def decimalPoint (m : Magnitude) : Int :=
  (decimalDigits (m.units * Nat.pow 10 330 / one)).length - 330

/-- The neighbour of `m` that reads back as `m`, on the grid of decimals with `count`
digits; the nearer of two, and the upper one when they are equally near. -/
def onGrid? (m : Magnitude) (count : Nat) : Option Decimal :=
  let exponent := m.decimalPoint - count
  let num := m.units * Nat.pow 10 (-exponent).toNat
  let den := one * Nat.pow 10 exponent.toNat
  let below := num / den
  let neighbours :=
    if 2 * (num % den) < den then [below, below + 1] else [below + 1, below]
  (neighbours.find? fun digits =>
    Binary64.ofDecimal false digits exponent == .finite false m).map (⟨·, exponent⟩)

/-- A decimal found on a grid reads back. -/
theorem ofDecimal_of_onGrid? {m : Magnitude} {count : Nat} {d : Decimal}
    (h : m.onGrid? count = some d) :
    Binary64.ofDecimal false d.digits d.exponent = .finite false m := by
  unfold onGrid? at h
  obtain ⟨digits, found, rfl⟩ := Option.map_eq_some_iff.mp h
  exact eq_of_beq (List.find?_some found :)

/-- The magnitude itself, which has a finite decimal expansion. -/
def toDecimal (m : Magnitude) : Decimal := ⟨m.units * Nat.pow 5 1074, -1074⟩

/-- Seventeen digits are always enough. -/
def shortest (m : Magnitude) : Decimal :=
  ((List.range 17).findSome? fun count => m.onGrid? (count + 1)).getD m.toDecimal

end Magnitude

end Rpn
