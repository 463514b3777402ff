import Rpn.Elementary
import Rpn.Value.Basic
import Rpn.Binary64.Arithmetic

/-!
# Arithmetic on values

Sums, differences, products, powers and factorials of integers are exact as long as
they fit into 64 bits and go over to floating point when they do not. Quotients are
always computed in floating point, and an integral one becomes an integer again.

No operation here refuses its operands. What has no value follows the floating-point
rules, and the stack guards the cases that it wants to report.
-/

namespace Rpn

namespace Value

/-- The exact integer if it fits, and the given floating-point number otherwise. -/
def exactOr (exact : Int) (approximate : Binary64) : Value :=
  match int64? exact with
  | some n => int n
  | none => ofBinary64 approximate

def add : Value → Value → Value
  | int a, int b => exactOr (a.toInt + b.toInt) ((Binary64.ofInt a.toInt).add (.ofInt b.toInt))
  | a, b => ofBinary64 (a.toBinary64.add b.toBinary64)

def sub : Value → Value → Value
  | int a, int b => exactOr (a.toInt - b.toInt) ((Binary64.ofInt a.toInt).sub (.ofInt b.toInt))
  | a, b => ofBinary64 (a.toBinary64.sub b.toBinary64)

def mul : Value → Value → Value
  | int a, int b => exactOr (a.toInt * b.toInt) ((Binary64.ofInt a.toInt).mul (.ofInt b.toInt))
  | a, b => ofBinary64 (a.toBinary64.mul b.toBinary64)

def div (a b : Value) : Value := ofBinary64 (a.toBinary64.div b.toBinary64)

/-- The remainder that has the sign of the divisor. -/
def floorRem (a b : Binary64) : Binary64 :=
  let r := a.rem b
  if !r.isZero && r.isNegative != b.isNegative then r.add b else r

/-- A remainder has the wrong sign when it is not zero and has not the sign of the divisor. -/
def hasWrongSign (r d : Int64) : Bool := r != 0 && decide (r < 0) != decide (d < 0)

/-- The same of integers. The remainder of -2⁶³ by -1 is zero. -/
def floorRemInt (x d : Int64) : Int64 :=
  let r := x % d
  if hasWrongSign r d then r + d else r

def rem (a b : Value) : Value :=
  match a, b with
  | int x, int d =>
    if d = 0 then ofBinary64 (floorRem a.toBinary64 b.toBinary64) else int (floorRemInt x d)
  | a, b => ofBinary64 (floorRem a.toBinary64 b.toBinary64)

/-- The power of an integer when it fits into 64 bits.

A base of two or more in absolute value leaves the range with the 64th factor, so an
exponent from 64 on needs to be looked at for the other three bases only. An exponent
of 33 bits or more is never taken for exact. -/
def exactPower? (base exponent : Int) : Option Int64 :=
  if exponent < 0 ∨ 0x100000000 ≤ exponent then none
  else if exponent < 64 then int64? (base.pow exponent.toNat)
  else if base = 0 ∨ base = 1 then some (.ofInt base)
  else if base = -1 then some (if exponent % 2 = 0 then 1 else -1)
  else none

def pow (f : Elementary) (base exponent : Value) : Value :=
  match base, exponent with
  | int b, int e =>
    match exactPower? b.toInt e.toInt with
    | some n => int n
    | none => ofBinary64 (f.pow base.toBinary64 exponent.toBinary64)
  | base, exponent => ofBinary64 (f.pow base.toBinary64 exponent.toBinary64)

/-- The two products of a factorial: the exact one for as long as it fits, and one that is
rounded after every factor. -/
structure Products where
  exact : Option Int64 := some 1
  approximate : Binary64 := .ofInt 1
deriving DecidableEq

namespace Products

/-- One round: both products take a factor. -/
def times (p : Products) (k : Int) : Products where
  exact := p.exact.bind fun product => int64? (product.toInt * k)
  approximate := p.approximate.mul (.ofInt k)

/-- Neither product can change any more. -/
def areSettled (p : Products) : Bool := p.exact.isNone && p.approximate == .infinite false

/-- The exact product, or the rounded one if the exact one is lost. -/
def value (p : Products) : Value :=
  match p.exact with
  | some product => int product
  | none => ofBinary64 p.approximate

theorem value_some (product : Int64) (x : Binary64) :
    (Products.mk (some product) x).value = int product := rfl

theorem value_none (x : Binary64) : (Products.mk none x).value = ofBinary64 x := rfl

end Products

/-- Take the given number of factors from `k` on, and end early when the products are settled. The
second component is the number of rounds that were made. -/
def factorialLoop : (factors : Nat) → (k : Int) → Products → Products × Nat
  | 0, _, p => (p, 0)
  | factors + 1, k, p =>
    let p := p.times k
    if p.areSettled then (p, 1)
    else
      let (last, rounds) := factorialLoop factors (k + 1) p
      (last, rounds + 1)

/-- The factorial of `n`, and one for every `n` below two. -/
def factorial (n : Int64) : Value := (factorialLoop (n.toInt - 1).toNat 2 {}).1.value

/-- `10 ^ count` by repeated squaring. -/
def tenPower (count : Nat) : Binary64 := (Binary64.ofInt 10).power count

/-- Rounds a finite number at the given number of places after the decimal point, a
half to the even neighbour. A number too large to be scaled is left alone, and one that
is rounded to more places than any number has before the point is zero. -/
def roundFinite (x : Binary64) (places : Int) : Value :=
  if 0 ≤ places then
    let factor := tenPower places.toNat
    let scaled := x.mul factor
    if factor.isFinite && scaled.isFinite then ofBinary64 (scaled.roundIntegral.div factor)
    else float x
  else
    let factor := tenPower (-places).toNat
    if factor.isFinite then ofBinary64 ((x.div factor).roundIntegral.mul factor)
    else int 0

/-- Rounds at a number of decimal places, a negative number counting places before the
point. A number that is not finite is returned as it is; more than 400 places either
way are as good as 400. -/
def roundTo (v : Value) (places : Int64) : Value :=
  match v with
  | int n =>
    if 0 ≤ places.toInt then int n
    else roundFinite (.ofInt n.toInt) (max (-400) places.toInt)
  | float x =>
    if x.isFinite then roundFinite x (max (-400) (min 400 places.toInt)) else float x

end Value

end Rpn
