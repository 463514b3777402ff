import Rpn.Binary64.Basic

/-!
# Arithmetic on floating-point numbers

Each operation on finite numbers computes its exact result and rounds once. The sum
of two counts of units and the remainder of one by another are themselves counts of
units; a product is measured in units of units and a quotient is a bare ratio, so both
are scaled by `Magnitude.one` before they are rounded.

`power` multiplies by repeated squaring, rounding after each product. Its results for
large exponents may therefore differ in the last place from the nearest number.
-/

namespace Rpn

namespace Binary64

/-- An exact sum of zero is negative only when both terms are. -/
def add : Binary64 → Binary64 → Binary64
  | finite s a, finite t b =>
    let total : Int := (if s then -(a.units : Int) else a.units) +
      (if t then -(b.units : Int) else b.units)
    if total = 0 then zero (s && t) else ofRatio (decide (total < 0)) total.natAbs 1
  | infinite s, infinite t => if s = t then infinite s else nan
  | infinite s, finite _ _ => infinite s
  | finite _ _, infinite t => infinite t
  | nan, _ => nan
  | _, nan => nan

def neg : Binary64 → Binary64
  | finite s a => finite (!s) a
  | infinite s => infinite (!s)
  | nan => nan

def sub (x y : Binary64) : Binary64 := x.add y.neg

def mul : Binary64 → Binary64 → Binary64
  | finite s a, finite t b => ofRatio (s != t) (a.units * b.units) Magnitude.one
  | infinite s, infinite t => infinite (s != t)
  | infinite s, finite t b => if b.units = 0 then nan else infinite (s != t)
  | finite s a, infinite t => if a.units = 0 then nan else infinite (s != t)
  | nan, _ => nan
  | _, nan => nan

def div : Binary64 → Binary64 → Binary64
  | finite s a, finite t b =>
    if b.units = 0 then
      if a.units = 0 then nan else infinite (s != t)
    else
      ofRatio (s != t) (a.units * Magnitude.one) b.units
  | infinite _, infinite _ => nan
  | infinite s, finite t _ => infinite (s != t)
  | finite s _, infinite t => zero (s != t)
  | nan, _ => nan
  | _, nan => nan

/-- The remainder of the division truncated toward zero. It is exact and has the sign
of the dividend. -/
def rem : Binary64 → Binary64 → Binary64
  | finite s a, finite _ b => if b.units = 0 then nan else ofRatio s (a.units % b.units) 1
  | finite s a, infinite _ => finite s a
  | infinite _, _ => nan
  | nan, _ => nan
  | _, nan => nan

/-- The nearest integer, a half going to the even one. -/
def roundIntegral : Binary64 → Binary64
  | finite s a => ofRatio s (roundHalfEven a.units Magnitude.one * Magnitude.one) 1
  | x => x

/-- Multiply `result` by `base ^ exponent`, squaring `base` once for each binary digit
of the exponent but the last. The first argument bounds the number of digits. -/
def powerLoop : Nat → Binary64 → Binary64 → Nat → Binary64
  | 0, result, _, _ => result
  | digits + 1, result, base, exponent =>
    let result := if exponent % 2 = 1 then result.mul base else result
    if exponent / 2 = 0 then result
    else powerLoop digits result (base.mul base) (exponent / 2)

def power (base : Binary64) (exponent : Nat) : Binary64 :=
  powerLoop (exponent.log2 + 1) (ofInt 1) base exponent

/-- The number nearest to `±digits * 10 ^ exponent`.

The first three cases only save work. A positive multiple of `10⁴⁰⁰` is beyond every
finite number, and `digits` is less than ten to the power of its count of binary
digits, so the third case is below half of the smallest number. -/
def ofDecimal (negative : Bool) (digits : Nat) (exponent : Int) : Binary64 :=
  if digits = 0 then zero negative
  else if 400 ≤ exponent then infinite negative
  else if exponent < -(digits.log2 + 400 : Int) then zero negative
  else if 0 ≤ exponent then
    ofRatio negative (digits * Nat.pow 10 exponent.toNat * Magnitude.one) 1
  else
    ofRatio negative (digits * Magnitude.one) (Nat.pow 10 (-exponent).toNat)

end Binary64

end Rpn
