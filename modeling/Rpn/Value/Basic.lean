import Rpn.Decimal.Layout

/-!
# Values

A value is a 64-bit integer or a floating-point number. A number computed or read is
an integer whenever it is one and fits, so that `4.0` and `4` are one value;
`Value.ofBinary64` makes that decision. A value built by hand may still hold an
integral number as a floating-point one until `normalize` is applied to it.
-/

namespace Rpn

/-- The 64-bit integer equal to `n`, if there is one. -/
def int64? (n : Int) : Option Int64 :=
  if -0x8000000000000000 ≤ n ∧ n < 0x8000000000000000 then some (.ofInt n) else none

theorem toInt_of_int64? {n : Int} {i : Int64} (h : int64? n = some i) : i.toInt = n := by
  unfold int64? at h
  split at h
  · next range =>
    cases h
    exact Int64.toInt_ofInt_of_le range.1 range.2
  · cases h

/-- The 64-bit integer nearest to `n`. -/
def saturate (n : Int) : Int64 :=
  .ofInt (max (-0x8000000000000000) (min n 0x7fffffffffffffff))

inductive Value where
  | int (n : Int64)
  | float (x : Binary64)
deriving DecidableEq

namespace Value

/-- An integer when `x` is one in range, and `x` itself otherwise. -/
def ofBinary64 (x : Binary64) : Value :=
  match x.toInt?.bind int64? with
  | some n => int n
  | none => float x

def normalize : Value → Value
  | int n => int n
  | float x => ofBinary64 x

@[simp] theorem normalize_int (n : Int64) : (int n).normalize = int n := rfl

@[simp] theorem normalize_float (x : Binary64) : (float x).normalize = ofBinary64 x := rfl

/-- The nearest floating-point number. -/
def toBinary64 : Value → Binary64
  | int n => .ofInt n.toInt
  | float x => x

def isIntegral : Value → Bool
  | int _ => true
  | float x => x.isIntegral

def isZero (v : Value) : Bool := v.toBinary64.isZero

def isNegative (v : Value) : Bool := v.toBinary64.isNegative

/-- The part before the decimal point, held to the range of the integers; zero for
what is not a number. -/
def trunc : Value → Int64
  | int n => n
  | float .nan => 0
  | float (.infinite true) => Int64.minValue
  | float (.infinite false) => Int64.maxValue
  | float x => saturate (x.integerPart?.getD 0)

def text : Value → String
  | int n => .ofList (integerText n.toInt)
  | float x => .ofList x.text

end Value

end Rpn
