import Rpn.Stack.Basic
import Rpn.Value.Arithmetic

/-!
# Primitive operators

A primitive works on the stack alone. `Stack.execute` takes its operands off one by
one and does not ask beforehand how many there are, so an operator that finds too few
has used up those it took. `Primitive.pops` is the depth from which on that cannot
happen.

An operator that refuses its operands puts them back, with two exceptions: a negative
power of zero uses up both operands, and `round` uses up a precision that is not an
integer. Operands are put back by pushing them, so a stack of normalized values gets
back just what it had.
-/

namespace Rpn

inductive Primitive where
  | add | sub | mul | div | pow | mod | factorial
  | degrees | radians | sine | cosine
  | log | ln
  | round
  | display | drop | clear | sum | stash | pull
deriving DecidableEq

/-- What is to be shown after an operator has run. -/
inductive Effect where
  | silent
  | display
  | cleared (count : Nat)
deriving DecidableEq

namespace Primitive

/-- All primitives, in the order in which they are listed. -/
def all : List Primitive :=
  [add, sub, mul, div, pow, mod, factorial, degrees, radians, sine, cosine, log, ln, round,
    display, drop, clear, sum, stash, pull]

def name : Primitive → String
  | add => "+"
  | sub => "-"
  | mul => "*"
  | div => "/"
  | pow => "^"
  | mod => "%"
  | factorial => "!"
  | degrees => "deg"
  | radians => "rad"
  | sine => "sin"
  | cosine => "cos"
  | log => "log"
  | ln => "ln"
  | round => "round"
  | display => "."
  | drop => ","
  | clear => "clear"
  | sum => "sum"
  | stash => "stash"
  | pull => "pull"

/-- The depth that the stack must have for the operator to run. -/
def pops : Primitive → Nat
  | add | sub | mul | div | pow | mod | round => 2
  | factorial | degrees | radians | sine | cosine | log | ln | drop | stash => 1
  | display | clear | sum | pull => 0

/-- How many values the operator leaves in place of those it took. -/
def pushes : Primitive → Nat
  | display | drop | clear | stash => 0
  | _ => 1

def description : Primitive → String
  | add => "Pop 'a', 'b'; push the result of 'a' + 'b'"
  | sub => "Pop 'a', 'b'; push the result of 'b' - 'a'"
  | mul => "Pop 'a', 'b'; push the result of 'a' * 'b'"
  | div => "Pop 'a', 'b'; push the result of 'b' / 'a'"
  | pow => "Pop 'a', 'b'; push the result of raising 'b' to the power 'a'"
  | mod => "Pop 'a', 'b'; push the remainder of 'b' / 'a'"
  | factorial => "Pop 'a'; push the factorial of 'a'"
  | degrees => "Pop 'a'; push the result of converting 'a' from radians to degrees"
  | radians => "Pop 'a'; push the result of converting 'a' from degrees to radians"
  | sine => "Pop 'a'; push the sine of 'a'"
  | cosine => "Pop 'a'; push the cosine of 'a'"
  | log => "Pop 'a'; push the logarithm base 10 of 'a'"
  | ln => "Pop 'a'; push the natural logarithm of 'a'"
  | round => "Pop 'a', 'b'; push the result of rounding 'b' to 'a' number of decimal places"
  | display => "Print values from the stack"
  | drop => "Pop 'a'; do not push anything"
  | clear => "Pop the entire stack"
  | sum => "Pop all values from the stack; push the result of summing all values"
  | stash => "Pop 'a'; stash 'a'"
  | pull => "Push the value currently stored in the stash"

end Primitive

/-- Degrees in a radian, the number nearest to `180 / π`. -/
def degreesPerRadian : Binary64 := .ofDecimal false 5729577951308232 (-14)

/-- Radians in a degree, the number nearest to `π / 180`. -/
def radiansPerDegree : Binary64 := .ofDecimal false 17453292519943295 (-18)

namespace Stack

/-- The outcome of an operator that refuses `operands`, which are put back. -/
def refuse (s : Stack) (fault : Fault) (operands : List Value) : Stack × Except Fault Effect :=
  (s.pushAll operands, .error fault)

/-- Take the top value and go on with it. -/
def withTop (s : Stack) (next : Value → Stack → Stack × Except Fault Effect) :
    Stack × Except Fault Effect :=
  match s.values with
  | [] => (s, .error .underflow)
  | v :: rest => next v { s with values := rest }

/-- Push a result and show the stack. -/
def answer (s : Stack) (v : Value) : Stack × Except Fault Effect := (s.push v, .ok .display)

/-- Replace the two top values, `a` above `b`, by `f b a`. -/
def binary (s : Stack) (f : Value → Value → Value) : Stack × Except Fault Effect :=
  s.withTop fun a s => s.withTop fun b s => s.answer (f b a)

/-- The divisor is looked at before there is a dividend. -/
def divide (s : Stack) : Stack × Except Fault Effect :=
  s.withTop fun divisor s =>
    if divisor.isZero then s.refuse .divisionByZero [divisor]
    else s.withTop fun dividend s => s.answer (dividend.div divisor)

/-- A divisor whose integer part is zero is refused, be it zero itself or not. -/
def remainder (s : Stack) : Stack × Except Fault Effect :=
  s.withTop fun divisor s =>
    if divisor.trunc = 0 then s.refuse .divisionByZero [divisor]
    else s.withTop fun dividend s => s.answer (dividend.rem divisor)

def raise (f : Elementary) (s : Stack) : Stack × Except Fault Effect :=
  s.withTop fun exponent s => s.withTop fun base s =>
    if !exponent.isIntegral && base.isNegative then
      s.refuse .fractionalPowerOfNegative [base, exponent]
    else if exponent.isNegative && base.isZero then s.refuse .negativePowerOfZero []
    else s.answer (base.pow f exponent)

def takeFactorial (s : Stack) : Stack × Except Fault Effect :=
  s.withTop fun v s =>
    match v with
    | .float _ => s.refuse .factorialOfFraction [v]
    | .int n =>
      if n.toInt < 0 then s.refuse .factorialOfNegative [v] else s.answer (.factorial n)

def unary (s : Stack) (f : Binary64 → Binary64) : Stack × Except Fault Effect :=
  s.withTop fun v s => s.answer (.ofBinary64 (f v.toBinary64))

/-- Only what compares as zero or less is refused, which `nan` does not. -/
def logarithm (s : Stack) (f : Binary64 → Binary64) : Stack × Except Fault Effect :=
  s.withTop fun v s =>
    if v.isZero || v.isNegative then s.refuse .logarithmOfNonPositive [v]
    else s.answer (.ofBinary64 (f v.toBinary64))

def roundTop (s : Stack) : Stack × Except Fault Effect :=
  s.withTop fun precision s =>
    if precision.isIntegral then s.withTop fun v s => s.answer (v.roundTo precision.trunc)
    else s.refuse .fractionalPrecision []

/-- Values are added from the bottom up, starting from the integer zero. -/
def total (s : Stack) : Value := s.bottomUp.foldl Value.add (.int 0)

/-- Run an operator, whatever the depth of the stack is. -/
def execute (f : Elementary) (s : Stack) : Primitive → Stack × Except Fault Effect
  | .add => s.binary fun b a => a.add b
  | .sub => s.binary Value.sub
  | .mul => s.binary fun b a => a.mul b
  | .div => s.divide
  | .pow => s.raise f
  | .mod => s.remainder
  | .factorial => s.takeFactorial
  | .degrees => s.unary (·.mul degreesPerRadian)
  | .radians => s.unary (·.mul radiansPerDegree)
  | .sine => s.unary f.sin
  | .cosine => s.unary f.cos
  | .log => s.logarithm f.log
  | .ln => s.logarithm f.ln
  | .round => s.roundTop
  | .display => (s, .ok .display)
  | .drop => s.withTop fun _ s => (s, .ok .display)
  | .clear => (s.clear.1, .ok (.cleared s.clear.2))
  | .sum => s.clear.1.answer s.total
  | .stash => s.withTop fun v s => ({ s with stash := some v }, .ok .silent)
  | .pull =>
    match s.stash with
    | none => (s, .error .emptyStash)
    | some v => s.answer v

end Stack

end Rpn
