/-!
# Faults

What can go wrong in a session: an operator may refuse its operands, a definition may
ask for a reserved name, and the outside world may fail to take or to give a text. Only
the last kind ends the evaluation of a statement.
-/

namespace Rpn

inductive Fault where
  | underflow
  | divisionByZero
  /-- A negative base under an exponent that is not an integer. -/
  | fractionalPowerOfNegative
  | negativePowerOfZero
  | factorialOfFraction
  | factorialOfNegative
  | fractionalPrecision
  | logarithmOfNonPositive
  | emptyStash
  | reservedName (name : String)
  /-- Reading or writing failed for the given reason. -/
  | inputOutput (reason : String)
deriving DecidableEq

/-- The line that reports a fault. -/
def Fault.message : Fault → String
  | underflow => "Stack underflow"
  | divisionByZero => "Cannot divide by 0"
  | fractionalPowerOfNegative => "Negative number cannot be raised to non-integer power"
  | negativePowerOfZero => "0 Cannot be raised to a negative power"
  | factorialOfFraction => "Cannot take the factorial of non-integer number"
  | factorialOfNegative => "Cannot take the factorial of negative number"
  | fractionalPrecision => "Precision must be an integer"
  | logarithmOfNonPositive => "Cannot take logarithm of non-positive number"
  | emptyStash => "Nothing has been stashed"
  | reservedName name => "Cannot redefine: " ++ name
  | inputOutput reason => "I/O error: " ++ reason

end Rpn
