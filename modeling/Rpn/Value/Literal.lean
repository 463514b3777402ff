import Rpn.Numeral
import Rpn.Value.Basic

/-!
# Literals as values

A literal is read as the nearest floating-point number and becomes an integer when that
number is one, however it was written: `1e2` and `100` are the same value.
-/

namespace Rpn

/-- The value of a token that is a literal. -/
def Value.ofLiteral? (token : String) : Option Value :=
  (literal? token).map fun numeral => .ofBinary64 numeral.toBinary64

end Rpn
