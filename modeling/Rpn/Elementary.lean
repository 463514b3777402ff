import Rpn.Binary64.Bits

/-!
# Elementary functions

The sine, the logarithms and the general power have no rounding rule of their own in
the format: how close they come to the nearest number is up to the library that
computes them. The calculator takes them as a parameter. Nothing in the rest of the
development looks inside one, so what it states holds for every choice, and a law
that needs more of a function names what it needs.
-/

namespace Rpn

structure Elementary where
  sin : Binary64 → Binary64
  cos : Binary64 → Binary64
  /-- The logarithm to base ten. -/
  log : Binary64 → Binary64
  /-- The natural logarithm. -/
  ln : Binary64 → Binary64
  /-- `pow base exponent`. -/
  pow : Binary64 → Binary64 → Binary64

namespace Elementary

/-- A machine operation, reached through the interchange form. -/
private def lift (f : Float → Float) (x : Binary64) : Binary64 :=
  .ofBits (f (Float.ofBits x.toBits)).toBits

/-- The functions of the machine that the program runs on. -/
def machine : Elementary where
  sin := lift Float.sin
  cos := lift Float.cos
  log := lift Float.log10
  ln := lift Float.log
  pow x y := .ofBits (Float.pow (Float.ofBits x.toBits) (Float.ofBits y.toBits)).toBits

end Elementary

end Rpn
