import Rpn.Binary64.Basic

/-!
# The interchange form

A finite number of `significand <<< shift` units is stored as
`shift <<< 52 + significand`: the significand carries into the exponent field, whose
value is one more than the shift for every normal number and zero for a subnormal one.
-/

namespace Rpn

namespace Binary64

def signBit (negative : Bool) : Nat := if negative then 1 <<< 63 else 0

def toBits : Binary64 → UInt64
  | nan => 0x7ff8000000000000
  | infinite negative => .ofNat (signBit negative + 2047 <<< 52)
  | finite negative m =>
    let shift := spacing m.units
    .ofNat (signBit negative + (shift <<< 52 + m.units >>> shift))

/-- Every pattern with a full exponent field and a non-zero fraction is `nan`. -/
def ofBits (bits : UInt64) : Binary64 :=
  let word := bits.toNat
  let negative := decide (1 <<< 63 ≤ word)
  let exponent := word >>> 52 % 2048
  let fraction := word % 1 <<< 52
  if exponent = 2047 then
    if fraction = 0 then infinite negative else nan
  else if exponent = 0 then
    ofRatio negative fraction 1
  else
    ofRatio negative ((1 <<< 52 + fraction) <<< (exponent - 1)) 1

end Binary64

end Rpn
