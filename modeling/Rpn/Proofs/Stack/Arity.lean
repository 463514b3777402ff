import Rpn.Proofs.Stack.Outcome

/-!
# Arity

The declared arity of a primitive is at least what the primitive takes off, on every path
through it: past a guard, after a part of the operands has been taken, and where operands
are put back. A primitive that is run on a stack of that depth may refuse its operands but
does not run out of them.

A result that succeeds is `Safe` whatever it is, so no primitive has to be shown to succeed.
-/

namespace Rpn

/-- The faults for which a primitive refuses its operands, as opposed to running out of them
and to what is no concern of a primitive. -/
def Fault.isRefusal : Fault → Bool
  | .underflow | .reservedName _ | .inputOutput _ => false
  | .divisionByZero | .fractionalPowerOfNegative | .negativePowerOfZero | .factorialOfFraction
  | .factorialOfNegative | .fractionalPrecision | .logarithmOfNonPositive | .emptyStash => true

theorem append_ne_of_head {front text : String} {c : Char} (head : front.toList.head? = some c)
    (other : text.toList.head? ≠ some c) (rest : String) : front ++ rest ≠ text := by
  rintro rfl
  rw [String.toList_append, List.head?_append, head] at other
  exact other rfl

/-- No other fault reads like the one of running out of operands. -/
theorem Fault.message_ne_underflow {fault : Fault} (other : fault ≠ .underflow) :
    fault.message ≠ Fault.underflow.message := by
  cases fault with
  | underflow => exact absurd rfl other
  | reservedName name =>
    have head : "Cannot redefine: ".toList.head? = some 'C' := by decide +kernel
    exact append_ne_of_head head (by decide +kernel) name
  | inputOutput reason =>
    have head : "I/O error: ".toList.head? = some 'I' := by decide +kernel
    exact append_ne_of_head head (by decide +kernel) reason
  | _ => decide

/-- Operands are refused for what is wrong with them. -/
theorem Primitive.isRefusal_of_mem (p : Primitive) :
    ∀ fault ∈ p.refusals, fault.isRefusal = true := by
  cases p <;> decide

namespace Stack

/-- The result is not a fault, or it is a refusal. -/
def Safe (result : Stack × Except Fault Effect) : Prop :=
  ∀ fault, result.2 = .error fault → fault.isRefusal = true

variable {s : Stack}

/-- A primitive that is run on a stack of at least its arity does not run out of operands. -/
theorem safe_execute (f : Elementary) {p : Primitive} (deep : p.pops ≤ s.depth) :
    Safe (s.execute f p) := by
  intro fault failed
  have outcome := outcome_execute f s p
  generalize s.execute f p = result at outcome failed
  cases outcome with
  | short shallow => exact absurd shallow (Nat.not_lt.mpr deep)
  | refuses _ _ _ _ refusal =>
    cases failed
    exact p.isRefusal_of_mem _ refusal
  | _ => cases failed

end Stack

end Rpn
