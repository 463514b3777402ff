import Mathlib.Data.List.Basic
import Rpn.Proofs.Stack.Normal

/-!
# What a refusal leaves

An operator takes its operands off before it looks at them and puts back those that it refuses
by pushing them. Pushing normalizes, so what comes back is what was there only if that was
normal already, which it is on every stack that operations have built. Two refusals put nothing
back: a negative power of zero has used up both operands, and a precision that is not an integer
is gone while the value under it stays.
-/

namespace Rpn

namespace Stack

/-- `Refused p s s' fault`: the operator `p` has a reason to report `fault`, and when it does,
`s` has become `s'`. -/
def Refused (p : Primitive) (s s' : Stack) : Fault → Prop
  | .divisionByZero => (p = .div ∨ p = .mod) ∧ s' = s
  | .fractionalPowerOfNegative => p = .pow ∧ s' = s
  | .factorialOfFraction | .factorialOfNegative => p = .factorial ∧ s' = s
  | .logarithmOfNonPositive => (p = .log ∨ p = .ln) ∧ s' = s
  | .emptyStash => p = .pull ∧ s' = s
  | .negativePowerOfZero =>
    p = .pow ∧ ∃ exponent base, s.values = exponent :: base :: s'.values
  | .fractionalPrecision => p = .round ∧ ∃ precision, s.values = precision :: s'.values
  | .underflow | .reservedName _ | .inputOutput _ => False

variable {s s' : Stack} {p : Primitive} {fault : Fault}

/-- The operands of a normal stack are put back as they were. -/
theorem Normal.restored {operands rest : List Value} (normal : s.Normal)
    (values : s.values = operands ++ rest) :
    (⟨operands.map Value.normalize ++ rest, s.stash⟩ : Stack) = s := by
  have same : ∀ v ∈ operands, v.normalize = id v := by
    intro v member
    exact (normal.values v (values ▸ List.mem_append_left rest member)).normalize_eq
  rw [List.map_congr_left same, List.map_id, ← values]

theorem Normal.refused_of_outcome (normal : s.Normal) (enough : p.pops ≤ s.depth)
    (outcome : Outcome s p (s', .error fault)) : Refused p s s' fault := by
  cases outcome with
  | short shallow => exact absurd shallow enough.not_gt
  | refuses operands rest values count refusal =>
    have restored := normal.restored values
    cases p with
    | div | mod =>
      obtain rfl := List.mem_singleton.mp refusal
      exact ⟨by decide, restored⟩
    | pow =>
      obtain rfl | rfl := by simpa [Primitive.refusals] using refusal
      · exact ⟨rfl, restored⟩
      · obtain ⟨exponent, base, rfl⟩ := List.length_eq_two.mp count
        exact ⟨rfl, exponent, base, values⟩
    | factorial =>
      obtain rfl | rfl := by simpa [Primitive.refusals] using refusal
      · exact ⟨rfl, restored⟩
      · exact ⟨rfl, restored⟩
    | log | ln =>
      obtain rfl := List.mem_singleton.mp refusal
      exact ⟨by decide, restored⟩
    | round =>
      obtain rfl := List.mem_singleton.mp refusal
      obtain ⟨precision, rfl⟩ := List.length_eq_one_iff.mp count
      exact ⟨rfl, precision, values⟩
    | pull =>
      obtain rfl := List.mem_singleton.mp refusal
      exact ⟨rfl, restored⟩
    | _ => cases refusal

/-- No operator has a fault to report for operands that it does not take. -/
theorem inspected_le_pops (p : Primitive) : ∀ fault ∈ p.refusals, fault.inspected ≤ p.pops := by
  cases p <;> decide

/-- A fault leaves the stash alone and what is below the operands. -/
theorem Outcome.below (enough : p.pops ≤ s.depth) (outcome : Outcome s p (s', .error fault)) :
    s'.stash = s.stash ∧ s.values.drop p.pops <:+ s'.values := by
  cases outcome with
  | short shallow => exact absurd shallow enough.not_gt
  | refuses operands rest values count refusal =>
    refine ⟨rfl, ?_⟩
    have taken : operands.length ≤ p.pops := count ▸ inspected_le_pops p _ refusal
    have below : s.values.drop p.pops <:+ rest := by
      rw [values, List.drop_append, List.drop_eq_nil_of_le taken, List.nil_append]
      exact List.drop_suffix _ rest
    dsimp only
    split
    · exact below.trans (List.suffix_append _ rest)
    · exact below

theorem Built.refused {f : Elementary} (built : s.Built) (enough : p.pops ≤ s.depth)
    (fails : s.execute f p = (s', .error fault)) :
    Refused p s s' fault ∧ s'.stash = s.stash ∧ s.values.drop p.pops <:+ s'.values := by
  have outcome := outcome_execute f s p
  rw [fails] at outcome
  exact ⟨built.normal.refused_of_outcome enough outcome, outcome.below enough⟩

/-- The root of -8 is refused and both numbers come back, while zero and the exponent -1 are
used up. Both leave the 7 below. -/
theorem Built.refused_pow :
    let half := Binary64.ofDecimal false 5 (-1)
    let root := ({} : Stack).pushAll [.int 7, .int (-8), .float half]
    let inverse := ({} : Stack).pushAll [.int 7, .int 0, .int (-1)]
    (root.values = [.float half, .int (-8), .int 7] ∧
      Refused .pow root root .fractionalPowerOfNegative ∧ [.int 7] <:+ root.values) ∧
    Refused .pow inverse ⟨[.int 7], none⟩ .negativePowerOfZero := by
  intro half root inverse
  have restores : root.execute .machine .pow = (root, .error .fractionalPowerOfNegative) := by
    decide +kernel
  have consumes : inverse.execute .machine .pow =
      (⟨[.int 7], none⟩, .error .negativePowerOfZero) := by
    decide +kernel
  obtain ⟨restored, -, below⟩ := (Built.empty.pushAll _).refused (by decide) restores
  obtain ⟨consumed, -, -⟩ := (Built.empty.pushAll _).refused (by decide) consumes
  have values : root.values = [.float half, .int (-8), .int 7] := by decide +kernel
  rw [values] at below
  exact ⟨⟨values, restored, values ▸ below⟩, consumed⟩

end Stack

end Rpn
