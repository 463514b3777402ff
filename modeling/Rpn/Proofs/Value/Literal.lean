import Rpn.Proofs.Binary64.Nearest
import Rpn.Proofs.Value.Reading

/-!
# Integers typed as they are shown

An integer is shown with all its digits, and a literal is read as a floating-point number. So the
integer that comes back is the number of the format nearest to the one that was shown, and where
that is `2⁶³` it is no integer any more. What is shown comes back exactly when it has 53 significant
bits, as all integers up to `2⁵³` have.
-/

namespace Rpn

namespace Value

/-- An integer is restored by going through floating point if it has 53 significant bits. -/
theorem ofBinary64_ofInt_iff (n : Int64) :
    ofBinary64 (.ofInt n.toInt) = int n ↔
      ∃ significand bits : Nat, significand ≤ 2 ^ 53 ∧ n.toInt.natAbs = significand * 2 ^ bits := by
  rw [ofBinary64_eq_int_iff, ← Binary64.toInt?_eq_some_iff,
    Binary64.toInt?_ofInt_of_bound (natAbs_toInt_le n), Option.some.injEq,
    Binary64.roundedInt_eq_self_iff, rounded_eq_self_iff]

/-- The text of an integer is read as the number nearest to it, which is an integer unless it is
`2⁶³`, and is the one that was shown exactly when that has 53 significant bits. -/
theorem int_text_reads_nearest (n : Int64) :
    (∃ (x : Binary64) (r : Int), x.IsNearest (n.toInt * Magnitude.one) ∧ x.toInt? = some r ∧
      r.natAbs ≤ 2 ^ 63 ∧
      ofLiteral? (int n).text = some (if r < 2 ^ 63 then int (.ofInt r) else float x)) ∧
    (ofLiteral? (int n).text = some (int n) ↔
      ∃ significand bits : Nat, significand ≤ 2 ^ 53 ∧
        n.toInt.natAbs = significand * 2 ^ bits) := by
  have bound := natAbs_toInt_le n
  have whole := Binary64.toInt?_ofInt_of_bound bound
  have near : (Binary64.roundedInt n.toInt).natAbs ≤ 2 ^ 63 := by
    rw [Binary64.natAbs_roundedInt]
    exact rounded_le_two_pow_of_le bound
  have read : ofLiteral? (int n).text = some (ofBinary64 (.ofInt n.toInt)) :=
    ofLiteral?_text (int n)
  rw [read]
  refine ⟨⟨.ofInt n.toInt, _, Binary64.isNearest_ofInt bound, whole, near, ?_⟩, ?_⟩
  · rw [ofBinary64_of_toInt? whole]
    have lower : -2 ^ 63 ≤ Binary64.roundedInt n.toInt := by omega
    simp only [lower, true_and]
  · rw [Option.some.injEq]
    exact ofBinary64_ofInt_iff n

/-- The first integer of 54 significant bits comes back as the one before it. -/
theorem not_forall_int_text_restored :
    ¬ ∀ n : Int64, ofLiteral? (int n).text = some (int n) := by
  intro all
  have restored := all 9007199254740993
  rw [ofLiteral?_text, Option.some.injEq] at restored
  have lost : ofBinary64 (toBinary64 (int 9007199254740993)) = int 9007199254740992 := by
    decide +kernel
  cases lost.symm.trans restored

end Value

end Rpn
