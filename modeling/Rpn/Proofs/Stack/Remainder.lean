import Mathlib.Data.Int.ModEq
import Mathlib.Data.Rat.Floor
import Rpn.Stack.Primitive

/-!
# The remainder of integers

The machine divides toward zero, and its remainder is smaller than the divisor but may have the
other sign. Then the divisor is added, and since the two signs differ the sum lies between zero and
the divisor: it is in range, and it is the remainder of the division toward minus infinity. So `%`
is exact on all integers, and it is refused for the divisor zero alone.
-/

namespace Rpn

namespace Value

section Integers

variable {x d r : Int64}

theorem hasWrongSign_iff :
    hasWrongSign r d = true ↔ r.toInt ≠ 0 ∧ ¬ (r.toInt < 0 ↔ d.toInt < 0) := by
  have zero : r ≠ 0 ↔ r.toInt ≠ 0 := not_congr Int64.toInt_inj.symm
  have signs : decide (r < 0) ≠ decide (d < 0) ↔ ¬ (r.toInt < 0 ↔ d.toInt < 0) := by
    rw [Ne, decide_eq_decide, Int64.lt_iff_toInt_lt, Int64.lt_iff_toInt_lt, Int64.toInt_zero]
  rw [hasWrongSign, Bool.and_eq_true, bne_iff_ne, bne_iff_ne, zero, signs]

/-- The remainder of the machine is smaller than the divisor. -/
theorem natAbs_toInt_mod_lt (nonzero : d.toInt ≠ 0) :
    (x % d).toInt.natAbs < d.toInt.natAbs := by
  rw [Int64.toInt_mod, Int.natAbs_tmod]
  exact Nat.mod_lt _ (Int.natAbs_pos.mpr nonzero)

/-- Where the divisor is added the sum is in range, since the signs differ. -/
theorem mod_add_in_range (nonzero : d.toInt ≠ 0) (wrong : hasWrongSign (x % d) d = true) :
    -2 ^ 63 ≤ (x % d).toInt + d.toInt ∧ (x % d).toInt + d.toInt < 2 ^ 63 := by
  obtain ⟨-, differ⟩ := hasWrongSign_iff.mp wrong
  have small := natAbs_toInt_mod_lt (x := x) nonzero
  have lower := d.le_toInt
  have upper := d.toInt_lt
  omega

theorem toInt_floorRemInt (nonzero : d.toInt ≠ 0) :
    (floorRemInt x d).toInt =
      if hasWrongSign (x % d) d then (x % d).toInt + d.toInt else (x % d).toInt := by
  rw [floorRemInt]
  split
  · next wrong =>
    obtain ⟨lower, upper⟩ := mod_add_in_range nonzero wrong
    rw [Int64.toInt_add]
    exact Int.bmod_eq_of_le (by omega) (by omega)
  · rfl

/-- The remainder lies between zero and the divisor, and is never the divisor itself. -/
theorem floorRemInt_bounds (nonzero : d.toInt ≠ 0) :
    (0 < d.toInt → 0 ≤ (floorRemInt x d).toInt ∧ (floorRemInt x d).toInt < d.toInt) ∧
      (d.toInt < 0 → d.toInt < (floorRemInt x d).toInt ∧ (floorRemInt x d).toInt ≤ 0) := by
  have small := natAbs_toInt_mod_lt (x := x) nonzero
  rw [toInt_floorRemInt nonzero]
  by_cases wrong : hasWrongSign (x % d) d
  · rw [if_pos wrong]
    obtain ⟨rest, differ⟩ := hasWrongSign_iff.mp wrong
    constructor
    · intro positive
      omega
    · intro negative
      omega
  · rw [if_neg wrong]
    rw [hasWrongSign_iff] at wrong
    constructor
    · intro positive
      omega
    · intro negative
      omega

/-- Adding the divisor does not leave the class of the dividend. -/
theorem floorRemInt_modEq (nonzero : d.toInt ≠ 0) :
    (floorRemInt x d).toInt ≡ x.toInt [ZMOD d.toInt] := by
  have machine : (x % d).toInt ≡ x.toInt [ZMOD d.toInt] := by
    have rest : x.toInt - (x % d).toInt = d.toInt * x.toInt.tdiv d.toInt := by
      rw [Int64.toInt_mod, Int.tmod_def, Int.sub_sub_self]
    exact Int.modEq_iff_dvd.mpr ⟨_, rest⟩
  rw [toInt_floorRemInt nonzero]
  split
  · exact Int.add_modEq_right.trans machine
  · exact machine

end Integers

/-- A number of the class of the dividend that lies between zero and the divisor is what the
division toward minus infinity leaves. -/
theorem eq_sub_mul_floor {x d r : Int} (nonzero : d ≠ 0) (same : r ≡ x [ZMOD d])
    (above : 0 < d → 0 ≤ r ∧ r < d) (below : d < 0 → d < r ∧ r ≤ 0) :
    r = x - d * ⌊(x : ℚ) / d⌋ := by
  obtain ⟨quotient, equal⟩ := same.dvd
  have quotientEq : ⌊(x : ℚ) / d⌋ = quotient := by
    have dividend : (x : ℚ) = quotient * d + r := by
      have whole : x = quotient * d + r := by rw [Int.mul_comm, ← equal, Int.sub_add_cancel]
      exact_mod_cast whole
    rw [Int.floor_eq_iff, dividend]
    obtain negative | positive := lt_or_gt_of_ne nonzero
    · obtain ⟨lower, upper⟩ := below negative
      have negative' : (d : ℚ) < 0 := by exact_mod_cast negative
      have lower' : (d : ℚ) < r := by exact_mod_cast lower
      have upper' : (r : ℚ) ≤ 0 := by exact_mod_cast upper
      rw [le_div_iff_of_neg negative', div_lt_iff_of_neg negative']
      constructor <;> linarith
    · obtain ⟨lower, upper⟩ := above positive
      have positive' : (0 : ℚ) < d := by exact_mod_cast positive
      have lower' : (0 : ℚ) ≤ r := by exact_mod_cast lower
      have upper' : (r : ℚ) < d := by exact_mod_cast upper
      rw [le_div_iff₀ positive', div_lt_iff₀ positive']
      constructor <;> linarith
  rw [quotientEq, ← equal]
  omega

end Value

namespace Stack

open Value

section Mod

variable {s : Stack} {x d : Int64} {rest : List Value}

theorem execute_mod_of_zero (values : s.values = .int d :: rest) (zero : d.toInt = 0)
    (f : Elementary) : s.execute f .mod = (s, .error .divisionByZero) := by
  have restored : (⟨.int d :: rest, s.stash⟩ : Stack) = s := by rw [← values]
  have refused : d = 0 := Int64.toInt_inj.mp zero
  rw [execute, remainder, withTop, values]
  simp only [trunc, refused, if_pos]
  rw [← restored, refused]
  rfl

theorem execute_mod_of_ne (values : s.values = .int d :: .int x :: rest) (nonzero : d.toInt ≠ 0)
    (f : Elementary) :
    s.execute f .mod = ({ s with values := .int (floorRemInt x d) :: rest }, .ok .display) := by
  have accepted : d ≠ 0 := fun zero => nonzero (congrArg Int64.toInt zero)
  rw [execute, remainder, withTop, values]
  simp only [trunc, accepted, if_neg, not_false_eq_true, withTop, rem]
  rfl

/-- The remainder of two integers is that of the division toward minus infinity, which has the sign
of the divisor. Nothing that is computed on the way is out of range, and only the divisor zero is
refused, which leaves the stack as it is. -/
theorem mod_integers (values : s.values = .int d :: .int x :: rest) (f : Elementary) :
    (d.toInt ≠ 0 → ∃ r : Int64,
      s.execute f .mod = ({ s with values := .int r :: rest }, .ok .display) ∧
      r.toInt = x.toInt - d.toInt * ⌊(x.toInt : ℚ) / d.toInt⌋ ∧
      r.toInt ≡ x.toInt [ZMOD d.toInt] ∧
      (0 < d.toInt → 0 ≤ r.toInt ∧ r.toInt < d.toInt) ∧
      (d.toInt < 0 → d.toInt < r.toInt ∧ r.toInt ≤ 0) ∧
      (x % d).toInt = x.toInt.tmod d.toInt ∧
      (hasWrongSign (x % d) d = true →
        -2 ^ 63 ≤ (x % d).toInt + d.toInt ∧ (x % d).toInt + d.toInt < 2 ^ 63)) ∧
    ((s.execute f .mod).2 = .error .divisionByZero ↔ d.toInt = 0) ∧
    (d.toInt = 0 → (s.execute f .mod).1 = s) := by
  refine ⟨?_, ?_, ?_⟩
  · intro nonzero
    obtain ⟨above, below⟩ := floorRemInt_bounds (x := x) nonzero
    have same := floorRemInt_modEq (x := x) nonzero
    exact ⟨floorRemInt x d, execute_mod_of_ne values nonzero f,
      eq_sub_mul_floor nonzero same above below, same, above, below, Int64.toInt_mod x d,
      mod_add_in_range nonzero⟩
  · constructor
    · intro refused
      by_contra nonzero
      rw [execute_mod_of_ne values nonzero f] at refused
      cases refused
    · intro zero
      rw [execute_mod_of_zero values zero f]
  · intro zero
    rw [execute_mod_of_zero values zero f]

/-- The lowest integer by -1 leaves nothing, 7 by -3 leaves -2, and 7 by zero is refused. -/
theorem mod_integers_lowest :
    let on (x d : Int64) : Stack := { values := [.int d, .int x] }
    (∃ r : Int64, ((on Int64.minValue (-1)).execute .machine .mod).1.values = [.int r] ∧
      r.toInt = 0) ∧
    (∃ r : Int64, ((on 7 (-3)).execute .machine .mod).1.values = [.int r] ∧ r.toInt = -2) ∧
    (on 7 0).execute .machine .mod = (on 7 0, .error .divisionByZero) := by
  intro on
  have values (x d : Int64) : (on x d).values = .int d :: .int x :: [] := rfl
  obtain ⟨lowest, -⟩ := mod_integers (values Int64.minValue (-1)) .machine
  obtain ⟨seven, -⟩ := mod_integers (values 7 (-3)) .machine
  obtain ⟨-, refused, unchanged⟩ := mod_integers (values 7 0) .machine
  refine ⟨?_, ?_, Prod.ext (unchanged rfl) (refused.mpr rfl)⟩
  · obtain ⟨r, result, -, -, -, below, -⟩ := lowest (by decide)
    obtain ⟨lower, upper⟩ := below (by decide)
    refine ⟨r, congrArg (·.1.values) result, ?_⟩
    change -1 < r.toInt at lower
    omega
  · obtain ⟨r, result, -, same, -, below, -⟩ := seven (by decide)
    obtain ⟨lower, upper⟩ := below (by decide)
    obtain ⟨multiple, equal⟩ := Int.modEq_iff_dvd.mp same
    refine ⟨r, congrArg (·.1.values) result, ?_⟩
    change -3 < r.toInt at lower
    change 7 - r.toInt = -3 * multiple at equal
    omega

end Mod

end Stack

end Rpn
