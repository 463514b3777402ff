import Rpn.Proofs.Binary64.Nearest
import Rpn.Proofs.Stack.Normal

/-!
# What the factorial refuses

The factorial is taken of integers, and what is no integer is told by how a value is held. On a
stack that operations have built this is told rightly of all numbers that an integer of 64 bits
could hold. A number out of that range is held in floating point even if it is integral, and is
refused as a fraction, a negative one too.
-/

namespace Rpn

namespace Value

variable {v : Value}

/-- The integer of any size that a value is equal to. -/
def toInt? : Value → Option Int
  | int n => some n.toInt
  | float x => x.toInt?

/-- Equal to an integer that does not fit into 64 bits. -/
def OutOfRange (v : Value) : Prop := ∃ n, v.toInt? = some n ∧ (n < -2 ^ 63 ∨ 2 ^ 63 ≤ n)

theorem isIntegral_iff : v.isIntegral = true ↔ ∃ n, v.toInt? = some n := by
  cases v with
  | int n => exact ⟨fun _ => ⟨_, rfl⟩, fun _ => rfl⟩
  | float x =>
    constructor
    · intro integral
      obtain ⟨units, finite, n, rfl⟩ := Binary64.isIntegral_iff.mp integral
      exact ⟨n, Binary64.toInt?_eq_some_iff.mpr (by rw [finite, Int.mul_comm])⟩
    · rintro ⟨n, whole⟩
      have finite := Binary64.toInt?_eq_some_iff.mp whole
      exact Binary64.isIntegral_iff.mpr ⟨_, finite, Int.dvd_mul_left n _⟩

theorem not_outOfRange_int (n : Int64) : ¬ (int n).OutOfRange := by
  rintro ⟨_, ⟨⟩, outside⟩
  have lower := n.le_toInt
  have upper := n.toInt_lt
  omega

/-- An integral number that has stayed in floating point is out of range. -/
theorem IsNormal.outOfRange_of_isIntegral {x : Binary64} (normal : (float x).IsNormal)
    (integral : (float x).isIntegral = true) : (float x).OutOfRange := by
  obtain ⟨n, whole⟩ := isIntegral_iff.mp integral
  have kept : ofBinary64 x = float x := normal.normalize_eq
  rw [ofBinary64_of_toInt? whole] at kept
  refine ⟨n, whole, ?_⟩
  by_contra inside
  rw [if_pos (by omega)] at kept
  cases kept

theorem isNegative_int (n : Int64) : (int n).isNegative = decide (n.toInt < 0) := by
  obtain ⟨m, same, units⟩ := Binary64.exists_ofInt (natAbs_toInt_le n)
  rw [isNegative, toBinary64, same, Binary64.isNegative]
  by_cases negative : n.toInt < 0
  · have large : 0 < rounded n.toInt.natAbs := rounded_pos (by omega)
    have nonzero : m.units ≠ 0 := units ▸ (Nat.mul_pos large Magnitude.one_pos).ne'
    simp [negative, nonzero]
  · simp [negative]

end Value

namespace Stack

variable {s : Stack} {rest : List Value}

theorem result_factorial_float {x : Binary64} (values : s.values = .float x :: rest)
    (f : Elementary) : (s.execute f .factorial).2 = .error .factorialOfFraction := by
  rw [execute, takeFactorial, withTop, values]
  rfl

theorem result_factorial_int {n : Int64} (values : s.values = .int n :: rest) (f : Elementary) :
    (s.execute f .factorial).2 =
      if n.toInt < 0 then .error .factorialOfNegative else .ok .display := by
  rw [execute, takeFactorial, withTop, values]
  dsimp only
  split <;> rfl

/-- A factorial is refused as that of a fraction where the number is not integral or is out of
range, and as that of a negative number where it is negative and neither of these, and is taken
everywhere else. -/
theorem Built.factorial_reports {v : Value} (built : s.Built) (values : s.values = v :: rest)
    (f : Elementary) :
    ((s.execute f .factorial).2 = .error .factorialOfFraction ↔
      v.isIntegral = false ∨ v.OutOfRange) ∧
    ((s.execute f .factorial).2 = .error .factorialOfNegative ↔
      v.isIntegral = true ∧ v.isNegative = true ∧ ¬ v.OutOfRange) ∧
    ((s.execute f .factorial).2 = .ok .display ↔
      v.isIntegral = true ∧ v.isNegative = false ∧ ¬ v.OutOfRange) := by
  have normal : v.IsNormal := built.normal.values v (values ▸ List.mem_cons_self)
  cases v with
  | float x =>
    have outside : (Value.float x).isIntegral = true → (Value.float x).OutOfRange :=
      normal.outOfRange_of_isIntegral
    rw [result_factorial_float values]
    cases integral : (Value.float x).isIntegral with
    | false => simp
    | true => simp [outside integral]
  | int n =>
    have inside := Value.not_outOfRange_int n
    have integral : (Value.int n).isIntegral = true := rfl
    rw [result_factorial_int values, Value.isNegative_int]
    by_cases negative : n.toInt < 0
    · simp [negative, inside, integral]
    · simp [negative, inside, integral]

/-- The number -10²⁰ is refused as a fraction and -3 as a negative number, and 5 is not refused. -/
theorem Built.factorial_reports_large :
    let large := Value.float (.ofDecimal true 1 20)
    let on (v : Value) := ({} : Stack).push v
    ((on large).values = [large] ∧ large.OutOfRange ∧
      ((on large).execute .machine .factorial).2 = .error .factorialOfFraction) ∧
    ((on (.int (-3))).execute .machine .factorial).2 = .error .factorialOfNegative ∧
    ((on (.int 5)).execute .machine .factorial).2 = .ok .display := by
  intro large on
  have built (v : Value) : (on v).Built := .push .empty v
  have values : (on large).values = [large] := by decide +kernel
  have outside : large.OutOfRange := ⟨-100000000000000000000, by decide +kernel, by decide⟩
  obtain ⟨fraction, -, -⟩ := (built large).factorial_reports values .machine
  obtain ⟨-, negative, -⟩ := (built (.int (-3))).factorial_reports rfl .machine
  obtain ⟨-, -, taken⟩ := (built (.int 5)).factorial_reports rfl .machine
  refine ⟨⟨values, outside, fraction.mpr (.inr outside)⟩, negative.mpr ?_, taken.mpr ?_⟩
  · exact ⟨rfl, by decide +kernel, Value.not_outOfRange_int _⟩
  · exact ⟨rfl, by decide +kernel, Value.not_outOfRange_int _⟩

/-- An integral number that is negative and out of range is not reported as negative. -/
theorem not_forall_factorial_diagnosed :
    ¬ ∀ (s : Stack) (v : Value) (rest : List Value) (f : Elementary), s.Built →
      s.values = v :: rest →
      ((s.execute f .factorial).2 = .error .factorialOfFraction ↔ v.isIntegral = false) ∧
      ((s.execute f .factorial).2 = .error .factorialOfNegative ↔
        v.isIntegral = true ∧ v.isNegative = true) ∧
      ((s.execute f .factorial).2 = .ok .display ↔
        v.isIntegral = true ∧ v.isNegative = false) := by
  intro all
  let large := Value.float (.ofDecimal true 1 20)
  have values : (({} : Stack).push large).values = [large] := by decide +kernel
  obtain ⟨-, negative, -⟩ := all _ large [] .machine (.push .empty large) values
  have refused := result_factorial_float values .machine
  have diagnosed := negative.mpr ⟨by decide +kernel, by decide +kernel⟩
  cases refused.symm.trans diagnosed

end Stack

end Rpn
