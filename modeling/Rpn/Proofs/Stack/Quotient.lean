import Rpn.Proofs.Binary64.Quotient
import Rpn.Proofs.Value.Literal
import Rpn.Stack.Primitive

/-!
# The quotient of integers

A quotient is computed in floating point, also that of two integers of which one divides the other.
It is the exact quotient if the dividend has 53 significant bits, as all integers up to `2⁵³` have.
If it has more, the result may be another integer or have a fractional part, but it is off by one
part of `2⁵¹` at most. A quotient below `2⁵¹` is therefore never taken for another integer.
-/

namespace Rpn

namespace Value

theorem isZero_int_iff (n : Int64) : (int n).isZero = true ↔ n.toInt = 0 := by
  rw [isZero, toBinary64, Binary64.isZero, Binary64.units?_ofInt (natAbs_toInt_le n), beq_iff_eq,
    Option.some.injEq, Int.mul_eq_zero, or_iff_left Magnitude.natCast_one_ne_zero]
  constructor
  · intro zero
    by_contra nonzero
    have positive := rounded_pos (Int.natAbs_pos.mpr nonzero)
    rw [← Binary64.natAbs_roundedInt, zero, Int.natAbs_zero] at positive
    exact positive.false
  · intro zero
    rw [zero]
    decide

section Quotient

variable {x d q : Int64}

theorem signedUnits?_div (product : x.toInt = q.toInt * d.toInt) (nonzero : d.toInt ≠ 0) :
    (div (int x) (int d)).signedUnits? = some (q.toInt.sign * Magnitude.nearestUnits
      (rounded (q.toInt.natAbs * d.toInt.natAbs) * Magnitude.one) (rounded d.toInt.natAbs)) := by
  have bound := natAbs_toInt_le x
  rw [product] at bound
  rw [div, signedUnits?_ofBinary64, toBinary64, toBinary64, product]
  exact Binary64.units?_div_ofInt bound (natAbs_toInt_le d) nonzero

theorem div_eq_int_iff : div (int x) (int d) = int q ↔
    (div (int x) (int d)).signedUnits? = some (q.toInt * Magnitude.one) := by
  rw [div, ofBinary64_eq_int_iff, signedUnits?_ofBinary64]

/-- The quotient in floating point is off by one part of `2⁵¹` at most. -/
theorem div_near (product : x.toInt = q.toInt * d.toInt) (nonzero : d.toInt ≠ 0) :
    ∃ units, (div (int x) (int d)).signedUnits? = some units ∧
      2 ^ 51 * (units - q.toInt * Magnitude.one).natAbs ≤ q.toInt.natAbs * Magnitude.one := by
  refine ⟨_, signedUnits?_div product nonzero, ?_⟩
  obtain ⟨lower, upper⟩ := quotient_error q.toInt.natAbs (Int.natAbs_pos.mpr nonzero)
    (natAbs_toInt_le d)
  generalize Magnitude.nearestUnits _ _ = units at lower upper ⊢
  have signed : q.toInt.sign * units - q.toInt * Magnitude.one =
      q.toInt.sign * ((units : Int) - (q.toInt.natAbs * Magnitude.one : Nat)) := by
    rw [Int.mul_sub, Nat.cast_mul, ← Int.mul_assoc, Int.sign_mul_natAbs]
  have unit : q.toInt.sign.natAbs ≤ 1 := by
    rw [Int.natAbs_sign]
    split <;> decide
  rw [signed, Int.natAbs_mul]
  calc 2 ^ 51 * (q.toInt.sign.natAbs *
        ((units : Int) - (q.toInt.natAbs * Magnitude.one : Nat)).natAbs)
      ≤ 2 ^ 51 * (1 * ((units : Int) - (q.toInt.natAbs * Magnitude.one : Nat)).natAbs) :=
        Nat.mul_le_mul_left _ (Nat.mul_le_mul_right _ unit)
    _ ≤ q.toInt.natAbs * Magnitude.one := by
      generalize q.toInt.natAbs * Magnitude.one = exact at lower upper ⊢
      omega

/-- A dividend of 53 significant bits leads to the exact quotient. -/
theorem div_exact (product : x.toInt = q.toInt * d.toInt) (nonzero : d.toInt ≠ 0)
    (bits : ∃ significand bits : Nat, significand ≤ 2 ^ 53 ∧
      x.toInt.natAbs = significand * 2 ^ bits) : div (int x) (int d) = int q := by
  have exact := rounded_eq_self_iff.mpr bits
  rw [product, Int.natAbs_mul] at exact
  rw [div_eq_int_iff, signedUnits?_div product nonzero,
    nearestUnits_of_dvd (Int.natAbs_pos.mpr nonzero) exact, Nat.cast_mul, ← Int.mul_assoc,
    Int.sign_mul_natAbs]

/-- Two integers are not as near as a quotient below `2⁵¹` is to the exact one. -/
theorem eq_of_near {n q : Int} (small : q.natAbs < 2 ^ 51)
    (near : 2 ^ 51 * (n * Magnitude.one - q * Magnitude.one).natAbs ≤ q.natAbs * Magnitude.one) :
    n = q := by
  rw [← Int.sub_mul, Int.natAbs_mul, Int.natAbs_natCast, ← Nat.mul_assoc] at near
  have error : 2 ^ 51 * (n - q).natAbs ≤ q.natAbs :=
    Nat.le_of_mul_le_mul_right near Magnitude.one_pos
  omega

/-- A quotient below `2⁵¹` is exact, or has a fractional part. -/
theorem div_exact_or_fractional (product : x.toInt = q.toInt * d.toInt) (nonzero : d.toInt ≠ 0)
    (small : q.toInt.natAbs < 2 ^ 51) :
    div (int x) (int d) = int q ∨ (div (int x) (int d)).isIntegral = false := by
  cases integral : (div (int x) (int d)).isIntegral with
  | false => exact .inr rfl
  | true =>
    left
    obtain ⟨n, whole⟩ := isIntegral_iff_signedUnits?.mp integral
    obtain ⟨units, same, near⟩ := div_near product nonzero
    rw [whole, Option.some.injEq] at same
    rw [← same] at near
    rw [div_eq_int_iff, whole, eq_of_near small near]

/-- A division by 1 or -1 rounds the dividend. -/
theorem div_unit_iff (product : x.toInt = q.toInt * d.toInt) (unit : d.toInt.natAbs = 1) :
    div (int x) (int d) = int q ↔
      ∃ significand bits : Nat, significand ≤ 2 ^ 53 ∧
        x.toInt.natAbs = significand * 2 ^ bits := by
  have nonzero : d.toInt ≠ 0 := by omega
  refine ⟨?_, div_exact product nonzero⟩
  intro same
  have dividend : x.toInt.natAbs = q.toInt.natAbs := by
    rw [product, Int.natAbs_mul, unit, Nat.mul_one]
  have units := (signedUnits?_div product nonzero).symm.trans (div_eq_int_iff.mp same)
  rw [unit, Nat.mul_one, rounded_of_le (n := 1) (by decide), nearestUnits_mul_one, rounded_rounded,
    Option.some.injEq] at units
  have kept : rounded q.toInt.natAbs = q.toInt.natAbs := by
    obtain zero | other := eq_or_ne q.toInt 0
    · rw [zero]
      exact rounded_of_le (Nat.zero_le _)
    · have sizes := congrArg Int.natAbs units
      rw [Int.natAbs_mul, Int.natAbs_mul, Int.natAbs_natCast, Int.natAbs_natCast,
        Int.natAbs_sign_of_ne_zero other, Nat.one_mul] at sizes
      exact Nat.eq_of_mul_eq_mul_right Magnitude.one_pos sizes
  rw [dividend]
  exact rounded_eq_self_iff.mp kept

end Quotient

end Value

namespace Stack

open Value

section Div

variable {s : Stack} {x d q : Int64} {rest : List Value}

theorem execute_div_of_ne (values : s.values = .int d :: .int x :: rest) (nonzero : d.toInt ≠ 0)
    (f : Elementary) :
    s.execute f .div =
      ({ s with values := Value.div (.int x) (.int d) :: rest }, .ok .display) := by
  have accepted : ¬ (Value.int d).isZero = true := not_congr (isZero_int_iff d) |>.mpr nonzero
  have kept : (Value.div (.int x) (.int d)).normalize = Value.div (.int x) (.int d) :=
    (isNormal_ofBinary64 _).normalize_eq
  rw [execute, divide, withTop, values]
  simp only [accepted, if_neg, not_false_eq_true, Bool.false_eq_true, withTop, answer, push, kept]

/-- The quotient of an integer by one that divides it is off by one part of `2⁵¹` at most. It is
exact if the dividend has 53 significant bits, and only then if the divisor is 1 or -1; and a
quotient below `2⁵¹` has a fractional part if it is not exact. -/
theorem div_integers (values : s.values = .int d :: .int x :: rest)
    (product : x.toInt = q.toInt * d.toInt) (nonzero : d.toInt ≠ 0) (f : Elementary) :
    ∃ v : Value, s.execute f .div = ({ s with values := v :: rest }, .ok .display) ∧
      (∃ units, v.signedUnits? = some units ∧
        2 ^ 51 * (units - q.toInt * Magnitude.one).natAbs ≤ q.toInt.natAbs * Magnitude.one) ∧
      ((∃ significand bits : Nat, significand ≤ 2 ^ 53 ∧
        x.toInt.natAbs = significand * 2 ^ bits) → v = .int q) ∧
      (d.toInt.natAbs = 1 → (v = .int q ↔ ∃ significand bits : Nat, significand ≤ 2 ^ 53 ∧
        x.toInt.natAbs = significand * 2 ^ bits)) ∧
      (q.toInt.natAbs < 2 ^ 51 → v = .int q ∨ v.isIntegral = false) :=
  ⟨_, execute_div_of_ne values nonzero f, div_near product nonzero, div_exact product nonzero,
    div_unit_iff product, div_exact_or_fractional product nonzero⟩

/-- A quotient of 62 bits by 1, an exact one, and one below `2⁵¹` that has a fractional part. -/
theorem div_integers_three :
    let on (x d : Int64) : Stack := { values := [.int d, .int x] }
    ((on 4611686018427387904 1).execute .machine .div).1.values = [.int 4611686018427387904] ∧
    ((on (-9007199254740990) 3).execute .machine .div).1.values = [.int (-3002399751580330)] ∧
    ∃ v : Value, ((on 27021597764222979 9007199254740993).execute .machine .div).1.values = [v] ∧
      (v = .int 3 ∨ v.isIntegral = false) := by
  intro on
  have values (x d : Int64) : (on x d).values = .int d :: .int x :: [] := rfl
  obtain ⟨v, result, -, -, unit, -⟩ := div_integers (q := 4611686018427387904)
    (values 4611686018427387904 1) (by decide) (by decide) .machine
  obtain ⟨v', result', -, exact, -⟩ := div_integers (q := -3002399751580330)
    (values (-9007199254740990) 3) (by decide) (by decide) .machine
  obtain ⟨v'', result'', -, -, -, below⟩ := div_integers (q := 3)
    (values 27021597764222979 9007199254740993) (by decide) (by decide) .machine
  refine ⟨?_, ?_, v'', congrArg (·.1.values) result'', below (by decide)⟩
  · rw [result, (unit (by decide)).mpr ⟨1, 62, by decide, by decide⟩]
  · rw [result', exact ⟨9007199254740990, 0, by decide, by decide⟩]

/-- Three times the first integer of 54 significant bits, divided by that integer, is not 3. -/
theorem not_forall_div_exact :
    ¬ ∀ (s : Stack) (x d q : Int64) (rest : List Value) (f : Elementary),
      s.values = .int d :: .int x :: rest → x.toInt = q.toInt * d.toInt → d.toInt ≠ 0 →
      s.execute f .div = ({ s with values := .int q :: rest }, .ok .display) := by
  intro all
  let s : Stack := { values := [.int 9007199254740993, .int 27021597764222979] }
  have exact := all s 27021597764222979 9007199254740993 3 [] .machine rfl (by decide) (by decide)
  have result : s.execute .machine .div =
      ({ s with values := [.float (.ofBits 0x4008000000000001)] }, .ok .display) := by
    rw [execute_div_of_ne rfl (by decide)]
    have quotient : Value.div (.int 27021597764222979) (.int 9007199254740993) =
        .float (.ofBits 0x4008000000000001) := by decide +kernel
    rw [quotient]
  cases result.symm.trans exact

end Div

end Stack

end Rpn
