import Mathlib.Algebra.Order.Ring.Int
import Mathlib.Algebra.Ring.Parity
import Mathlib.Data.Nat.Prime.Basic
import Rpn.Proofs.Binary64.TenPower

/-!
# Rounding to multiples

To round a number to a multiple of a unit is to divide by the unit, to round the quotient to an
integer and to multiply by the unit again. In floating point the quotient is rounded before, and it
might come to lie on the other side of a half, or on it. This does not happen as long as the last
significant bit of the number is below the factors two of the unit and the unit is not a power of
two itself (`roundHalfEven_nearestUnits`): then a quotient that is not half an integer keeps away
from all halves by more than half a space.
-/

namespace Rpn

/-- The multiple of `unit` nearest to `n`, and of two that are equally near the even one. -/
def IsNearestMultiple (unit : Nat) (n m : Int) : Prop :=
  ∃ count : Int, m = count * unit ∧
    (2 * (n - m).natAbs < unit ∨ 2 * (n - m).natAbs = unit ∧ Even count)

namespace IsNearestMultiple

variable {unit : Nat} {n m m' : Int}

/-- Two consecutive multiples that are equally near are not both even. -/
theorem not_consecutive {count : Int}
    (near : 2 * (n - count * unit).natAbs < unit ∨
      2 * (n - count * unit).natAbs = unit ∧ Even count)
    (near' : 2 * (n - (count + 1) * unit).natAbs < unit ∨
      2 * (n - (count + 1) * unit).natAbs = unit ∧ Even (count + 1)) : False := by
  rw [Int.add_mul, Int.one_mul] at near'
  obtain less | ⟨tie, even⟩ := near
  · omega
  · obtain less' | ⟨tie', even'⟩ := near'
    · omega
    · exact Int.even_add_one.mp even' even

/-- There is only one. -/
theorem unique (positive : 0 < unit) (near : IsNearestMultiple unit n m)
    (near' : IsNearestMultiple unit n m') : m = m' := by
  obtain ⟨count, rfl, near⟩ := near
  obtain ⟨count', rfl, near'⟩ := near'
  have within : (count - count').natAbs * unit ≤ 1 * unit := by
    have apart : (count - count') * unit = count * unit - count' * unit := Int.sub_mul ..
    have size := congrArg Int.natAbs apart
    rw [Int.natAbs_mul, Int.natAbs_natCast] at size
    omega
  have few : (count - count').natAbs ≤ 1 := Nat.le_of_mul_le_mul_right within positive
  obtain rfl | rfl | rfl : count = count' ∨ count = count' + 1 ∨ count' = count + 1 := by omega
  · rfl
  · exact (not_consecutive near' near).elim
  · exact (not_consecutive near near').elim

theorem neg (near : IsNearestMultiple unit n m) : IsNearestMultiple unit (-n) (-m) := by
  obtain ⟨count, rfl, near⟩ := near
  have size : (-n - -(count * unit)).natAbs = (n - count * unit).natAbs := by omega
  refine ⟨-count, (Int.neg_mul _ _).symm, ?_⟩
  rw [size, even_neg]
  exact near

theorem of_roundHalfEven (n : Nat) (positive : 0 < unit) :
    IsNearestMultiple unit n (unit * roundHalfEven n unit : Nat) := by
  refine ⟨roundHalfEven n unit, by rw [Nat.cast_mul, Int.mul_comm], ?_⟩
  obtain near | ⟨tie, even⟩ := roundHalfEven_cases n positive
  · exact .inl near
  · exact .inr ⟨tie, (Int.even_coe_nat _).mpr (Nat.even_iff.mpr even)⟩

end IsNearestMultiple

section Quotient

variable {a d t : Nat}

/-- The rounded quotient is the only one that is so near. -/
theorem roundHalfEven_unique {num den count : Nat} (positive : 0 < den)
    (near : IsNearestMultiple den num (den * count : Nat)) : roundHalfEven num den = count := by
  have same := (IsNearestMultiple.of_roundHalfEven num positive).unique positive near
  exact Nat.eq_of_mul_eq_mul_left positive (Int.ofNat_inj.mp same)

/-- Half a space between quotients, times the divisor, is less than the last significant bit. -/
theorem mul_two_pow_spacing_lt (bound : a ≤ 2 ^ (t + 53)) (small : d < Magnitude.one)
    (other : ∀ bits, d ≠ 2 ^ bits) :
    d * 2 ^ spacing (a * Magnitude.one / d) < 2 ^ (t + 1) * Magnitude.one := by
  obtain ⟨bits, power⟩ : ∃ bits, Magnitude.one = 2 ^ bits := ⟨_, Magnitude.one_eq⟩
  by_cases large : 2 ^ 52 ≤ a * Magnitude.one / d
  · have step := mul_two_pow_spacing_le large
    have scaled : a * Magnitude.one ≤ 2 ^ (t + 1) * Magnitude.one * 2 ^ 52 := by
      calc a * Magnitude.one
          ≤ 2 ^ (t + 53) * Magnitude.one := Nat.mul_le_mul_right _ bound
        _ = 2 ^ (t + 1) * Magnitude.one * 2 ^ 52 := by
          rw [Nat.pow_add 2 t 53, Nat.pow_add 2 t 1]
          ring
    have most := Nat.le_of_mul_le_mul_right (step.trans scaled) (Nat.two_pow_pos 52)
    apply most.lt_of_ne
    intro whole
    rw [power, ← Nat.pow_add] at whole
    obtain ⟨i, -, same⟩ := (Nat.dvd_prime_pow Nat.prime_two).mp (Dvd.intro _ whole)
    exact other i same
  · have near : spacing (a * Magnitude.one / d) = 0 := by
      apply Nat.le_zero.mp
      exact spacing_of_lt (by omega)
    rw [near, Nat.pow_zero, Nat.mul_one]
    exact small.trans_le (Nat.le_mul_of_pos_left _ (Nat.two_pow_pos _))

/-- A quotient that lies half way between two integers is exact. -/
theorem nearestUnits_of_half {j : Nat} (positive : 0 < d) (bound : j ≤ 2 ^ 53)
    (half : 2 * a = d * j) :
    2 * Magnitude.nearestUnits (a * Magnitude.one) d = j * Magnitude.one := by
  obtain ⟨bits, nonzero, power⟩ : ∃ bits, 0 < bits ∧ Magnitude.one = 2 ^ bits :=
    ⟨1074, by decide, Magnitude.one_eq⟩
  have double : 2 ^ (bits - 1) * 2 = Magnitude.one := (Nat.pow_pred_mul nonzero).trans power.symm
  have same : a * Magnitude.one * 1 = j * 2 ^ (bits - 1) * d := by
    rw [← double]
    calc a * (2 ^ (bits - 1) * 2) * 1
        = 2 * a * 2 ^ (bits - 1) := by ring
      _ = j * 2 ^ (bits - 1) * d := by
        rw [half]
        ring
  have exact : Magnitude.nearestUnits (j * 2 ^ (bits - 1)) 1 = rounded j * 2 ^ (bits - 1) :=
    rounded_mul_two_pow j (bits - 1)
  rw [Magnitude.nearestUnits_congr positive Nat.one_pos same, exact, rounded_of_le bound, ← double]
  ring

/-- The rounding of the quotient is less than what a quotient that is not half an integer is away
from a half. -/
theorem nearestUnits_near_of_strict {c : Nat} (aligned : 2 ^ t ∣ a) (bound : a ≤ 2 ^ (t + 53))
    (coarse : 2 ^ (t + 1) ∣ d) (positive : 0 < d) (small : d < Magnitude.one)
    (other : ∀ bits, d ≠ 2 ^ bits) (strict : 2 * (a - (d * c : Nat) : Int).natAbs < d) :
    2 * (Magnitude.nearestUnits (a * Magnitude.one) d - (Magnitude.one * c : Nat) : Int).natAbs <
      Magnitude.one := by
  have step := mul_two_pow_spacing_lt bound small other
  have error := nearestUnits_bounds (a * Magnitude.one) positive
  generalize Magnitude.nearestUnits (a * Magnitude.one) d = N at error ⊢
  have apart : 2 * (a - (d * c : Nat) : Int).natAbs + 2 ^ (t + 1) ≤ d := by
    have product : 2 ^ t ∣ d * c :=
      ((Nat.pow_dvd_pow 2 (Nat.le_succ t)).trans coarse).trans (Nat.dvd_mul_right d c)
    have difference : (2 ^ t : Nat) ∣ (a - (d * c : Nat) : Int).natAbs := by
      rw [← Int.natCast_dvd]
      exact Int.dvd_sub (Int.natCast_dvd_natCast.mpr aligned) (Int.natCast_dvd_natCast.mpr product)
    apply add_le_of_dvd _ coarse strict
    rw [Nat.pow_succ']
    exact Nat.mul_dvd_mul_left 2 difference
  -- The distance of the rounded quotient from the integer, in units and times the divisor.
  have sum : d * (2 * (N - (Magnitude.one * c : Nat) : Int).natAbs) ≤
      2 * ((d * N : Nat) - (a * Magnitude.one : Nat) : Int).natAbs +
        Magnitude.one * (2 * (a - (d * c : Nat) : Int).natAbs) := by
    have split : (d : Int) * (2 * (N - (Magnitude.one * c : Nat))) =
        2 * ((d * N : Nat) - (a * Magnitude.one : Nat)) +
          Magnitude.one * (2 * (a - (d * c : Nat))) := by
      push_cast
      ring
    have triangle := Int.natAbs_add_le (2 * ((d * N : Nat) - (a * Magnitude.one : Nat)))
      (Magnitude.one * (2 * (a - (d * c : Nat))))
    rw [← split] at triangle
    simpa only [Int.natAbs_mul, Int.natAbs_natCast, Int.reduceAbs] using triangle
  have scaled := Nat.mul_le_mul_left Magnitude.one apart
  rw [Nat.mul_add, Nat.mul_comm _ (2 ^ (t + 1)), Nat.mul_comm _ d] at scaled
  apply Nat.lt_of_mul_lt_mul_left (a := d)
  generalize d * 2 ^ spacing _ = space at step error
  omega

/-- It makes no difference that the quotient is rounded to 53 significant bits before it is rounded
to an integer. -/
theorem roundHalfEven_nearestUnits (aligned : 2 ^ t ∣ a) (bound : a ≤ 2 ^ (t + 53))
    (coarse : 2 ^ (t + 1) ∣ d) (positive : 0 < d) (small : d < Magnitude.one)
    (other : ∀ bits, d ≠ 2 ^ bits) :
    roundHalfEven (Magnitude.nearestUnits (a * Magnitude.one) d) Magnitude.one =
      roundHalfEven a d := by
  have near := roundHalfEven_cases a positive
  generalize roundHalfEven a d = c at near ⊢
  apply roundHalfEven_unique Magnitude.one_pos
  refine ⟨c, by rw [Nat.cast_mul, Int.mul_comm], ?_⟩
  obtain strict | ⟨tie, even⟩ := near
  · left
    exact nearestUnits_near_of_strict aligned bound coarse positive small other strict
  · right
    refine ⟨?_, (Int.even_coe_nat _).mpr (Nat.even_iff.mpr even)⟩
    obtain ⟨j, half, odd⟩ : ∃ j : Nat, 2 * a = d * j ∧ (j = 2 * c + 1 ∨ j + 1 = 2 * c) := by
      by_cases above : d * c ≤ a
      · refine ⟨2 * c + 1, ?_, .inl rfl⟩
        rw [Nat.mul_add, Nat.mul_left_comm]
        omega
      · have nonzero : c ≠ 0 := by
          rintro rfl
          omega
        refine ⟨2 * c - 1, ?_, .inr (by omega)⟩
        rw [Nat.mul_sub, Nat.mul_left_comm]
        omega
    have few : j ≤ 2 ^ 53 := by
      refine Nat.le_of_mul_le_mul_left ?_ (Nat.two_pow_pos (t + 1))
      calc 2 ^ (t + 1) * j
          ≤ d * j := Nat.mul_le_mul_right _ (Nat.le_of_dvd positive coarse)
        _ = 2 * a := half.symm
        _ ≤ 2 * 2 ^ (t + 53) := Nat.mul_le_mul_left _ bound
        _ = 2 ^ (t + 1) * 2 ^ 53 := by
          rw [Nat.pow_add 2 t 53, Nat.pow_succ 2 t]
          ring
    have exact := nearestUnits_of_half positive few half
    obtain rfl | last := odd
    · rw [Nat.add_mul, Nat.mul_assoc, Nat.mul_comm c] at exact
      omega
    · have next := congrArg (· * Magnitude.one) last
      rw [Nat.add_mul, Nat.mul_assoc, Nat.mul_comm c] at next
      omega

end Quotient

end Rpn
