import Mathlib.Data.Nat.Factorization.Basic
import Rpn.Proofs.Binary64.Nearest

/-!
# Quotients of whole numbers

Each rounding is off by one part of `2⁵³` at most. A quotient of two whole numbers is rounded once
itself and each of its terms was rounded before, so it is off by less than four such parts
(`quotient_error`).

Nothing is lost when the dividend has 53 significant bits and the divisor divides it, since then the
divisor and the quotient have no more than that (`nearestUnits_of_dvd`).
-/

namespace Rpn

section Error

variable {num den a b q : Nat}

/-- A quotient is rounded by half a space at most. -/
theorem nearestUnits_bounds (num : Nat) (positive : 0 < den) :
    2 * num ≤ 2 * (den * Magnitude.nearestUnits num den) + den * 2 ^ spacing (num / den) ∧
      2 * (den * Magnitude.nearestUnits num den) ≤ 2 * num + den * 2 ^ spacing (num / den) := by
  rw [mul_nearestUnits]
  exact roundHalfEven_bounds num (Nat.mul_pos positive (Nat.two_pow_pos _))

/-- The spaces around a quotient are one part of `2⁵²` of it at most, unless it is tiny. -/
theorem mul_two_pow_spacing_le (large : 2 ^ 52 ≤ num / den) :
    den * 2 ^ spacing (num / den) * 2 ^ 52 ≤ num := by
  rw [Nat.mul_assoc, ← Nat.pow_add]
  exact (Nat.mul_le_mul_left den (two_pow_spacing_le large)).trans (Nat.mul_div_le num den)

theorem nearestUnits_error (positive : 0 < den) (large : 2 ^ 52 * den ≤ num) :
    (2 ^ 53 - 1) * num ≤ 2 ^ 53 * (den * Magnitude.nearestUnits num den) ∧
      2 ^ 53 * (den * Magnitude.nearestUnits num den) ≤ (2 ^ 53 + 1) * num := by
  have step := mul_two_pow_spacing_le ((Nat.le_div_iff_mul_le positive).mpr large)
  have error := nearestUnits_bounds num positive
  omega

/-- The gain in rounding is one part of `2⁵³` at most. -/
theorem mul_rounded_le_mul (n : Nat) : 2 ^ 53 * rounded n ≤ (2 ^ 53 + 1) * n := by
  by_cases small : n ≤ 2 ^ 53
  · rw [rounded_of_le small]
    omega
  · obtain ⟨-, upper⟩ := nearestUnits_error Nat.one_pos (by omega : 2 ^ 52 * 1 ≤ n)
    rwa [Nat.one_mul] at upper

/-- The units of one leave room for any divisor of 64 bits. -/
theorem two_pow_mul_le_mul_one (dividend : 0 < a) (divisor : b ≤ 2 ^ 64) :
    2 ^ 52 * b ≤ a * Magnitude.one := by
  calc 2 ^ 52 * b
      ≤ 2 ^ 52 * 2 ^ 64 := Nat.mul_le_mul_left _ divisor
    _ = 2 ^ (52 + 64) := (Nat.pow_add 2 52 64).symm
    _ ≤ Magnitude.one :=
      (Nat.pow_le_pow_right (by decide) (by decide)).trans_eq Magnitude.one_eq.symm
    _ ≤ a * Magnitude.one := Nat.le_mul_of_pos_left _ dividend

theorem nearestUnits_zero (positive : 0 < b) :
    Magnitude.nearestUnits (rounded (0 * b) * Magnitude.one) (rounded b) = 0 := by
  have divisor : 0 < rounded b := rounded_pos positive
  rw [Nat.zero_mul, rounded_of_le (Nat.zero_le _), Nat.zero_mul]
  exact Magnitude.nearestUnits_eq_zero (by omega)

/-- The dividend, the divisor and the quotient are each rounded once. -/
theorem quotient_error (q : Nat) (positive : 0 < b) (bound : b ≤ 2 ^ 63) :
    let units := Magnitude.nearestUnits (rounded (q * b) * Magnitude.one) (rounded b)
    2 ^ 51 * (q * Magnitude.one) ≤ 2 ^ 51 * units + q * Magnitude.one ∧
      2 ^ 51 * units ≤ 2 ^ 51 * (q * Magnitude.one) + q * Magnitude.one := by
  intro units
  obtain rfl | nonzero := Nat.eq_zero_or_pos q
  · have zero : units = 0 := nearestUnits_zero positive
    rw [zero]
    omega
  have dividend : 0 < rounded (q * b) := rounded_pos (Nat.mul_pos nonzero positive)
  have divisor : rounded b ≤ 2 ^ (11 + 53) := rounded_le_two_pow (by omega)
  obtain ⟨lower, upper⟩ := nearestUnits_error (rounded_pos positive)
    (two_pow_mul_le_mul_one dividend divisor)
  -- The divisor is taken out of the three errors together.
  have above : 2 ^ 53 * (2 ^ 53 - 1) * units ≤ (2 ^ 53 + 1) ^ 2 * (q * Magnitude.one) := by
    refine Nat.le_of_mul_le_mul_left ?_ positive
    calc b * (2 ^ 53 * (2 ^ 53 - 1) * units)
        = 2 ^ 53 * ((2 ^ 53 - 1) * b * units) := by ring
      _ ≤ 2 ^ 53 * (2 ^ 53 * rounded b * units) :=
        Nat.mul_le_mul_left _ (Nat.mul_le_mul_right _ (mul_le_mul_rounded b))
      _ = 2 ^ 53 * (2 ^ 53 * (rounded b * units)) := by ring
      _ ≤ 2 ^ 53 * ((2 ^ 53 + 1) * (rounded (q * b) * Magnitude.one)) :=
        Nat.mul_le_mul_left _ upper
      _ = (2 ^ 53 + 1) * (2 ^ 53 * rounded (q * b) * Magnitude.one) := by ring
      _ ≤ (2 ^ 53 + 1) * ((2 ^ 53 + 1) * (q * b) * Magnitude.one) :=
        Nat.mul_le_mul_left _ (Nat.mul_le_mul_right _ (mul_rounded_le_mul (q * b)))
      _ = b * ((2 ^ 53 + 1) ^ 2 * (q * Magnitude.one)) := by ring
  have below : (2 ^ 53 - 1) ^ 2 * (q * Magnitude.one) ≤ 2 ^ 53 * (2 ^ 53 + 1) * units := by
    refine Nat.le_of_mul_le_mul_left ?_ positive
    calc b * ((2 ^ 53 - 1) ^ 2 * (q * Magnitude.one))
        = (2 ^ 53 - 1) * ((2 ^ 53 - 1) * (q * b) * Magnitude.one) := by ring
      _ ≤ (2 ^ 53 - 1) * (2 ^ 53 * rounded (q * b) * Magnitude.one) :=
        Nat.mul_le_mul_left _ (Nat.mul_le_mul_right _ (mul_le_mul_rounded (q * b)))
      _ = 2 ^ 53 * ((2 ^ 53 - 1) * (rounded (q * b) * Magnitude.one)) := by ring
      _ ≤ 2 ^ 53 * (2 ^ 53 * (rounded b * units)) := Nat.mul_le_mul_left _ lower
      _ = 2 ^ 53 * (2 ^ 53 * rounded b * units) := by ring
      _ ≤ 2 ^ 53 * ((2 ^ 53 + 1) * b * units) :=
        Nat.mul_le_mul_left _ (Nat.mul_le_mul_right _ (mul_rounded_le_mul b))
      _ = b * (2 ^ 53 * (2 ^ 53 + 1) * units) := by ring
  generalize q * Magnitude.one = exact at above below ⊢
  omega

end Error

section Exact

variable {a b q : Nat}

theorem rounded_rounded (n : Nat) : rounded (rounded n) = rounded n := by
  have aligned := Magnitude.aligned_nearestUnits n 1
  rw [Nat.one_shiftLeft] at aligned
  exact rounded_of_dvd aligned

/-- A divisor has no more significant bits than the number. -/
theorem rounded_eq_self_of_dvd (nonzero : a ≠ 0) (exact : rounded a = a) (divides : b ∣ a) :
    rounded b = b := by
  obtain ⟨significand, bits, small, same⟩ := rounded_eq_self_iff.mp exact
  have nonzero' : b ≠ 0 := ne_zero_of_dvd_ne_zero nonzero divides
  obtain ⟨bits', odd, isOdd, factors⟩ := Nat.exists_eq_two_pow_mul_odd nonzero'
  have apart : Nat.Coprime odd (2 ^ bits) := isOdd.coprime_two_right.pow_right bits
  have divides' : odd ∣ significand * 2 ^ bits := by
    rw [← same]
    exact (Dvd.intro_left _ factors.symm).trans divides
  have significand_pos : 0 < significand := by
    by_contra zero
    rw [Nat.eq_zero_of_not_pos zero, Nat.zero_mul] at same
    exact nonzero same
  have less : odd ≤ significand :=
    Nat.le_of_dvd significand_pos (apart.dvd_of_dvd_mul_right divides')
  exact rounded_eq_self_iff.mpr ⟨odd, bits', less.trans small, factors.trans (Nat.mul_comm _ _)⟩

/-- A quotient without remainder is exact when the dividend is. -/
theorem nearestUnits_of_dvd (positive : 0 < b) (exact : rounded (q * b) = q * b) :
    Magnitude.nearestUnits (rounded (q * b) * Magnitude.one) (rounded b) = q * Magnitude.one := by
  obtain rfl | nonzero := Nat.eq_zero_or_pos q
  · rw [nearestUnits_zero positive, Nat.zero_mul]
  have product : q * b ≠ 0 := (Nat.mul_pos nonzero positive).ne'
  have divisor : rounded b = b := rounded_eq_self_of_dvd product exact (Nat.dvd_mul_left b q)
  have quotient : rounded q = q := rounded_eq_self_of_dvd product exact (Nat.dvd_mul_right q b)
  have same : q * b * Magnitude.one * 1 = q * Magnitude.one * b := by ring
  rw [exact, divisor, Magnitude.nearestUnits_congr positive Nat.one_pos same,
    nearestUnits_mul_one, quotient]

end Exact

namespace Binary64

theorem exists_ofRatio (negative : Bool) {num den : Nat}
    (bounded : Magnitude.nearestUnits num den < unitsLimit) :
    ∃ m : Magnitude, ofRatio negative num den = finite negative m ∧
      m.units = Magnitude.nearestUnits num den := by
  rw [ofRatio, Magnitude.nearest?, dif_pos bounded]
  exact ⟨_, rfl, rfl⟩

/-- Whole numbers of 64 bits leave no doubt about the bound of the format. -/
theorem nearestUnits_lt_unitsLimit {a : Nat} (den : Nat) (bound : a ≤ 2 ^ 64) :
    Magnitude.nearestUnits (a * Magnitude.one) den < unitsLimit := by
  obtain ⟨bits, power⟩ : ∃ bits, Magnitude.one = 2 ^ bits := ⟨_, Magnitude.one_eq⟩
  have quotient : a * Magnitude.one / den < 2 ^ (bits + 12 + 53) := by
    calc a * Magnitude.one / den
        ≤ a * Magnitude.one := Nat.div_le_self _ _
      _ ≤ 2 ^ 64 * 2 ^ bits := power ▸ Nat.mul_le_mul_right _ bound
      _ = 2 ^ (64 + bits) := (Nat.pow_add ..).symm
      _ < 2 ^ (bits + 12 + 53) := Nat.pow_lt_pow_right (by decide) (by omega)
  calc Magnitude.nearestUnits (a * Magnitude.one) den
      ≤ 2 ^ (bits + 12 + 53) := nearestUnits_le_two_pow quotient
    _ < unitsLimit := by
      rw [unitsLimit_eq_mul_one, power, ← Nat.pow_add]
      apply Nat.pow_lt_pow_right <;> omega

/-- A quotient of integers is a quotient of what they are rounded to. -/
theorem div_ofInt {x d : Int} (boundX : x.natAbs ≤ 2 ^ 63) (boundD : d.natAbs ≤ 2 ^ 63)
    (nonzero : d ≠ 0) :
    (ofInt x).div (ofInt d) = ofRatio (decide (x < 0) != decide (d < 0))
      (rounded x.natAbs * Magnitude.one) (rounded d.natAbs) := by
  obtain ⟨m, sameX, unitsX⟩ := exists_ofInt boundX
  obtain ⟨m', sameD, unitsD⟩ := exists_ofInt boundD
  have divisor : 0 < rounded d.natAbs := rounded_pos (Int.natAbs_pos.mpr nonzero)
  have positive : 0 < m'.units := unitsD ▸ Nat.mul_pos divisor Magnitude.one_pos
  rw [sameX, sameD, div, if_neg positive.ne']
  apply ofRatio_congr _ positive divisor
  rw [unitsX, unitsD]
  ring

theorem sign_quotient {q d : Int} (nonzeroQ : q ≠ 0) (nonzero : d ≠ 0) :
    (decide (q * d < 0) != decide (d < 0)) = decide (q < 0) := by
  rw [← Value.sign_mul nonzeroQ nonzero, Bool.bne_assoc, bne_self_eq_false, Bool.bne_false]

/-- The quotient of a product by one of its factors has the sign of the other factor. -/
theorem units?_div_ofInt {q d : Int} (bound : (q * d).natAbs ≤ 2 ^ 63) (boundD : d.natAbs ≤ 2 ^ 63)
    (nonzero : d ≠ 0) :
    ((ofInt (q * d)).div (ofInt d)).units? = some (q.sign * Magnitude.nearestUnits
      (rounded (q.natAbs * d.natAbs) * Magnitude.one) (rounded d.natAbs)) := by
  have dividend : rounded (q * d).natAbs ≤ 2 ^ (11 + 53) := rounded_le_two_pow (by omega)
  obtain ⟨m, same, units⟩ := exists_ofRatio (decide (q * d < 0) != decide (d < 0))
    (nearestUnits_lt_unitsLimit (rounded d.natAbs) dividend)
  rw [div_ofInt bound boundD nonzero, same, units?, units, Int.natAbs_mul, Option.some.injEq]
  obtain rfl | nonzeroQ := eq_or_ne q 0
  · have zero := nearestUnits_zero (Int.natAbs_pos.mpr nonzero)
    rw [Int.natAbs_zero, zero]
    split <;> rfl
  · rw [sign_quotient nonzeroQ nonzero]
    by_cases negative : q < 0
    · rw [if_pos (decide_eq_true negative), Int.sign_eq_neg_one_of_neg negative, Int.neg_one_mul]
    · have positive : 0 < q := by omega
      rw [if_neg (by simpa using negative), Int.sign_eq_one_of_pos positive, Int.one_mul]

end Binary64

end Rpn
