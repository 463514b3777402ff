import Rpn.Proofs.Binary64.Multiples

/-!
# Rounding integers to tens, hundreds and so on

To be rounded at the `k`th place before the point, an integer is converted to floating point,
divided by `10ᵏ`, rounded to an integer and multiplied by `10ᵏ` again. Up to `2⁵²⁺ᵏ` only the
conversion loses anything, and the result is the multiple of `10ᵏ` nearest to what the integer is
converted to. Beyond it the product can have more than 53 significant bits, so that a number that is
no multiple of `10ᵏ` at all may come out. The result is always off by half of `10ᵏ` and one part of
`2⁵¹` at most.
-/

namespace Rpn

/-- How often `10 ^ k` is left in `a` when it is rounded. -/
def tens (a k : Nat) : Nat :=
  roundHalfEven (Magnitude.nearestUnits (a * Magnitude.one) (10 ^ k)) Magnitude.one

section Tens

variable {a n k i : Nat}

theorem ten_pow_pos (k : Nat) : 0 < 10 ^ k := Nat.pow_pos (by decide)

theorem two_pow_dvd_ten_pow (le : i ≤ k) : 2 ^ i ∣ 10 ^ k :=
  (Nat.pow_dvd_pow 2 le).trans (pow_dvd_pow_of_dvd (by decide) k)

theorem ten_pow_ne_two_pow (positive : 1 ≤ k) (bits : Nat) : 10 ^ k ≠ 2 ^ bits := by
  intro same
  have five : 5 ∣ 10 ^ k := (by decide : 5 ∣ 10).trans (dvd_pow_self 10 (by omega))
  rw [same] at five
  exact absurd (Nat.prime_five.dvd_of_dvd_pow five) (by decide)

theorem ten_pow_lt_one (few : k ≤ 22) : 10 ^ k < Magnitude.one :=
  (Binary64.ten_pow_lt few (by decide)).trans_eq Magnitude.one_eq.symm

theorem rounded_le_two_pow_add (positive : 1 ≤ k) (bound : n ≤ 2 ^ (52 + k)) :
    rounded n ≤ 2 ^ (52 + k) := by
  have top : 52 + k = k - 1 + 53 := by omega
  rw [top] at bound ⊢
  exact rounded_le_two_pow_of_le bound

/-- Up to `2 ^ (52 + k)` the last significant bit of a number is below the factors two of `10 ^ k`,
be it the last bit that the number has or the last one that it could have. -/
theorem exists_last_bit (positive : 1 ≤ k) (bound : n ≤ 2 ^ (52 + k)) :
    ∃ t, t + 1 ≤ k ∧ 2 ^ t ∣ rounded n ∧ rounded n ≤ 2 ^ (t + 53) := by
  obtain ⟨significand, bits, small, same⟩ := rounded_eq_self_iff.mp (rounded_rounded n)
  by_cases fine : bits + 1 ≤ k
  · refine ⟨bits, fine, Dvd.intro_left _ same.symm, ?_⟩
    rw [same, Nat.add_comm, Nat.pow_add]
    exact Nat.mul_le_mul_right _ small
  · have top : k - 1 + 53 = 52 + k := by omega
    refine ⟨k - 1, by omega, ?_, top ▸ rounded_le_two_pow_add positive bound⟩
    exact (Nat.pow_dvd_pow 2 (by omega)).trans (Dvd.intro_left _ same.symm)

theorem tens_rounded (positive : 1 ≤ k) (few : k ≤ 22) (bound : n ≤ 2 ^ (52 + k)) :
    tens (rounded n) k = roundHalfEven (rounded n) (10 ^ k) := by
  obtain ⟨t, coarse, aligned, bound⟩ := exists_last_bit positive bound
  exact roundHalfEven_nearestUnits aligned bound (two_pow_dvd_ten_pow coarse) (ten_pow_pos k)
    (ten_pow_lt_one few) (ten_pow_ne_two_pow positive)

theorem isNearestMultiple_tens (positive : 1 ≤ k) (few : k ≤ 22) (bound : n ≤ 2 ^ (52 + k)) :
    IsNearestMultiple (10 ^ k) (rounded n) (tens (rounded n) k * 10 ^ k : Nat) := by
  rw [tens_rounded positive few bound, Nat.mul_comm]
  exact .of_roundHalfEven _ (ten_pow_pos k)

/-- The product is exact there, since `5 ^ k` times the quotient has 53 bits. -/
theorem rounded_tens_mul (positive : 1 ≤ k) (few : k ≤ 22) (bound : n ≤ 2 ^ (52 + k)) :
    rounded (tens (rounded n) k * 10 ^ k) = tens (rounded n) k * 10 ^ k := by
  have whole := rounded_le_two_pow_add positive bound
  have near := (roundHalfEven_bounds (rounded n) (ten_pow_pos k)).2
  rw [← tens_rounded positive few bound] at near
  generalize tens (rounded n) k = count at near ⊢
  have ten : 10 ^ k = 5 ^ k * 2 ^ k := Nat.mul_pow 5 2 k
  have odd : 5 ^ k ≤ 2 ^ 53 := (Nat.pow_le_pow_right (by decide) few).trans (by decide)
  have significand : 2 * (count * 5 ^ k) ≤ 2 * 2 ^ 53 := by
    refine Nat.le_of_mul_le_mul_right ?_ (Nat.two_pow_pos k)
    calc 2 * (count * 5 ^ k) * 2 ^ k
        = 2 * (10 ^ k * count) := by
          rw [ten]
          ring
      _ ≤ 2 * 2 ^ (52 + k) + 10 ^ k := by omega
      _ = (2 * 2 ^ 52 + 5 ^ k) * 2 ^ k := by
          rw [ten, Nat.pow_add]
          ring
      _ ≤ 2 * 2 ^ 53 * 2 ^ k := Nat.mul_le_mul_right _ (by omega)
  refine rounded_eq_self_iff.mpr ⟨count * 5 ^ k, k, by omega, ?_⟩
  rw [ten, Nat.mul_assoc]

/-- A multiple of `10 ^ k` that has 53 significant bits is not changed. -/
theorem tens_mul (few : k ≤ 22) (dvd : 10 ^ k ∣ rounded n) :
    tens (rounded n) k * 10 ^ k = rounded n := by
  obtain ⟨count, same⟩ := dvd
  rw [Nat.mul_comm] at same
  have exact := rounded_rounded n
  rw [same] at exact
  have units := nearestUnits_of_dvd (ten_pow_pos k) exact
  rw [exact, Binary64.rounded_ten_pow few] at units
  rw [tens, same, units, roundHalfEven_mul count Magnitude.one_pos]

/-- The quotient is off by a half and one part of `2⁵³` at most. -/
theorem tens_bounds (a : Nat) (few : k ≤ 19) :
    2 * (2 ^ 53 - 1) * a ≤ 2 ^ 54 * (tens a k * 10 ^ k) + 2 ^ 53 * 10 ^ k ∧
      2 ^ 54 * (tens a k * 10 ^ k) ≤ 2 * (2 ^ 53 + 1) * a + 2 ^ 53 * 10 ^ k := by
  obtain rfl | nonzero := Nat.eq_zero_or_pos a
  · have none : tens 0 k = 0 := by
      rw [tens, Nat.zero_mul, Magnitude.nearestUnits_eq_zero (ten_pow_pos k)]
      exact roundHalfEven_eq_zero Magnitude.one_pos
    rw [none]
    omega
  have divisor : 10 ^ k ≤ 2 ^ 64 := (Nat.pow_le_pow_right (by decide) few).trans (by decide)
  have error := nearestUnits_error (ten_pow_pos k) (two_pow_mul_le_mul_one nonzero divisor)
  have near := roundHalfEven_bounds (Magnitude.nearestUnits (a * Magnitude.one) (10 ^ k))
    Magnitude.one_pos
  rw [← tens] at near
  generalize Magnitude.nearestUnits (a * Magnitude.one) (10 ^ k) = units at error near
  have lower : 2 * (10 ^ k * units) ≤
      2 * (tens a k * 10 ^ k * Magnitude.one) + 10 ^ k * Magnitude.one := by
    calc 2 * (10 ^ k * units)
        = 10 ^ k * (2 * units) := Nat.mul_left_comm ..
      _ ≤ 10 ^ k * (2 * (Magnitude.one * tens a k) + Magnitude.one) :=
        Nat.mul_le_mul_left _ near.1
      _ = 2 * (tens a k * 10 ^ k * Magnitude.one) + 10 ^ k * Magnitude.one := by ring
  have upper : 2 * (tens a k * 10 ^ k * Magnitude.one) ≤
      2 * (10 ^ k * units) + 10 ^ k * Magnitude.one := by
    calc 2 * (tens a k * 10 ^ k * Magnitude.one)
        = 10 ^ k * (2 * (Magnitude.one * tens a k)) := by ring
      _ ≤ 10 ^ k * (2 * units + Magnitude.one) := Nat.mul_le_mul_left _ near.2
      _ = 2 * (10 ^ k * units) + 10 ^ k * Magnitude.one := by ring
  generalize tens a k * 10 ^ k = product at lower upper ⊢
  constructor
  · apply Nat.le_of_mul_le_mul_right _ Magnitude.one_pos
    rw [Nat.add_mul, Nat.mul_assoc _ a, Nat.mul_assoc _ product, Nat.mul_assoc _ (10 ^ k)]
    omega
  · apply Nat.le_of_mul_le_mul_right _ Magnitude.one_pos
    rw [Nat.add_mul, Nat.mul_assoc _ a, Nat.mul_assoc _ product, Nat.mul_assoc _ (10 ^ k)]
    omega

theorem rounded_le_of_integer (bound : n ≤ 2 ^ 63) : rounded n ≤ 2 ^ 63 := by
  have wide : n ≤ 2 ^ (10 + 53) := bound
  exact rounded_le_two_pow_of_le wide

theorem tens_mul_le (bound : n ≤ 2 ^ 63) (few : k ≤ 19) : tens (rounded n) k * 10 ^ k ≤ 2 ^ 64 := by
  have unit : 10 ^ k ≤ 10 ^ 19 := Nat.pow_le_pow_right (by decide) few
  have whole := rounded_le_of_integer bound
  have error := (tens_bounds (rounded n) few).2
  omega

/-- With the rounding of the integer before and of the product after. -/
theorem rounded_tens_near (bound : n ≤ 2 ^ 63) (positive : 1 ≤ k) (few : k ≤ 19) :
    2 ^ 51 * ((rounded (tens (rounded n) k * 10 ^ k) : Int) - n).natAbs ≤
      2 ^ 50 * 10 ^ k + n := by
  have lower := mul_le_mul_rounded n
  have upper := mul_rounded_le_mul n
  by_cases exact : n ≤ 2 ^ (52 + k)
  · obtain ⟨_, -, near⟩ := isNearestMultiple_tens positive (by omega) exact
    rw [rounded_tens_mul positive (by omega) exact]
    generalize tens (rounded n) k * 10 ^ k = product at near ⊢
    omega
  · have large : 2 ^ (52 + k) < 2 ^ 63 := by omega
    have few' : 52 + k < 63 := (Nat.pow_lt_pow_iff_right (by decide)).mp large
    have unit : 10 ^ k ≤ 10 ^ 10 := Nat.pow_le_pow_right (by decide) (by omega)
    have first : 2 ^ 52 ≤ 2 ^ (52 + k) := Nat.pow_le_pow_right (by decide) (by omega)
    have error := tens_bounds (rounded n) few
    have lower' := mul_le_mul_rounded (tens (rounded n) k * 10 ^ k)
    have upper' := mul_rounded_le_mul (tens (rounded n) k * 10 ^ k)
    generalize tens (rounded n) k * 10 ^ k = product at error lower' upper' ⊢
    omega

/-- What the rounding to 53 significant bits leaves for the rounding to an integer is rounded no
more after that. -/
theorem rounded_roundHalfEven (m : Magnitude) :
    rounded (roundHalfEven m.units Magnitude.one) = roundHalfEven m.units Magnitude.one := by
  by_cases small : m.units ≤ 2 ^ 53 * Magnitude.one
  · apply rounded_of_le
    have near := (roundHalfEven_bounds m.units Magnitude.one_pos).2
    have within : 2 * roundHalfEven m.units Magnitude.one * Magnitude.one ≤
        (2 * 2 ^ 53 + 1) * Magnitude.one := by
      rw [Nat.add_mul, Nat.mul_assoc, Nat.mul_comm _ Magnitude.one]
      omega
    have count := Nat.le_of_mul_le_mul_right within Magnitude.one_pos
    omega
  · obtain ⟨bits, power⟩ : ∃ bits, Magnitude.one = 2 ^ bits := ⟨_, Magnitude.one_eq⟩
    have wide : bits + 1 ≤ spacing m.units := by
      apply le_spacing
      calc 2 ^ (bits + 1 + 52)
          = 2 ^ 53 * Magnitude.one := by rw [power, ← Nat.pow_add, Nat.add_comm 53, Nat.add_assoc]
        _ ≤ m.units := by omega
    have aligned := m.aligned
    rw [Nat.one_shiftLeft] at aligned
    obtain ⟨count, whole⟩ := (Nat.pow_dvd_pow 2 (by omega : bits ≤ spacing m.units)).trans aligned
    rw [← power, Nat.mul_comm] at whole
    have exact := m.nearestUnits_units
    rw [whole, nearestUnits_mul_one] at exact
    rw [whole, roundHalfEven_mul count Magnitude.one_pos]
    exact Nat.eq_of_mul_eq_mul_right Magnitude.one_pos exact

end Tens

/-- A size with the sign of `n`. -/
def withSign (n : Int) (size : Nat) : Int := if n < 0 then -(size : Int) else size

section Sign

variable {n : Int} {size other unit : Nat}

theorem withSign_natAbs (n : Int) : withSign n n.natAbs = n := by
  rw [withSign]
  omega

theorem withSign_zero (n : Int) : withSign n 0 = 0 := ite_self 0

theorem withSign_mul (n : Int) (size other : Nat) :
    withSign n (size * other) = withSign n size * other := by
  rw [withSign, withSign, Nat.cast_mul]
  split
  · exact (Int.neg_mul _ _).symm
  · rfl

theorem natAbs_withSign_sub (n : Int) (size other : Nat) :
    (withSign n size - withSign n other).natAbs = ((size : Int) - other).natAbs := by
  rw [withSign, withSign]
  omega

theorem IsNearestMultiple.withSign (near : IsNearestMultiple unit size other) :
    IsNearestMultiple unit (withSign n size) (withSign n other) := by
  rw [Rpn.withSign, Rpn.withSign]
  split
  · exact near.neg
  · exact near

end Sign

namespace Binary64

variable {n : Int} {k : Nat}

theorem roundedInt_eq_withSign (n : Int) : roundedInt n = withSign n (rounded n.natAbs) := rfl

theorem units?_withSign (n : Int) (m : Magnitude) :
    (finite (decide (n < 0)) m).units? = some (withSign n m.units) := by
  rw [units?, withSign]
  simp only [decide_eq_true_eq]

section Steps

variable {m p : Magnitude}

theorem exists_div (negative : Bool) (positive : 0 < p.units)
    (bounded : Magnitude.nearestUnits (m.units * Magnitude.one) p.units < unitsLimit) :
    ∃ q : Magnitude, (finite negative m).div (finite false p) = finite negative q ∧
      q.units = Magnitude.nearestUnits (m.units * Magnitude.one) p.units := by
  obtain ⟨q, same, units⟩ := exists_ofRatio negative bounded
  refine ⟨q, ?_, units⟩
  rw [div, if_neg positive.ne', Bool.bne_false, same]

theorem exists_roundIntegral (negative : Bool)
    (bounded : roundHalfEven m.units Magnitude.one ≤ 2 ^ 64) :
    ∃ r : Magnitude, (finite negative m).roundIntegral = finite negative r ∧
      r.units = roundHalfEven m.units Magnitude.one * Magnitude.one := by
  obtain ⟨r, same, units⟩ := exists_ofRatio negative (nearestUnits_lt_unitsLimit 1 bounded)
  rw [nearestUnits_mul_one, rounded_roundHalfEven] at units
  exact ⟨r, same, units⟩

theorem exists_mul (negative : Bool)
    (bounded : Magnitude.nearestUnits (m.units * p.units) Magnitude.one < unitsLimit) :
    ∃ z : Magnitude, (finite negative m).mul (finite false p) = finite negative z ∧
      z.units = Magnitude.nearestUnits (m.units * p.units) Magnitude.one := by
  obtain ⟨z, same, units⟩ := exists_ofRatio negative bounded
  refine ⟨z, ?_, units⟩
  rw [mul, Bool.bne_false, same]

end Steps

/-- An integer is scaled down, rounded and scaled up again. -/
theorem units?_scaled (bound : n.natAbs ≤ 2 ^ 63) (few : k ≤ 19) :
    (((ofInt n).div (Value.tenPower k)).roundIntegral.mul (Value.tenPower k)).units? =
      some (withSign n (rounded (tens (rounded n.natAbs) k * 10 ^ k)) * Magnitude.one) := by
  obtain ⟨m, same, units⟩ := exists_ofInt bound
  obtain ⟨p, power, unitsP⟩ := exists_tenPower (few.trans (by decide : 19 ≤ 22))
  have product := tens_mul_le bound few
  have whole := rounded_le_of_integer bound
  have unit : 0 < 10 ^ k * Magnitude.one := Nat.mul_pos (ten_pow_pos k) Magnitude.one_pos
  have quotient : Magnitude.nearestUnits (m.units * Magnitude.one) p.units =
      Magnitude.nearestUnits (rounded n.natAbs * Magnitude.one) (10 ^ k) := by
    rw [units, unitsP]
    apply Magnitude.nearestUnits_congr unit (ten_pow_pos k)
    ring
  have bounded := nearestUnits_lt_unitsLimit (10 ^ k) (by omega : rounded n.natAbs ≤ 2 ^ 64)
  obtain ⟨q, first, unitsQ⟩ := exists_div (decide (n < 0)) (unitsP ▸ unit) (quotient ▸ bounded)
  rw [quotient] at unitsQ
  have count : roundHalfEven q.units Magnitude.one = tens (rounded n.natAbs) k := by
    rw [unitsQ, tens]
  have small : roundHalfEven q.units Magnitude.one ≤ 2 ^ 64 :=
    count ▸ (Nat.le_mul_of_pos_right _ (ten_pow_pos k)).trans product
  obtain ⟨r, second, unitsR⟩ := exists_roundIntegral (decide (n < 0)) small
  have scaled : Magnitude.nearestUnits (r.units * p.units) Magnitude.one =
      Magnitude.nearestUnits (tens (rounded n.natAbs) k * 10 ^ k * Magnitude.one) 1 := by
    rw [unitsR, count, unitsP]
    apply Magnitude.nearestUnits_congr Magnitude.one_pos Nat.one_pos
    ring
  obtain ⟨z, third, unitsZ⟩ := exists_mul (decide (n < 0))
    (scaled ▸ nearestUnits_lt_unitsLimit 1 product)
  rw [same, power, first, second, third, units?_withSign, unitsZ, scaled, nearestUnits_mul_one,
    withSign_mul]

theorem atLeast_tenPower_of_large (large : 20 ≤ k) : (Value.tenPower k).AtLeast 66 := by
  by_cases few : k ≤ 22
  · rw [tenPower_eq few]
    apply atLeast_ofInt (rounded_ten_pow few)
    exact (by decide : 2 ^ 66 ≤ 10 ^ 20).trans (Nat.pow_le_pow_right (by decide) large)
  · exact (atLeast_tenPower k).mono (by omega)

/-- The quotient of an integer of 64 bits by what is no less than `2 ^ 66` is a quarter at most. -/
theorem nearestUnits_of_large {units p : Nat} (bound : units ≤ 2 ^ 63 * Magnitude.one)
    (large : 2 ^ 66 * Magnitude.one ≤ p) :
    4 * Magnitude.nearestUnits (units * Magnitude.one) p ≤ Magnitude.one := by
  obtain ⟨bits, enough, power⟩ : ∃ bits, 55 ≤ bits ∧ Magnitude.one = 2 ^ bits :=
    ⟨1074, by decide, Magnitude.one_eq⟩
  have quarter : 4 * 2 ^ (bits - 55 + 53) = Magnitude.one := by
    rw [power, show 4 = 2 ^ 2 from rfl, ← Nat.pow_add]
    congr 1
    omega
  have positive : 0 < p := (Nat.mul_pos (Nat.two_pow_pos 66) Magnitude.one_pos).trans_le large
  have below : units * Magnitude.one / p < 2 ^ (bits - 55 + 53) := by
    rw [Nat.div_lt_iff_lt_mul positive]
    calc units * Magnitude.one
        ≤ 2 ^ 63 * Magnitude.one * Magnitude.one := Nat.mul_le_mul_right _ bound
      _ = 2 ^ (bits - 55 + 53) * (2 ^ 65 * Magnitude.one) := by
        conv => lhs; arg 2; rw [← quarter]
        ring
      _ < 2 ^ (bits - 55 + 53) * (2 ^ 66 * Magnitude.one) := by
        apply Nat.mul_lt_mul_of_pos_left _ (Nat.two_pow_pos _)
        exact Nat.mul_lt_mul_of_pos_right (by decide) Magnitude.one_pos
      _ ≤ 2 ^ (bits - 55 + 53) * p := Nat.mul_le_mul_left _ large
  have small := nearestUnits_le_two_pow below
  omega

/-- Nothing is left of an integer of 64 bits at the 20th place and beyond. -/
theorem units?_scaled_of_large (bound : n.natAbs ≤ 2 ^ 63) (large : 20 ≤ k)
    (within : (Value.tenPower k).isFinite = true) :
    (((ofInt n).div (Value.tenPower k)).roundIntegral.mul (Value.tenPower k)).units? = some 0 := by
  obtain ⟨m, same, units⟩ := exists_ofInt bound
  obtain infinite | ⟨p, power, largeP⟩ := atLeast_tenPower_of_large large
  · rw [infinite] at within
    cases within
  have whole : m.units ≤ 2 ^ 63 * Magnitude.one :=
    units ▸ Nat.mul_le_mul_right _ (rounded_le_of_integer bound)
  have small := nearestUnits_of_large whole largeP
  have one := Magnitude.one_pos
  have limit : Magnitude.one < unitsLimit := by
    rw [unitsLimit_eq, Magnitude.one_eq]
    apply Nat.pow_lt_pow_right <;> decide
  have bounded : Magnitude.nearestUnits (m.units * Magnitude.one) p.units < unitsLimit := by omega
  obtain ⟨q, first, unitsQ⟩ := exists_div (decide (n < 0)) (AtLeast.units_pos largeP) bounded
  have count : roundHalfEven q.units Magnitude.one = 0 := roundHalfEven_eq_zero (by omega)
  obtain ⟨r, second, unitsR⟩ := exists_roundIntegral (m := q) (decide (n < 0)) (by omega)
  rw [count, Nat.zero_mul] at unitsR
  have none : Magnitude.nearestUnits (r.units * p.units) Magnitude.one = 0 := by
    rw [unitsR, Nat.zero_mul]
    exact Magnitude.nearestUnits_eq_zero one
  obtain ⟨z, third, unitsZ⟩ := exists_mul (decide (n < 0)) (none ▸ Nat.zero_lt_of_lt limit)
  rw [same, power, first, second, third, units?_withSign, unitsZ, none, withSign_zero]

end Binary64

namespace Value

open Binary64

/-- What an integer is rounded to at the `k`th place before the point. -/
def roundedTens (n : Int) (k : Nat) : Int :=
  if k ≤ 19 then withSign n (rounded (tens (rounded n.natAbs) k * 10 ^ k)) else 0

section Tens

variable {n m : Int} {k : Nat}

theorem roundFinite_neg (x : Binary64) (positive : 1 ≤ k) :
    roundFinite x (-k) = if (tenPower k).isFinite then
      ofBinary64 ((x.div (tenPower k)).roundIntegral.mul (tenPower k)) else int 0 := by
  rw [roundFinite, if_neg (by omega), Int.neg_neg, Int.toNat_natCast]

theorem signedUnits?_roundFinite (bound : n.natAbs ≤ 2 ^ 63) (positive : 1 ≤ k) :
    (roundFinite (ofInt n) (-k)).signedUnits? = some (roundedTens n k * Magnitude.one) := by
  rw [roundFinite_neg _ positive, roundedTens]
  by_cases few : k ≤ 19
  · have within : (tenPower k).isFinite = true := by
      obtain ⟨p, power, -⟩ := exists_tenPower (few.trans (by decide : 19 ≤ 22))
      rw [power]
      rfl
    rw [if_pos within, if_pos few, signedUnits?_ofBinary64, units?_scaled bound few]
  · rw [if_neg few, Int.zero_mul]
    split
    · next within =>
      rw [signedUnits?_ofBinary64, units?_scaled_of_large bound (by omega) within]
    · rw [signedUnits?, Int64.toInt_zero, Int.zero_mul]

/-- Up to `2 ^ (52 + k)` it is the multiple of `10 ^ k` nearest to what the integer is in floating
point. -/
theorem isNearestMultiple_roundedTens (bound : n.natAbs ≤ 2 ^ 63) (positive : 1 ≤ k)
    (small : n.natAbs ≤ 2 ^ (52 + k)) :
    IsNearestMultiple (10 ^ k) (roundedInt n) (roundedTens n k) := by
  rw [roundedTens]
  by_cases few : k ≤ 19
  · rw [if_pos few, rounded_tens_mul positive (by omega) small]
    exact (isNearestMultiple_tens positive (by omega) small).withSign
  · have whole := rounded_le_of_integer bound
    have unit : 10 ^ 20 ≤ 10 ^ k := Nat.pow_le_pow_right (by decide) (by omega)
    rw [if_neg few]
    refine ⟨0, (Int.zero_mul _).symm, .inl ?_⟩
    rw [Int.sub_zero, natAbs_roundedInt]
    omega

/-- A multiple of `10 ^ k` that is the same in floating point is kept. -/
theorem roundedTens_of_dvd (bound : n.natAbs ≤ 2 ^ 63)
    (dvd : ((10 ^ k : Nat) : Int) ∣ roundedInt n) : roundedTens n k = roundedInt n := by
  have size : 10 ^ k ∣ rounded n.natAbs := by
    rwa [Int.natCast_dvd, natAbs_roundedInt] at dvd
  rw [roundedTens]
  by_cases few : k ≤ 19
  · rw [if_pos few, tens_mul (by omega) size, rounded_rounded, roundedInt_eq_withSign]
  · have whole := rounded_le_of_integer bound
    have unit : 10 ^ 20 ≤ 10 ^ k := Nat.pow_le_pow_right (by decide) (by omega)
    have none : rounded n.natAbs = 0 := Nat.eq_zero_of_dvd_of_lt size (by omega)
    rw [if_neg few, roundedInt_eq_withSign, none, withSign_zero]

theorem roundedTens_near (bound : n.natAbs ≤ 2 ^ 63) (positive : 1 ≤ k) :
    2 ^ 51 * (roundedTens n k - n).natAbs ≤ 2 ^ 50 * 10 ^ k + n.natAbs := by
  rw [roundedTens]
  by_cases few : k ≤ 19
  · have near := rounded_tens_near bound positive few
    rw [← natAbs_withSign_sub n, withSign_natAbs] at near
    rwa [if_pos few]
  · have unit : 10 ^ 20 ≤ 10 ^ k := Nat.pow_le_pow_right (by decide) (by omega)
    rw [if_neg few, Int.zero_sub, Int.natAbs_neg]
    omega

end Tens

section RoundTo

variable {n places : Int64} {k : Nat}

theorem roundTo_eq_roundFinite (positive : 1 ≤ k) (before : places.toInt = -k) :
    (int n).roundTo places = roundFinite (ofInt n.toInt) (-(min 400 k : Nat)) := by
  have clamped : max (-400) places.toInt = -(min 400 k : Nat) := by omega
  rw [roundTo, if_neg (by omega), clamped]

theorem isNormal_roundTo (positive : 1 ≤ k) (before : places.toInt = -k) :
    ((int n).roundTo places).IsNormal := by
  rw [roundTo_eq_roundFinite positive before, roundFinite_neg _ (by omega)]
  split
  · exact isNormal_ofBinary64 _
  · exact .int 0

theorem signedUnits?_roundTo (positive : 1 ≤ k) (before : places.toInt = -k) :
    ((int n).roundTo places).signedUnits? =
      some (roundedTens n.toInt k * Magnitude.one) := by
  have same : roundedTens n.toInt (min 400 k) = roundedTens n.toInt k := by
    by_cases few : k ≤ 19
    · rw [Nat.min_eq_right (by omega)]
    · rw [roundedTens, roundedTens, if_neg few, if_neg (by omega)]
  rw [roundTo_eq_roundFinite positive before,
    signedUnits?_roundFinite (natAbs_toInt_le n) (by omega), same]

/-- An integer rounded at the `k`th place before the point is an integer, and is off by half of `10
^ k` and one part of `2⁵¹` at most. Up to `2 ^ (52 + k)` it is the multiple of `10 ^ k` nearest to
what the integer is in floating point, which is the integer itself if it has 53 significant bits;
and a multiple that has 53 significant bits is not changed. -/
theorem roundTo_tens (n : Int64) (positive : 1 ≤ k) (before : places.toInt = -k) :
    ∃ w : Int, ((int n).roundTo places).signedUnits? = some (w * Magnitude.one) ∧
      (∀ m : Int64, m.toInt = w → (int n).roundTo places = int m) ∧
      (n.toInt.natAbs ≤ 2 ^ (52 + k) → IsNearestMultiple (10 ^ k) (roundedInt n.toInt) w) ∧
      (((10 ^ k : Nat) : Int) ∣ roundedInt n.toInt → w = roundedInt n.toInt) ∧
      2 ^ 51 * (w - n.toInt).natAbs ≤ 2 ^ 50 * 10 ^ k + n.toInt.natAbs ∧
      (roundedInt n.toInt = n.toInt ↔ ∃ significand bits : Nat, significand ≤ 2 ^ 53 ∧
        n.toInt.natAbs = significand * 2 ^ bits) := by
  have bound := natAbs_toInt_le n
  have units : ((int n).roundTo places).signedUnits? =
      some (roundedTens n.toInt k * Magnitude.one) := signedUnits?_roundTo positive before
  refine ⟨roundedTens n.toInt k, units, ?_, isNearestMultiple_roundedTens bound positive,
    roundedTens_of_dvd bound, roundedTens_near bound positive, ?_⟩
  · intro m same
    rw [(isNormal_roundTo positive before).eq_int_iff, units, same]
  · rw [roundedInt_eq_self_iff]
    exact rounded_eq_self_iff

/-- A half goes to the even hundred, a power of two of 62 bits is rounded to a multiple of `10¹¹`,
and an integer of 55 bits is off by 13 at most when it is rounded to tens. -/
theorem roundTo_tens_hundreds :
    (int 1250).roundTo (-2) = int 1200 ∧
    (int (-4611686018427387904)).roundTo (-11) = int (-4611686000000000000) ∧
    ∃ w : Int, ((int 18014398509481990).roundTo (-1)).signedUnits? = some (w * Magnitude.one) ∧
      (w - 18014398509481990).natAbs ≤ 13 := by
  refine ⟨?_, ?_, ?_⟩
  · obtain ⟨w, -, kept, near, -, -, -⟩ :=
      roundTo_tens 1250 (by decide : 1 ≤ 2) (by decide : (-2 : Int64).toInt = -(2 : Nat))
    apply kept
    have tie : IsNearestMultiple (10 ^ 2) (roundedInt 1250) 1200 :=
      ⟨12, by decide, .inr ⟨by decide +kernel, by decide⟩⟩
    exact tie.unique (by decide) (near (by decide))
  · obtain ⟨w, -, kept, near, -, -, -⟩ :=
      roundTo_tens (-4611686018427387904) (by decide : 1 ≤ 11)
        (by decide : (-11 : Int64).toInt = -(11 : Nat))
    apply kept
    have below : IsNearestMultiple (10 ^ 11) (roundedInt (-4611686018427387904))
        (-4611686000000000000) := ⟨-46116860, by decide, .inl (by decide +kernel)⟩
    exact below.unique (by decide) (near (by decide))
  · obtain ⟨w, units, -, -, -, near, -⟩ :=
      roundTo_tens 18014398509481990 (by decide : 1 ≤ 1)
        (by decide : (-1 : Int64).toInt = -(1 : Nat))
    refine ⟨w, units, ?_⟩
    have size : (18014398509481990 : Int64).toInt = 18014398509481990 := by decide
    rw [size] at near
    omega

/-- An integer of 55 bits that is a multiple of ten is not kept when it is rounded to tens. -/
theorem not_forall_roundTo_nearest :
    ¬ ∀ (n places m : Int64) (k : Nat), 1 ≤ k → places.toInt = -k →
      IsNearestMultiple (10 ^ k) n.toInt m.toInt → (int n).roundTo places = int m := by
  intro all
  have own : IsNearestMultiple (10 ^ 1) (18014398509481990 : Int64).toInt
      (18014398509481990 : Int64).toInt := ⟨1801439850948199, by decide, .inl (by decide)⟩
  have kept := all 18014398509481990 (-1) 18014398509481990 1 (by decide) (by decide) own
  have moved : (int 18014398509481990).roundTo (-1) = int 18014398509481992 := by decide +kernel
  cases moved.symm.trans kept

end RoundTo

end Value

end Rpn
