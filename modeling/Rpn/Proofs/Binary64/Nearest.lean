import Rpn.Proofs.Value.Exact

/-!
# The number nearest to an integer

Rounding to 53 significant bits leads to the nearest number of the format, and of two that are
equally near to the one with the even significand (`nearestUnits_nearest`). The numbers that compete
with it are those of the same spacing, which are multiples of it, and those of a finer one, which lie
farther off than the first number of the coarser spacing (`nearestUnits_nearest_of_not_dvd`).

What an integer is in floating point is therefore the number nearest to it
(`Binary64.isNearest_ofInt`), and the integer itself exactly when it has 53 significant bits
(`rounded_eq_self_iff`).
-/

namespace Rpn

section Multiples

variable {den other : Nat}

/-- A quotient is rounded by less than half a multiple of the divisor, or by just half a multiple
and to an even one. -/
theorem roundHalfEven_cases (num : Nat) (positive : 0 < den) :
    2 * ((num : Int) - (den * roundHalfEven num den : Nat)).natAbs < den ∨
      2 * ((num : Int) - (den * roundHalfEven num den : Nat)).natAbs = den ∧
        roundHalfEven num den % 2 = 0 := by
  have whole := Nat.div_add_mod num den
  have rest := Nat.mod_lt num positive
  rw [roundHalfEven]
  generalize num / den = quotient at whole ⊢
  generalize num % den = remainder at whole rest ⊢
  have next : den * (quotient + 1) = den * quotient + den := Nat.mul_succ den quotient
  split
  · left
    omega
  · split
    · left
      rw [next]
      omega
    · right
      obtain even | odd := Nat.mod_two_eq_zero_or_one quotient
      · rw [even, Nat.add_zero]
        omega
      · rw [odd, next]
        omega

/-- Of all multiples of a number the rounded quotient gives the nearest. -/
theorem roundHalfEven_nearest (num : Nat) (positive : 0 < den) (multiple : den ∣ other) :
    ((num : Int) - (den * roundHalfEven num den : Nat)).natAbs < ((num : Int) - other).natAbs ∨
      ((num : Int) - (den * roundHalfEven num den : Nat)).natAbs = ((num : Int) - other).natAbs ∧
        (other = den * roundHalfEven num den ∨ roundHalfEven num den % 2 = 0) := by
  have own : den ∣ den * roundHalfEven num den := Nat.dvd_mul_right _ _
  have near := roundHalfEven_cases num positive
  generalize den * roundHalfEven num den = nearest at own near ⊢
  obtain less | rfl | more := Nat.lt_trichotomy other nearest
  · have apart := add_le_of_dvd multiple own less
    omega
  · exact .inr ⟨rfl, .inl rfl⟩
  · have apart := add_le_of_dvd own multiple more
    omega

end Multiples

section Rounded

variable {n k : Nat}

/-- A number is represented when it is a multiple of the spacing around it. -/
theorem exists_significand_iff :
    (∃ significand bits : Nat, significand ≤ 2 ^ 53 ∧ n = significand * 2 ^ bits) ↔
      2 ^ spacing n ∣ n := by
  constructor
  · rintro ⟨significand, bits, small, rfl⟩
    have aligned := Magnitude.aligned_shiftLeft bits (small.trans_eq (Nat.one_shiftLeft 53).symm)
    rwa [Nat.one_shiftLeft, Nat.shiftLeft_eq] at aligned
  · intro aligned
    refine ⟨roundHalfEven n (2 ^ spacing n), spacing n, ?_, ?_⟩
    · have significand := Magnitude.roundHalfEven_spacing_le n 1
      rwa [Nat.div_one, Nat.shiftLeft_eq, Nat.one_mul, Nat.one_shiftLeft] at significand
    · rw [Nat.mul_comm, ← rounded_eq, rounded_of_dvd aligned]

theorem rounded_eq_self_iff :
    rounded n = n ↔
      ∃ significand bits : Nat, significand ≤ 2 ^ 53 ∧ n = significand * 2 ^ bits := by
  rw [exists_significand_iff]
  constructor
  · intro same
    have aligned := two_pow_dvd_rounded n
    rwa [same] at aligned
  · exact rounded_of_dvd

theorem rounded_pos (positive : 0 < n) : 0 < rounded n := by
  have large : 2 ^ 0 ≤ rounded n := two_pow_le_rounded positive
  omega

theorem rounded_le_two_pow_of_le {bits : Nat} (bound : n ≤ 2 ^ (bits + 53)) :
    rounded n ≤ 2 ^ (bits + 53) := by
  obtain last | below := bound.eq_or_lt
  · have power : n = 1 * 2 ^ (bits + 53) := last.trans (Nat.one_mul _).symm
    rw [rounded_eq_self_iff.mpr ⟨1, _, Nat.one_le_two_pow, power⟩]
    exact bound
  · exact rounded_le_two_pow below

end Rounded

section Quotient

variable {num den k : Nat}

theorem nearestUnits_eq (num den : Nat) :
    Magnitude.nearestUnits num den =
      2 ^ spacing (num / den) * roundHalfEven num (den * 2 ^ spacing (num / den)) := by
  rw [Magnitude.nearestUnits, Nat.shiftLeft_eq, Nat.shiftLeft_eq, Nat.mul_comm]

theorem mul_nearestUnits (num den : Nat) :
    den * Magnitude.nearestUnits num den =
      den * 2 ^ spacing (num / den) * roundHalfEven num (den * 2 ^ spacing (num / den)) := by
  rw [nearestUnits_eq, Nat.mul_assoc]

theorem dvd_nearestUnits_of_even
    (even : roundHalfEven num (den * 2 ^ spacing (num / den)) % 2 = 0) :
    2 ^ (spacing (Magnitude.nearestUnits num den) + 1) ∣ Magnitude.nearestUnits num den := by
  have significand := Magnitude.roundHalfEven_spacing_le num den
  rw [Nat.shiftLeft_eq, Nat.one_shiftLeft] at significand
  rw [nearestUnits_eq]
  generalize spacing (num / den) = bits at even significand ⊢
  generalize roundHalfEven num (den * 2 ^ bits) = q at even significand ⊢
  obtain last | below := significand.eq_or_lt
  · -- The significand has become one bit longer, and the spacing with it.
    have next : 2 ^ bits * q = 2 ^ (bits + 53) := by rw [last, ← Nat.pow_add]
    have wider : spacing (2 ^ (bits + 53)) ≤ bits + 1 := by
      apply spacing_of_lt
      apply Nat.pow_lt_pow_right <;> omega
    rw [next]
    exact Nat.pow_dvd_pow 2 (by omega)
  · have same : spacing (2 ^ bits * q) ≤ bits := by
      apply spacing_of_lt
      rw [Nat.pow_add]
      exact Nat.mul_lt_mul_of_pos_left below (Nat.two_pow_pos _)
    calc 2 ^ (spacing (2 ^ bits * q) + 1)
        ∣ 2 ^ (bits + 1) := Nat.pow_dvd_pow 2 (by omega)
      _ ∣ 2 ^ bits * q := by
        rw [Nat.pow_succ]
        exact Nat.mul_dvd_mul_left _ (Nat.dvd_of_mod_eq_zero even)

theorem nearestUnits_nearest_of_dvd (positive : 0 < den) (multiple : 2 ^ spacing (num / den) ∣ k) :
    ((num : Int) - (den * Magnitude.nearestUnits num den : Nat)).natAbs <
        ((num : Int) - (den * k : Nat)).natAbs ∨
      ((num : Int) - (den * Magnitude.nearestUnits num den : Nat)).natAbs =
          ((num : Int) - (den * k : Nat)).natAbs ∧
        (k = Magnitude.nearestUnits num den ∨
          2 ^ (spacing (Magnitude.nearestUnits num den) + 1) ∣ Magnitude.nearestUnits num den) := by
  have step : 0 < den * 2 ^ spacing (num / den) := Nat.mul_pos positive (Nat.two_pow_pos _)
  have near := roundHalfEven_nearest num step (Nat.mul_dvd_mul_left den multiple)
  rw [← mul_nearestUnits] at near
  refine near.imp_right fun ⟨tie, choice⟩ => ⟨tie, ?_⟩
  exact choice.imp (Nat.eq_of_mul_eq_mul_left positive) dvd_nearestUnits_of_even

/-- A number of a finer spacing is farther off than the first one of the spacing around the
quotient. -/
theorem nearestUnits_nearest_of_not_dvd (positive : 0 < den) (aligned : 2 ^ spacing k ∣ k)
    (finer : ¬ 2 ^ spacing (num / den) ∣ k) :
    ((num : Int) - (den * Magnitude.nearestUnits num den : Nat)).natAbs <
      ((num : Int) - (den * k : Nat)).natAbs := by
  have nonzero : spacing (num / den) ≠ 0 := fun zero => by
    rw [zero] at finer
    exact finer (Nat.one_dvd k)
  have less : k < 2 ^ (spacing (num / den) + 52) := by
    by_contra large
    exact finer ((Nat.pow_dvd_pow 2 (le_spacing (Nat.not_lt.mp large))).trans aligned)
  have first : 2 ^ (spacing (num / den) + 52) ≤ num / den := by
    refine two_pow_spacing_le (Nat.not_lt.mp fun below => nonzero ?_)
    exact Nat.le_zero.mp (spacing_of_lt (by omega))
  have multiple : 2 ^ spacing (num / den) ∣ 2 ^ (spacing (num / den) + 52) :=
    Nat.pow_dvd_pow 2 (by omega)
  have near := nearestUnits_nearest_of_dvd positive multiple
  have start : den * 2 ^ (spacing (num / den) + 52) ≤ num := by
    rw [Nat.mul_comm]
    exact (Nat.le_div_iff_mul_le positive).mp first
  have before : den * k < den * 2 ^ (spacing (num / den) + 52) :=
    Nat.mul_lt_mul_of_pos_left less positive
  generalize den * 2 ^ (spacing (num / den) + 52) = start at *
  omega

/-- No number of the format, bounds apart, is nearer to a quotient than what it is rounded to, and
where another one is as near, the significand of what it is rounded to is even. -/
theorem nearestUnits_nearest (num : Nat) (positive : 0 < den) (aligned : 2 ^ spacing k ∣ k) :
    ((num : Int) - (den * Magnitude.nearestUnits num den : Nat)).natAbs <
        ((num : Int) - (den * k : Nat)).natAbs ∨
      ((num : Int) - (den * Magnitude.nearestUnits num den : Nat)).natAbs =
          ((num : Int) - (den * k : Nat)).natAbs ∧
        (k = Magnitude.nearestUnits num den ∨
          2 ^ (spacing (Magnitude.nearestUnits num den) + 1) ∣ Magnitude.nearestUnits num den) := by
  by_cases multiple : 2 ^ spacing (num / den) ∣ k
  · exact nearestUnits_nearest_of_dvd positive multiple
  · exact .inl (nearestUnits_nearest_of_not_dvd positive aligned multiple)

theorem rounded_nearest (n : Nat) (aligned : 2 ^ spacing k ∣ k) :
    ((n : Int) - rounded n).natAbs < ((n : Int) - k).natAbs ∨
      ((n : Int) - rounded n).natAbs = ((n : Int) - k).natAbs ∧
        (k = rounded n ∨ 2 ^ (spacing (rounded n) + 1) ∣ rounded n) := by
  have near := nearestUnits_nearest n Nat.one_pos aligned
  rw [Nat.one_mul, Nat.one_mul] at near
  exact near

end Quotient

namespace Binary64

theorem toInt?_ofInt_of_bound {n : Int} (bound : n.natAbs ≤ 2 ^ 63) :
    (ofInt n).toInt? = some (roundedInt n) :=
  toInt?_eq_some_iff.mpr (units?_ofInt bound)

theorem natAbs_roundedInt (n : Int) : (roundedInt n).natAbs = rounded n.natAbs := by
  rw [roundedInt]
  split <;> simp

theorem roundedInt_eq_self_iff {n : Int} : roundedInt n = n ↔ rounded n.natAbs = n.natAbs := by
  rw [roundedInt]
  split <;> omega

/-- No finite number is nearer to so many units, and another one is as near only if the significand
of `x` is even. -/
def IsNearest (x : Binary64) (units : Int) : Prop :=
  ∃ own, x.units? = some own ∧ ∀ (y : Binary64) (other : Int), y.units? = some other →
    (units - own).natAbs < (units - other).natAbs ∨
      (units - own).natAbs = (units - other).natAbs ∧
        (other = own ∨ 2 ^ (spacing own.natAbs + 1) ∣ own.natAbs)

theorem aligned_of_units? {x : Binary64} {units : Int} (finite : x.units? = some units) :
    2 ^ spacing units.natAbs ∣ units.natAbs := by
  cases x with
  | nan | infinite => cases finite
  | finite negative m =>
    have aligned := m.aligned
    rw [Nat.one_shiftLeft] at aligned
    cases finite
    cases negative <;> simpa using aligned

/-- In floating point an integer is the number nearest to it. -/
theorem isNearest_ofInt {n : Int} (bound : n.natAbs ≤ 2 ^ 63) :
    (ofInt n).IsNearest (n * Magnitude.one) := by
  refine ⟨_, units?_ofInt bound, ?_⟩
  intro y other finite
  have near := rounded_nearest (n.natAbs * Magnitude.one) (aligned_of_units? finite)
  -- A number of the other sign is farther off than zero.
  have zero := rounded_nearest (n.natAbs * Magnitude.one) (Nat.dvd_zero _)
  have whole : rounded (n.natAbs * Magnitude.one) = rounded n.natAbs * Magnitude.one :=
    nearestUnits_mul_one n.natAbs
  have target : n * Magnitude.one =
      if n < 0 then -((n.natAbs * Magnitude.one : Nat) : Int)
      else (n.natAbs * Magnitude.one : Nat) := by
    split
    · rw [Nat.cast_mul, Int.ofNat_natAbs_of_nonpos (by omega), Int.neg_mul, Int.neg_neg]
    · rw [Nat.cast_mul, Int.natAbs_of_nonneg (by omega)]
  have own : roundedInt n * Magnitude.one =
      if n < 0 then -((rounded n.natAbs * Magnitude.one : Nat) : Int)
      else (rounded n.natAbs * Magnitude.one : Nat) := by
    rw [roundedInt]
    split
    · rw [Nat.cast_mul, Int.neg_mul]
    · rw [Nat.cast_mul]
  rw [whole] at near zero
  rw [target, own]
  generalize n.natAbs * Magnitude.one = units at near zero ⊢
  generalize rounded n.natAbs * Magnitude.one = nearest at near zero ⊢
  split
  · rw [Int.natAbs_neg, Int.natAbs_natCast]
    omega
  · rw [Int.natAbs_natCast]
    omega

end Binary64

end Rpn
