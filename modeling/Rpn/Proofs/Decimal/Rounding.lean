import Mathlib.Tactic.Ring
import Rpn.Decimal.Shortest

/-!
# Reading decimals

`Binary64.ofDecimal` rounds the number that a decimal stands for. Its first cases save work on
numbers that are too large or too small, and give what the rounding would give
(`ofDecimal_eq_ofRatio`); so a decimal is read as what it stands for, and it makes no difference
whether a power of ten is written with zeros or in the exponent (`ofDecimal_mul_pow`). With that the
shortest decimal of a number is read as that number.
-/

namespace Rpn

section Rounding

variable {num den num' den' : Nat}

theorem eq_two_pow {n bits : Nat} (shifted : n = 1 <<< bits) : n = 2 ^ bits :=
  shifted.trans (Nat.one_shiftLeft bits)

theorem Magnitude.one_eq : Magnitude.one = 2 ^ 1074 := by
  apply eq_two_pow
  unfold Magnitude.one
  rfl

theorem unitsLimit_eq : unitsLimit = 2 ^ (1024 + 1074) := by
  apply eq_two_pow
  unfold unitsLimit
  rfl

theorem unitsLimit_eq_mul_one : unitsLimit = 2 ^ 1024 * Magnitude.one := by
  have split (n bits bits' : Nat) (power : n = 2 ^ bits') : 2 ^ (bits + bits') = 2 ^ bits * n := by
    rw [power, Nat.pow_add]
  exact unitsLimit_eq.trans (split _ _ _ Magnitude.one_eq)

/-- Rounding depends on the ratio alone. -/
theorem roundHalfEven_mul_right (num den : Nat) {k : Nat} (positive : 0 < k) :
    roundHalfEven (num * k) (den * k) = roundHalfEven num den := by
  have quotient : num * k / (den * k) = num / den := Nat.mul_div_mul_right num den positive
  have remainder : num * k % (den * k) = num % den * k := Nat.mul_mod_mul_right k num den
  have less : 2 * (num % den * k) < den * k ↔ 2 * (num % den) < den := by
    rw [← Nat.mul_assoc]
    exact Nat.mul_lt_mul_right positive
  have more : den * k < 2 * (num % den * k) ↔ den < 2 * (num % den) := by
    rw [← Nat.mul_assoc]
    exact Nat.mul_lt_mul_right positive
  simp only [roundHalfEven, quotient, remainder, less, more]

theorem roundHalfEven_congr (positive : 0 < den) (positive' : 0 < den')
    (same : num * den' = num' * den) : roundHalfEven num den = roundHalfEven num' den' := by
  calc roundHalfEven num den
      = roundHalfEven (num * den') (den * den') :=
        (roundHalfEven_mul_right num den positive').symm
    _ = roundHalfEven (num' * den) (den' * den) := by rw [same, Nat.mul_comm den den']
    _ = roundHalfEven num' den' := roundHalfEven_mul_right num' den' positive

/-- What is less than a half is rounded to zero. -/
theorem roundHalfEven_eq_zero (small : 2 * num < den) : roundHalfEven num den = 0 := by
  have less : num < den := by omega
  rw [roundHalfEven, Nat.div_eq_of_lt less, Nat.mod_eq_of_lt less, if_pos small]

namespace Magnitude

theorem nearestUnits_congr (positive : 0 < den) (positive' : 0 < den')
    (same : num * den' = num' * den) : nearestUnits num den = nearestUnits num' den' := by
  have quotient : num / den = num' / den' := by
    calc num / den
        = num * den' / (den * den') := (Nat.mul_div_mul_right num den positive').symm
      _ = num' * den / (den' * den) := by rw [same, Nat.mul_comm den den']
      _ = num' / den' := Nat.mul_div_mul_right num' den' positive
  have shifted : num * den' <<< spacing (num' / den') = num' * den <<< spacing (num' / den') := by
    rw [Nat.shiftLeft_eq, Nat.shiftLeft_eq, ← Nat.mul_assoc, ← Nat.mul_assoc, same]
  have rounded := roundHalfEven_congr (shiftLeft_pos positive _) (shiftLeft_pos positive' _) shifted
  rw [nearestUnits, nearestUnits, quotient, rounded]

theorem nearest?_congr (positive : 0 < den) (positive' : 0 < den')
    (same : num * den' = num' * den) : nearest? num den = nearest? num' den' := by
  have units := nearestUnits_congr positive positive' same
  rw [nearest?, nearest?]
  simp only [units]

theorem nearestUnits_eq_zero (small : 2 * num < den) : nearestUnits num den = 0 := by
  have quotient : num / den = 0 := Nat.div_eq_of_lt (by omega)
  have shift : spacing 0 = 0 := by decide
  rw [nearestUnits, quotient, shift, Nat.shiftLeft_zero, Nat.shiftLeft_zero,
    roundHalfEven_eq_zero small]

/-- Rounding does not lead below a power of two that a quotient has reached. -/
theorem two_pow_le_nearestUnits_of_quotient {bits : Nat} (large : 2 ^ bits ≤ num / den) :
    2 ^ bits ≤ nearestUnits num den := by
  have cut : num / den / 2 ^ spacing (num / den) ≤
      roundHalfEven num (den <<< spacing (num / den)) := by
    rw [Nat.div_div_eq_div_mul, ← Nat.shiftLeft_eq]
    exact le_roundHalfEven _ _
  rw [nearestUnits, Nat.shiftLeft_eq]
  generalize num / den = quotient at large cut ⊢
  have nonzero : quotient ≠ 0 := fun zero => by
    rw [zero] at large
    exact absurd large (Nat.not_le.mpr (Nat.two_pow_pos bits))
  have top : bits ≤ quotient.log2 := (Nat.le_log2 nonzero).mpr large
  have within : spacing quotient ≤ quotient.log2 := Nat.sub_le _ _
  -- The bits that are kept begin with the highest one.
  have kept : 2 ^ (quotient.log2 - spacing quotient) ≤ quotient / 2 ^ spacing quotient := by
    rw [Nat.le_div_iff_mul_le (Nat.two_pow_pos _), ← Nat.pow_add, Nat.sub_add_cancel within]
    exact Nat.log2_self_le nonzero
  calc 2 ^ bits
      ≤ 2 ^ quotient.log2 := Nat.pow_le_pow_right (by decide) top
    _ = 2 ^ (quotient.log2 - spacing quotient) * 2 ^ spacing quotient := by
      rw [← Nat.pow_add, Nat.sub_add_cancel within]
    _ ≤ quotient / 2 ^ spacing quotient * 2 ^ spacing quotient := Nat.mul_le_mul_right _ kept
    _ ≤ roundHalfEven num (den <<< spacing quotient) * 2 ^ spacing quotient :=
      Nat.mul_le_mul_right _ cut

theorem two_pow_le_nearestUnits {bits : Nat} (large : 2 ^ bits ≤ num) :
    2 ^ bits ≤ nearestUnits num 1 :=
  two_pow_le_nearestUnits_of_quotient (large.trans_eq (Nat.div_one num).symm)

end Magnitude

end Rounding

namespace Binary64

variable {num den num' den' : Nat}

theorem ofRatio_congr (negative : Bool) (positive : 0 < den) (positive' : 0 < den')
    (same : num * den' = num' * den) : ofRatio negative num den = ofRatio negative num' den' := by
  rw [ofRatio, ofRatio, Magnitude.nearest?_congr positive positive' same]

/-- The sign has no part in rounding. -/
theorem ofRatio_of_finite {m : Magnitude} (rounds : ofRatio false num den = finite false m)
    (negative : Bool) : ofRatio negative num den = finite negative m := by
  rw [ofRatio] at rounds ⊢
  cases found : Magnitude.nearest? num den with
  | none =>
    rw [found] at rounds
    cases rounds
  | some m' =>
    rw [found] at rounds
    cases rounds
    rfl

theorem ofRatio_eq_zero (negative : Bool) (small : 2 * num < den) :
    ofRatio negative num den = zero negative := by
  have units : Magnitude.nearestUnits num den = Magnitude.nearestUnits 0 1 := by
    rw [Magnitude.nearestUnits_eq_zero small]
    decide
  rw [zero, ofRatio, ofRatio, Magnitude.nearest?, Magnitude.nearest?]
  simp only [units]

theorem ofRatio_eq_infinite (negative : Bool) (large : unitsLimit ≤ num) :
    ofRatio negative num 1 = infinite negative := by
  rw [unitsLimit_eq] at large
  have beyond := Magnitude.two_pow_le_nearestUnits large
  rw [← unitsLimit_eq] at beyond
  rw [ofRatio, Magnitude.nearest?, dif_neg (Nat.not_lt.mpr beyond)]

/-- A power of ten is at least as large as the power of eight. -/
theorem two_pow_le_ten_pow {bits power : Nat} (enough : bits ≤ 3 * power) :
    2 ^ bits ≤ 10 ^ power := by
  calc 2 ^ bits
      ≤ 2 ^ (3 * power) := Nat.pow_le_pow_right (by decide) enough
    _ = 8 ^ power := Nat.pow_mul 2 3 power
    _ ≤ 10 ^ power := Nat.pow_le_pow_left (by decide) power

theorem unitsLimit_le {digits power : Nat} (nonzero : digits ≠ 0) (large : 400 ≤ power) :
    unitsLimit ≤ digits * 10 ^ power * Magnitude.one := by
  have bits : 2 ^ 1024 ≤ 10 ^ power := two_pow_le_ten_pow (by omega)
  have scaled : 10 ^ power ≤ digits * 10 ^ power :=
    Nat.le_mul_of_pos_left _ (Nat.pos_of_ne_zero nonzero)
  exact unitsLimit_eq_mul_one.trans_le (Nat.mul_le_mul_right _ (bits.trans scaled))

theorem two_mul_lt_ten_pow {digits power : Nat} (large : digits.log2 + 400 < power) :
    2 * (digits * Magnitude.one) < 10 ^ power := by
  have bits : digits < 2 ^ (digits.log2 + 1) := Nat.lt_log2_self
  calc 2 * (digits * Magnitude.one)
      < 2 * (2 ^ (digits.log2 + 1) * Magnitude.one) := by
        have positive := Magnitude.one_pos
        have := Nat.mul_lt_mul_of_pos_right bits positive
        omega
    _ = 2 ^ (digits.log2 + 1076) := by
        rw [Magnitude.one_eq, ← Nat.pow_add, ← Nat.pow_succ']
    _ ≤ 10 ^ power := two_pow_le_ten_pow (by omega)

/-- A decimal is read as the number nearest to what it stands for. -/
theorem ofDecimal_eq_ofRatio (negative : Bool) (digits : Nat) (exponent : Int) :
    ofDecimal negative digits exponent =
      ofRatio negative (digits * 10 ^ exponent.toNat * Magnitude.one)
        (10 ^ (-exponent).toNat) := by
  have positive : 0 < 10 ^ (-exponent).toNat := Nat.pow_pos (by decide)
  rw [ofDecimal]
  by_cases none : digits = 0
  · rw [if_pos none, none, zero]
    exact ofRatio_congr negative Nat.one_pos positive (by simp)
  rw [if_neg none]
  by_cases large : 400 ≤ exponent
  · have whole : (-exponent).toNat = 0 := by omega
    rw [if_pos large, whole, Nat.pow_zero]
    exact (ofRatio_eq_infinite negative (unitsLimit_le none (by omega))).symm
  rw [if_neg large]
  by_cases small : exponent < -(digits.log2 + 400 : Int)
  · have fraction : exponent.toNat = 0 := by omega
    rw [if_pos small, fraction, Nat.pow_zero, Nat.mul_one]
    exact (ofRatio_eq_zero negative (two_mul_lt_ten_pow (by omega))).symm
  rw [if_neg small]
  split
  · have whole : (-exponent).toNat = 0 := by omega
    rw [whole]
    rfl
  · have fraction : exponent.toNat = 0 := by omega
    rw [fraction, Nat.pow_zero, Nat.mul_one]
    rfl

/-- Zeros at the end of the digits can be counted in the exponent. -/
theorem ofDecimal_mul_pow (negative : Bool) (digits zeros : Nat) (exponent : Int) :
    ofDecimal negative (digits * 10 ^ zeros) exponent =
      ofDecimal negative digits (exponent + zeros) := by
  rw [ofDecimal_eq_ofRatio, ofDecimal_eq_ofRatio]
  refine ofRatio_congr negative (Nat.pow_pos (by decide)) (Nat.pow_pos (by decide)) ?_
  have powers : 10 ^ zeros * 10 ^ exponent.toNat * 10 ^ (-(exponent + zeros)).toNat =
      10 ^ (exponent + zeros).toNat * 10 ^ (-exponent).toNat := by
    rw [← Nat.pow_add, ← Nat.pow_add, ← Nat.pow_add]
    congr 1
    omega
  calc digits * 10 ^ zeros * 10 ^ exponent.toNat * Magnitude.one *
        10 ^ (-(exponent + zeros)).toNat
      = digits * Magnitude.one *
          (10 ^ zeros * 10 ^ exponent.toNat * 10 ^ (-(exponent + zeros)).toNat) := by ring
    _ = digits * 10 ^ (exponent + zeros).toNat * Magnitude.one * 10 ^ (-exponent).toNat := by
        rw [powers]
        ring

/-- An integer is read as the number nearest to it. -/
theorem ofDecimal_zero_right (negative : Bool) (digits : Nat) :
    ofDecimal negative digits 0 = ofRatio negative (digits * Magnitude.one) 1 := by
  rw [ofDecimal_eq_ofRatio]
  simp

/-- The sign has no part in what digits are read as. -/
theorem ofDecimal_of_finite {digits : Nat} {exponent : Int} {m : Magnitude}
    (reads : ofDecimal false digits exponent = finite false m) (negative : Bool) :
    ofDecimal negative digits exponent = finite negative m := by
  rw [ofDecimal_eq_ofRatio] at reads ⊢
  exact ofRatio_of_finite reads negative

end Binary64

namespace Magnitude

/-- The finite expansion of a magnitude stands for it. -/
theorem ofDecimal_toDecimal (m : Magnitude) :
    Binary64.ofDecimal false m.toDecimal.digits m.toDecimal.exponent = .finite false m := by
  have expansion (n : Nat) (bits : one = 2 ^ n) :
      Binary64.ofDecimal false (m.units * Nat.pow 5 n) (-n) = .finite false m := by
    have factors : Nat.pow 5 n * 2 ^ n = 10 ^ n := (Nat.mul_pow 5 2 n).symm
    rw [Binary64.ofDecimal_eq_ofRatio, ← Binary64.ofRatio_units]
    refine Binary64.ofRatio_congr false (Nat.pow_pos (by decide)) Nat.one_pos ?_
    rw [bits, Int.toNat_neg_natCast, Int.neg_neg, Int.toNat_natCast, Nat.pow_zero, Nat.mul_one,
      Nat.mul_one, Nat.mul_assoc, factors]
  exact expansion 1074 one_eq

/-- The shortest decimal of a magnitude is read as that magnitude. -/
theorem ofDecimal_shortest (m : Magnitude) (negative : Bool) :
    Binary64.ofDecimal negative m.shortest.digits m.shortest.exponent = .finite negative m := by
  refine Binary64.ofDecimal_of_finite ?_ negative
  rw [shortest]
  cases found : (List.range 17).findSome? fun count => m.onGrid? (count + 1) with
  | none => exact m.ofDecimal_toDecimal
  | some d =>
    obtain ⟨count, -, onGrid⟩ := List.exists_of_findSome?_eq_some found
    exact ofDecimal_of_onGrid? onGrid

end Magnitude

end Rpn
