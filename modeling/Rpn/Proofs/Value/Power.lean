import Mathlib.Algebra.Order.Ring.Int
import Mathlib.Algebra.Ring.Parity
import Rpn.Proofs.Binary64.Nearest
import Rpn.Proofs.Value.Reading

/-!
# Powers of integers

A power of an integer whose exponent has 32 bits is exact if it fits into 64 bits. All other powers
are left to the power function of floating point, of which it is asked that it is exact where the
power is a number of the format and off by one unit in the last place at most where it is not
(`Elementary.AccuratePower`).

With a longer exponent only 0, 1 and -1 have powers that fit. Those of -1 depend on the parity of
the exponent, and the exponent is rounded on its way into floating point: from `2⁵³` on it comes
out even. So the odd powers of -1 beyond that are wrong, and they are the only ones that are
(`pow_exact_or_float`).

A power that does not fit stays out of range when it is rounded. Its base and its exponent may have
been rounded before, but then it is far above the range; if they have not, no power of an integer
comes as close above `2⁶³` as a rounding error (`lt_pow_of_lt_pow`).
-/

namespace Rpn

section Naturals

variable {b e n : Nat}

/-- The largest number whose power does not exceed `2⁶³`, found bit by bit. -/
def limitRoot (e : Nat) : Nat :=
  (List.range 32).foldr (fun bit r => if (r + 2 ^ bit) ^ e ≤ 2 ^ 63 then r + 2 ^ bit else r) 0

/-- The first power above `2⁶³` of each exponent leaves more than a unit in the last place. -/
theorem lt_next_power : ∀ e < 64, 2 ≤ e →
    limitRoot e ^ e ≤ 2 ^ 63 ∧ 2 ^ 63 + 2 ^ 11 < (limitRoot e + 1) ^ e := by
  decide +kernel

theorem two_pow_le_pow (base : 2 ≤ b) (exponent : 64 ≤ e) : 2 ^ 64 ≤ b ^ e := by
  calc 2 ^ 64
      ≤ b ^ 64 := Nat.pow_le_pow_left base 64
    _ ≤ b ^ e := Nat.pow_le_pow_right (by omega) exponent

theorem lt_pow_of_lt_pow (exponent : 2 ≤ e) (above : 2 ^ 63 < b ^ e) :
    2 ^ 63 + 2 ^ 11 < b ^ e := by
  by_cases long : 64 ≤ e
  · have base : 2 ≤ b := by
      by_contra small
      have unit : b ^ e ≤ 1 ^ e := Nat.pow_le_pow_left (by omega) e
      rw [Nat.one_pow] at unit
      omega
    have large := two_pow_le_pow base long
    omega
  · obtain ⟨root, next⟩ := lt_next_power e (by omega) exponent
    have larger : limitRoot e < b := lt_of_pow_lt_pow_left₀ e (Nat.zero_le b) (root.trans_lt above)
    exact next.trans_le (Nat.pow_le_pow_left larger e)

/-- A unit in the last place does not lead back from there to `2⁶³`. -/
theorem lt_sub_two_pow_spacing (above : 2 ^ 63 + 2 ^ 11 < n) : 2 ^ 63 + 2 ^ spacing n < n := by
  by_cases next : n < 2 ^ 64
  · have unit : 2 ^ spacing n ≤ 2 ^ 11 := Nat.pow_le_pow_right (by decide) (spacing_of_lt next)
    omega
  · have unit := two_pow_spacing_le (n := n) (by omega)
    rw [Nat.pow_add] at unit
    omega

theorem two_le_rounded (large : 2 ≤ n) : 2 ≤ rounded n := by
  have power : 2 ^ 1 ≤ rounded n := two_pow_le_rounded large
  omega

/-- Rounding base and exponent leaves a power as it is, or the power is far above the range. -/
theorem rounded_pow_cases (base : 2 ≤ b) (exponent : 2 ≤ e) :
    (rounded b = b ∧ rounded e = e) ∨ 2 ^ 64 ≤ rounded b ^ rounded e := by
  have base' : 2 ≤ rounded b := two_le_rounded base
  have exponent' : 2 ≤ rounded e := two_le_rounded exponent
  by_cases longBase : 2 ^ 53 < b
  · right
    have large : 2 ^ 53 ≤ rounded b := two_pow_le_rounded longBase.le
    calc 2 ^ 64
        ≤ (2 ^ 53) ^ 2 := by decide
      _ ≤ rounded b ^ 2 := Nat.pow_le_pow_left large 2
      _ ≤ rounded b ^ rounded e := Nat.pow_le_pow_right (by omega) exponent'
  by_cases longExponent : 2 ^ 53 < e
  · right
    have large : 2 ^ 6 ≤ rounded e := two_pow_le_rounded (by omega)
    exact two_pow_le_pow base' large
  · exact .inl ⟨rounded_of_le (by omega), rounded_of_le (by omega)⟩

/-- An exponent of 54 bits or more is even once it is rounded. -/
theorem even_rounded (long : 2 ^ 53 < n) : Even (rounded n) := by
  have wide : 1 ≤ spacing n := le_spacing (by omega)
  exact even_iff_two_dvd.mpr ((Nat.pow_dvd_pow 2 wide).trans (two_pow_dvd_rounded n))

end Naturals

namespace Binary64

/-- Some number of the format is equal to `n`. -/
def Represented (n : Int) : Prop := ∃ x : Binary64, x.toInt? = some n

theorem toInt?_ofInt_natCast {n : Nat} (bound : n ≤ 2 ^ 63) :
    (ofInt n).toInt? = some (rounded n : Int) := by
  rw [toInt?_ofInt_of_bound (by omega), roundedInt, if_neg (by omega), Int.natAbs_natCast]

theorem represented_of_significand {n : Int} (bound : n.natAbs ≤ 2 ^ 63)
    (bits : ∃ significand bits : Nat, significand ≤ 2 ^ 53 ∧ n.natAbs = significand * 2 ^ bits) :
    Represented n := by
  refine ⟨ofInt n, ?_⟩
  rw [toInt?_ofInt_of_bound bound, roundedInt_eq_self_iff.mpr (rounded_eq_self_iff.mpr bits)]

theorem represented_of_natAbs_le {n : Int} (small : n.natAbs ≤ 2 ^ 53) : Represented n :=
  represented_of_significand (by omega) ⟨n.natAbs, 0, small, by rw [Nat.pow_zero, Nat.mul_one]⟩

theorem represented_limit : Represented (2 ^ 63) :=
  represented_of_significand (by decide) ⟨1, 63, by decide, by decide⟩

/-- The number is off from `n` by one unit in the last place at most, or infinite where a finite
number so near to `n` need not exist. -/
def WithinUnit (x : Binary64) (n : Int) : Prop :=
  (∃ units, x.units? = some units ∧
    (units - n * Magnitude.one).natAbs ≤ 2 ^ spacing n.natAbs * Magnitude.one) ∨
  x = infinite (decide (n < 0)) ∧ 2 ^ 1024 ≤ n.natAbs + 2 ^ spacing n.natAbs

/-- Rounding is off by half a unit. -/
theorem withinUnit_ofInt (n : Int) : (ofInt n).WithinUnit n := by
  have error := roundHalfEven_bounds n.natAbs (Nat.two_pow_pos (spacing n.natAbs))
  rw [← rounded_eq] at error
  obtain ⟨m, same, units⟩ | ⟨same, beyond⟩ := ofInt_cases n
  · left
    refine ⟨_, same ▸ units?_of_rounded units, ?_⟩
    rw [← Int.sub_mul, Int.natAbs_mul, Int.natAbs_natCast]
    apply Nat.mul_le_mul_right
    rw [roundedInt]
    split <;> omega
  · exact .inr ⟨same, by omega⟩

end Binary64

open Binary64

/-- The power function as libraries document it, on integers: exact wherever the exact power is a
number of the format, and otherwise within one unit in the last place, infinite on overflow. -/
structure Elementary.AccuratePower (f : Elementary) : Prop where
  exact {x y : Binary64} {base : Int} {exponent : Nat} (base_eq : x.toInt? = some base)
    (exponent_eq : y.toInt? = some (exponent : Int)) (represented : Represented (base ^ exponent)) :
    (f.pow x y).toInt? = some (base ^ exponent)
  near {x y : Binary64} {base : Int} {exponent : Nat} (base_eq : x.toInt? = some base)
    (exponent_eq : y.toInt? = some (exponent : Int))
    (unrepresented : ¬ Represented (base ^ exponent)) :
    (f.pow x y).WithinUnit (base ^ exponent)

namespace Value

section Range

variable {base : Int} {e : Nat}

theorem two_le_of_pow_outside (lower : -2 ^ 63 ≤ base) (upper : base < 2 ^ 63)
    (outside : base ^ e < -2 ^ 63 ∨ 2 ^ 63 ≤ base ^ e) : 2 ≤ base.natAbs ∧ 2 ≤ e := by
  have large : 2 ^ 63 ≤ (base ^ e).natAbs := by omega
  constructor
  · by_contra small
    rw [Int.natAbs_pow] at large
    have unit : base.natAbs ^ e ≤ 1 ^ e := Nat.pow_le_pow_left (by omega) e
    rw [Nat.one_pow] at unit
    omega
  · by_contra small
    obtain rfl | rfl : e = 0 ∨ e = 1 := by omega
    · rw [Int.pow_zero] at outside
      omega
    · rw [Int.pow_one] at outside
      omega

/-- Beyond 64 factors only the powers of 0, 1 and -1 fit. -/
theorem natAbs_le_one_of_pow_fits (exponent : 64 ≤ e) (lower : -2 ^ 63 ≤ base ^ e)
    (upper : base ^ e < 2 ^ 63) : base.natAbs ≤ 1 := by
  by_contra large
  have power := two_pow_le_pow (b := base.natAbs) (by omega) exponent
  rw [← Int.natAbs_pow] at power
  omega

/-- The short cuts for long exponents make no difference. -/
theorem exactPower?_eq (e : Nat) (short : e < 2 ^ 32) :
    exactPower? base e = int64? (base ^ e) := by
  rw [exactPower?, if_neg (by omega)]
  by_cases few : (e : Int) < 64
  · rw [if_pos few, Int.toNat_natCast]
    rfl
  have nonzero : e ≠ 0 := by omega
  rw [if_neg few]
  by_cases unit : base = 0 ∨ base = 1
  · have same : base ^ e = base := by
      obtain rfl | rfl := unit
      · exact zero_pow nonzero
      · exact one_pow e
    rw [if_pos unit, same, int64?, if_pos (by omega)]
  rw [if_neg unit]
  by_cases negative : base = -1
  · rw [if_pos negative, negative]
    obtain even | odd := Nat.even_or_odd e
    · have zero : (e : Int) % 2 = 0 := by
        have := Nat.even_iff.mp even
        omega
      rw [if_pos zero, even.neg_one_pow]
      rfl
    · have one : ¬ (e : Int) % 2 = 0 := by
        have := Nat.odd_iff.mp odd
        omega
      rw [if_neg one, odd.neg_one_pow]
      rfl
  · have large := two_pow_le_pow (b := base.natAbs) (e := e) (by omega) (by omega)
    rw [← Int.natAbs_pow] at large
    rw [if_neg negative, int64?, if_neg (by omega)]

/-- What the power comes to in floating point does not fit either. -/
theorem roundedInt_pow_outside (lower : -2 ^ 63 ≤ base) (upper : base < 2 ^ 63)
    (outside : base ^ e < -2 ^ 63 ∨ 2 ^ 63 ≤ base ^ e) :
    roundedInt base ^ rounded e < -2 ^ 63 ∨ 2 ^ 63 ≤ roundedInt base ^ rounded e := by
  obtain ⟨two_le_base, two_le⟩ := two_le_of_pow_outside lower upper outside
  obtain ⟨sameBase, same⟩ | large := rounded_pow_cases two_le_base two_le
  · rwa [roundedInt_eq_self_iff.mpr sameBase, same]
  · rw [← natAbs_roundedInt, ← Int.natAbs_pow] at large
    omega

end Range

/-- A number that is off from an integer above the range by one unit in the last place is out of
range itself, when the integer is a power. -/
theorem ofBinary64_of_withinUnit {x : Binary64} {b : Int} {e : Nat} (exponent : 2 ≤ e)
    (above : 2 ^ 63 < (b ^ e).natAbs) (near : x.WithinUnit (b ^ e)) : ofBinary64 x = float x := by
  obtain ⟨units, finite, error⟩ | ⟨rfl, -⟩ := near
  · have far : 2 ^ 63 + 2 ^ 11 < (b ^ e).natAbs := by
      rw [Int.natAbs_pow] at above ⊢
      exact lt_pow_of_lt_pow exponent above
    have beyond :=
      Nat.mul_lt_mul_of_pos_right (lt_sub_two_pow_spacing far) Magnitude.one_pos
    have size : ((b ^ e).natAbs * Magnitude.one) = (b ^ e * Magnitude.one).natAbs := by
      rw [Int.natAbs_mul, Int.natAbs_natCast]
    rw [Nat.add_mul, size] at beyond
    refine (IsNormal.outside finite ?_).normalize_eq
    rw [integerLimit]
    generalize b ^ e * (Magnitude.one : Int) = exact at beyond error
    generalize 2 ^ spacing (b ^ e).natAbs * Magnitude.one = unit at beyond error
    omega
  · exact (IsNormal.infinite _).normalize_eq

section Fallback

variable {f : Elementary} {base : Int}

/-- A power that does not fit, computed in floating point. -/
theorem ofBinary64_pow_of_outside {e : Nat} (accurate : f.AccuratePower)
    (lower : -2 ^ 63 ≤ base) (upper : base < 2 ^ 63) (bound : e ≤ 2 ^ 63)
    (outside : base ^ e < -2 ^ 63 ∨ 2 ^ 63 ≤ base ^ e) :
    ∃ x, ofBinary64 (f.pow (.ofInt base) (.ofInt e)) = float x := by
  have wholeBase : (ofInt base).toInt? = some (roundedInt base) :=
    toInt?_ofInt_of_bound (by omega)
  have whole : (ofInt e).toInt? = some (rounded e : Int) := toInt?_ofInt_natCast bound
  have beyond := roundedInt_pow_outside lower upper outside
  have two_le := (two_le_of_pow_outside lower upper outside).2
  by_cases represented : Represented (roundedInt base ^ rounded e)
  · refine ⟨f.pow (.ofInt base) (.ofInt e), ?_⟩
    rw [ofBinary64_of_toInt? (accurate.exact wholeBase whole represented), if_neg (by omega)]
  · have above : 2 ^ 63 < (roundedInt base ^ rounded e).natAbs := by
      have different : roundedInt base ^ rounded e ≠ 2 ^ 63 := by
        intro limit
        rw [limit] at represented
        exact represented represented_limit
      omega
    exact ⟨_, ofBinary64_of_withinUnit (two_le_rounded two_le) above
      (accurate.near wholeBase whole represented)⟩

/-- A power of 0, 1 or -1, computed in floating point. Only the exponent is rounded. -/
theorem ofBinary64_pow_of_unit {e : Nat} (accurate : f.AccuratePower) (unit : base.natAbs ≤ 1)
    (bound : e ≤ 2 ^ 63) :
    ofBinary64 (f.pow (.ofInt base) (.ofInt e)) = int (.ofInt (base ^ rounded e)) := by
  have same : rounded base.natAbs = base.natAbs := rounded_of_le (by omega)
  have wholeBase : (ofInt base).toInt? = some base := by
    rw [toInt?_ofInt_of_bound (by omega), roundedInt_eq_self_iff.mpr same]
  have small : (base ^ rounded e).natAbs ≤ 1 := by
    have power : base.natAbs ^ rounded e ≤ 1 ^ rounded e := Nat.pow_le_pow_left unit _
    rwa [Int.natAbs_pow, ← Nat.one_pow (rounded e)]
  have whole := accurate.exact wholeBase (toInt?_ofInt_natCast bound)
    (represented_of_natAbs_le (by omega))
  rw [ofBinary64_of_toInt? whole, if_pos (by omega)]

/-- Rounding the exponent matters to the odd powers of -1 only. -/
theorem unit_pow_rounded {e : Nat} (unit : base.natAbs ≤ 1) (nonzero : e ≠ 0)
    (kept : ¬ (base = -1 ∧ Odd e ∧ 2 ^ 53 < e)) : base ^ rounded e = base ^ e := by
  by_cases short : e ≤ 2 ^ 53
  · rw [rounded_of_le short]
  have even := even_rounded (Nat.not_le.mp short)
  have positive : 0 < rounded e := rounded_pos (by omega)
  obtain rfl | rfl | rfl : base = 0 ∨ base = 1 ∨ base = -1 := by omega
  · rw [zero_pow nonzero, zero_pow (by omega)]
  · rw [one_pow, one_pow]
  · have evenPower : Even e := by
      by_contra odd
      exact kept ⟨rfl, Nat.not_even_iff_odd.mp odd, Nat.not_le.mp short⟩
    rw [even.neg_one_pow, evenPower.neg_one_pow]

end Fallback

section Power

variable {f : Elementary} {base exponent : Int64} {e : Nat}

theorem pow_of_short (whole : exponent.toInt = e) (short : e < 2 ^ 32) :
    pow f (int base) (int exponent) =
      exactOr (base.toInt ^ e) (f.pow (.ofInt base.toInt) (.ofInt e)) := by
  rw [pow, exactOr, whole, exactPower?_eq e short, toBinary64, toBinary64, whole]

theorem pow_of_long (whole : exponent.toInt = e) (long : 2 ^ 32 ≤ e) :
    pow f (int base) (int exponent) =
      ofBinary64 (f.pow (.ofInt base.toInt) (.ofInt e)) := by
  have none : exactPower? base.toInt exponent.toInt = none := by
    rw [exactPower?, whole, if_pos (by omega)]
  rw [pow, none, ← whole]
  rfl

/-- An odd power of -1 whose exponent is too long for floating point. -/
theorem pow_of_lost_parity (accurate : f.AccuratePower) (negative : base.toInt = -1)
    (long : 2 ^ 53 < exponent.toInt) : pow f (int base) (int exponent) = int 1 := by
  obtain ⟨e, whole⟩ := Int.eq_ofNat_of_zero_le (a := exponent.toInt) (by omega)
  have upper := exponent.toInt_lt
  rw [pow_of_long whole (by omega), negative,
    ofBinary64_pow_of_unit accurate (by decide) (by omega), (even_rounded (by omega)).neg_one_pow]
  rfl

theorem pow_of_fits (accurate : f.AccuratePower) (whole : exponent.toInt = e)
    (lower : -2 ^ 63 ≤ base.toInt ^ e) (upper : base.toInt ^ e < 2 ^ 63)
    (kept : ¬ (base.toInt = -1 ∧ Odd e ∧ 2 ^ 53 < e)) :
    pow f (int base) (int exponent) = int (.ofInt (base.toInt ^ e)) := by
  by_cases short : e < 2 ^ 32
  · rw [pow_of_short whole short]
    exact (exactOr_of_range lower upper).1
  · have bound := exponent.toInt_lt
    have unit := natAbs_le_one_of_pow_fits (by omega) lower upper
    rw [pow_of_long whole (by omega), ofBinary64_pow_of_unit accurate unit (by omega),
      unit_pow_rounded unit (by omega) kept]

theorem pow_of_outside (accurate : f.AccuratePower) (whole : exponent.toInt = e)
    (outside : base.toInt ^ e < -2 ^ 63 ∨ 2 ^ 63 ≤ base.toInt ^ e) :
    ∃ x, pow f (int base) (int exponent) = float x := by
  have bound := exponent.toInt_lt
  have fallback := ofBinary64_pow_of_outside (e := e) accurate base.le_toInt base.toInt_lt
    (by omega) outside
  by_cases short : e < 2 ^ 32
  · rw [pow_of_short whole short, exactOr_of_outside outside]
    exact fallback
  · rw [pow_of_long whole (by omega)]
    exact fallback

/-- A power of integers is exact if it fits and a floating-point number if it does not, but for the
odd powers of -1 with an exponent above `2⁵³`, which come out as 1. -/
theorem pow_exact_or_float (accurate : f.AccuratePower) (base exponent : Int64)
    (nonneg : 0 ≤ exponent.toInt) :
    (-2 ^ 63 ≤ base.toInt ^ exponent.toInt.toNat → base.toInt ^ exponent.toInt.toNat < 2 ^ 63 →
      ¬ (base.toInt = -1 ∧ Odd exponent.toInt ∧ 2 ^ 53 < exponent.toInt) →
      ∃ n : Int64, pow f (int base) (int exponent) = int n ∧
        n.toInt = base.toInt ^ exponent.toInt.toNat) ∧
    (base.toInt ^ exponent.toInt.toNat < -2 ^ 63 ∨ 2 ^ 63 ≤ base.toInt ^ exponent.toInt.toNat →
      ∃ x, pow f (int base) (int exponent) = float x) ∧
    (base.toInt = -1 → Odd exponent.toInt → 2 ^ 53 < exponent.toInt →
      base.toInt ^ exponent.toInt.toNat = -1 ∧ pow f (int base) (int exponent) = int 1) := by
  obtain ⟨e, whole⟩ := Int.eq_ofNat_of_zero_le nonneg
  have parity : Odd exponent.toInt ↔ Odd e := by
    rw [whole]
    exact Int.odd_coe_nat e
  have length : 2 ^ 53 < exponent.toInt ↔ 2 ^ 53 < e := by omega
  have count : exponent.toInt.toNat = e := by omega
  refine ⟨?_, ?_, ?_⟩
  · intro lower upper kept
    rw [parity, length] at kept
    rw [count] at lower upper ⊢
    exact ⟨_, pow_of_fits accurate whole lower upper kept,
      (exactOr_of_range lower upper (x := .nan)).2⟩
  · intro outside
    rw [count] at outside
    exact pow_of_outside accurate whole outside
  · intro negative odd long
    refine ⟨?_, pow_of_lost_parity accurate negative long⟩
    rw [negative, count]
    exact (parity.mp odd).neg_one_pow

end Power

end Value

/-- A power function that rounds correctly where both its arguments are integers. -/
def Elementary.rounding : Elementary :=
  { Elementary.machine with
    pow := fun x y =>
      match x.toInt?, y.toInt? with
      | some base, some (.ofNat exponent) => .ofInt (base ^ exponent)
      | _, _ => Elementary.machine.pow x y }

theorem Elementary.accuratePower_rounding : Elementary.rounding.AccuratePower := by
  have computed {x y : Binary64} {base : Int} {exponent : Nat} (base_eq : x.toInt? = some base)
      (exponent_eq : y.toInt? = some (exponent : Int)) :
      Elementary.rounding.pow x y = .ofInt (base ^ exponent) := by
    simp only [rounding, base_eq, exponent_eq]
  refine ⟨?_, ?_⟩
  · intro x y base exponent base_eq exponent_eq ⟨z, represents⟩
    rw [computed base_eq exponent_eq]
    exact toInt?_ofInt represents
  · intro x y base exponent base_eq exponent_eq unrepresented
    rw [computed base_eq exponent_eq]
    exact withinUnit_ofInt _

namespace Value

/-- A power of 3 that fits, one of 10 that does not, and one of -1 that comes out wrong. -/
theorem pow_exact_or_float_three :
    (∃ n : Int64, pow .rounding (int 3) (int 39) = int n ∧ n.toInt = 3 ^ 39) ∧
      (∃ x, pow .rounding (int 10) (int 30) = float x) ∧
      pow .rounding (int (-1)) (int 9007199254740993) = int 1 := by
  have accurate := Elementary.accuratePower_rounding
  obtain ⟨fits, -, -⟩ := pow_exact_or_float accurate 3 39 (by decide)
  obtain ⟨-, outside, -⟩ := pow_exact_or_float accurate 10 30 (by decide)
  obtain ⟨-, -, lost⟩ := pow_exact_or_float accurate (-1) 9007199254740993 (by decide)
  exact ⟨fits (by decide) (by decide) (by decide), outside (by decide),
    (lost (by decide) (by decide) (by decide)).2⟩

/-- The power of -1 whose exponent is the first odd number that is rounded. -/
theorem not_forall_pow_exact :
    ¬ ∀ f : Elementary, f.AccuratePower → ∀ base exponent : Int64, 0 ≤ exponent.toInt →
      -2 ^ 63 ≤ base.toInt ^ exponent.toInt.toNat → base.toInt ^ exponent.toInt.toNat < 2 ^ 63 →
      ∃ n : Int64, pow f (int base) (int exponent) = int n ∧
        n.toInt = base.toInt ^ exponent.toInt.toNat := by
  intro all
  have accurate := Elementary.accuratePower_rounding
  have odd : Odd (9007199254740993 : Int64).toInt.toNat := by decide
  have exact : (-1 : Int64).toInt ^ (9007199254740993 : Int64).toInt.toNat = -1 := odd.neg_one_pow
  have lower : (-2 ^ 63 : Int) ≤ -1 := by decide
  have upper : (-1 : Int) < 2 ^ 63 := by decide
  rw [← exact] at lower upper
  obtain ⟨n, same, equal⟩ := all .rounding accurate (-1) 9007199254740993 (by decide) lower upper
  have lost : pow .rounding (int (-1)) (int 9007199254740993) = int 1 :=
    pow_of_lost_parity accurate (by decide) (by decide)
  cases lost.symm.trans same
  rw [exact] at equal
  exact absurd equal (by decide)

end Value

end Rpn
