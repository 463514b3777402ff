import Mathlib.Algebra.Order.Field.Basic
import Mathlib.Algebra.Order.Field.Rat
import Mathlib.Tactic.FieldSimp
import Mathlib.Tactic.Linarith
import Rpn.Numeral
import Rpn.Proofs.Binary64.Nearest

/-!
# The number nearest to a decimal

Digits and a power of ten denote a rational number. It is read as the number of the format nearest to
it, and of two that are equally near as the one with the even significand. The upper bound of the
format is left out of account at first: where the nearest number of 53 significant bits lies beyond
it, the decimal is read as infinite.
-/

namespace Rpn

/-- So many units are a number of 53 significant bits, no other such number is nearer to `q` units,
and another one is as near only if the significand of this one is even. -/
structure IsNearestUnits (q : ℚ) (units : Nat) : Prop where
  aligned : 2 ^ spacing units ∣ units
  nearest : ∀ other : Nat, 2 ^ spacing other ∣ other →
    |q - units| < |q - other| ∨
      |q - units| = |q - other| ∧ (other = units ∨ 2 ^ (spacing units + 1) ∣ units)

/-- The number `x` is what `q` units with a sign are rounded to. -/
def Binary64.IsRounded (x : Binary64) (negative : Bool) (q : ℚ) : Prop :=
  ∃ units : Nat, IsNearestUnits q units ∧
    ((∃ m : Magnitude, m.units = units ∧ x = .finite negative m) ∨
      unitsLimit ≤ units ∧ x = .infinite negative)

section Quotient

variable {num den : Nat}

/-- The distance of a quotient from a whole number, in parts of the divisor. -/
theorem abs_div_sub (num : Nat) (positive : 0 < den) (k : Nat) :
    |(num : ℚ) / den - k| = (((num : Int) - (den * k : Nat)).natAbs : ℚ) / den := by
  have divisor : (0 : ℚ) < den := Nat.cast_pos.mpr positive
  have parts : (num : ℚ) / den - k = ((num : Int) - (den * k : Nat) : Int) / den := by
    push_cast
    field_simp
  rw [parts, abs_div, abs_of_pos divisor, Nat.cast_natAbs, Int.cast_abs]

theorem isNearestUnits_div (num : Nat) (positive : 0 < den) :
    IsNearestUnits ((num : ℚ) / den) (Magnitude.nearestUnits num den) := by
  have divisor : (0 : ℚ) < den := Nat.cast_pos.mpr positive
  have aligned := Magnitude.aligned_nearestUnits num den
  rw [Nat.one_shiftLeft] at aligned
  refine ⟨aligned, fun other alignedOther => ?_⟩
  rw [abs_div_sub num positive, abs_div_sub num positive, div_lt_div_iff_of_pos_right divisor,
    div_left_inj' divisor.ne', Nat.cast_lt, Nat.cast_inj]
  exact nearestUnits_nearest num positive alignedOther

end Quotient

section Unique

variable {q : ℚ} {units units' : Nat}

/-- The next number of the format is one step farther. -/
theorem aligned_add_step (aligned : 2 ^ spacing units ∣ units) :
    2 ^ spacing (units + 2 ^ spacing units) ∣ units + 2 ^ spacing units := by
  obtain ⟨count, same⟩ := aligned
  have small : count < 2 ^ 53 := by
    by_contra large
    have beyond : 2 ^ (spacing units + 1 + 52) ≤ units := by
      calc 2 ^ (spacing units + 1 + 52)
          = 2 ^ spacing units * 2 ^ 53 := by rw [← Nat.pow_add, Nat.add_assoc]
        _ ≤ 2 ^ spacing units * count := Nat.mul_le_mul_left _ (Nat.not_lt.mp large)
        _ = units := same.symm
    exact absurd (le_spacing beyond) (Nat.not_succ_le_self _)
  have next : units + 2 ^ spacing units = (count + 1) * 2 ^ spacing units := by
    rw [Nat.succ_mul, Nat.mul_comm count, ← same]
  exact exists_significand_iff.mp ⟨count + 1, spacing units, small, next⟩

theorem spacing_le_spacing (le : units ≤ units') : spacing units ≤ spacing units' := by
  by_cases small : units < 2 ^ 52
  · have none : spacing units ≤ 0 := spacing_of_lt (by omega)
    omega
  · exact le_spacing ((two_pow_spacing_le (Nat.not_lt.mp small)).trans le)

/-- Of two numbers with even significands that are equally near to `q` neither is the nearest, since
there is another one between them. -/
theorem IsNearestUnits.not_lt (near : IsNearestUnits q units) (near' : IsNearestUnits q units') :
    ¬ units < units' := by
  intro less
  have tie : |q - units| = |q - units'| ∧ 2 ^ (spacing units + 1) ∣ units ∧
      2 ^ (spacing units' + 1) ∣ units' := by
    obtain closer | ⟨tie, same | even⟩ := near.nearest units' near'.aligned
    · obtain closer' | ⟨tie, -⟩ := near'.nearest units near.aligned
      · exact absurd closer closer'.asymm
      · exact absurd tie closer.ne'
    · exact absurd same less.ne'
    · obtain closer' | ⟨-, same | even'⟩ := near'.nearest units near.aligned
      · exact absurd tie closer'.ne'
      · exact absurd same less.ne
      · exact ⟨tie, even, even'⟩
  obtain ⟨tie, even, even'⟩ := tie
  have step : 2 ^ (spacing units + 1) ∣ units' :=
    (Nat.pow_dvd_pow 2 (Nat.succ_le_succ (spacing_le_spacing less.le))).trans even'
  have apart : units + 2 ^ (spacing units + 1) ≤ units' := add_le_of_dvd even step less
  have positive : 0 < 2 ^ spacing units := Nat.two_pow_pos _
  have between : |q - units| ≤ |q - (units + 2 ^ spacing units : Nat)| := by
    obtain closer | ⟨tie, -⟩ := near.nearest _ (aligned_add_step near.aligned)
    · exact closer.le
    · exact tie.le
  rw [Nat.pow_succ] at apart
  generalize 2 ^ spacing units = width at apart positive between
  have apart : (units : ℚ) + width * 2 ≤ units' := by exact_mod_cast apart
  have positive : (0 : ℚ) < width := by exact_mod_cast positive
  obtain same | opposite := abs_eq_abs.mp tie
  · linarith
  · -- Now `q` is half way between the two, and a step leads from the lower one towards it.
    have above : 0 ≤ q - units := by linarith
    rw [abs_of_nonneg above, Nat.cast_add] at between
    obtain before | beyond := le_abs.mp between <;> linarith

theorem IsNearestUnits.unique (near : IsNearestUnits q units) (near' : IsNearestUnits q units') :
    units = units' :=
  Nat.le_antisymm (Nat.not_lt.mp (near'.not_lt near)) (Nat.not_lt.mp (near.not_lt near'))

end Unique

namespace Binary64

/-- A number has one rounding. -/
theorem IsRounded.unique {x y : Binary64} {negative : Bool} {q : ℚ} (rounded : x.IsRounded negative q)
    (rounded' : y.IsRounded negative q) : x = y := by
  obtain ⟨units, near, result⟩ := rounded
  obtain ⟨units', near', result'⟩ := rounded'
  obtain rfl := near.unique near'
  obtain ⟨m, same, rfl⟩ | ⟨beyond, rfl⟩ := result
  · obtain ⟨m', same', rfl⟩ | ⟨beyond, rfl⟩ := result'
    · rw [Magnitude.ext (same.trans same'.symm)]
    · exact absurd m.bounded (same ▸ Nat.not_lt.mpr beyond)
  · obtain ⟨m', same', rfl⟩ | ⟨beyond', rfl⟩ := result'
    · exact absurd m'.bounded (same' ▸ Nat.not_lt.mpr beyond)
    · rfl

theorem isRounded_ofRatio (negative : Bool) (num : Nat) {den : Nat} (positive : 0 < den) :
    (ofRatio negative num den).IsRounded negative ((num : ℚ) / den) := by
  refine ⟨_, isNearestUnits_div num positive, ?_⟩
  rw [ofRatio]
  cases found : Magnitude.nearest? num den with
  | some m => exact .inl ⟨m, Magnitude.units_of_nearest? found, rfl⟩
  | none =>
    rw [Magnitude.nearest?] at found
    split at found
    · cases found
    · next beyond => exact .inr ⟨Nat.not_lt.mp beyond, rfl⟩

/-- A decimal is rounded once. -/
theorem isRounded_ofDecimal (negative : Bool) (digits : Nat) (exponent : Int) :
    (ofDecimal negative digits exponent).IsRounded negative
      (digits * 10 ^ exponent * Magnitude.one) := by
  have ten : (10 : ℚ) ≠ 0 := by norm_num
  have power : (10 : ℚ) ^ exponent = 10 ^ exponent.toNat / 10 ^ (-exponent).toNat := by
    rw [div_eq_mul_inv, ← zpow_natCast, ← zpow_natCast, ← zpow_neg, ← zpow_add₀ ten]
    congr 1
    omega
  have quotient : (digits : ℚ) * 10 ^ exponent * Magnitude.one =
      ((digits * 10 ^ exponent.toNat * Magnitude.one : Nat) : ℚ) /
        ((10 ^ (-exponent).toNat : Nat) : ℚ) := by
    rw [power]
    push_cast
    ring
  rw [ofDecimal_eq_ofRatio, quotient]
  exact isRounded_ofRatio negative _ (Nat.pow_pos (by decide))

end Binary64

/-- The number `x` is what a numeral is read as. -/
def Numeral.RoundsTo : Numeral → Binary64 → Prop
  | nan, x => x = .nan
  | infinity negative, x => x = .infinite negative
  | decimal negative digits exponent, x =>
    x.IsRounded negative (digits * 10 ^ exponent * Magnitude.one)

theorem Numeral.roundsTo_iff {numeral : Numeral} {x : Binary64} :
    numeral.RoundsTo x ↔ x = numeral.toBinary64 := by
  cases numeral with
  | nan | infinity => exact Iff.rfl
  | decimal negative digits exponent =>
    have rounded := Binary64.isRounded_ofDecimal negative digits exponent
    exact ⟨fun rounded' => rounded'.unique rounded, fun same => same ▸ rounded⟩

end Rpn
