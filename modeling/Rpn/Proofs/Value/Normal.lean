import Mathlib.Order.WithBot
import Rpn.Value.Arithmetic

/-!
# Normal form

A value is normal when it is an integer, or a floating-point number that is not equal to any
integer of 64 bits: not a number, infinite, with a fractional part, or out of range. Every
number that has a value has exactly one normal value, and `normalize` leads to it. Zero is an
integer, so neither of the floating-point zeros is normal.

Numbers are compared by what they stand for, which is counted in units of the format, so that
an integer and a floating-point number can be equal.
-/

namespace Rpn

theorem Magnitude.natCast_one_pos : (0 : Int) < Magnitude.one := by
  exact_mod_cast Magnitude.one_pos

theorem Magnitude.natCast_one_ne_zero : (Magnitude.one : Int) ≠ 0 := natCast_one_pos.ne'

theorem int64?_eq_some_iff {n : Int} {i : Int64} : int64? n = some i ↔ i.toInt = n := by
  constructor
  · exact toInt_of_int64?
  · rintro rfl
    have lower := i.le_toInt
    have upper := i.toInt_lt
    rw [int64?, if_pos ⟨lower, upper⟩, Int64.ofInt_toInt]

namespace Binary64

/-- The number that a floating-point number stands for, in units; `nan` stands for none. -/
def number? : Binary64 → Option (WithBot (WithTop Int))
  | nan => none
  | infinite negative => some (if negative then ⊥ else ⊤)
  | finite negative m => some ((if negative then -(m.units : Int) else m.units : Int) : WithTop Int)

theorem number?_eq_some_coe_iff {x : Binary64} {units : Int} :
    x.number? = some ((units : WithTop Int) : WithBot (WithTop Int)) ↔ x.units? = some units := by
  cases x with
  | nan => simp [number?, units?]
  | infinite negative => cases negative <;> simp [number?, units?]
  | finite negative m => simp only [number?, units?, Option.some.injEq, WithBot.coe_inj, WithTop.coe_inj]

/-- What is not zero is determined by the number it stands for. -/
theorem eq_of_number?_eq {x y : Binary64} {number : WithBot (WithTop Int)}
    (hx : x.number? = some number) (hy : y.number? = some number) (nonzero : x.units? ≠ some 0) :
    x = y := by
  have same := hx.trans hy.symm
  cases x with
  | nan => cases hx
  | infinite s =>
    cases y with
    | nan => cases hy
    | infinite t => cases s <;> cases t <;> simp [number?] at same ⊢
    | finite t b => cases s <;> simp [number?] at same
  | finite s a =>
    cases y with
    | nan => cases hy
    | infinite t => cases t <;> simp [number?] at same
    | finite t b =>
      simp only [number?, Option.some.injEq, WithBot.coe_inj, WithTop.coe_inj] at same
      have ⟨signs, magnitudes⟩ : s = t ∧ a.units = b.units := by
        cases s <;> cases t <;> simp [units?] at same nonzero ⊢ <;> omega
      rw [signs, Magnitude.ext magnitudes]

theorem units?_zero (negative : Bool) : (zero negative).units? = some 0 := by
  have bounded : 0 < unitsLimit := by
    unfold unitsLimit
    exact Magnitude.shiftLeft_pos Nat.one_pos 2098
  have found := ofRatio_units negative ⟨0, Nat.dvd_zero _, bounded⟩
  rw [zero, found]
  cases negative <;> rfl

theorem ofInt_zero : ofInt 0 = zero false := by
  rw [ofInt, Int.natAbs_zero, Nat.zero_mul]
  rfl

theorem isIntegral_iff {x : Binary64} :
    x.isIntegral = true ↔ ∃ units, x.units? = some units ∧ (Magnitude.one : Int) ∣ units := by
  cases x with
  | nan | infinite => simp [isIntegral, units?]
  | finite negative m =>
    simp only [isIntegral, units?, Option.some.injEq, exists_eq_left', beq_iff_eq]
    rw [← Nat.dvd_iff_mod_eq_zero, ← Int.natCast_dvd_natCast]
    cases negative <;> simp

/-- The integer that a number is equal to, if any, is its count of units divided by the units
of one. -/
theorem toInt?_eq_some_iff {x : Binary64} {n : Int} :
    x.toInt? = some n ↔ x.units? = some (n * Magnitude.one) := by
  rw [toInt?, integerPart?]
  constructor
  · intro equal
    split at equal
    · next integral =>
      obtain ⟨units, finite, divides⟩ := isIntegral_iff.mp integral
      rw [finite, Option.map_some, Option.some.injEq] at equal
      rw [finite, ← equal, Int.tdiv_mul_cancel divides]
    · cases equal
  · intro equal
    rw [if_pos (isIntegral_iff.mpr ⟨_, equal, Int.dvd_mul_left n _⟩), equal, Option.map_some,
      Int.mul_tdiv_cancel n Magnitude.natCast_one_ne_zero]

end Binary64

namespace Value

/-- The number that a value stands for, in units. -/
def number? : Value → Option (WithBot (WithTop Int))
  | int n => some ((n.toInt * Magnitude.one : Int) : WithTop Int)
  | float x => x.number?

theorem number?_eq_none_iff {v : Value} : v.number? = none ↔ v = float .nan := by
  cases v with
  | int n => simp [number?]
  | float x => cases x <;> simp [number?, Binary64.number?]

/-- The integers of 64 bits reach up to this number of units, `2⁶³`, and do not contain it. -/
def integerLimit : Int := 0x8000000000000000 * Magnitude.one

/-- An integer does not fit into 64 bits when its units are out of range. -/
theorem int64?_eq_none_iff {n : Int} :
    int64? n = none ↔ n * Magnitude.one < -integerLimit ∨ integerLimit ≤ n * Magnitude.one := by
  have lower : n * Magnitude.one < -integerLimit ↔ n < -0x8000000000000000 := by
    rw [integerLimit, ← Int.neg_mul]
    exact Int.mul_lt_mul_right Magnitude.natCast_one_pos
  have upper : integerLimit ≤ n * Magnitude.one ↔ 0x8000000000000000 ≤ n := by
    rw [integerLimit]
    exact Int.mul_le_mul_right Magnitude.natCast_one_pos
  rw [lower, upper, int64?, ite_eq_right_iff]
  simp only [reduceCtorEq, imp_false, not_and_or, not_le, not_lt]

/-- An integer, or a floating-point number that could not be one. -/
inductive IsNormal : Value → Prop
  | int (n : Int64) : IsNormal (.int n)
  | nan : IsNormal (.float .nan)
  | infinite (negative : Bool) : IsNormal (.float (.infinite negative))
  | fractional {x : Binary64} {units : Int} (finite : x.units? = some units)
      (fraction : ¬ (Magnitude.one : Int) ∣ units) : IsNormal (.float x)
  | outside {x : Binary64} {units : Int} (finite : x.units? = some units)
      (range : units < -integerLimit ∨ integerLimit ≤ units) : IsNormal (.float x)

/-- A floating-point number is normal when no integer of 64 bits is equal to it. -/
theorem isNormal_float_iff {x : Binary64} :
    (float x).IsNormal ↔ ∀ n : Int64, x.units? ≠ some (n.toInt * Magnitude.one) := by
  constructor
  · intro normal n equal
    cases normal with
    | nan | infinite => cases equal
    | fractional finite fraction =>
      cases finite.symm.trans equal
      exact fraction (Int.dvd_mul_left n.toInt _)
    | outside finite range =>
      cases finite.symm.trans equal
      cases (int64?_eq_none_iff.mpr range).symm.trans (int64?_eq_some_iff.mpr rfl)
  · intro different
    cases finite : x.units? with
    | none =>
      cases x with
      | nan => exact .nan
      | infinite negative => exact .infinite negative
      | finite => cases finite
    | some units =>
      by_cases divides : (Magnitude.one : Int) ∣ units
      · obtain ⟨n, rfl⟩ := divides
        rw [Int.mul_comm] at finite
        refine .outside finite (int64?_eq_none_iff.mp ?_)
        cases fits : int64? n with
        | none => rfl
        | some i =>
          rw [← int64?_eq_some_iff.mp fits] at finite
          exact absurd finite (different i)
      · exact .fractional finite divides

/-- A number becomes an integer exactly when it is equal to that integer. -/
theorem ofBinary64_eq_int_iff {x : Binary64} {n : Int64} :
    ofBinary64 x = int n ↔ x.units? = some (n.toInt * Magnitude.one) := by
  have bound : x.toInt?.bind int64? = some n ↔ x.units? = some (n.toInt * Magnitude.one) := by
    rw [← Binary64.toInt?_eq_some_iff, Option.bind_eq_some_iff]
    simp only [int64?_eq_some_iff, exists_eq_right']
  rw [ofBinary64, ← bound]
  cases x.toInt?.bind int64? <;> simp

/-- What is not made an integer stays as it is. -/
theorem ofBinary64_cases (x : Binary64) : (∃ n, ofBinary64 x = int n) ∨ ofBinary64 x = float x := by
  rw [ofBinary64]
  cases x.toInt?.bind int64? with
  | some n => exact .inl ⟨n, rfl⟩
  | none => exact .inr rfl

/-- The signed units of a value that is finite. -/
def signedUnits? : Value → Option Int
  | int n => some (n.toInt * Magnitude.one)
  | float x => x.units?

/-- Nothing is lost when a number is made an integer. -/
theorem signedUnits?_ofBinary64 (x : Binary64) : (ofBinary64 x).signedUnits? = x.units? := by
  obtain ⟨n, collapsed⟩ | kept := ofBinary64_cases x
  · rw [collapsed]
    exact (ofBinary64_eq_int_iff.mp collapsed).symm
  · rw [kept]
    rfl

theorem isIntegral_iff_signedUnits? {v : Value} :
    v.isIntegral = true ↔ ∃ n : Int, v.signedUnits? = some (n * Magnitude.one) := by
  cases v with
  | int n => exact ⟨fun _ => ⟨_, rfl⟩, fun _ => rfl⟩
  | float x =>
    constructor
    · intro integral
      obtain ⟨units, finite, n, rfl⟩ := Binary64.isIntegral_iff.mp integral
      exact ⟨n, finite.trans (congrArg some (Int.mul_comm _ _))⟩
    · rintro ⟨n, finite⟩
      exact Binary64.isIntegral_iff.mpr ⟨_, finite, Int.dvd_mul_left n _⟩

theorem isNormal_ofBinary64 (x : Binary64) : (ofBinary64 x).IsNormal := by
  obtain ⟨n, collapsed⟩ | kept := ofBinary64_cases x
  · rw [collapsed]
    exact .int n
  · rw [kept, isNormal_float_iff]
    intro n equal
    cases kept.symm.trans (ofBinary64_eq_int_iff.mpr equal)

theorem isNormal_normalize (v : Value) : v.normalize.IsNormal := by
  cases v with
  | int n => exact .int n
  | float x => exact isNormal_ofBinary64 x

namespace IsNormal

variable {v w : Value}

theorem normalize_eq (normal : v.IsNormal) : v.normalize = v := by
  cases v with
  | int n => rfl
  | float x =>
    obtain ⟨n, collapsed⟩ | kept := ofBinary64_cases x
    · exact absurd (ofBinary64_eq_int_iff.mp collapsed) (isNormal_float_iff.mp normal n)
    · exact kept

theorem units?_ne_zero {x : Binary64} (normal : (float x).IsNormal) : x.units? ≠ some 0 := by
  have different := isNormal_float_iff.mp normal 0
  rwa [Int64.toInt_zero, Int.zero_mul] at different

theorem eq_int_iff (normal : v.IsNormal) {n : Int64} :
    v = .int n ↔ v.signedUnits? = some (n.toInt * Magnitude.one) := by
  cases v with
  | int m =>
    rw [signedUnits?, Value.int.injEq, Option.some.injEq,
      Int.mul_eq_mul_right_iff Magnitude.natCast_one_ne_zero, Int64.toInt_inj]
  | float x =>
    refine iff_of_false (by simp) ?_
    exact isNormal_float_iff.mp normal n

/-- A number has only one normal value. -/
theorem eq_of_number?_eq (hv : v.IsNormal) (hw : w.IsNormal) {number : WithBot (WithTop Int)}
    (numberV : v.number? = some number) (numberW : w.number? = some number) : v = w := by
  have apart : ∀ (n : Int64) (x : Binary64), (float x).IsNormal →
      (Value.int n).number? = some number → (Value.float x).number? ≠ some number := by
    intro n x normal numberN numberX
    cases numberN
    exact isNormal_float_iff.mp normal n (Binary64.number?_eq_some_coe_iff.mp numberX)
  cases v with
  | int n =>
    cases w with
    | int m =>
      have same := numberV.trans numberW.symm
      simp only [number?, Option.some.injEq, WithBot.coe_inj, WithTop.coe_inj] at same
      rw [Int64.toInt_inj.mp (Int.eq_of_mul_eq_mul_right Magnitude.natCast_one_ne_zero same)]
    | float y => exact absurd numberW (apart n y hw numberV)
  | float x =>
    cases w with
    | int m => exact absurd numberV (apart m x hv numberW)
    | float y =>
      rw [Binary64.eq_of_number?_eq numberV numberW (units?_ne_zero hv)]

/-- Zero is normal as an integer only. -/
theorem ne_zero (normal : v.IsNormal) (negative : Bool) : v ≠ .float (.zero negative) := by
  rintro rfl
  exact units?_ne_zero normal (Binary64.units?_zero negative)

end IsNormal

end Value

end Rpn
