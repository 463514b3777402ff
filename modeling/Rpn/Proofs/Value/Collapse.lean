import Rpn.Proofs.Value.Reading

/-!
# Nothing is lost when a number is made an integer

A floating-point number becomes an integer only if that integer is equal to it, so its truncation is
exact and is not held to the range. The integer is then one that can be represented in floating
point, which leads back to the number from which it came; the sign of a zero is all that does not
come back.

So `normalize` gives equal numbers one value, as long as their integers are representable. An
integer that is not has another number as its nearest floating-point number, and keeps apart from
it.
-/

namespace Rpn

@[simp] theorem saturate_toInt (i : Int64) : saturate i.toInt = i := by
  have lower := i.le_toInt
  have upper := i.toInt_lt
  rw [saturate, Int.min_eq_left (by omega), Int.max_eq_right (by omega), Int64.ofInt_toInt]

theorem Binary64.eq_zero_of_units? {x : Binary64} (none : x.units? = some 0) :
    ∃ negative, x = .zero negative := by
  cases x with
  | nan | infinite => cases none
  | finite negative m =>
    have units : m.units = 0 := by
      cases negative <;> simpa [units?] using none
    exact ⟨negative, by rw [zero, ← units, ofRatio_units]⟩

namespace Value

/-- Any floating-point number, and an integer that one of them is equal to. -/
def IsRepresentable : Value → Prop
  | int n => ∃ x : Binary64, x.units? = some (n.toInt * Magnitude.one)
  | float _ => True

variable {v w : Value} {x : Binary64} {number : WithBot (WithTop Int)}

/-- The integer is the one that the number is equal to, and it has to be in range. -/
theorem exists_ofBinary64_eq_int_iff {n : Int} :
    (∃ i : Int64, i.toInt = n ∧ ofBinary64 x = int i) ↔
      x.units? = some (n * Magnitude.one) ∧ -2 ^ 63 ≤ n ∧ n < 2 ^ 63 := by
  constructor
  · rintro ⟨i, rfl, collapsed⟩
    exact ⟨ofBinary64_eq_int_iff.mp collapsed, i.le_toInt, i.toInt_lt⟩
  · rintro ⟨equal, lower, upper⟩
    have whole : (Int64.ofInt n).toInt = n := Int64.toInt_ofInt_of_le lower upper
    refine ⟨.ofInt n, whole, ofBinary64_eq_int_iff.mpr ?_⟩
    rw [whole, equal]

theorem ofBinary64_eq_float_iff :
    ofBinary64 x = float x ↔
      ¬ ∃ n : Int, x.units? = some (n * Magnitude.one) ∧ -2 ^ 63 ≤ n ∧ n < 2 ^ 63 := by
  simp only [← exists_ofBinary64_eq_int_iff]
  constructor
  · rintro kept ⟨n, i, -, collapsed⟩
    cases kept.symm.trans collapsed
  · intro apart
    obtain ⟨i, collapsed⟩ | kept := ofBinary64_cases x
    · exact absurd ⟨i.toInt, i, rfl, collapsed⟩ apart
    · exact kept

/-- Truncation takes nothing off a number that becomes an integer. -/
theorem trunc_of_ofBinary64 {i : Int64} (collapsed : ofBinary64 x = int i) :
    (float x).trunc = i := by
  have equal := ofBinary64_eq_int_iff.mp collapsed
  have whole : x.integerPart? = some i.toInt := by
    rw [Binary64.integerPart?, equal, Option.map_some,
      Int.mul_tdiv_cancel _ Magnitude.natCast_one_ne_zero]
  cases x with
  | nan | infinite => cases equal
  | finite negative m =>
    change saturate ((Binary64.finite negative m).integerPart?.getD 0) = i
    rw [whole, Option.getD_some, saturate_toInt]

theorem number?_ofBinary64 (x : Binary64) : (ofBinary64 x).number? = x.number? := by
  obtain ⟨n, collapsed⟩ | kept := ofBinary64_cases x
  · rw [collapsed]
    exact (Binary64.number?_eq_some_coe_iff.mpr (ofBinary64_eq_int_iff.mp collapsed)).symm
  · rw [kept]
    rfl

theorem number?_normalize (v : Value) : v.normalize.number? = v.number? := by
  cases v with
  | int n => rfl
  | float x => exact number?_ofBinary64 x

/-- Only an integer that is not representable changes in floating point. -/
theorem IsRepresentable.number?_toBinary64 (representable : v.IsRepresentable) :
    v.toBinary64.number? = v.number? := by
  cases v with
  | int n =>
    obtain ⟨x, equal⟩ := representable
    have same := Binary64.toInt?_ofInt (Binary64.toInt?_eq_some_iff.mpr equal)
    exact Binary64.number?_eq_some_coe_iff.mpr (Binary64.toInt?_eq_some_iff.mp same)
  | float x => rfl

theorem isRepresentable_ofBinary64 (x : Binary64) : (ofBinary64 x).IsRepresentable := by
  obtain ⟨n, collapsed⟩ | kept := ofBinary64_cases x
  · rw [collapsed]
    exact ⟨x, ofBinary64_eq_int_iff.mp collapsed⟩
  · rw [kept]
    trivial

theorem number?_toBinary64_ofBinary64 (x : Binary64) :
    (ofBinary64 x).toBinary64.number? = x.number? := by
  rw [(isRepresentable_ofBinary64 x).number?_toBinary64, number?_ofBinary64]

theorem number?_toBinary64_normalize (v : Value) :
    v.normalize.toBinary64.number? = v.toBinary64.number? := by
  cases v with
  | int n => rfl
  | float x => exact number?_toBinary64_ofBinary64 x

/-- The integer zero comes back without a sign. -/
theorem toBinary64_ofBinary64_zero (negative : Bool) :
    (ofBinary64 (.zero negative)).toBinary64 = .zero false := by
  have collapsed : ofBinary64 (.zero negative) = int 0 := by
    rw [ofBinary64_eq_int_iff, Binary64.units?_zero, Int64.toInt_zero, Int.zero_mul]
  rw [collapsed, toBinary64, Int64.toInt_zero, Binary64.ofInt_zero]

/-- A number other than the negative zero comes back as it was. -/
theorem toBinary64_ofBinary64 (signed : x ≠ .zero true) : (ofBinary64 x).toBinary64 = x := by
  obtain ⟨n, collapsed⟩ | kept := ofBinary64_cases x
  · -- A number says which floating-point number stands for it, but for the sign of a zero.
    by_cases none : x.units? = some 0
    · obtain ⟨negative, rfl⟩ := Binary64.eq_zero_of_units? none
      cases negative with
      | false => exact toBinary64_ofBinary64_zero false
      | true => exact absurd rfl signed
    · have number := Binary64.number?_eq_some_coe_iff.mpr (ofBinary64_eq_int_iff.mp collapsed)
      have back := (number?_toBinary64_ofBinary64 x).trans number
      exact (Binary64.eq_of_number?_eq number back none).symm
  · rw [kept]
    rfl

theorem toBinary64_normalize (signed : v ≠ float (.zero true)) :
    v.normalize.toBinary64 = v.toBinary64 := by
  cases v with
  | int n => rfl
  | float x => exact toBinary64_ofBinary64 fun zero => signed (congrArg float zero)

theorem normalize_normalize (v : Value) : v.normalize.normalize = v.normalize :=
  v.isNormal_normalize.normalize_eq

/-- Values that are the same number in floating point are normalized to one value. -/
theorem IsRepresentable.normalize_eq (representableV : v.IsRepresentable)
    (representableW : w.IsRepresentable) (numberV : v.toBinary64.number? = some number)
    (numberW : w.toBinary64.number? = some number) : v.normalize = w.normalize := by
  rw [representableV.number?_toBinary64, ← number?_normalize] at numberV
  rw [representableW.number?_toBinary64, ← number?_normalize] at numberW
  exact v.isNormal_normalize.eq_of_number?_eq w.isNormal_normalize numberV numberW

/-- A floating-point number becomes an integer exactly when it is finite and equal to that integer,
and the integer is in range; truncation then leads to the same integer. Otherwise it stays as it is.
In both cases the floating-point number that comes back stands for the same number, or for none.

Normalizing a second time changes nothing. Normalizing changes the floating-point number of no value
but the negative zero, which becomes the other zero. It leads to one value from values of which the
floating-point numbers are equal, where an integer among them is representable. -/
theorem collapse_exact_lossless :
    (∀ x : Binary64,
      (∀ n : Int, (∃ i : Int64, i.toInt = n ∧ ofBinary64 x = int i) ↔
        x.units? = some (n * Magnitude.one) ∧ -2 ^ 63 ≤ n ∧ n < 2 ^ 63) ∧
      (∀ i : Int64, ofBinary64 x = int i → (float x).trunc = i) ∧
      (ofBinary64 x = float x ↔
        ¬ ∃ n : Int, x.units? = some (n * Magnitude.one) ∧ -2 ^ 63 ≤ n ∧ n < 2 ^ 63) ∧
      (ofBinary64 x).toBinary64.number? = x.number?) ∧
    (∀ v : Value, v.normalize.normalize = v.normalize ∧
      v.normalize.toBinary64.number? = v.toBinary64.number? ∧
      (v ≠ float (.zero true) → v.normalize.toBinary64 = v.toBinary64)) ∧
    ∀ (v w : Value) (number : WithBot (WithTop Int)), v.IsRepresentable → w.IsRepresentable →
      v.toBinary64.number? = some number → w.toBinary64.number? = some number →
      v.normalize = w.normalize := by
  refine ⟨fun x => ⟨fun n => exists_ofBinary64_eq_int_iff, fun i => trunc_of_ofBinary64,
    ofBinary64_eq_float_iff, number?_toBinary64_ofBinary64 x⟩, fun v => ⟨v.normalize_normalize,
    number?_toBinary64_normalize v, toBinary64_normalize⟩, ?_⟩
  intro v w number representableV representableW
  exact representableV.normalize_eq representableW

/-- The lower end of the range becomes an integer, and the number after the upper end does not. The
first integer above `2⁵³` that is representable is the same value in both forms. -/
theorem collapse_exact_lossless_ends :
    let lowest := Binary64.ofInt (-2 ^ 63)
    let above := Binary64.ofInt (2 ^ 63)
    let even := Binary64.ofInt 9007199254740994
    (∃ i : Int64, i.toInt = -2 ^ 63 ∧ ofBinary64 lowest = int i) ∧
      (float lowest).trunc = Int64.minValue ∧ ofBinary64 above = float above ∧
      (float above).normalize.toBinary64 = above ∧
      (int 9007199254740994).normalize = (float even).normalize := by
  intro lowest above even
  obtain ⟨collapses, normalizes, identifies⟩ := collapse_exact_lossless
  have unitsAbove : above.units? = some ((2 ^ 63 : Int) * Magnitude.one) := by decide +kernel
  have unitsEven : even.units? = some ((9007199254740994 : Int64).toInt * Magnitude.one) := by
    decide +kernel
  refine ⟨?_, ?_, ?_, ?_, ?_⟩
  · exact ((collapses lowest).1 (-2 ^ 63)).mpr ⟨by decide +kernel, by decide, by decide⟩
  · exact (collapses lowest).2.1 Int64.minValue (by decide +kernel)
  · refine (collapses above).2.2.1.mpr ?_
    rintro ⟨n, equal, -, upper⟩
    have whole := Option.some.inj (unitsAbove.symm.trans equal)
    have last := Int.eq_of_mul_eq_mul_right Magnitude.natCast_one_ne_zero whole
    omega
  · exact (normalizes (float above)).2.2 (by decide +kernel)
  · have number : even.number? = some _ := Binary64.number?_eq_some_coe_iff.mpr unitsEven
    exact identifies (int 9007199254740994) (float even) _ ⟨even, unitsEven⟩ trivial number number

end Value

end Rpn
