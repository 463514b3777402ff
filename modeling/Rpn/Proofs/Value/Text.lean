import Rpn.Proofs.Decimal.Characters
import Rpn.Proofs.Value.Normal

/-!
# The text of a value

The text of a value holds no white space, so the values on a line can be told apart where
spaces stand between them. A number other than zero shows a digit other than zero; so `-0` is
the text of the negative zero only, which is not normal.
-/

namespace Rpn

/-- The shortest decimal of a number other than zero is not zero. -/
theorem Magnitude.digits_shortest_ne_zero {m : Magnitude} (nonzero : m.units ≠ 0) :
    m.shortest.digits ≠ 0 := by
  rw [Magnitude.shortest]
  cases found : (List.range 17).findSome? fun count => m.onGrid? (count + 1) with
  | none =>
    have positive : ∀ count, 0 < Nat.pow 5 count := fun count => Nat.pow_pos (by decide)
    exact Nat.mul_ne_zero nonzero (positive 1074).ne'
  | some d =>
    obtain ⟨count, -, onGrid⟩ := List.exists_of_findSome?_eq_some found
    have reads := ofDecimal_of_onGrid? onGrid
    intro none
    rw [Option.getD_some] at none
    rw [none, Binary64.ofDecimal, if_pos rfl] at reads
    have units := Binary64.units?_zero false
    rw [reads, Binary64.units?, if_neg (by decide), Option.some.injEq] at units
    exact nonzero (by exact_mod_cast units)

theorem numeric_integerText (n : Int) : Numeric (integerText n) :=
  numeric_append.mpr ⟨numeric_signText _, numeric_decimalDigits _⟩

theorem Binary64.numeric_text (x : Binary64) : Numeric x.text := by
  cases x with
  | nan => decide
  | infinite negative => exact numeric_append.mpr ⟨numeric_signText _, by decide⟩
  | finite negative m =>
    refine numeric_append.mpr ⟨numeric_signText _, ?_⟩
    split
    · decide
    · exact m.shortest.numeric_text

namespace Value

theorem numeric_text (v : Value) : Numeric v.text.toList := by
  cases v with
  | int n =>
    rw [text, String.toList_ofList]
    exact numeric_integerText n.toInt
  | float x =>
    rw [text, String.toList_ofList]
    exact x.numeric_text

theorem unbroken_text (v : Value) : Unbroken v.text.toList := v.numeric_text.unbroken

/-- A sign and a zero hold no other digit. -/
theorem ne_of_exists_ne_zero_mem {cs : List Char} (shown : ∃ c ∈ cs, c.isDigit = true ∧ c ≠ '0') :
    cs ≠ ['-', '0'] := by
  rintro rfl
  obtain ⟨c, member, digit, notZero⟩ := shown
  obtain sign | zero := List.mem_cons.mp member
  · subst sign
    exact absurd digit (by decide)
  · exact notZero (List.mem_singleton.mp zero)

/-- Only the negative zero is written `-0`. -/
theorem eq_zero_of_text {v : Value} (written : v.text = "-0") : v = .float (.zero true) := by
  have characters : v.text.toList = ['-', '0'] := by
    rw [written]
    decide
  cases v with
  | int n =>
    rw [text, String.toList_ofList, integerText] at characters
    by_cases zero : n.toInt.natAbs = 0
    · rw [Int.natAbs_eq_zero.mp zero] at characters
      exact absurd characters (by decide)
    · obtain ⟨c, member, notZero⟩ := exists_ne_zero_mem_decimalDigits zero
      have digit := isDigit_of_mem_decimalDigits member
      refine absurd characters (ne_of_exists_ne_zero_mem ⟨c, ?_, digit, notZero⟩)
      exact List.mem_append_right _ member
  | float x =>
    rw [text, String.toList_ofList] at characters
    cases x with
    | nan => exact absurd characters (by decide)
    | infinite negative => exact absurd characters (by cases negative <;> decide)
    | finite negative m =>
      rw [Binary64.text] at characters
      by_cases zero : m.units = 0
      · rw [if_pos zero] at characters
        cases negative with
        | false => exact absurd characters (by decide)
        | true => rw [Binary64.zero, ← zero, Binary64.ofRatio_units]
      · rw [if_neg zero] at characters
        obtain ⟨c, member, digit, notZero⟩ :=
          Decimal.exists_ne_zero_mem_text (Magnitude.digits_shortest_ne_zero zero)
        refine absurd characters (ne_of_exists_ne_zero_mem ⟨c, ?_, digit, notZero⟩)
        exact List.mem_append_right _ member

theorem IsNormal.text_ne {v : Value} (normal : v.IsNormal) : v.text ≠ "-0" :=
  fun written => normal.ne_zero true (eq_zero_of_text written)

end Value

end Rpn
