import Rpn.Proofs.Decimal.Reading
import Rpn.Proofs.Text.Trim
import Rpn.Proofs.Value.Text
import Rpn.Value.Literal

/-!
# Values typed as they are shown

The text of a number is a numeral, and it is read as that number: a floating-point number as itself,
an integer as the floating-point number nearest to it. An integer that is typed as it is shown
therefore stays what it is if it can be represented as a floating-point number, and only then.
-/

namespace Rpn

section Characters

variable {cs : List Char}

theorem dropSeparators_of_not_mem (none : '_' ∉ cs) (afterDigit : Bool) :
    dropSeparators afterDigit cs = some cs := by
  induction cs generalizing afterDigit with
  | nil => rfl
  | cons c cs ih =>
    obtain ⟨here, later⟩ := List.ne_and_not_mem_of_not_mem_cons none
    rw [dropSeparators, if_neg here.symm, ih later]
    rfl

/-- A text of the characters that numbers are written with is read as it stands. -/
theorem literal?_ofList (numeric : Numeric cs) : literal? (.ofList cs) = Numeral.parse? cs := by
  have none : '_' ∉ cs := fun member => absurd (numeric '_' member) (by decide)
  rw [literal?, String.toList_ofList, trim_of_unbroken numeric.unbroken,
    dropSeparators_of_not_mem none, Option.bind_some]

end Characters

/-- An integer is read as the floating-point number nearest to it. -/
theorem reads_integerText (n : Int) :
    (Numeral.parse? (integerText n)).map Numeral.toBinary64 = some (.ofInt n) := by
  have nonempty := decimalDigits_ne_nil n.natAbs
  have digits := allDigits_decimalDigits n.natAbs
  have read := Numeral.decimal?_whole (decide (n < 0)) digits nonempty (by simp)
    Numeral.exponent?_nil
  obtain ⟨c, cs, shape⟩ := List.exists_cons_of_ne_nil nonempty
  have digit : c.isDigit = true := digits c (shape ▸ List.mem_cons_self)
  rw [List.append_nil, digitsValue_decimalDigits, shape] at read
  rw [integerText, shape, Numeral.parse?_of_isDigit _ digit, read, Option.map_some,
    Numeral.toBinary64, Binary64.ofDecimal_zero_right, Binary64.ofInt]

namespace Binary64

/-- A floating-point number is read as itself. -/
theorem reads_text (x : Binary64) : (Numeral.parse? x.text).map Numeral.toBinary64 = some x := by
  cases x with
  | nan => decide
  | infinite negative => cases negative <;> decide
  | finite negative m =>
    rw [text]
    by_cases none : m.units = 0
    · have digit : '0'.isDigit = true := by decide
      have zeroDigits : AllDigits ['0'] := by decide
      have read := Numeral.decimal?_whole negative zeroDigits (by decide) (by simp)
        Numeral.exponent?_nil
      have value : digitsValue ['0'] = 0 := by decide
      rw [List.append_nil, value] at read
      rw [if_pos none, Numeral.parse?_of_isDigit negative digit, read, Option.map_some,
        Numeral.toBinary64, ofDecimal_zero_right, Nat.zero_mul, ← none, ofRatio_units]
    · rw [if_neg none, Decimal.reads_text (Magnitude.digits_shortest_ne_zero none),
        Magnitude.ofDecimal_shortest]

/-- The number nearest to an integer is equal to it if any number is. -/
theorem toInt?_ofInt {x : Binary64} {n : Int} (represents : x.toInt? = some n) :
    (ofInt n).toInt? = some n := by
  rw [toInt?_eq_some_iff] at represents ⊢
  cases x with
  | nan | infinite => cases represents
  | finite negative m =>
    rw [units?, Option.some.injEq] at represents
    have units : n.natAbs * Magnitude.one = m.units := by
      rw [← Int.natAbs_natCast Magnitude.one, ← Int.natAbs_mul, ← represents]
      cases negative <;> simp
    rw [ofInt, units, ofRatio_units, units?, ← units, Nat.cast_mul, Option.some.injEq]
    by_cases below : n < 0
    · rw [decide_eq_true below, if_pos rfl, Int.ofNat_natAbs_of_nonpos below.le, Int.neg_mul,
        Int.neg_neg]
    · rw [decide_eq_false below, if_neg (by decide), Int.natAbs_of_nonneg (not_lt.mp below)]

end Binary64

namespace Value

theorem ofLiteral?_ofList {cs : List Char} {x : Binary64} (numeric : Numeric cs)
    (reads : (Numeral.parse? cs).map Numeral.toBinary64 = some x) :
    ofLiteral? (.ofList cs) = some (.ofBinary64 x) := by
  obtain ⟨numeral, parsed, rfl⟩ := Option.map_eq_some_iff.mp reads
  rw [ofLiteral?, literal?_ofList numeric, parsed, Option.map_some]

theorem ofLiteral?_text (v : Value) : ofLiteral? v.text = some (.ofBinary64 v.toBinary64) := by
  cases v with
  | int n => exact ofLiteral?_ofList (numeric_integerText n.toInt) (reads_integerText n.toInt)
  | float x => exact ofLiteral?_ofList x.numeric_text x.reads_text

/-- The value as which the text of a value is read. -/
def retyped : Value → Value
  | int n => .ofBinary64 (.ofInt n.toInt)
  | float x => float x

/-- A normal value is read as what it is retyped to. -/
theorem IsNormal.ofLiteral?_text {v : Value} (normal : v.IsNormal) :
    ofLiteral? v.text = some v.retyped := by
  rw [Value.ofLiteral?_text]
  cases v with
  | int n => rfl
  | float x => exact congrArg some normal.normalize_eq

theorem isNormal_retyped {v : Value} (normal : v.IsNormal) : v.retyped.IsNormal := by
  cases v with
  | int n => exact isNormal_ofBinary64 _
  | float x => exact normal

/-- An integer stays the same if it is equal to some floating-point number, and only then. -/
theorem retyped_int_iff {n : Int64} :
    (int n).retyped = int n ↔ ∃ x : Binary64, x.toInt? = some n.toInt := by
  rw [retyped, ofBinary64_eq_int_iff, ← Binary64.toInt?_eq_some_iff]
  exact ⟨fun same => ⟨_, same⟩, fun ⟨_, represents⟩ => Binary64.toInt?_ofInt represents⟩

end Value

end Rpn
