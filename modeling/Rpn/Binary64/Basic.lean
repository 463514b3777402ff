/-!
# Floating-point numbers of 64 bits

A finite number is a sign and a count of units, the unit being `2⁻¹⁰⁷⁴`, the smallest
positive number of the format. Every finite number is then an integer, the exact
result of an operation on finite numbers is a ratio of naturals, and one rounding,
`Binary64.ofRatio`, serves them all: to the nearest number, a tie to the even one.

Above `2⁵³` units the numbers of the format are spaced by a power of two that leaves
53 significant bits. `Magnitude` keeps that spacing and the upper bound as proof
fields, so that an ill-formed finite number cannot be written down and two finite
numbers are equal exactly when their signs and their units are.

There is one `nan`: neither its sign nor its payload can be observed here.
-/

namespace Rpn

/-- The numbers of the format near `units` are `1 <<< spacing units` units apart. -/
def spacing (units : Nat) : Nat := units.log2 - 52

/-- The quotient `num / den` rounded to a natural number, a half to the even one. -/
def roundHalfEven (num den : Nat) : Nat :=
  let quotient := num / den
  let remainder := num % den
  if 2 * remainder < den then quotient
  else if den < 2 * remainder then quotient + 1
  else quotient + quotient % 2

theorem le_roundHalfEven (num den : Nat) : num / den ≤ roundHalfEven num den := by
  unfold roundHalfEven
  dsimp only
  split
  · exact Nat.le_refl _
  · split <;> omega

theorem roundHalfEven_le (num den : Nat) : roundHalfEven num den ≤ num / den + 1 := by
  unfold roundHalfEven
  dsimp only
  split
  · omega
  · split <;> omega

/-- Nothing is rounded when the division leaves no remainder. -/
theorem roundHalfEven_mul (n : Nat) {den : Nat} (h : 0 < den) :
    roundHalfEven (n * den) den = n := by
  simp [roundHalfEven, Nat.mul_div_cancel n h, h]

/-- The first power of two that is no longer finite, `2¹⁰²⁴`, in units. -/
@[irreducible] def unitsLimit : Nat := 1 <<< 2098

/-- The absolute value of a finite number. -/
structure Magnitude where
  units : Nat
  aligned : 1 <<< spacing units ∣ units
  bounded : units < unitsLimit
deriving DecidableEq

namespace Magnitude

@[ext] theorem ext {a b : Magnitude} (h : a.units = b.units) : a = b := by
  cases a
  cases b
  simp_all

/-- The units of the number one. -/
@[irreducible] def one : Nat := 1 <<< 1074

theorem shiftLeft_pos {n : Nat} (h : 0 < n) (shift : Nat) : 0 < n <<< shift := by
  rw [Nat.shiftLeft_eq]
  exact Nat.mul_pos h (Nat.two_pow_pos shift)

theorem one_pos : 0 < one := by
  unfold one
  exact shiftLeft_pos Nat.one_pos 1074

/-- Any 53 bits can be placed at any power of two. -/
theorem aligned_shiftLeft {significand : Nat} (shift : Nat) (h : significand ≤ 1 <<< 53) :
    1 <<< spacing (significand <<< shift) ∣ significand <<< shift := by
  simp only [Nat.shiftLeft_eq, Nat.one_mul] at h ⊢
  rcases Nat.eq_zero_or_pos significand with rfl | positive
  · simp
  rcases Nat.eq_or_lt_of_le h with rfl | small
  · rw [← Nat.pow_add]
    apply Nat.pow_dvd_pow
    simp [spacing, Nat.log2_two_pow]
  · have nonzero : significand * 2 ^ shift ≠ 0 :=
      Nat.mul_ne_zero (Nat.ne_of_gt positive) (Nat.ne_of_gt (Nat.two_pow_pos shift))
    have below : significand * 2 ^ shift < 2 ^ (53 + shift) := by
      rw [Nat.pow_add]
      exact Nat.mul_lt_mul_of_pos_right small (Nat.two_pow_pos shift)
    have bits := (Nat.log2_lt nonzero).mpr below
    exact Nat.dvd_mul_left_of_dvd (Nat.pow_dvd_pow 2 (by unfold spacing; omega)) _

/-- The units nearest to `num / den` units among those of 53 significant bits. -/
def nearestUnits (num den : Nat) : Nat :=
  let shift := spacing (num / den)
  roundHalfEven num (den <<< shift) <<< shift

/-- A rounded significand has 53 bits, or is the first number of 54. -/
theorem roundHalfEven_spacing_le (num den : Nat) :
    roundHalfEven num (den <<< spacing (num / den)) ≤ 1 <<< 53 := by
  refine Nat.le_trans (roundHalfEven_le _ _) ?_
  simp only [Nat.shiftLeft_eq, Nat.one_mul]
  rw [← Nat.div_div_eq_div_mul]
  have bits : num / den < 2 ^ (53 + spacing (num / den)) :=
    Nat.lt_of_lt_of_le Nat.lt_log2_self
      (Nat.pow_le_pow_right (by decide) (by unfold spacing; omega))
  rw [Nat.pow_add] at bits
  exact (Nat.div_lt_iff_lt_mul (Nat.two_pow_pos _)).mpr bits

theorem aligned_nearestUnits (num den : Nat) :
    1 <<< spacing (nearestUnits num den) ∣ nearestUnits num den :=
  aligned_shiftLeft _ (roundHalfEven_spacing_le num den)

/-- The magnitude nearest to `num / den` units, if there is one below the bound. -/
def nearest? (num den : Nat) : Option Magnitude :=
  if bounded : nearestUnits num den < unitsLimit then
    some ⟨nearestUnits num den, aligned_nearestUnits num den, bounded⟩
  else
    none

/-- A magnitude is its own rounding. -/
theorem nearestUnits_units (m : Magnitude) : nearestUnits m.units 1 = m.units := by
  obtain ⟨count, equation⟩ := m.aligned
  have same : roundHalfEven m.units (1 <<< spacing m.units) = count := by
    conv => lhs; arg 1; rw [equation, Nat.mul_comm]
    exact roundHalfEven_mul count (shiftLeft_pos Nat.one_pos _)
  simp only [nearestUnits, Nat.div_one]
  rw [same]
  simp only [Nat.shiftLeft_eq, Nat.one_mul] at equation ⊢
  rw [Nat.mul_comm, ← equation]

theorem nearest?_units (m : Magnitude) : nearest? m.units 1 = some m := by
  have same := m.nearestUnits_units
  have bounded : nearestUnits m.units 1 < unitsLimit := by
    rw [same]
    exact m.bounded
  rw [nearest?, dif_pos bounded]
  exact congrArg some (ext same)

end Magnitude

/-- A number of the format. -/
inductive Binary64 where
  | nan
  | infinite (negative : Bool)
  | finite (negative : Bool) (magnitude : Magnitude)
deriving DecidableEq

namespace Binary64

/-- The number nearest to `num / den` units with the given sign, a tie going to the
even number; infinite when that lies beyond the largest finite number. -/
def ofRatio (negative : Bool) (num den : Nat) : Binary64 :=
  match Magnitude.nearest? num den with
  | some magnitude => finite negative magnitude
  | none => infinite negative

theorem ofRatio_units (negative : Bool) (m : Magnitude) :
    ofRatio negative m.units 1 = finite negative m := by
  rw [ofRatio, m.nearest?_units]

/-- Zero with a sign. -/
def zero (negative : Bool) : Binary64 := ofRatio negative 0 1

/-- The number nearest to an integer. -/
def ofInt (n : Int) : Binary64 := ofRatio (decide (n < 0)) (n.natAbs * Magnitude.one) 1

/-- The signed units of a finite number. -/
def units? : Binary64 → Option Int
  | finite negative m => some (if negative then -(m.units : Int) else m.units)
  | _ => none

def isFinite (x : Binary64) : Bool := x.units?.isSome

/-- Zero of either sign. -/
def isZero (x : Binary64) : Bool := x.units? == some 0

/-- Less than zero, which neither zero is. -/
def isNegative : Binary64 → Bool
  | nan => false
  | infinite negative => negative
  | finite negative m => negative && m.units != 0

/-- Finite with no fractional part. -/
def isIntegral : Binary64 → Bool
  | finite _ m => m.units % Magnitude.one == 0
  | _ => false

/-- The integer part of a finite number, toward zero. -/
def integerPart? (x : Binary64) : Option Int := x.units?.map (·.tdiv Magnitude.one)

/-- The integer that a number is equal to. -/
def toInt? (x : Binary64) : Option Int := if x.isIntegral then x.integerPart? else none

end Binary64

end Rpn
