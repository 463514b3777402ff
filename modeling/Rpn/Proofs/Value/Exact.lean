import Mathlib.Algebra.Order.Ring.Int
import Rpn.Proofs.Binary64.Whole

/-!
# Sums, differences and products of integers

Where the exact result fits into 64 bits it is the result. Otherwise the operation is carried out
in floating point, and what comes out is made an integer again if it is in range. That it is not in
range does not follow from the exact result being out of range: the numbers of the format next to
the two ends of the range are 1024 apart, and the lower end is one of them and in range itself.

A sum or a difference above the range is rounded to `2⁶³` at least and stays a floating-point
number. Below the range it may be rounded to the lower end. Of a product one factor is rounded
before, which may take it into the range on either side, and then by one number of the format.
-/

namespace Rpn

namespace Binary64

/-- An integer as it is in floating point: its sign and what it is rounded to, unless that is beyond
the format. -/
theorem ofInt_cases (n : Int) :
    (∃ m : Magnitude, ofInt n = finite (decide (n < 0)) m ∧
      m.units = rounded n.natAbs * Magnitude.one) ∨
    ofInt n = infinite (decide (n < 0)) ∧ 2 ^ 1024 ≤ rounded n.natAbs := by
  have units := nearestUnits_mul_one n.natAbs
  rw [ofInt, ofRatio, Magnitude.nearest?]
  by_cases bounded : Magnitude.nearestUnits (n.natAbs * Magnitude.one) 1 < unitsLimit
  · rw [dif_pos bounded]
    exact .inl ⟨_, rfl, units⟩
  · rw [dif_neg bounded]
    rw [units, unitsLimit_eq_mul_one, Nat.not_lt] at bounded
    exact .inr ⟨rfl, Nat.le_of_mul_le_mul_right bounded Magnitude.one_pos⟩

theorem exists_ofInt {n : Int} (bound : n.natAbs ≤ 2 ^ 63) :
    ∃ m : Magnitude, ofInt n = finite (decide (n < 0)) m ∧
      m.units = rounded n.natAbs * Magnitude.one := by
  have small : rounded n.natAbs ≤ 2 ^ (11 + 53) := rounded_le_two_pow (by omega)
  have format : 2 ^ (11 + 53) < 2 ^ 1024 := by
    apply Nat.pow_lt_pow_right <;> decide
  obtain within | ⟨-, beyond⟩ := ofInt_cases n
  · exact within
  · exact absurd beyond (Nat.not_le.mpr (small.trans_lt format))

/-- What an integer is rounded to. -/
def roundedInt (n : Int) : Int := if n < 0 then -(rounded n.natAbs : Int) else rounded n.natAbs

theorem units?_of_rounded {n : Int} {m : Magnitude}
    (units : m.units = rounded n.natAbs * Magnitude.one) :
    (finite (decide (n < 0)) m).units? = some (roundedInt n * Magnitude.one) := by
  rw [units?, units, roundedInt]
  by_cases negative : n < 0
  · simp [negative]
  · simp [negative]

theorem units?_ofInt {n : Int} (bound : n.natAbs ≤ 2 ^ 63) :
    (ofInt n).units? = some (roundedInt n * Magnitude.one) := by
  obtain ⟨m, same, units⟩ := exists_ofInt bound
  rw [same, units?_of_rounded units]

theorem units?_neg (x : Binary64) : x.neg.units? = x.units?.map (- ·) := by
  cases x with
  | finite negative m => cases negative <;> simp [neg, units?]
  | nan | infinite => rfl

theorem roundedInt_neg (n : Int) : roundedInt (-n) = -roundedInt n := by
  rw [roundedInt, roundedInt, Int.natAbs_neg]
  obtain below | rfl | above := lt_trichotomy n 0
  · rw [if_neg (by omega), if_pos below, Int.neg_neg]
  · have zero : rounded 0 = 0 := rounded_of_le (Nat.zero_le _)
    simp [zero]
  · rw [if_pos (by omega), if_neg (by omega)]

/-- A sum of finite numbers is rounded once. -/
theorem add_of_units {x y : Binary64} {u v : Int} (unitsX : x.units? = some u)
    (unitsY : y.units? = some v) (nonzero : u + v ≠ 0) :
    x.add y = ofRatio (decide (u + v < 0)) (u + v).natAbs 1 := by
  cases x with
  | nan | infinite => cases unitsX
  | finite s a =>
    cases y with
    | nan | infinite => cases unitsY
    | finite t b =>
      cases unitsX
      cases unitsY
      exact if_neg nonzero

/-- A product of integers is rounded once more. -/
theorem mul_ofInt {a b : Int} (boundA : a.natAbs ≤ 2 ^ 63) (boundB : b.natAbs ≤ 2 ^ 63) :
    (ofInt a).mul (ofInt b) = ofRatio (decide (a < 0) != decide (b < 0))
      (rounded a.natAbs * rounded b.natAbs * Magnitude.one) 1 := by
  obtain ⟨m, sameA, unitsA⟩ := exists_ofInt boundA
  obtain ⟨m', sameB, unitsB⟩ := exists_ofInt boundB
  rw [sameA, sameB, mul, unitsA, unitsB]
  apply ofRatio_congr _ Magnitude.one_pos Nat.one_pos
  ring

end Binary64

namespace Value

open Binary64

/-- A whole number is made an integer where it is in range. -/
theorem ofBinary64_of_toInt? {x : Binary64} {n : Int} (whole : x.toInt? = some n) :
    ofBinary64 x = if -2 ^ 63 ≤ n ∧ n < 2 ^ 63 then int (.ofInt n) else float x := by
  rw [ofBinary64, whole, Option.bind_some, int64?]
  by_cases range : -2 ^ 63 ≤ n ∧ n < 2 ^ 63
  · rw [if_pos range, if_pos (by omega)]
  · rw [if_neg range, if_neg (by omega)]

/-- A whole number in floating point becomes an integer only as what it is rounded to. -/
theorem toInt_of_whole {negative : Bool} {n : Nat} {i : Int64}
    (collapses : ofBinary64 (ofRatio negative (n * Magnitude.one) 1) = int i) :
    i.toInt = if negative then -(rounded n : Int) else rounded n := by
  have equal := ofBinary64_eq_int_iff.mp collapses
  rw [ofRatio] at equal
  split at equal
  · next m found =>
    have units := Magnitude.units_of_nearest? found
    rw [nearestUnits_mul_one] at units
    rw [units?, Option.some.injEq, units] at equal
    apply Int.eq_of_mul_eq_mul_right Magnitude.natCast_one_ne_zero
    rw [← equal]
    cases negative <;> simp
  · cases equal

/-- What is rounded to `2⁶³` at least is no integer, unless it is the lower end of the range. -/
theorem ofBinary64_of_large (negative : Bool) {n : Nat} (large : 2 ^ 63 ≤ rounded n) :
    let v := ofBinary64 (ofRatio negative (n * Magnitude.one) 1)
    (∃ x, v = float x) ∨ negative = true ∧ v = int Int64.minValue := by
  intro v
  obtain ⟨i, collapsed⟩ | kept := ofBinary64_cases (ofRatio negative (n * Magnitude.one) 1)
  · right
    have lower := i.le_toInt
    have upper := i.toInt_lt
    cases negative with
    | false =>
      have whole : i.toInt = (rounded n : Int) := toInt_of_whole collapsed
      omega
    | true =>
      have whole : i.toInt = -(rounded n : Int) := toInt_of_whole collapsed
      have lowest : i = Int64.minValue := by
        apply Int64.toInt_inj.mp
        rw [Int64.toInt_minValue]
        omega
      exact ⟨rfl, collapsed.trans (congrArg int lowest)⟩
  · exact .inl ⟨_, kept⟩

section Rounded

variable {a b : Int}

/-- Integers whose sum is out of range have the sign of the sum, and so have what they are rounded
to. -/
theorem add_of_outside {x y : Binary64} (boundA : a.natAbs ≤ 2 ^ 63) (boundB : b.natAbs ≤ 2 ^ 63)
    (unitsX : x.units? = some (roundedInt a * Magnitude.one))
    (unitsY : y.units? = some (roundedInt b * Magnitude.one))
    (outside : a + b < -2 ^ 63 ∨ 2 ^ 63 ≤ a + b) :
    x.add y = ofRatio (decide (a + b < 0))
      ((rounded a.natAbs + rounded b.natAbs) * Magnitude.one) 1 := by
  have short : 2 ^ 63 - 512 ≤ rounded a.natAbs + rounded b.natAbs :=
    le_rounded_add_rounded boundA boundB (by omega)
  have positive : 0 < (rounded a.natAbs + rounded b.natAbs) * Magnitude.one :=
    Nat.mul_pos (by omega) Magnitude.one_pos
  have total : roundedInt a * Magnitude.one + roundedInt b * Magnitude.one =
      if a + b < 0 then -(((rounded a.natAbs + rounded b.natAbs) * Magnitude.one : Nat) : Int)
      else ((rounded a.natAbs + rounded b.natAbs) * Magnitude.one : Nat) := by
    rw [← Int.add_mul, roundedInt, roundedInt]
    obtain below | above := outside
    · rw [if_pos (by omega), if_pos (by omega), if_pos (by omega)]
      push_cast
      ring
    · rw [if_neg (by omega), if_neg (by omega), if_neg (by omega)]
      push_cast
      ring
  generalize (rounded a.natAbs + rounded b.natAbs) * Magnitude.one = units at positive total ⊢
  by_cases negative : a + b < 0
  · rw [if_pos negative] at total
    have sum := add_of_units unitsX unitsY (by omega)
    rw [total] at sum
    rw [sum, Int.natAbs_neg, Int.natAbs_natCast]
    congr 1
    simp [negative]
    omega
  · rw [if_neg negative] at total
    have sum := add_of_units unitsX unitsY (by omega)
    rw [total] at sum
    rw [sum, Int.natAbs_natCast]
    congr 1
    simp [negative]

/-- A sum that is out of range, computed in floating point. -/
theorem ofBinary64_add {x y : Binary64} (boundA : a.natAbs ≤ 2 ^ 63) (boundB : b.natAbs ≤ 2 ^ 63)
    (unitsX : x.units? = some (roundedInt a * Magnitude.one))
    (unitsY : y.units? = some (roundedInt b * Magnitude.one))
    (outside : a + b < -2 ^ 63 ∨ 2 ^ 63 ≤ a + b) :
    (∃ z, ofBinary64 (x.add y) = float z) ∨
      a + b < -2 ^ 63 ∧ ofBinary64 (x.add y) = int Int64.minValue := by
  have short : 2 ^ 63 - 512 ≤ rounded a.natAbs + rounded b.natAbs :=
    le_rounded_add_rounded boundA boundB (by omega)
  rw [add_of_outside boundA boundB unitsX unitsY outside]
  obtain kept | ⟨negative, lowest⟩ :=
    ofBinary64_of_large (decide (a + b < 0)) (two_pow_le_rounded_of_half short)
  · exact .inl kept
  · have below := of_decide_eq_true negative
    exact .inr ⟨by omega, lowest⟩

theorem sign_mul (nonzeroA : a ≠ 0) (nonzeroB : b ≠ 0) :
    (decide (a < 0) != decide (b < 0)) = decide (a * b < 0) := by
  have negative : a * b < 0 ↔ 0 < a ∧ b < 0 ∨ a < 0 ∧ 0 < b := mul_neg_iff
  rw [Bool.eq_iff_iff, bne_iff_ne, Ne, decide_eq_decide, decide_eq_true_eq, negative]
  omega

/-- A product that is out of range, computed in floating point. -/
theorem ofBinary64_mul (boundA : a.natAbs ≤ 2 ^ 63) (boundB : b.natAbs ≤ 2 ^ 63)
    (outside : a * b < -2 ^ 63 ∨ 2 ^ 63 ≤ a * b) :
    (∃ z, ofBinary64 ((ofInt a).mul (ofInt b)) = float z) ∨
      a * b < -2 ^ 63 ∧ ofBinary64 ((ofInt a).mul (ofInt b)) = int Int64.minValue ∨
      ∃ i : Int64, ofBinary64 ((ofInt a).mul (ofInt b)) = int i ∧
        i.toInt = (a * b).sign * (2 ^ 63 - 1024) := by
  have nonzeroA : a ≠ 0 := by
    rintro rfl
    omega
  have nonzeroB : b ≠ 0 := by
    rintro rfl
    omega
  have large : 2 ^ 63 ≤ a.natAbs * b.natAbs := by
    rw [← Int.natAbs_mul]
    omega
  rw [mul_ofInt boundA boundB, sign_mul nonzeroA nonzeroB]
  obtain last | beyond := rounded_cases (le_rounded_mul_rounded large)
  · obtain ⟨i, collapsed⟩ | kept := ofBinary64_cases (ofRatio (decide (a * b < 0))
      (rounded a.natAbs * rounded b.natAbs * Magnitude.one) 1)
    · right; right
      refine ⟨i, collapsed, ?_⟩
      rw [toInt_of_whole collapsed, last]
      by_cases below : a * b < 0
      · simp [below, Int.sign_eq_neg_one_of_neg below]
      · have above : 0 < a * b := by omega
        simp [below, Int.sign_eq_one_of_pos above]
    · exact .inl ⟨_, kept⟩
  · obtain kept | ⟨negative, lowest⟩ := ofBinary64_of_large (decide (a * b < 0)) beyond
    · exact .inl kept
    · have below := of_decide_eq_true negative
      exact .inr (.inl ⟨by omega, lowest⟩)

end Rounded

section Operations

variable {exact : Int} {x : Binary64}

theorem exactOr_of_range (lower : -2 ^ 63 ≤ exact) (upper : exact < 2 ^ 63) :
    exactOr exact x = int (.ofInt exact) ∧ (Int64.ofInt exact).toInt = exact := by
  have fits : int64? exact = some (.ofInt exact) := if_pos (by omega)
  refine ⟨?_, toInt_of_int64? fits⟩
  rw [exactOr, fits]

theorem exactOr_of_outside (outside : exact < -2 ^ 63 ∨ 2 ^ 63 ≤ exact) :
    exactOr exact x = ofBinary64 x := by
  have none : int64? exact = none := if_neg (by omega)
  rw [exactOr, none]

theorem natAbs_toInt_le (n : Int64) : n.toInt.natAbs ≤ 2 ^ 63 := by
  have lower := n.le_toInt
  have upper := n.toInt_lt
  omega

end Operations

end Value

/-- An operation that is exact on integers as long as its result fits. -/
inductive IntegerOperation where
  | add
  | sub
  | mul
deriving DecidableEq

namespace IntegerOperation

/-- The result that there is without bounds. -/
def exact : IntegerOperation → Int → Int → Int
  | add, a, b => a + b
  | sub, a, b => a - b
  | mul, a, b => a * b

def perform : IntegerOperation → Value → Value → Value
  | add => Value.add
  | sub => Value.sub
  | mul => Value.mul

/-- What is computed where the exact result does not fit. -/
def approximate : IntegerOperation → Binary64 → Binary64 → Binary64
  | add => Binary64.add
  | sub => Binary64.sub
  | mul => Binary64.mul

theorem perform_int (op : IntegerOperation) (a b : Int64) :
    op.perform (.int a) (.int b) = .exactOr (op.exact a.toInt b.toInt)
      (op.approximate (.ofInt a.toInt) (.ofInt b.toInt)) := by
  cases op <;> rfl

/-- The result on two integers is exact if it fits. If it does not, it is a floating-point number,
or it is the integer at the lower end of the range where the exact result is below that, or the last
number of the format before the end that a product has passed. -/
theorem perform_exact_or_near (op : IntegerOperation) (a b : Int64) :
    (-2 ^ 63 ≤ op.exact a.toInt b.toInt → op.exact a.toInt b.toInt < 2 ^ 63 →
      ∃ i : Int64, op.perform (.int a) (.int b) = .int i ∧ i.toInt = op.exact a.toInt b.toInt) ∧
    (op.exact a.toInt b.toInt < -2 ^ 63 ∨ 2 ^ 63 ≤ op.exact a.toInt b.toInt →
      (∃ x, op.perform (.int a) (.int b) = .float x) ∨
      op.exact a.toInt b.toInt < -2 ^ 63 ∧ op.perform (.int a) (.int b) = .int Int64.minValue ∨
      op = mul ∧ ∃ i : Int64, op.perform (.int a) (.int b) = .int i ∧
        i.toInt = (op.exact a.toInt b.toInt).sign * (2 ^ 63 - 1024)) := by
  have boundA := Value.natAbs_toInt_le a
  have boundB := Value.natAbs_toInt_le b
  have unitsA := Binary64.units?_ofInt boundA
  have unitsB := Binary64.units?_ofInt boundB
  rw [perform_int]
  refine ⟨?_, ?_⟩
  · intro lower upper
    obtain ⟨same, equal⟩ := Value.exactOr_of_range (x := op.approximate _ _) lower upper
    exact ⟨_, same, equal⟩
  · intro outside
    rw [Value.exactOr_of_outside outside]
    cases op with
    | add =>
      obtain kept | lowest := Value.ofBinary64_add boundA boundB unitsA unitsB outside
      · exact .inl kept
      · exact .inr (.inl lowest)
    | sub =>
      have unitsNeg : (Binary64.ofInt b.toInt).neg.units? =
          some (Binary64.roundedInt (-b.toInt) * Magnitude.one) := by
        rw [Binary64.units?_neg, unitsB, Option.map_some, Binary64.roundedInt_neg, Int.neg_mul]
      have boundNeg : (-b.toInt).natAbs ≤ 2 ^ 63 := by rwa [Int.natAbs_neg]
      obtain kept | lowest := Value.ofBinary64_add boundA boundNeg unitsA unitsNeg outside
      · exact .inl kept
      · exact .inr (.inl lowest)
    | mul =>
      obtain kept | lowest | last := Value.ofBinary64_mul boundA boundB outside
      · exact .inl kept
      · exact .inr (.inl lowest)
      · exact .inr (.inr ⟨rfl, last⟩)

/-- A sum that fits, a difference above the range and a product that passes its upper end and is
rounded back. -/
theorem perform_exact_or_near_maxValue :
    (∃ i : Int64, add.perform (.int 40) (.int 2) = .int i ∧ i.toInt = 42) ∧
      (∃ x, sub.perform (.int Int64.maxValue) (.int (-1)) = .float x) ∧
      ∃ i : Int64, mul.perform (.int 16440948372290153) (.int 561) = .int i ∧
        i.toInt = 2 ^ 63 - 1024 := by
  obtain ⟨sum, -⟩ := perform_exact_or_near add 40 2
  obtain ⟨-, difference⟩ := perform_exact_or_near sub Int64.maxValue (-1)
  obtain ⟨-, product⟩ := perform_exact_or_near mul 16440948372290153 561
  refine ⟨sum (by decide) (by decide), ?_, ?_⟩
  · obtain kept | ⟨below, -⟩ | ⟨isMul, -⟩ := difference (by decide)
    · exact kept
    · exact absurd below (by decide)
    · cases isMul
  · obtain ⟨x, kept⟩ | ⟨below, -⟩ | ⟨-, i, same, last⟩ := product (by decide)
    · have whole : mul.perform (.int 16440948372290153) (.int 561) =
          .int (.ofInt (2 ^ 63 - 1024)) := by decide +kernel
      cases whole.symm.trans kept
    · exact absurd below (by decide)
    · exact ⟨i, same, last⟩

/-- One less than the lower end of the range is that end. -/
theorem not_forall_float_outside :
    ¬ ∀ (op : IntegerOperation) (a b : Int64),
      op.exact a.toInt b.toInt < -2 ^ 63 ∨ 2 ^ 63 ≤ op.exact a.toInt b.toInt →
        ∃ x, op.perform (.int a) (.int b) = .float x := by
  intro all
  obtain ⟨x, kept⟩ := all add Int64.minValue (-1) (by decide)
  have lowest : add.perform (.int Int64.minValue) (.int (-1)) = .int Int64.minValue := by
    decide +kernel
  cases lowest.symm.trans kept

end IntegerOperation

end Rpn
