import Mathlib.Data.Nat.Factorial.Basic
import Rpn.Proofs.Binary64.Nearest

/-!
# Factorials

The loop multiplies two products side by side, an exact one as long as it fits and one that is
rounded after every factor, and ends early when the exact one is lost and the other infinite. From
there on neither changes, so what it leaves is what all rounds would have left
(`factorialLoop_eq_everyRound`). The exact product is lost where the factorial itself does not fit
any more, which is from 21 on, and by then the rounded one is beyond the integers and stays there.
At 171 it is infinite, so no round comes after that one (`rounds_factorialLoop_le`).
-/

namespace Rpn

namespace Binary64

variable {x : Binary64} {k : Nat}

theorem ofInt_of_pos (positive : 0 < k) :
    (∃ m : Magnitude, ofInt k = finite false m ∧ m.units = rounded k * Magnitude.one ∧
      0 < rounded k) ∨ ofInt k = infinite false := by
  have sign : decide ((k : Int) < 0) = false := decide_eq_false (by omega)
  obtain ⟨m, same, units⟩ | ⟨same, -⟩ := ofInt_cases k
  · rw [sign] at same
    exact .inl ⟨m, same, units, rounded_pos positive⟩
  · rw [sign] at same
    exact .inr same

/-- Infinity absorbs every factor. -/
theorem infinite_mul_ofInt (positive : 0 < k) :
    (infinite false).mul (ofInt k) = infinite false := by
  obtain ⟨m, same, units, large⟩ | same := ofInt_of_pos positive
  · have nonzero : m.units ≠ 0 := by
      rw [units]
      exact (Nat.mul_pos large Magnitude.one_pos).ne'
    rw [same, mul, if_neg nonzero]
    rfl
  · rw [same]
    rfl

/-- At least `2⁶³`, which is beyond the integers. -/
def isBeyond : Binary64 → Bool
  | nan => false
  | infinite negative => !negative
  | finite negative m => !negative && decide (2 ^ 63 * Magnitude.one ≤ m.units)

@[simp] theorem isBeyond_finite (m : Magnitude) :
    (finite false m).isBeyond = true ↔ 2 ^ 63 * Magnitude.one ≤ m.units := by
  rw [isBeyond, Bool.not_false, Bool.true_and, decide_eq_true_eq]

theorem isBeyond_ofRatio {units : Nat} (large : 2 ^ 63 * Magnitude.one ≤ units) :
    (ofRatio false units 1).isBeyond = true := by
  have near (bits : Nat) (one : Magnitude.one = 2 ^ bits) :
      2 ^ 63 * Magnitude.one ≤ Magnitude.nearestUnits units 1 := by
    have power : 2 ^ 63 * Magnitude.one = 2 ^ (63 + bits) := by rw [one, Nat.pow_add]
    rw [power] at large ⊢
    exact Magnitude.two_pow_le_nearestUnits large
  rw [ofRatio]
  split
  · next m found =>
    rw [isBeyond_finite, Magnitude.units_of_nearest? found]
    exact near 1074 Magnitude.one_eq
  · rfl

/-- A product of whole numbers is rounded once, if the factor is finite. -/
theorem finite_mul_ofInt {m : Magnitude} (nonzero : m.units ≠ 0) (positive : 0 < k) :
    (finite false m).mul (ofInt k) = ofRatio false (m.units * rounded k) 1 ∨
      (finite false m).mul (ofInt k) = infinite false := by
  obtain ⟨m', same, units, -⟩ | same := ofInt_of_pos positive
  · left
    rw [same, mul, units]
    apply ofRatio_congr _ Magnitude.one_pos Nat.one_pos
    ring
  · right
    rw [same, mul, if_neg nonzero]
    rfl

/-- A further factor does not lead back. -/
theorem isBeyond_mul_ofInt (beyond : x.isBeyond = true) (positive : 0 < k) :
    (x.mul (ofInt k)).isBeyond = true := by
  match x with
  | nan | infinite true | finite true m => cases beyond
  | infinite false =>
    rw [infinite_mul_ofInt positive]
    rfl
  | finite false m =>
    have large := (isBeyond_finite m).mp beyond
    have nonzero : m.units ≠ 0 := by
      have := Magnitude.one_pos
      omega
    obtain product | product := finite_mul_ofInt nonzero positive
    · have factor : 0 < rounded k := rounded_pos positive
      rw [product]
      exact isBeyond_ofRatio (large.trans (Nat.le_mul_of_pos_right _ factor))
    · rw [product]
      rfl

end Binary64

namespace Value

open Binary64

theorem ofBinary64_of_isBeyond {x : Binary64} (beyond : x.isBeyond = true) :
    ofBinary64 x = float x := by
  cases x with
  | nan => cases beyond
  | infinite negative => exact (IsNormal.infinite negative).normalize_eq
  | finite negative m =>
    cases negative with
    | true => cases beyond
    | false =>
      have large := (isBeyond_finite m).mp beyond
      have finite : (finite false m).units? = some (m.units : Int) := rfl
      refine (IsNormal.outside finite (.inr ?_)).normalize_eq
      rw [integerLimit]
      exact_mod_cast large

/-- The product of the numbers from 2 to `n`, from left to right and rounded after every factor. -/
def roundedProduct (n : Nat) : Binary64 :=
  (List.range' 2 (n - 1)).foldl (fun product k => product.mul (.ofInt (k : Nat))) (.ofInt 1)

/-- What the rounds with the factors from 2 to `n` leave, if none of them is left out. -/
def everyRound (n : Nat) : Products :=
  (List.range' 2 (n - 1)).foldl (fun products k => products.times (k : Nat)) {}

section Products

variable {n : Nat}

theorem range'_two_succ (start : 1 ≤ n) :
    List.range' 2 (n + 1 - 1) = List.range' 2 (n - 1) ++ [n + 1] := by
  obtain ⟨m, rfl⟩ := Nat.exists_eq_add_of_le' start
  have last : 2 + 1 * m = m + 1 + 1 := by omega
  rw [Nat.add_sub_cancel, Nat.add_sub_cancel, List.range'_concat, last]

theorem roundedProduct_succ (start : 1 ≤ n) :
    roundedProduct (n + 1) = (roundedProduct n).mul (.ofInt (n + 1 : Nat)) := by
  rw [roundedProduct, range'_two_succ start, List.foldl_append]
  rfl

theorem everyRound_succ (start : 1 ≤ n) :
    everyRound (n + 1) = (everyRound n).times (n + 1 : Nat) := by
  rw [everyRound, range'_two_succ start, List.foldl_append]
  rfl

theorem int64?_natCast (n : Nat) : int64? n = none ↔ 2 ^ 63 ≤ n := by
  rw [int64?, ite_eq_right_iff]
  simp only [reduceCtorEq, imp_false]
  omega

/-- The exact product is lost where the next factorial does not fit, and is not regained. -/
theorem exact_succ (n : Nat) :
    ((int64? n.factorial).bind fun product => int64? (product.toInt * (n + 1 : Nat))) =
      int64? (n + 1).factorial := by
  cases fits : int64? (n.factorial : Int) with
  | none =>
    have large := (int64?_natCast _).mp fits
    have larger := Nat.factorial_le (Nat.le_succ n)
    exact ((int64?_natCast _).mpr (large.trans larger)).symm
  | some product =>
    rw [Option.bind_some, toInt_of_int64? fits, ← Nat.cast_mul, Nat.mul_comm, ← Nat.factorial_succ]

/-- The rounds compute the factorial as long as it fits, and the rounded product. -/
theorem everyRound_eq (n : Nat) : everyRound n = ⟨int64? n.factorial, roundedProduct n⟩ := by
  obtain rfl | start : n = 0 ∨ 1 ≤ n := by omega
  · rfl
  induction n, start using Nat.le_induction with
  | base => rfl
  | succ n start ih =>
    rw [everyRound_succ start, ih, Products.times, exact_succ, roundedProduct_succ start]

/-- A loss of one part of `more` in one more factor. -/
theorem factorial_bound_succ {less more w next : Nat}
    (bound : less ^ n * n.factorial ≤ more ^ n * w) (loss : less * (w * (n + 1)) ≤ more * next) :
    less ^ (n + 1) * (n + 1).factorial ≤ more ^ (n + 1) * next := by
  calc less ^ (n + 1) * (n + 1).factorial
      = less * (n + 1) * (less ^ n * n.factorial) := by
        rw [Nat.factorial_succ, Nat.pow_succ]
        ring
    _ ≤ less * (n + 1) * (more ^ n * w) := Nat.mul_le_mul_left _ bound
    _ = more ^ n * (less * (w * (n + 1))) := by ring
    _ ≤ more ^ n * (more * next) := Nat.mul_le_mul_left _ loss
    _ = more ^ (n + 1) * next := by rw [Nat.pow_succ, Nat.mul_assoc]

/-- A finite product is short of the factorial by one part of `2⁵³` for each factor at most. -/
theorem roundedProduct_cases (start : 1 ≤ n) (few : n ≤ 2 ^ 53) :
    (∃ (m : Magnitude) (w : Nat), roundedProduct n = finite false m ∧
      m.units = w * Magnitude.one ∧ (2 ^ 53 - 1) ^ n * n.factorial ≤ (2 ^ 53) ^ n * w) ∨
    roundedProduct n = infinite false := by
  induction n, start using Nat.le_induction with
  | base =>
    obtain ⟨m, same, units, large⟩ | same := ofInt_of_pos Nat.one_pos
    · exact .inl ⟨m, rounded 1, same, units, by rw [Nat.factorial_one]; omega⟩
    · exact .inr same
  | succ n start ih =>
    rw [roundedProduct_succ start]
    obtain ⟨m, w, same, units, bound⟩ | same := ih (by omega)
    · have positive : 0 < w := by
        have := Nat.mul_pos (Nat.pow_pos (n := n) (by decide : 0 < 2 ^ 53 - 1)) n.factorial_pos
        exact Nat.pos_of_mul_pos_left (this.trans_le bound)
      have nonzero : m.units ≠ 0 := units ▸ (Nat.mul_pos positive Magnitude.one_pos).ne'
      rw [same]
      obtain product | product := finite_mul_ofInt nonzero (Nat.succ_pos n)
      · have exact : m.units * rounded (n + 1) = w * (n + 1) * Magnitude.one := by
          rw [units, rounded_of_le few]
          ring
        rw [product, exact, ofRatio]
        split
        · next m' found =>
          refine .inl ⟨m', rounded (w * (n + 1)), rfl, ?_, ?_⟩
          · rw [Magnitude.units_of_nearest? found, nearestUnits_mul_one]
          · exact factorial_bound_succ bound (mul_le_mul_rounded _)
        · exact .inr rfl
      · exact .inr product
    · rw [same]
      exact .inr (infinite_mul_ofInt (Nat.succ_pos n))

/-- From 21 on the rounded product is beyond the integers. -/
theorem isBeyond_roundedProduct (large : 21 ≤ n) : (roundedProduct n).isBeyond = true := by
  induction n, large using Nat.le_induction with
  | base =>
    obtain ⟨m, w, same, units, bound⟩ | same :=
      roundedProduct_cases (n := 21) (by decide) (by decide)
    · have short : (2 ^ 53) ^ 21 * 2 ^ 63 ≤ (2 ^ 53 - 1) ^ 21 * Nat.factorial 21 := by
        decide +kernel
      have large : 2 ^ 63 ≤ w :=
        Nat.le_of_mul_le_mul_left (short.trans bound) (Nat.pow_pos (by decide))
      rw [same, isBeyond_finite, units]
      exact Nat.mul_le_mul_right _ large
    · rw [same]
      rfl
  | succ n large ih =>
    rw [roundedProduct_succ (by omega)]
    exact isBeyond_mul_ofInt ih (Nat.succ_pos n)

/-- At 171 the rounded product is beyond the format. -/
theorem roundedProduct_infinite : roundedProduct 171 = infinite false := by
  obtain ⟨m, w, -, units, bound⟩ | same := roundedProduct_cases (n := 171) (by decide) (by decide)
  · have short : (2 ^ 53) ^ 171 * 2 ^ 1024 ≤ (2 ^ 53 - 1) ^ 171 * Nat.factorial 171 := by
      decide +kernel
    have large : 2 ^ 1024 ≤ w :=
      Nat.le_of_mul_le_mul_left (short.trans bound) (Nat.pow_pos (by decide))
    have bounded := m.bounded
    rw [units, unitsLimit_eq_mul_one] at bounded
    exact absurd (Nat.lt_of_mul_lt_mul_right bounded) large.not_gt
  · exact same

theorem factorial_lt_iff : n.factorial < 2 ^ 63 ↔ n ≤ 20 := by
  constructor
  · intro fits
    by_contra large
    have least : 2 ^ 63 ≤ Nat.factorial 21 := by decide
    have more : Nat.factorial 21 ≤ n.factorial := Nat.factorial_le (by omega)
    omega
  · intro small
    have last : Nat.factorial 20 < 2 ^ 63 := by decide
    exact (Nat.factorial_le small).trans_lt last

theorem Products.areSettled_iff (p : Products) :
    p.areSettled = true ↔ p = ⟨none, .infinite false⟩ := by
  obtain ⟨exact, approximate⟩ := p
  rw [areSettled, Bool.and_eq_true, Option.isNone_iff_eq_none, beq_iff_eq, mk.injEq]

/-- Neither product changes any more. -/
theorem everyRound_of_areSettled {j : Nat} (settled : (everyRound j).areSettled = true)
    (start : 1 ≤ j) (later : j ≤ n) : everyRound n = everyRound j := by
  induction n, later using Nat.le_induction with
  | base => rfl
  | succ n later ih =>
    rw [everyRound_succ (by omega), ih, (Products.areSettled_iff _).mp settled, Products.times,
      infinite_mul_ofInt (Nat.succ_pos n)]
    rfl

/-- From 171 on both products are settled. -/
theorem everyRound_of_large (large : 171 ≤ n) : everyRound n = ⟨none, .infinite false⟩ := by
  have lost : int64? (Nat.factorial 171) = none := by
    rw [int64?_natCast]
    by_contra fits
    exact absurd (factorial_lt_iff.mp (Nat.not_le.mp fits)) (by decide)
  have last : everyRound 171 = ⟨none, .infinite false⟩ := by
    rw [everyRound_eq, lost, roundedProduct_infinite]
  have settled := (Products.areSettled_iff _).mpr last
  rw [everyRound_of_areSettled settled (by decide) large, last]

end Products

section Loop

variable {j : Nat}

/-- The loop ends with the round that settles both products. -/
theorem factorialLoop_succ (factors : Nat) (start : 1 ≤ j) :
    factorialLoop (factors + 1) (j + 1 : Nat) (everyRound j) =
      if (everyRound (j + 1)).areSettled then (everyRound (j + 1), 1)
      else ((factorialLoop factors (j + 1 + 1 : Nat) (everyRound (j + 1))).1,
        (factorialLoop factors (j + 1 + 1 : Nat) (everyRound (j + 1))).2 + 1) := by
  rw [everyRound_succ start]
  rfl

/-- What the loop leaves is what the rounds that it makes leave, and what all rounds would have
left. -/
theorem factorialLoop_eq_everyRound (factors : Nat) (start : 1 ≤ j) :
    let result := factorialLoop factors (j + 1 : Nat) (everyRound j)
    result.1 = everyRound (j + factors) ∧ everyRound (result.2 + j) = everyRound (j + factors) := by
  induction factors generalizing j with
  | zero => exact ⟨rfl, congrArg everyRound (Nat.zero_add j)⟩
  | succ factors ih =>
    rw [factorialLoop_succ factors start]
    by_cases settled : (everyRound (j + 1)).areSettled
    · have kept := everyRound_of_areSettled (n := j + (factors + 1)) settled (by omega) (by omega)
      rw [if_pos settled, kept, Nat.add_comm j 1]
      exact ⟨rfl, rfl⟩
    · obtain ⟨products, rounds⟩ := ih (j := j + 1) (by omega)
      have count : j + (factors + 1) = j + 1 + factors := by omega
      rw [if_neg settled, count]
      refine ⟨products, ?_⟩
      rw [← rounds]
      congr 1
      omega

/-- The round with the factor 171 is the last one at the latest. -/
theorem rounds_factorialLoop_le (factors : Nat) (start : 1 ≤ j) (few : j ≤ 170) :
    (factorialLoop factors (j + 1 : Nat) (everyRound j)).2 + j ≤ 171 := by
  induction factors generalizing j with
  | zero =>
    rw [factorialLoop]
    omega
  | succ factors ih =>
    rw [factorialLoop_succ factors start]
    split
    · omega
    · next goesOn =>
      have notLast : j ≠ 170 := fun last =>
        goesOn ((Products.areSettled_iff _).mpr (everyRound_of_large (by omega)))
      have rest := ih (j := j + 1) (by omega) (by omega)
      omega

end Loop

section Factorial

variable (n : Int64)

theorem factorialLoop_start :
    (factorialLoop (n.toInt - 1).toNat 2 {}).1 = everyRound n.toInt.toNat ∧
      everyRound ((factorialLoop (n.toInt - 1).toNat 2 {}).2 + 1) =
        everyRound n.toInt.toNat := by
  have loop := factorialLoop_eq_everyRound (n.toInt - 1).toNat (j := 1) (Nat.le_refl 1)
  have last : everyRound (1 + (n.toInt - 1).toNat) = everyRound n.toInt.toNat := by
    by_cases start : 1 ≤ n.toInt
    · congr 1
      omega
    · have none : (n.toInt - 1).toNat = 0 := by omega
      have zero : n.toInt.toNat = 0 := by omega
      rw [none, zero]
      rfl
  rw [last] at loop
  exact loop

theorem factorial_eq : factorial n =
    (Products.mk (int64? n.toInt.toNat.factorial) (roundedProduct n.toInt.toNat)).value := by
  rw [factorial, (factorialLoop_start n).1, everyRound_eq]

/-- The factorial of an integer is the exact one if that fits, and otherwise the rounded product,
which is a floating-point number, and infinite from 171 on. The loop leaves what all rounds would
have left, which is what the rounds that it makes leave, and these are 170 at most. -/
theorem factorial_exact_or_product :
    (n.toInt.toNat.factorial < 2 ^ 63 →
      ∃ i : Int64, factorial n = int i ∧ i.toInt = n.toInt.toNat.factorial) ∧
    (2 ^ 63 ≤ n.toInt.toNat.factorial → factorial n = float (roundedProduct n.toInt.toNat)) ∧
    (171 ≤ n.toInt → factorial n = float (.infinite false)) ∧
    (factorialLoop (n.toInt - 1).toNat 2 {}).1 = everyRound n.toInt.toNat ∧
    everyRound ((factorialLoop (n.toInt - 1).toNat 2 {}).2 + 1) = everyRound n.toInt.toNat ∧
    (factorialLoop (n.toInt - 1).toNat 2 {}).2 ≤ 170 := by
  obtain ⟨loop, rounds⟩ := factorialLoop_start n
  have few := rounds_factorialLoop_le (n.toInt - 1).toNat (j := 1) (Nat.le_refl 1) (by decide)
  refine ⟨?_, ?_, ?_, loop, rounds, Nat.le_of_succ_le_succ few⟩
  · intro fits
    have exact : int64? (n.toInt.toNat.factorial : Int) = some (.ofInt n.toInt.toNat.factorial) :=
      if_pos (by omega)
    refine ⟨_, ?_, toInt_of_int64? exact⟩
    rw [factorial_eq, exact, Products.value_some]
  · intro outside
    have large : 21 ≤ n.toInt.toNat := by
      by_contra small
      exact absurd (factorial_lt_iff.mpr (by omega : n.toInt.toNat ≤ 20)) outside.not_gt
    rw [factorial_eq, (int64?_natCast _).mpr outside, Products.value_none]
    exact ofBinary64_of_isBeyond (isBeyond_roundedProduct large)
  · intro large
    rw [factorial, loop, everyRound_of_large (by omega), Products.value_none]
    exact (IsNormal.infinite false).normalize_eq

end Factorial

/-- The last factorial that fits, the first one that does not, and one that is infinite. -/
theorem factorial_exact_or_product_twenty :
    (∃ i : Int64, factorial 20 = int i ∧ i.toInt = 2432902008176640000) ∧
      factorial 21 = float (roundedProduct 21) ∧
      factorial 1000000 = float (.infinite false) := by
  obtain ⟨fits, -⟩ := factorial_exact_or_product 20
  obtain ⟨-, outside, -⟩ := factorial_exact_or_product 21
  obtain ⟨-, -, large, -⟩ := factorial_exact_or_product 1000000
  exact ⟨fits (by decide), outside (by decide), large (by decide)⟩

end Value

end Rpn
