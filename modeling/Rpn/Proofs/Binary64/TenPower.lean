import Rpn.Proofs.Binary64.Quotient

/-!
# Powers of ten

A power is computed by squaring the base for each binary digit of the exponent and multiplying the
squares of the digits that are one. What holds of one and of the base, and goes on from two factors
to their product, holds of the power (`power_induction`). With this the powers of ten are exact up
to `10²²`, the last one whose odd part has no more than 53 bits, and beyond that they are at least
as large as the powers of eight.
-/

namespace Rpn

namespace Binary64

section Power

variable {P : Nat → Binary64 → Prop}

/-- The loop multiplies `result` by the power: `P` counts the factors. -/
theorem powerLoop_induction (product : ∀ {i j x y}, P i x → P j y → P (i + j) (x.mul y))
    {digits i j exponent : Nat} {result base : Binary64} (enough : exponent < 2 ^ digits)
    (holds : P i result) (holdsBase : P j base) :
    P (i + j * exponent) (powerLoop digits result base exponent) := by
  induction digits generalizing i j exponent result base with
  | zero =>
    obtain rfl : exponent = 0 := by omega
    exact holds
  | succ digits ih =>
    have halved : exponent / 2 < 2 ^ digits := by
      rw [Nat.pow_succ] at enough
      omega
    have split : i + j * exponent = i + j * (exponent % 2) + (j + j) * (exponent / 2) := by
      conv => lhs; rw [← Nat.div_add_mod exponent 2]
      ring
    have next : P (i + j * (exponent % 2))
        (if exponent % 2 = 1 then result.mul base else result) := by
      obtain even | odd := Nat.mod_two_eq_zero_or_one exponent
      · rw [even, if_neg (by decide), Nat.mul_zero, Nat.add_zero]
        exact holds
      · rw [odd, if_pos rfl, Nat.mul_one]
        exact product holds holdsBase
    rw [powerLoop, split]
    by_cases last : exponent / 2 = 0
    · rw [if_pos last, last, Nat.mul_zero, Nat.add_zero]
      exact next
    · rw [if_neg last]
      exact ih halved next (product holdsBase holdsBase)

theorem power_induction (product : ∀ {i j x y}, P i x → P j y → P (i + j) (x.mul y))
    (one : P 0 (ofInt 1)) {j : Nat} {base : Binary64} (holds : P j base) (exponent : Nat) :
    P (j * exponent) (base.power exponent) := by
  have enough : exponent < 2 ^ (exponent.log2 + 1) := Nat.lt_log2_self
  have whole := powerLoop_induction product enough one holds
  rwa [Nat.zero_add] at whole

end Power

section Exact

theorem exists_ofInt_natCast {n : Nat} (exact : rounded n = n) (bound : n < 2 ^ 1024) :
    ∃ m : Magnitude, ofInt n = finite false m ∧ m.units = n * Magnitude.one := by
  have sign : decide ((n : Int) < 0) = false := decide_eq_false (by omega)
  have cases := ofInt_cases n
  rw [Int.natAbs_natCast, exact, sign] at cases
  obtain within | ⟨-, beyond⟩ := cases
  · exact within
  · exact absurd bound (Nat.not_lt.mpr beyond)

/-- The product of two integers that are represented is rounded once. -/
theorem ofInt_mul_ofInt {a b : Nat} (exactA : rounded a = a) (exactB : rounded b = b)
    (boundA : a < 2 ^ 1024) (boundB : b < 2 ^ 1024) :
    (ofInt a).mul (ofInt b) = ofInt (a * b : Nat) := by
  obtain ⟨m, sameA, unitsA⟩ := exists_ofInt_natCast exactA boundA
  obtain ⟨m', sameB, unitsB⟩ := exists_ofInt_natCast exactB boundB
  rw [sameA, sameB, mul, ofInt, unitsA, unitsB, Int.natAbs_natCast]
  apply ofRatio_congr _ Magnitude.one_pos Nat.one_pos
  ring

/-- The odd part of `10 ^ k`, which is `5 ^ k`, has 53 bits as long as `k` is 22 at most. -/
theorem rounded_ten_pow {k : Nat} (few : k ≤ 22) : rounded (10 ^ k) = 10 ^ k := by
  have odd : 5 ^ k ≤ 2 ^ 53 := (Nat.pow_le_pow_right (by decide) few).trans (by decide)
  exact rounded_eq_self_iff.mpr ⟨5 ^ k, k, odd, Nat.mul_pow 5 2 k⟩

theorem ten_pow_lt {k bits : Nat} (few : k ≤ 22) (enough : 74 ≤ bits) : 10 ^ k < 2 ^ bits := by
  calc 10 ^ k
      ≤ 10 ^ 22 := Nat.pow_le_pow_right (by decide) few
    _ < 2 ^ 74 := by decide
    _ ≤ 2 ^ bits := Nat.pow_le_pow_right (by decide) enough

/-- What a power of ten is known to be as long as its factors are exact. -/
def IsTenPower (k : Nat) (x : Binary64) : Prop := k ≤ 22 → x = ofInt (10 ^ k : Nat)

theorem IsTenPower.mul {i j : Nat} {x y : Binary64} (powerX : IsTenPower i x)
    (powerY : IsTenPower j y) : IsTenPower (i + j) (x.mul y) := by
  intro few
  have fewI : i ≤ 22 := by omega
  have fewJ : j ≤ 22 := by omega
  rw [powerX fewI, powerY fewJ, ofInt_mul_ofInt (rounded_ten_pow fewI) (rounded_ten_pow fewJ)
    (ten_pow_lt fewI (by decide)) (ten_pow_lt fewJ (by decide)), Nat.pow_add]

/-- The powers of ten up to `10²²` are exact. -/
theorem tenPower_eq {k : Nat} (few : k ≤ 22) : Value.tenPower k = ofInt (10 ^ k : Nat) := by
  have one : IsTenPower 0 (ofInt 1) := fun _ => rfl
  have ten : IsTenPower 1 (ofInt 10) := fun _ => rfl
  have power : IsTenPower (1 * k) (Value.tenPower k) := power_induction IsTenPower.mul one ten k
  rw [Nat.one_mul] at power
  exact power few

theorem exists_tenPower {k : Nat} (few : k ≤ 22) :
    ∃ m : Magnitude, Value.tenPower k = finite false m ∧ m.units = 10 ^ k * Magnitude.one := by
  rw [tenPower_eq few]
  exact exists_ofInt_natCast (rounded_ten_pow few) (ten_pow_lt few (by decide))

end Exact

section AtLeast

/-- No less than `2 ^ bits`. -/
def AtLeast (bits : Nat) (x : Binary64) : Prop :=
  x = infinite false ∨ ∃ m : Magnitude, x = finite false m ∧ 2 ^ bits * Magnitude.one ≤ m.units

variable {i j : Nat} {x y : Binary64}

theorem AtLeast.units_pos {m : Magnitude} (large : 2 ^ i * Magnitude.one ≤ m.units) :
    0 < m.units :=
  (Nat.mul_pos (Nat.two_pow_pos i) Magnitude.one_pos).trans_le large

theorem AtLeast.mono (large : x.AtLeast j) (le : i ≤ j) : x.AtLeast i := by
  obtain same | ⟨m, same, largeM⟩ := large
  · exact .inl same
  · refine .inr ⟨m, same, ?_⟩
    exact (Nat.mul_le_mul_right _ (Nat.pow_le_pow_right (by decide) le)).trans largeM

/-- Rounding does not lead below a power of two. -/
theorem AtLeast.mul (largeX : x.AtLeast i) (largeY : y.AtLeast j) : (x.mul y).AtLeast (i + j) := by
  obtain rfl | ⟨m, rfl, largeM⟩ := largeX
  · obtain rfl | ⟨m', rfl, largeM'⟩ := largeY
    · exact .inl rfl
    · exact .inl (if_neg (units_pos largeM').ne')
  · obtain rfl | ⟨m', rfl, largeM'⟩ := largeY
    · exact .inl (if_neg (units_pos largeM).ne')
    · obtain ⟨bits, power⟩ : ∃ bits, Magnitude.one = 2 ^ bits := ⟨_, Magnitude.one_eq⟩
      have product : 2 ^ (i + j + bits) ≤ m.units * m'.units / Magnitude.one := by
        rw [Nat.le_div_iff_mul_le Magnitude.one_pos]
        calc 2 ^ (i + j + bits) * Magnitude.one
            = 2 ^ i * Magnitude.one * (2 ^ j * Magnitude.one) := by
              rw [power, Nat.pow_add, Nat.pow_add]
              ring
          _ ≤ m.units * m'.units := Nat.mul_le_mul largeM largeM'
      have large := Magnitude.two_pow_le_nearestUnits_of_quotient product
      change (ofRatio false (m.units * m'.units) Magnitude.one).AtLeast (i + j)
      rw [ofRatio]
      split
      · next m'' found =>
        refine .inr ⟨m'', rfl, ?_⟩
        rw [Magnitude.units_of_nearest? found, power, ← Nat.pow_add, ← power]
        exact large
      · exact .inl rfl

theorem atLeast_ofInt {n : Nat} (exact : rounded n = n) (large : 2 ^ i ≤ n) :
    (ofInt n).AtLeast i := by
  have sign : decide ((n : Int) < 0) = false := decide_eq_false (by omega)
  obtain ⟨m, same, units⟩ | ⟨same, -⟩ := ofInt_cases n
  · rw [Int.natAbs_natCast, exact] at units
    rw [same, sign]
    exact .inr ⟨m, rfl, units ▸ Nat.mul_le_mul_right _ large⟩
  · rw [same, sign]
    exact .inl rfl

/-- A power of ten is at least as large as the power of eight. -/
theorem atLeast_tenPower (k : Nat) : (Value.tenPower k).AtLeast (3 * k) := by
  have one : (ofInt 1).AtLeast 0 := atLeast_ofInt (rounded_of_le (by decide)) (by decide)
  have ten : (ofInt 10).AtLeast 3 := atLeast_ofInt (rounded_of_le (by decide)) (by decide)
  exact power_induction AtLeast.mul one ten k

end AtLeast

end Binary64

end Rpn
