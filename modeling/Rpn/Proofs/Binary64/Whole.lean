import Rpn.Proofs.Decimal.Rounding
import Rpn.Proofs.Value.Normal

/-!
# Rounding whole numbers

A whole number is rounded to 53 significant bits, and what it is rounded to is whole again. So sums
and products of integers that are carried out in floating point can be followed in whole numbers
alone: the units of the format come in as a common factor (`nearestUnits_mul_one`).

Below `2⁶³` the numbers of the format are 1024 apart, and the number half way between the last of
them and `2⁶³` is rounded up. A sum that is not less than `2⁶³` is therefore rounded to that at
least, even if both of its terms have been rounded down before. A product may be short by more.
-/

namespace Rpn

theorem roundHalfEven_bounds (num : Nat) {den : Nat} (positive : 0 < den) :
    2 * num ≤ 2 * (den * roundHalfEven num den) + den ∧
      2 * (den * roundHalfEven num den) ≤ 2 * num + den := by
  have whole := Nat.div_add_mod num den
  have rest := Nat.mod_lt num positive
  rw [roundHalfEven]
  generalize num / den = quotient at whole ⊢
  generalize num % den = remainder at whole rest ⊢
  split
  · omega
  · split
    · rw [Nat.mul_add, Nat.mul_one]
      omega
    · obtain even | odd := Nat.mod_two_eq_zero_or_one quotient
      · rw [even, Nat.add_zero]
        omega
      · rw [odd, Nat.mul_add, Nat.mul_one]
        omega

theorem Magnitude.units_of_nearest? {num den : Nat} {m : Magnitude}
    (found : nearest? num den = some m) : m.units = nearestUnits num den := by
  rw [nearest?] at found
  split at found
  · exact (congrArg units (Option.some.inj found)).symm
  · cases found

/-- A whole number rounded to 53 significant bits. -/
def rounded (n : Nat) : Nat := Magnitude.nearestUnits n 1

section Rounded

variable {a b n bits : Nat}

theorem rounded_eq (n : Nat) :
    rounded n = 2 ^ spacing n * roundHalfEven n (2 ^ spacing n) := by
  rw [rounded, Magnitude.nearestUnits, Nat.div_one, Nat.shiftLeft_eq, Nat.shiftLeft_eq, Nat.one_mul,
    Nat.mul_comm]

theorem two_pow_dvd_rounded (n : Nat) : 2 ^ spacing n ∣ rounded n :=
  rounded_eq n ▸ Nat.dvd_mul_right _ _

/-- Rounding goes to the nearest number of the format. -/
theorem two_mul_le_rounded (n : Nat) : 2 * n ≤ 2 * rounded n + 2 ^ spacing n :=
  rounded_eq n ▸ (roundHalfEven_bounds n (Nat.two_pow_pos _)).1

theorem spacing_of_lt (below : n < 2 ^ (bits + 53)) : spacing n ≤ bits := by
  rw [spacing]
  by_cases zero : n = 0
  · rw [zero]
    exact Nat.zero_le _
  · have top := (Nat.log2_lt zero).mpr below
    omega

theorem le_spacing (large : 2 ^ (bits + 52) ≤ n) : bits ≤ spacing n := by
  have nonzero : n ≠ 0 := by
    have := Nat.two_pow_pos (bits + 52)
    omega
  have top := (Nat.le_log2 nonzero).mpr large
  rw [spacing]
  omega

theorem spacing_eq (large : 2 ^ (bits + 52) ≤ n) (below : n < 2 ^ (bits + 53)) :
    spacing n = bits :=
  Nat.le_antisymm (spacing_of_lt below) (le_spacing large)

/-- The spacing is one part of `2⁵²` at most. -/
theorem two_pow_spacing_le (large : 2 ^ 52 ≤ n) : 2 ^ (spacing n + 52) ≤ n := by
  have nonzero : n ≠ 0 := by omega
  have top : spacing n + 52 = n.log2 := by
    have := (Nat.le_log2 nonzero).mpr large
    rw [spacing]
    omega
  rw [top]
  exact Nat.log2_self_le nonzero

theorem rounded_of_dvd (aligned : 2 ^ spacing n ∣ n) : rounded n = n := by
  obtain ⟨count, same⟩ := aligned
  have quotient : roundHalfEven n (2 ^ spacing n) = count := by
    conv => lhs; arg 1; rw [same, Nat.mul_comm]
    exact roundHalfEven_mul count (Nat.two_pow_pos _)
  rw [rounded_eq, quotient, ← same]

/-- What has 53 bits is not rounded. -/
theorem rounded_of_le (small : n ≤ 2 ^ 53) : rounded n = n := by
  apply rounded_of_dvd
  have aligned := Magnitude.aligned_shiftLeft 0 (small.trans_eq (Nat.one_shiftLeft 53).symm)
  rwa [Nat.shiftLeft_zero, Nat.one_shiftLeft] at aligned

theorem two_pow_le_rounded (large : 2 ^ bits ≤ n) : 2 ^ bits ≤ rounded n :=
  Magnitude.two_pow_le_nearestUnits large

/-- Nor does rounding lead above a power of two that a quotient has not reached. -/
theorem nearestUnits_le_two_pow {num den : Nat} (below : num / den < 2 ^ (bits + 53)) :
    Magnitude.nearestUnits num den ≤ 2 ^ (bits + 53) := by
  have significand := Magnitude.roundHalfEven_spacing_le num den
  rw [Nat.one_shiftLeft] at significand
  rw [Magnitude.nearestUnits, Nat.shiftLeft_eq]
  calc roundHalfEven num (den <<< spacing (num / den)) * 2 ^ spacing (num / den)
      ≤ 2 ^ 53 * 2 ^ bits :=
      Nat.mul_le_mul significand (Nat.pow_le_pow_right (by decide) (spacing_of_lt below))
    _ = 2 ^ (bits + 53) := by rw [Nat.add_comm, Nat.pow_add]

theorem rounded_le_two_pow (below : n < 2 ^ (bits + 53)) : rounded n ≤ 2 ^ (bits + 53) :=
  nearestUnits_le_two_pow ((Nat.div_one n).trans_lt below)

theorem log2_mul_two_pow (nonzero : n ≠ 0) (bits : Nat) : (n * 2 ^ bits).log2 = n.log2 + bits := by
  have product : n * 2 ^ bits ≠ 0 := Nat.mul_ne_zero nonzero (Nat.two_pow_pos bits).ne'
  refine (Nat.log2_eq_iff product).mpr ⟨?_, ?_⟩
  · rw [Nat.pow_add]
    exact Nat.mul_le_mul_right _ (Nat.log2_self_le nonzero)
  · rw [Nat.add_right_comm, Nat.pow_add]
    exact Nat.mul_lt_mul_of_pos_right Nat.lt_log2_self (Nat.two_pow_pos bits)

/-- A power of two goes through rounding, since it leaves the significant bits as they are. -/
theorem rounded_mul_two_pow (n bits : Nat) : rounded (n * 2 ^ bits) = rounded n * 2 ^ bits := by
  by_cases small : n ≤ 2 ^ 53
  · have aligned := Magnitude.aligned_shiftLeft bits (small.trans_eq (Nat.one_shiftLeft 53).symm)
    rw [Nat.one_shiftLeft, Nat.shiftLeft_eq] at aligned
    rw [rounded_of_dvd aligned, rounded_of_le small]
  · have nonzero : n ≠ 0 := by omega
    have top : 53 ≤ n.log2 := (Nat.le_log2 nonzero).mpr (by omega)
    have shifted : spacing (n * 2 ^ bits) = spacing n + bits := by
      rw [spacing, spacing, log2_mul_two_pow nonzero]
      omega
    rw [rounded_eq, rounded_eq, shifted, Nat.pow_add,
      roundHalfEven_mul_right n _ (Nat.two_pow_pos bits)]
    ring

theorem nearestUnits_mul_one (n : Nat) :
    Magnitude.nearestUnits (n * Magnitude.one) 1 = rounded n * Magnitude.one := by
  have scaled (one : Nat) (power : one = 2 ^ 1074) :
      Magnitude.nearestUnits (n * one) 1 = rounded n * one := by
    rw [power]
    exact rounded_mul_two_pow n 1074
  exact scaled _ Magnitude.one_eq

/-- From half way between the last number below `2⁶³` and `2⁶³` rounding goes up. -/
theorem two_pow_le_rounded_of_half (large : 2 ^ 63 - 512 ≤ n) : 2 ^ 63 ≤ rounded n := by
  by_cases below : n < 2 ^ 63
  · have last : spacing n = 10 := spacing_eq (by omega) below
    have quotient : n / 2 ^ 10 = 2 ^ 53 - 1 := by omega
    have remainder : 512 ≤ n % 2 ^ 10 := by omega
    have up : roundHalfEven n (2 ^ 10) = 2 ^ 53 := by
      rw [roundHalfEven]
      split
      · omega
      · split <;> omega
    rw [rounded_eq, last, up]
    decide
  · exact two_pow_le_rounded (Nat.not_lt.mp below)

/-- There is no number of the format between `2⁶³ - 1024` and `2⁶³`. -/
theorem rounded_cases (large : 2 ^ 63 - 1024 ≤ n) :
    rounded n = 2 ^ 63 - 1024 ∨ 2 ^ 63 ≤ rounded n := by
  by_cases half : 2 ^ 63 - 512 ≤ n
  · exact .inr (two_pow_le_rounded_of_half half)
  · have last : spacing n = 10 := spacing_eq (by omega) (by omega)
    have down : roundHalfEven n (2 ^ 10) = 2 ^ 53 - 1 := by
      rw [roundHalfEven, if_pos (by omega)]
      omega
    left
    rw [rounded_eq, last, down]
    decide

/-- Multiples of a number are that number apart. -/
theorem add_le_of_dvd {step a b : Nat} (left : step ∣ a) (right : step ∣ b) (less : a < b) :
    a + step ≤ b := by
  have between := Nat.le_of_dvd (by omega) (Nat.dvd_sub right left)
  omega

/-- Two terms that have been rounded are short of `2⁶³` by half a space at most. -/
theorem le_rounded_add_rounded (boundA : a ≤ 2 ^ 63) (boundB : b ≤ 2 ^ 63)
    (large : 2 ^ 63 ≤ a + b) : 2 ^ 63 - 512 ≤ rounded a + rounded b := by
  wlog order : b ≤ a generalizing a b
  · rw [Nat.add_comm]
    exact this boundB boundA (by omega) (by omega)
  by_cases whole : a = 2 ^ 63
  · have kept : 2 ^ 63 ≤ rounded a := two_pow_le_rounded whole.ge
    omega
  have topA : 2 ^ 62 ≤ rounded a := two_pow_le_rounded (by omega)
  by_cases topB : 2 ^ 62 ≤ b
  · have kept : 2 ^ 62 ≤ rounded b := two_pow_le_rounded topB
    omega
  -- Here `a` is a multiple of 1024 once it is rounded, and `b` one of a smaller step, by which the
  -- sum cannot be short.
  have spacingA : spacing a = 10 := spacing_eq (by omega) (by omega)
  have spacingB : spacing b ≤ 9 := spacing_of_lt (by omega)
  have errorA := two_mul_le_rounded a
  have errorB := two_mul_le_rounded b
  have stepA := two_pow_dvd_rounded a
  have stepB := two_pow_dvd_rounded b
  rw [spacingA] at errorA stepA
  have finer : 2 ^ spacing b ∣ 2 ^ 9 := Nat.pow_dvd_pow 2 spacingB
  generalize 2 ^ spacing b = step at *
  have sum : step ∣ rounded a + rounded b :=
    Nat.dvd_add ((finer.trans (by decide)).trans stepA) stepB
  have goal : step ∣ 2 ^ 63 - 512 := finer.trans (by decide)
  by_contra short
  have apart := add_le_of_dvd sum goal (by omega)
  omega

/-- The loss in rounding is one part of `2⁵³` at most. -/
theorem mul_le_mul_rounded (n : Nat) : (2 ^ 53 - 1) * n ≤ 2 ^ 53 * rounded n := by
  by_cases small : n ≤ 2 ^ 53
  · rw [rounded_of_le small]
    omega
  · have step := two_pow_spacing_le (n := n) (by omega)
    have error := two_mul_le_rounded n
    rw [Nat.pow_add] at step
    omega

/-- Two factors that have been rounded are short of `2⁶³` by one space at most, since one of them
is exact. -/
theorem le_rounded_mul_rounded (large : 2 ^ 63 ≤ a * b) :
    2 ^ 63 - 1024 ≤ rounded a * rounded b := by
  wlog order : a ≤ b generalizing a b
  · rw [Nat.mul_comm]
    exact this (by rwa [Nat.mul_comm]) (by omega)
  by_cases small : a ≤ 2 ^ 53
  · have loss : (2 ^ 53 - 1) * (a * b) ≤ 2 ^ 53 * (a * rounded b) := by
      calc (2 ^ 53 - 1) * (a * b)
          = a * ((2 ^ 53 - 1) * b) := by ring
        _ ≤ a * (2 ^ 53 * rounded b) := Nat.mul_le_mul_left a (mul_le_mul_rounded b)
        _ = 2 ^ 53 * (a * rounded b) := by ring
    rw [rounded_of_le small]
    omega
  · have topA : 2 ^ 53 ≤ rounded a := two_pow_le_rounded (by omega)
    have topB : 2 ^ 53 ≤ rounded b := two_pow_le_rounded (by omega)
    have product := Nat.mul_le_mul topA topB
    omega

end Rounded

end Rpn
