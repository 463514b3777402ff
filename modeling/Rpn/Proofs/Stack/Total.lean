import Mathlib.Algebra.Order.BigOperators.Group.List
import Rpn.Proofs.Binary64.Nearest
import Rpn.Stack.Primitive

/-!
# The total of integers

Values are added from the bottom of a stack up. While the partial sums fit into 64 bits they are
integers, and beyond that they go over to floating point. The total is the exact one in every order
in which no addition loses anything, be it that the partial sums fit or that the sum in floating
point is exact where they do not. If all integers have the same sign every order is such an order,
and whatever their signs, there is one if the total fits: among the integers left there is always
one that leads to another partial sum that fits (`exists_inRange_add`).
-/

namespace Rpn

/-- Fits into 64 bits. -/
def InRange (n : Int) : Prop := -2 ^ 63 ≤ n ∧ n < 2 ^ 63

instance (n : Int) : Decidable (InRange n) := inferInstanceAs (Decidable (_ ∧ _))

theorem inRange_toInt (n : Int64) : InRange n.toInt := ⟨n.le_toInt, n.toInt_lt⟩

/-- The addition of `b` to `a` loses nothing: `a` and the sum fit into 64 bits, or the sum that is
computed in floating point is exact. -/
def LosslessStep (a b : Int) : Prop :=
  InRange a ∧ InRange (a + b) ∨
    Binary64.roundedInt (Binary64.roundedInt a + Binary64.roundedInt b) = a + b

instance (a b : Int) : Decidable (LosslessStep a b) := inferInstanceAs (Decidable (_ ∨ _))

/-- No addition loses anything when the integers are added to `a` one after the other. -/
def Lossless : Int → List Int64 → Prop
  | _, [] => True
  | a, b :: rest => LosslessStep a b.toInt ∧ Lossless (a + b.toInt) rest

instance decidableLossless : (a : Int) → (order : List Int64) → Decidable (Lossless a order)
  | _, [] => .isTrue trivial
  | a, b :: rest =>
    have := decidableLossless (a + b.toInt) rest
    inferInstanceAs (Decidable (_ ∧ _))

/-- A number with 53 significant bits keeps away from the next power of two by its last bit. -/
theorem add_lt_two_pow {a b bits top : Nat} (split : top = bits + 53) (exact : rounded a = a)
    (below : a < 2 ^ top) (small : b < 2 ^ bits) : a + b < 2 ^ top := by
  subst split
  by_cases large : 2 ^ (bits + 52) ≤ a
  · have last : 2 ^ bits ∣ a := by
      have aligned := two_pow_dvd_rounded a
      rw [exact] at aligned
      exact (Nat.pow_dvd_pow 2 (le_spacing large)).trans aligned
    have apart := add_le_of_dvd last (Nat.pow_dvd_pow 2 (by omega)) below
    omega
  · have room : 2 ^ bits ≤ 2 ^ (bits + 52) := Nat.pow_le_pow_right (by decide) (by omega)
    have double : 2 ^ (bits + 53) = 2 ^ (bits + 52) * 2 := Nat.pow_succ ..
    omega

namespace Binary64

variable {x y : Binary64} {a b : Int}

theorem natAbs_lt_unitsLimit {units : Int} (finite : x.units? = some units) :
    units.natAbs < unitsLimit := by
  cases x with
  | nan | infinite => cases finite
  | finite negative m =>
    have bounded := m.bounded
    cases finite
    cases negative <;> simpa using bounded

theorem natAbs_lt_of_units? (units : x.units? = some (a * Magnitude.one)) :
    a.natAbs < 2 ^ 1024 := by
  have bounded := natAbs_lt_unitsLimit units
  rw [Int.natAbs_mul, Int.natAbs_natCast, unitsLimit_eq_mul_one] at bounded
  exact Nat.lt_of_mul_lt_mul_right bounded

theorem units?_ofInt_iff {n : Int} :
    (ofInt n).units? = some (a * Magnitude.one) ↔ roundedInt n = a ∧ a.natAbs < 2 ^ 1024 := by
  obtain ⟨m, same, units⟩ | ⟨same, beyond⟩ := ofInt_cases n
  · have finite := (congrArg units? same).trans (units?_of_rounded units)
    have bound := natAbs_lt_of_units? finite
    rw [finite, Option.some.injEq, Int.mul_eq_mul_right_iff Magnitude.natCast_one_ne_zero]
    exact ⟨fun equal => ⟨equal, equal ▸ bound⟩, And.left⟩
  · rw [same]
    refine iff_of_false (by simp [units?]) ?_
    rintro ⟨rfl, bound⟩
    rw [natAbs_roundedInt] at bound
    exact absurd bound (Nat.not_lt.mpr beyond)

/-- The sum of two integers is the number nearest to their sum. -/
theorem units?_add (unitsX : x.units? = some (a * Magnitude.one))
    (unitsY : y.units? = some (b * Magnitude.one)) :
    (x.add y).units? = (ofInt (a + b)).units? := by
  by_cases zero : a + b = 0
  · have none : a * Magnitude.one + b * Magnitude.one = 0 := by
      rw [← Int.add_mul, zero, Int.zero_mul]
    cases x with
    | nan | infinite => cases unitsX
    | finite s m =>
      cases y with
      | nan | infinite => cases unitsY
      | finite t m' =>
        rw [← Option.some.inj unitsX, ← Option.some.inj unitsY] at none
        have cancelled : (finite s m).add (finite t m') = Binary64.zero (s && t) := if_pos none
        rw [cancelled, zero, ofInt_zero, units?_zero, units?_zero]
  · have nonzero : a * Magnitude.one + b * Magnitude.one ≠ 0 := by
      rw [← Int.add_mul]
      exact Int.mul_ne_zero zero Magnitude.natCast_one_ne_zero
    have sign : (a + b) * Magnitude.one < 0 ↔ a + b < 0 := by
      have scaled := Int.mul_lt_mul_right (b := a + b) (c := 0) Magnitude.natCast_one_pos
      rwa [Int.zero_mul] at scaled
    rw [add_of_units unitsX unitsY nonzero, ofInt, ← Int.add_mul, Int.natAbs_mul,
      Int.natAbs_natCast, decide_eq_decide.mpr sign]

/-- A number of the format is its own rounding. -/
theorem roundedInt_of_units? (units : x.units? = some (a * Magnitude.one)) : roundedInt a = a := by
  have aligned := aligned_of_units? units
  have exact : rounded (a * Magnitude.one).natAbs = (a * Magnitude.one).natAbs :=
    rounded_of_dvd aligned
  rw [Int.natAbs_mul, Int.natAbs_natCast, rounded, nearestUnits_mul_one] at exact
  exact roundedInt_eq_self_iff.mpr (Nat.eq_of_mul_eq_mul_right Magnitude.one_pos exact)

end Binary64

namespace Value

/-- The only normal value of an integer of any size. -/
structure Holds (v : Value) (n : Int) : Prop where
  normal : v.IsNormal
  units : v.signedUnits? = some (n * Magnitude.one)

namespace Holds

variable {v : Value} {a : Int}

theorem toInt_eq {i : Int64} (holds : (int i).Holds a) : i.toInt = a := by
  exact Int.eq_of_mul_eq_mul_right Magnitude.natCast_one_ne_zero (Option.some.inj holds.units)

theorem eq_int {n : Int64} (holds : v.Holds n.toInt) : v = int n :=
  holds.normal.eq_int_iff.mpr holds.units

theorem exists_int (holds : v.Holds a) (range : InRange a) :
    ∃ i : Int64, v = int i ∧ i.toInt = a := by
  have same : (Int64.ofInt a).toInt = a := Int64.toInt_ofInt_of_le range.1 range.2
  rw [← same] at holds
  exact ⟨_, holds.eq_int, same⟩

theorem units?_toBinary64 (holds : v.Holds a) :
    v.toBinary64.units? = some (Binary64.roundedInt a * Magnitude.one) := by
  cases v with
  | int i => rw [toBinary64, Binary64.units?_ofInt (natAbs_toInt_le i), holds.toInt_eq]
  | float x =>
    rw [Binary64.roundedInt_of_units? holds.units]
    exact holds.units

/-- A sum is computed in floating point unless both the integer and the sum fit. -/
theorem add_cases (holds : v.Holds a) (b : Int64) :
    (∃ i : Int64, v.add (int b) = int i ∧ i.toInt = a + b.toInt ∧
      InRange a ∧ InRange (a + b.toInt)) ∨
    ¬ (InRange a ∧ InRange (a + b.toInt)) ∧
      v.add (int b) = ofBinary64 (v.toBinary64.add (.ofInt b.toInt)) := by
  cases v with
  | int i =>
    have first : InRange a := holds.toInt_eq ▸ inRange_toInt i
    rw [add, toBinary64, holds.toInt_eq]
    by_cases range : InRange (a + b.toInt)
    · obtain ⟨sum, same⟩ := exactOr_of_range range.1 range.2
      exact .inl ⟨_, sum, same, first, range⟩
    · refine .inr ⟨fun both => range both.2, exactOr_of_outside ?_⟩
      rw [InRange] at range
      omega
  | float x =>
    refine .inr ⟨?_, rfl⟩
    rintro ⟨range, -⟩
    obtain ⟨i, same, -⟩ := holds.exists_int range
    cases same

theorem natAbs_add_lt (holds : v.Holds a) (b : Int64) : (a + b.toInt).natAbs < 2 ^ 1024 := by
  have small : b.toInt.natAbs < 2 ^ 971 := by
    apply (natAbs_toInt_le b).trans_lt
    apply Nat.pow_lt_pow_right <;> decide
  have near : a.natAbs + b.toInt.natAbs < 2 ^ 1024 := by
    cases v with
    | int i =>
      have first := natAbs_toInt_le i
      have second := natAbs_toInt_le b
      rw [holds.toInt_eq] at first
      calc a.natAbs + b.toInt.natAbs
          ≤ 2 ^ 64 := by omega
        _ < 2 ^ 1024 := by apply Nat.pow_lt_pow_right <;> decide
    | float x =>
      have exact := Binary64.roundedInt_eq_self_iff.mp (Binary64.roundedInt_of_units? holds.units)
      exact add_lt_two_pow (by decide) exact (Binary64.natAbs_lt_of_units? holds.units) small
  exact (Int.natAbs_add_le a b.toInt).trans_lt near

theorem of_toInt_eq {i : Int64} (same : i.toInt = a) : (int i).Holds a :=
  ⟨.int i, by rw [← same, signedUnits?]⟩

/-- The sum with one more integer is exact when the addition loses nothing, and only then. -/
theorem add_iff (holds : v.Holds a) (b : Int64) :
    (v.add (int b)).Holds (a + b.toInt) ↔ LosslessStep a b.toInt := by
  have units : (v.toBinary64.add (.ofInt b.toInt)).units? = some ((a + b.toInt) * Magnitude.one) ↔
      Binary64.roundedInt (Binary64.roundedInt a + Binary64.roundedInt b.toInt) = a + b.toInt := by
    rw [Binary64.units?_add holds.units?_toBinary64 (Binary64.units?_ofInt (natAbs_toInt_le b)),
      Binary64.units?_ofInt_iff]
    exact and_iff_left (holds.natAbs_add_lt b)
  obtain ⟨i, sum, same, range⟩ | ⟨outside, sum⟩ := holds.add_cases b
  · rw [sum]
    exact iff_of_true (of_toInt_eq same) (.inl range)
  · rw [sum, LosslessStep, or_iff_right outside, ← units, ← signedUnits?_ofBinary64]
    exact ⟨Holds.units, fun exact => ⟨isNormal_ofBinary64 _, exact⟩⟩

/-- The exact partial sums are kept up to the total. -/
theorem foldl_add (holds : v.Holds a) {order : List Int64} (lossless : Lossless a order) :
    ((order.map int).foldl Value.add v).Holds (a + (order.map Int64.toInt).sum) := by
  induction order generalizing v a with
  | nil => simpa using holds
  | cons b rest ih =>
    obtain ⟨first, others⟩ := lossless
    have whole := ih ((holds.add_iff b).mpr first) others
    rwa [Int.add_assoc, ← List.sum_cons] at whole

end Holds

end Value

section Order

variable {a : Int} {ints order : List Int64}

/-- What is added in the direction of a total that fits leads to a sum that fits. -/
theorem InRange.between {a b c : Int} (start : InRange a) (total : InRange (a + (b + c)))
    (signs : 0 ≤ b ∧ 0 ≤ c ∨ b ≤ 0 ∧ c ≤ 0) : InRange (a + b) := by
  rw [InRange] at start total ⊢
  omega

theorem sum_nonneg (nonneg : ∀ b ∈ ints, 0 ≤ b.toInt) : 0 ≤ (ints.map Int64.toInt).sum :=
  List.sum_nonneg (List.forall_mem_map.mpr nonneg)

theorem sum_nonpos (nonpos : ∀ b ∈ ints, b.toInt ≤ 0) : (ints.map Int64.toInt).sum ≤ 0 := by
  have bound := List.sum_le_card_nsmul (ints.map Int64.toInt) 0 (List.forall_mem_map.mpr nonpos)
  simpa using bound

/-- All integers have the same sign, zero having both. -/
def OneSign (ints : List Int64) : Prop := (∀ b ∈ ints, 0 ≤ b.toInt) ∨ ∀ b ∈ ints, b.toInt ≤ 0

theorem OneSign.of_subset (sign : OneSign ints) (subset : order ⊆ ints) : OneSign order :=
  sign.imp (fun nonneg b member => nonneg b (subset member))
    (fun nonpos b member => nonpos b (subset member))

theorem OneSign.signs {b : Int64} (sign : OneSign (b :: ints)) :
    0 ≤ b.toInt ∧ 0 ≤ (ints.map Int64.toInt).sum ∨
      b.toInt ≤ 0 ∧ (ints.map Int64.toInt).sum ≤ 0 := by
  rw [OneSign, List.forall_mem_cons, List.forall_mem_cons] at sign
  exact sign.imp (fun nonneg => ⟨nonneg.1, sum_nonneg nonneg.2⟩)
    (fun nonpos => ⟨nonpos.1, sum_nonpos nonpos.2⟩)

theorem sum_of_perm (perm : order.Perm ints) :
    (order.map Int64.toInt).sum = (ints.map Int64.toInt).sum :=
  (perm.map Int64.toInt).sum_eq

/-- Integers of one sign lead from `a` to the total without leaving the interval between. -/
theorem OneSign.lossless (sign : OneSign ints) (start : InRange a)
    (total : InRange (a + (ints.map Int64.toInt).sum)) : Lossless a ints := by
  induction ints generalizing a with
  | nil => trivial
  | cons b rest ih =>
    rw [List.map_cons, List.sum_cons] at total
    have next : InRange (a + b.toInt) := start.between total sign.signs
    rw [← Int.add_assoc] at total
    exact ⟨.inl ⟨start, next⟩, ih (sign.of_subset (List.subset_cons_self b rest)) next total⟩

/-- Where `a` and the total fit, there is an integer that leads from `a` to a sum that fits:
otherwise all of them would lead beyond the same end, and the total with them. -/
theorem exists_inRange_add (nonempty : ints ≠ []) (start : InRange a)
    (total : InRange (a + (ints.map Int64.toInt).sum)) : ∃ b ∈ ints, InRange (a + b.toInt) := by
  by_contra none
  have outside (b : Int64) (member : b ∈ ints) : ¬ InRange (a + b.toInt) :=
    fun range => none ⟨b, member, range⟩
  have sign : OneSign ints := by
    obtain negative | positive := lt_or_ge a 0
    · right
      intro b member
      have beyond := outside b member
      have bounds := inRange_toInt b
      rw [InRange] at start beyond bounds
      omega
    · left
      intro b member
      have beyond := outside b member
      have bounds := inRange_toInt b
      rw [InRange] at start beyond bounds
      omega
  obtain ⟨b, rest, rfl⟩ := List.exists_cons_of_ne_nil nonempty
  rw [List.map_cons, List.sum_cons] at total
  exact outside b List.mem_cons_self (start.between total sign.signs)

theorem exists_lossless (start : InRange a) (total : InRange (a + (ints.map Int64.toInt).sum)) :
    ∃ order : List Int64, order.Perm ints ∧ Lossless a order := by
  induction count : ints.length generalizing a ints with
  | zero =>
    obtain rfl := List.length_eq_zero_iff.mp count
    exact ⟨[], .nil, trivial⟩
  | succ count' ih =>
    have nonempty : ints ≠ [] := by
      rintro rfl
      cases count
    obtain ⟨b, member, next⟩ := exists_inRange_add nonempty start total
    have perm := List.perm_cons_erase member
    have split : a + (ints.map Int64.toInt).sum =
        a + b.toInt + ((ints.erase b).map Int64.toInt).sum := by
      rw [sum_of_perm perm, List.map_cons, List.sum_cons, Int.add_assoc]
    have shorter : (ints.erase b).length = count' := by
      rw [List.length_erase_of_mem member]
      omega
    obtain ⟨order, others, lossless⟩ := ih next (split ▸ total) shorter
    exact ⟨b :: order, (others.cons b).trans perm.symm, .inl ⟨start, next⟩, lossless⟩

end Order

namespace Stack

/-- If the total of integers fits into 64 bits it is the result in every order in which no addition
from the bottom of the stack up loses anything. These are all orders if no two integers differ in
sign, and there is one in any case. -/
theorem sum_integers {ints : List Int64} {n : Int64}
    (total : (ints.map Int64.toInt).sum = n.toInt) (f : Elementary) :
    (∀ order : List Int64, order.Perm ints → Lossless 0 order →
      ∀ s : Stack, s.bottomUp = order.map .int →
        s.execute f .sum = ({ s with values := [.int n] }, .ok .display)) ∧
    (OneSign ints → ∀ order : List Int64, order.Perm ints → Lossless 0 order) ∧
    ∃ order : List Int64, order.Perm ints ∧ Lossless 0 order := by
  have start : InRange 0 := by decide
  have fits : InRange (0 + (ints.map Int64.toInt).sum) := by
    rw [Int.zero_add, total]
    exact inRange_toInt n
  refine ⟨?_, ?_, exists_lossless start fits⟩
  · intro order perm lossless s values
    have zero : (Value.int 0).Holds 0 := .of_toInt_eq Int64.toInt_zero
    have holds := zero.foldl_add lossless
    rw [sum_of_perm perm, Int.zero_add, total] at holds
    have result : s.total = .int n := by
      rw [Stack.total, values]
      exact holds.eq_int
    rw [execute, result]
    rfl
  · intro sign order perm
    rw [← sum_of_perm perm] at fits
    exact (sign.of_subset perm.subset).lossless start fits

/-- The sum of two powers of two is held in floating point until a third one is taken off again, in
another order all partial sums fit, and -5, -7 and 0 are of one sign. -/
theorem sum_integers_powers :
    let power : Int64 := 4611686018427387904
    let on (values : List Value) : Stack := { values }
    ((on [.int (-power), .int power, .int power]).execute .machine .sum).1.values = [.int power] ∧
    ((on [.int power, .int (-power), .int power]).execute .machine .sum).1.values = [.int power] ∧
    ((on [.int 0, .int (-7), .int (-5)]).execute .machine .sum).1.values = [.int (-12)] := by
  intro power on
  have total : ([power, power, -power].map Int64.toInt).sum = power.toInt := by decide
  have total' : ([-5, -7, 0].map Int64.toInt).sum = (-12 : Int64).toInt := by decide
  obtain ⟨result, -, -⟩ := sum_integers total .machine
  obtain ⟨result', sign, -⟩ := sum_integers total' .machine
  have swap : [power, -power, power].Perm [power, power, -power] := .cons power (.swap ..)
  have below : OneSign [-5, -7, 0] := by
    right
    intro b member
    simp only [List.mem_cons, List.not_mem_nil, or_false] at member
    obtain rfl | rfl | rfl := member <;> decide
  refine ⟨?_, ?_, ?_⟩
  · rw [result _ (.refl _) (by decide +kernel) _ rfl]
  · rw [result _ swap (by decide +kernel) _ rfl]
  · rw [result' _ (.refl _) (sign below _ (.refl _)) _ rfl]

/-- The largest integer, 1 and -1 lead to `2⁶³` when they are added in this order. -/
theorem not_forall_sum_exact :
    ¬ ∀ (s : Stack) (ints : List Int64) (n : Int64) (f : Elementary), s.bottomUp = ints.map .int →
      (ints.map Int64.toInt).sum = n.toInt →
      s.execute f .sum = ({ s with values := [.int n] }, .ok .display) := by
  intro all
  let s : Stack := { values := [.int (-1), .int 1, .int Int64.maxValue] }
  have exact := all s [Int64.maxValue, 1, -1] Int64.maxValue .machine rfl (by decide)
  have result : (s.execute .machine .sum).1.values = [.float (.ofInt 9223372036854775808)] := by
    decide +kernel
  cases result.symm.trans (congrArg (·.1.values) exact)

end Stack

end Rpn
