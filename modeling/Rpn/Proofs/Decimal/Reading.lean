import Rpn.Numeral
import Rpn.Proofs.Decimal.Characters
import Rpn.Proofs.Decimal.Rounding

/-!
# Reading what is written

A numeral is taken apart into the digits before the point, those after it and an exponent. The
layouts of a decimal are put together from just these parts, and what they leave out, zeros at the
end of the digits, they make up for by the place of the point or by the exponent. So the text of a
decimal is read as what the decimal stands for, in positional notation and with an exponent.
-/

namespace Rpn

/-- The characters are digits. -/
def AllDigits (cs : List Char) : Prop := ∀ c ∈ cs, c.isDigit = true

instance (cs : List Char) : Decidable (AllDigits cs) :=
  List.decidableBAll (fun c : Char => c.isDigit = true) cs

section Digits

variable {front cs : List Char} {c : Char}

theorem allDigits_append : AllDigits (front ++ cs) ↔ AllDigits front ∧ AllDigits cs :=
  List.forall_mem_append

theorem AllDigits.subset (digits : AllDigits cs) (subset : front ⊆ cs) : AllDigits front :=
  fun c member => digits c (subset member)

theorem allDigits_replicate_zero (count : Nat) : AllDigits (List.replicate count '0') := by
  intro c member
  rw [List.eq_of_mem_replicate member]
  decide

theorem allDigits_decimalDigits (n : Nat) : AllDigits (decimalDigits n) :=
  fun _ member => isDigit_of_mem_decimalDigits member

theorem decimalDigits_ne_nil (n : Nat) : decimalDigits n ≠ [] := Nat.toDigits_ne_nil

theorem digitsValue_decimalDigits (n : Nat) : digitsValue (decimalDigits n) = n :=
  Nat.ofDigitChars_ten_toDigits

theorem digitsValue_append_zeros (cs : List Char) (count : Nat) :
    digitsValue (cs ++ List.replicate count '0') = digitsValue cs * 10 ^ count := by
  rw [digitsValue, Nat.ofDigitChars_append, Nat.ofDigitChars_replicate_zero, Nat.mul_comm]
  rfl

theorem digitsValue_zeros_append (count : Nat) (cs : List Char) :
    digitsValue (List.replicate count '0' ++ cs) = digitsValue cs := by
  rw [digitsValue, Nat.ofDigitChars_append, Nat.ofDigitChars_replicate_zero, Nat.mul_zero]
  rfl

theorem takeWhile_isDigit (digits : AllDigits front) (stops : ∀ c ∈ cs.head?, c.isDigit = false) :
    (front ++ cs).takeWhile Char.isDigit = front ∧
      (front ++ cs).dropWhile Char.isDigit = cs := by
  rw [List.takeWhile_append_of_pos digits, List.dropWhile_append_of_pos digits]
  cases cs with
  | nil => exact ⟨List.append_nil front, rfl⟩
  | cons c cs =>
    have stop : ¬ c.isDigit = true := Bool.eq_false_iff.mp (stops c rfl)
    rw [List.takeWhile_cons_of_neg stop, List.dropWhile_cons_of_neg stop, List.append_nil]
    exact ⟨rfl, rfl⟩

theorem ne_of_isDigit {mark : Char} (digit : c.isDigit = true) (other : mark.isDigit = false) :
    c ≠ mark := by
  rintro rfl
  cases digit.symm.trans other

theorem toLower_of_isDigit (digit : c.isDigit = true) : c.toLower = c := by
  have upper : c.toNat ≤ 57 := (Char.isDigit_iff_toNat.mp digit).2
  refine dif_neg fun letter => ?_
  have lower : 65 ≤ c.toNat := UInt32.le_iff_toNat_le.mp letter.1
  omega

theorem exists_eq_dropRightWhile_append_replicate (c : Char) (cs : List Char) :
    ∃ count, cs = dropRightWhile (· == c) cs ++ List.replicate count c := by
  have dropped : ∀ c' ∈ (cs.reverse.takeWhile (· == c)).reverse, c' = c := fun c' member =>
    eq_of_beq (List.mem_takeWhile_imp (List.mem_reverse.mp member) :)
  have whole := dropRightWhile_append_takeWhile (· == c) cs
  rw [List.eq_replicate_of_mem dropped] at whole
  exact ⟨_, whole.symm⟩

end Digits

namespace Numeral

section Parse

variable {whole fraction rest digits : List Char} {exponent : Int}

theorem splitFraction_of_ne (noPoint : ∀ c ∈ rest.head?, c ≠ '.') :
    splitFraction rest = ([], rest) := by
  cases rest with
  | nil => rfl
  | cons c cs =>
    have other : c ≠ '.' := noPoint c rfl
    simp [splitFraction, other]

/-- Digits without a point, and an exponent. -/
theorem decimal?_whole (negative : Bool) (wholeDigits : AllDigits whole) (nonempty : whole ≠ [])
    (stops : ∀ c ∈ rest.head?, c.isDigit = false ∧ c ≠ '.')
    (reads : exponent? rest = some exponent) :
    decimal? negative (whole ++ rest) = some (.decimal negative (digitsValue whole) exponent) := by
  obtain ⟨taken, dropped⟩ := takeWhile_isDigit wholeDigits fun c member => (stops c member).1
  have noPoint := splitFraction_of_ne fun c member => (stops c member).2
  rw [decimal?, taken, dropped, noPoint]
  simp only [List.append_nil, List.isEmpty_eq_false_iff.mpr nonempty, reads]
  simp

/-- Digits, a point and more digits, of which there is one at least, and an exponent. -/
theorem decimal?_point (negative : Bool) (wholeDigits : AllDigits whole)
    (fractionDigits : AllDigits fraction) (nonempty : whole ++ fraction ≠ [])
    (stops : ∀ c ∈ rest.head?, c.isDigit = false)
    (reads : exponent? rest = some exponent) :
    decimal? negative (whole ++ '.' :: (fraction ++ rest)) =
      some (.decimal negative (digitsValue (whole ++ fraction)) (exponent - fraction.length)) := by
  have point : ∀ c ∈ ('.' :: (fraction ++ rest)).head?, c.isDigit = false := by simp
  obtain ⟨taken, dropped⟩ := takeWhile_isDigit wholeDigits point
  obtain ⟨takenFraction, droppedFraction⟩ := takeWhile_isDigit fractionDigits stops
  have some_ : (whole ++ fraction).isEmpty = false := List.isEmpty_eq_false_iff.mpr nonempty
  rw [decimal?, taken, dropped, splitFraction, takenFraction, droppedFraction]
  simp only [some_, reads]
  simp

theorem exponent?_nil : exponent? [] = some 0 := rfl

/-- An exponent of a sign and digits, of which there are at least two. -/
theorem exponent?_power (exponent : Int) :
    exponent? ('e' :: (if exponent < 0 then '-' else '+') ::
      (List.replicate (2 - (decimalDigits exponent.natAbs).length) '0' ++
        decimalDigits exponent.natAbs)) = some exponent := by
  generalize zeros : 2 - (decimalDigits exponent.natAbs).length = count
  have all : (List.replicate count '0' ++ decimalDigits exponent.natAbs).all Char.isDigit = true :=
    List.all_eq_true.mpr
      (allDigits_append.mpr ⟨allDigits_replicate_zero count, allDigits_decimalDigits _⟩)
  have shown : (List.replicate count '0' ++ decimalDigits exponent.natAbs).isEmpty = false :=
    List.isEmpty_eq_false_iff.mpr fun none =>
      decimalDigits_ne_nil _ (List.append_eq_nil_iff.mp none).2
  have value : digitsValue (List.replicate count '0' ++ decimalDigits exponent.natAbs) =
      exponent.natAbs := by
    rw [digitsValue_zeros_append, digitsValue_decimalDigits]
  rw [exponent?]
  by_cases negative : exponent < 0
  · rw [if_pos negative, splitSign]
    simp only [shown, all, value]
    rw [if_pos (by decide), if_pos trivial]
    exact congrArg some (by omega)
  · rw [if_neg negative, splitSign]
    simp only [shown, all, value]
    rw [if_pos (by decide), if_neg (by decide)]
    exact congrArg some (by omega)

/-- A digit is not a sign, so a sign before it is the only one. -/
theorem splitSign_signText (negative : Bool) {c : Char} (digit : c.isDigit = true)
    (cs : List Char) : splitSign (signText negative ++ c :: cs) = (negative, c :: cs) := by
  cases negative with
  | true => rfl
  | false =>
    have minus : c ≠ '-' := ne_of_isDigit digit (by decide)
    have plus : c ≠ '+' := ne_of_isDigit digit (by decide)
    simp [signText, splitSign, minus, plus]

/-- A text that begins with a digit, perhaps after a sign, is read as a decimal. -/
theorem parse?_of_isDigit (negative : Bool) {c : Char} (digit : c.isDigit = true)
    (cs : List Char) : parse? (signText negative ++ c :: cs) = decimal? negative (c :: cs) := by
  have n : c ≠ 'n' := ne_of_isDigit digit (by decide)
  have i : c ≠ 'i' := ne_of_isDigit digit (by decide)
  rw [parse?, splitSign_signText negative digit]
  simp [toLower_of_isDigit digit, n, i]

end Parse

end Numeral

namespace Decimal

variable {digits : List Char}

/-- Digits with a point among them or beside them stand for an integer with a power of ten. -/
theorem reads_positional (negative : Bool) (all : AllDigits digits) (nonempty : digits ≠ [])
    (point : Int) :
    (Numeral.decimal? negative (positional digits point)).map Numeral.toBinary64 =
      some (.ofDecimal negative (digitsValue digits) (point - digits.length)) := by
  rw [positional]
  split
  · -- The digits and the zeros before them are the fraction.
    have zero : AllDigits ['0'] := by decide
    have fraction := allDigits_append.mpr ⟨allDigits_replicate_zero (-point).toNat, all⟩
    have value : digitsValue (['0'] ++ (List.replicate (-point).toNat '0' ++ digits)) =
        digitsValue digits := by
      rw [← List.append_assoc, ← List.replicate_one, List.replicate_append_replicate,
        digitsValue_zeros_append]
    have places : (0 : Int) - (List.replicate (-point).toNat '0' ++ digits).length =
        point - digits.length := by
      rw [List.length_append, List.length_replicate]
      omega
    have read := Numeral.decimal?_point negative zero fraction (by simp) (by simp)
      Numeral.exponent?_nil
    rw [value, places, List.append_nil] at read
    exact congrArg (Option.map Numeral.toBinary64) read
  · split
    · -- Zeros lead from the digits up to the point.
      next large =>
      have whole := allDigits_append.mpr
        ⟨all, allDigits_replicate_zero (point.toNat - digits.length)⟩
      have places : (0 : Int) + (point.toNat - digits.length : Nat) = point - digits.length := by
        omega
      have read := Numeral.decimal?_whole negative whole (by simp [nonempty]) (by simp)
        Numeral.exponent?_nil
      rw [List.append_nil] at read
      rw [read, Option.map_some, Numeral.toBinary64, digitsValue_append_zeros,
        Binary64.ofDecimal_mul_pow, places]
    · -- The point stands between two of the digits.
      next positive small =>
      have whole := all.subset (List.take_subset point.toNat digits)
      have fraction := all.subset (List.drop_subset point.toNat digits)
      have places : (0 : Int) - (digits.drop point.toNat).length = point - digits.length := by
        rw [List.length_drop]
        omega
      have some_ : digits.take point.toNat ++ digits.drop point.toNat ≠ [] := by
        rw [List.take_append_drop]
        exact nonempty
      have read := Numeral.decimal?_point negative whole fraction some_ (by simp)
        Numeral.exponent?_nil
      rw [List.append_nil, List.take_append_drop, places] at read
      rw [read]
      rfl

/-- A digit, perhaps a point and more digits, and an exponent. -/
theorem reads_scientific (negative : Bool) (all : AllDigits digits) (nonempty : digits ≠ [])
    (exponent : Int) :
    (Numeral.decimal? negative (scientific digits exponent)).map Numeral.toBinary64 =
      some (.ofDecimal negative (digitsValue digits) (exponent + 1 - digits.length)) := by
  obtain ⟨first, later, rfl⟩ := List.exists_cons_of_ne_nil nonempty
  obtain ⟨firstDigit, laterDigits⟩ := List.forall_mem_cons.mp all
  have power := Numeral.exponent?_power exponent
  have whole : AllDigits [first] := List.forall_mem_singleton.mpr firstDigit
  cases later with
  | nil =>
    have read := Numeral.decimal?_whole negative whole (by simp) (by simp) power
    have places : exponent + 1 - [first].length = exponent := by simp
    rw [places]
    exact congrArg (Option.map Numeral.toBinary64) read
  | cons second others =>
    have read := Numeral.decimal?_point negative whole laterDigits (by simp) (by simp) power
    have places : exponent - (second :: others).length =
        exponent + 1 - (first :: second :: others).length := by
      simp only [List.length_cons]
      omega
    rw [places] at read
    have text : scientific (first :: second :: others) exponent =
        [first] ++ '.' :: ((second :: others) ++
          'e' :: (if exponent < 0 then '-' else '+') ::
            (List.replicate (2 - (decimalDigits exponent.natAbs).length) '0' ++
              decimalDigits exponent.natAbs)) := by
      simp [scientific]
    rw [text, read]
    rfl

theorem exists_digit_positional (all : AllDigits digits) (nonempty : digits ≠ []) (point : Int) :
    ∃ c cs, positional digits point = c :: cs ∧ c.isDigit = true := by
  obtain ⟨first, later, rfl⟩ := List.exists_cons_of_ne_nil nonempty
  have firstDigit := all first List.mem_cons_self
  rw [positional]
  split
  · exact ⟨_, _, rfl, by decide⟩
  · split
    · exact ⟨first, _, rfl, firstDigit⟩
    · next positive _ =>
      obtain ⟨count, places⟩ : ∃ count, point.toNat = count + 1 := ⟨point.toNat - 1, by omega⟩
      rw [places]
      exact ⟨first, _, rfl, firstDigit⟩

theorem exists_digit_scientific (all : AllDigits digits) (nonempty : digits ≠ [])
    (exponent : Int) : ∃ c cs, scientific digits exponent = c :: cs ∧ c.isDigit = true := by
  obtain ⟨first, later, rfl⟩ := List.exists_cons_of_ne_nil nonempty
  exact ⟨first, _, rfl, all first List.mem_cons_self⟩

/-- The digits that are written, and the zeros that are left out. -/
theorem exists_written {n : Nat} (nonzero : n ≠ 0) :
    ∃ digits count, AllDigits digits ∧ digits ≠ [] ∧
      dropRightWhile (· == '0') (decimalDigits n) = digits ∧
      (decimalDigits n).length = digits.length + count ∧ n = digitsValue digits * 10 ^ count := by
  obtain ⟨count, split⟩ := exists_eq_dropRightWhile_append_replicate '0' (decimalDigits n)
  obtain ⟨c, written, notZero⟩ := exists_ne_zero_mem_decimalDigits nonzero
  have kept := mem_dropRightWhile (p := (· == '0')) written (beq_eq_false_iff_ne.mpr notZero)
  have value := digitsValue_decimalDigits n
  have length := congrArg List.length split
  rw [split, digitsValue_append_zeros] at value
  rw [List.length_append, List.length_replicate] at length
  exact ⟨_, count, (allDigits_decimalDigits n).subset (dropRightWhile_subset _ _),
    List.ne_nil_of_mem kept, rfl, length, value.symm⟩

/-- The text of a decimal is read as what the decimal stands for. -/
theorem reads_text {d : Decimal} (nonzero : d.digits ≠ 0) (negative : Bool) :
    (Numeral.parse? (signText negative ++ d.text)).map Numeral.toBinary64 =
      some (.ofDecimal negative d.digits d.exponent) := by
  obtain ⟨digits, count, all, nonempty, stripped, length, value⟩ := exists_written nonzero
  rw [value, Binary64.ofDecimal_mul_pow]
  simp only [text, stripped, length]
  generalize places : ((digits.length + count : Nat) : Int) + d.exponent = point
  split
  · obtain ⟨c, cs, shape, digit⟩ := exists_digit_positional all nonempty point
    have read := reads_positional negative all nonempty point
    rw [shape] at read ⊢
    rw [Numeral.parse?_of_isDigit negative digit, read]
    congr 2
    omega
  · obtain ⟨c, cs, shape, digit⟩ := exists_digit_scientific all nonempty (point - 1)
    have read := reads_scientific negative all nonempty (point - 1)
    rw [shape] at read ⊢
    rw [Numeral.parse?_of_isDigit negative digit, read]
    congr 2
    omega

end Decimal

end Rpn
