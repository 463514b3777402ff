import Mathlib.Data.List.TakeWhile
import Rpn.Decimal.Layout
import Rpn.Value.Basic

/-!
# The characters of a number

Numbers are written with digits and a few marks, none of which is white space, and the text of a
number other than zero shows a digit other than zero. So `-0` is the text of the negative zero
alone.
-/

namespace Rpn

theorem mem_dropRightWhile {α : Type} {p : α → Bool} {xs : List α} {x : α} (member : x ∈ xs)
    (stays : p x = false) : x ∈ dropRightWhile p xs := by
  rw [dropRightWhile, List.mem_reverse]
  have either : x ∈ xs.reverse.takeWhile p ++ xs.reverse.dropWhile p := by
    rwa [List.takeWhile_append_dropWhile, List.mem_reverse]
  obtain dropped | kept := List.mem_append.mp either
  · cases stays.symm.trans (List.mem_takeWhile_imp dropped)
  · exact kept

/-- What is kept and what is dropped. -/
theorem dropRightWhile_append_takeWhile {α : Type} (p : α → Bool) (xs : List α) :
    dropRightWhile p xs ++ (xs.reverse.takeWhile p).reverse = xs := by
  rw [dropRightWhile, ← List.reverse_append, List.takeWhile_append_dropWhile, List.reverse_reverse]

theorem dropRightWhile_subset {α : Type} (p : α → Bool) (xs : List α) :
    dropRightWhile p xs ⊆ xs := by
  intro x member
  rw [dropRightWhile, List.mem_reverse] at member
  exact List.mem_reverse.mp ((List.dropWhile_sublist p).subset member)

theorem isBlank_of_isDigit {c : Char} (digit : c.isDigit = true) : isBlank c = false := by
  obtain ⟨lower, upper⟩ : 48 ≤ c.toNat ∧ c.toNat ≤ 57 := by
    simpa [Char.isDigit, UInt32.le_iff_toNat_le] using digit
  simp only [isBlank, Bool.or_eq_false_iff, Bool.and_eq_false_iff, decide_eq_false_iff_not,
    beq_eq_false_iff_ne]
  omega

theorem isDigit_of_mem_decimalDigits {n : Nat} {c : Char} (member : c ∈ decimalDigits n) :
    c.isDigit = true :=
  Nat.isDigit_of_mem_toDigits (by decide) (by decide) member

/-- The digits of a number other than zero are not all zero. -/
theorem exists_ne_zero_mem_decimalDigits {n : Nat} (nonzero : n ≠ 0) :
    ∃ c ∈ decimalDigits n, c ≠ '0' := by
  have zeros : ∀ cs : List Char, (∀ c ∈ cs, c = '0') → Nat.ofDigitChars 10 cs 0 = 0 := by
    intro cs all
    induction cs with
    | nil => rfl
    | cons c cs ih =>
      obtain ⟨rfl, rest⟩ := List.forall_mem_cons.mp all
      exact ih rest
  by_contra allZero
  simp only [not_exists, not_and, Decidable.not_not] at allZero
  have value : Nat.ofDigitChars 10 (decimalDigits n) 0 = n := Nat.ofDigitChars_ten_toDigits
  exact nonzero (value.symm.trans (zeros _ allZero))

/-- A text without white space. -/
def Unbroken (cs : List Char) : Prop := ∀ c ∈ cs, isBlank c = false

instance (cs : List Char) : Decidable (Unbroken cs) :=
  List.decidableBAll (fun c => isBlank c = false) cs

/-- The characters that numbers are written with: digits, and the marks between them or in place
of them. -/
def IsNumeric (c : Char) : Prop := c.isDigit = true ∨ c ∈ ['.', 'e', '+', '-', 'i', 'n', 'f', 'a']

instance (c : Char) : Decidable (IsNumeric c) :=
  inferInstanceAs (Decidable (c.isDigit = true ∨ _))

/-- A text of such characters. -/
def Numeric (cs : List Char) : Prop := ∀ c ∈ cs, IsNumeric c

instance (cs : List Char) : Decidable (Numeric cs) := List.decidableBAll IsNumeric cs

section Numeric

variable {front cs : List Char} {c : Char}

theorem IsNumeric.not_blank (h : IsNumeric c) : isBlank c = false := by
  have marks : Unbroken ['.', 'e', '+', '-', 'i', 'n', 'f', 'a'] := by decide
  obtain digit | mark := h
  · exact isBlank_of_isDigit digit
  · exact marks c mark

theorem Numeric.unbroken (h : Numeric cs) : Unbroken cs := fun c member => (h c member).not_blank

theorem numeric_nil : Numeric [] := fun _ member => absurd member List.not_mem_nil

@[simp] theorem numeric_cons : Numeric (c :: cs) ↔ IsNumeric c ∧ Numeric cs :=
  List.forall_mem_cons

@[simp] theorem numeric_append : Numeric (front ++ cs) ↔ Numeric front ∧ Numeric cs :=
  List.forall_mem_append

theorem Numeric.subset (h : Numeric cs) (subset : front ⊆ cs) : Numeric front :=
  fun c member => h c (subset member)

theorem numeric_replicate (count : Nat) (h : IsNumeric c) : Numeric (List.replicate count c) := by
  intro c' member
  rw [List.eq_of_mem_replicate member]
  exact h

theorem numeric_decimalDigits (n : Nat) : Numeric (decimalDigits n) :=
  fun _ member => .inl (isDigit_of_mem_decimalDigits member)

theorem numeric_signText (negative : Bool) : Numeric (signText negative) := by
  cases negative <;> decide

end Numeric

namespace Decimal

variable {digits : List Char} {c : Char}

theorem numeric_positional (h : Numeric digits) (point : Int) :
    Numeric (positional digits point) := by
  have zeros : ∀ count, Numeric (List.replicate count '0') := fun count =>
    numeric_replicate count (by decide)
  rw [positional]
  split
  · simp only [numeric_append, numeric_cons]
    exact ⟨⟨⟨by decide, by decide, numeric_nil⟩, zeros _⟩, h⟩
  · split
    · exact numeric_append.mpr ⟨h, zeros _⟩
    · rw [numeric_append, numeric_cons]
      exact ⟨h.subset (List.take_subset _ _), by decide, h.subset (List.drop_subset _ _)⟩

theorem numeric_scientific (h : Numeric digits) (exponent : Int) :
    Numeric (scientific digits exponent) := by
  simp only [scientific, numeric_append, numeric_cons]
  refine ⟨⟨⟨⟨h.subset (List.take_subset _ _), ?_⟩, by decide, ?_, numeric_nil⟩, ?_⟩, ?_⟩
  · split
    · exact numeric_nil
    · exact numeric_cons.mpr ⟨by decide, h.subset (List.drop_subset _ _)⟩
  · split <;> decide
  · exact numeric_replicate _ (by decide)
  · exact numeric_decimalDigits _

theorem mem_positional (member : c ∈ digits) (point : Int) : c ∈ positional digits point := by
  rw [positional]
  split
  · exact List.mem_append_right _ member
  · split
    · exact List.mem_append_left _ member
    · rw [← List.take_append_drop point.toNat digits, List.mem_append] at member
      rw [List.mem_append, List.mem_cons]
      exact member.imp_right .inr

theorem mem_scientific (member : c ∈ digits) (exponent : Int) : c ∈ scientific digits exponent := by
  rw [← List.take_append_drop 1 digits, List.mem_append] at member
  simp only [scientific, List.append_assoc]
  obtain first | later := member
  · exact List.mem_append_left _ first
  · have nonempty : (digits.drop 1).isEmpty = false :=
      List.isEmpty_eq_false_iff.mpr (List.ne_nil_of_mem later)
    rw [nonempty]
    exact List.mem_append_right _ (List.mem_append_left _ (List.mem_cons_of_mem _ later))

theorem numeric_text (d : Decimal) : Numeric d.text := by
  have digits := (numeric_decimalDigits d.digits).subset (dropRightWhile_subset (· == '0') _)
  simp only [text]
  split
  · exact numeric_positional digits _
  · exact numeric_scientific digits _

/-- Only zeros at the end are left out of the digits. -/
theorem exists_ne_zero_mem_text {d : Decimal} (nonzero : d.digits ≠ 0) :
    ∃ c ∈ d.text, c.isDigit = true ∧ c ≠ '0' := by
  obtain ⟨c, written, notZero⟩ := exists_ne_zero_mem_decimalDigits nonzero
  have kept := mem_dropRightWhile (p := (· == '0')) written (beq_eq_false_iff_ne.mpr notZero)
  refine ⟨c, ?_, isDigit_of_mem_decimalDigits written, notZero⟩
  simp only [text]
  split
  · exact mem_positional kept _
  · exact mem_scientific kept _

end Decimal

end Rpn
