import Rpn.Proofs.Decimal.Reading

/-!
# The grammar of numerals

What a numeral is made of, stated as relations between the parts of a text and what they denote: a
sign, digits with at most one point among them, an exponent, or one of the special words in place of
both. The reader takes a text apart from the left, always with the longest run of digits, and finds
the one way in which the text can be put together (`Numeral.parse?_eq_some_iff`). For each part there
is one lemma in each direction.
-/

namespace Rpn

namespace Numeral

/-- A sign, or nothing, and whether it is negative. -/
inductive SpellsSign : List Char → Bool → Prop where
  | none : SpellsSign [] false
  | plus : SpellsSign ['+'] false
  | minus : SpellsSign ['-'] true

/-- Digits with at most one point among them and at least one digit, the number that all the digits
denote and how many of them stand after the point. -/
inductive SpellsDigits : List Char → Nat → Nat → Prop where
  | whole {digits : List Char} (all : AllDigits digits) (nonempty : digits ≠ []) :
      SpellsDigits digits (digitsValue digits) 0
  | point {whole fraction : List Char} (wholeDigits : AllDigits whole)
      (fractionDigits : AllDigits fraction) (nonempty : whole ++ fraction ≠ []) :
      SpellsDigits (whole ++ '.' :: fraction) (digitsValue (whole ++ fraction)) fraction.length

/-- An exponent with at least one digit, or nothing. -/
inductive SpellsExponent : List Char → Int → Prop where
  | none : SpellsExponent [] 0
  | power {mark : Char} {sign digits : List Char} {negative : Bool}
      (isMark : mark = 'e' ∨ mark = 'E') (signs : SpellsSign sign negative)
      (all : AllDigits digits) (nonempty : digits ≠ []) :
      SpellsExponent (mark :: (sign ++ digits))
        (if negative then -(digitsValue digits : Int) else digitsValue digits)

/-- A numeral without separators. -/
inductive Spells : List Char → Numeral → Prop where
  | nan {sign word : List Char} {negative : Bool} (signs : SpellsSign sign negative)
      (isWord : word.map Char.toLower = "nan".toList) : Spells (sign ++ word) .nan
  | infinity {sign word : List Char} {negative : Bool} (signs : SpellsSign sign negative)
      (isWord : word.map Char.toLower = "inf".toList ∨ word.map Char.toLower = "infinity".toList) :
      Spells (sign ++ word) (.infinity negative)
  | decimal {sign mantissa power : List Char} {negative : Bool} {digits places : Nat}
      {exponent : Int} (signs : SpellsSign sign negative)
      (spellsDigits : SpellsDigits mantissa digits places)
      (spellsExponent : SpellsExponent power exponent) :
      Spells (sign ++ (mantissa ++ power)) (.decimal negative digits (exponent - places))

section Parts

variable {sign mantissa power cs : List Char} {negative : Bool} {exponent : Int}

theorem exists_spellsSign (cs : List Char) :
    ∃ sign, cs = sign ++ (splitSign cs).2 ∧ SpellsSign sign (splitSign cs).1 := by
  unfold splitSign
  split
  · exact ⟨['-'], rfl, .minus⟩
  · exact ⟨['+'], rfl, .plus⟩
  · exact ⟨[], rfl, .none⟩

/-- A sign before a text that has none is the only one. -/
theorem SpellsSign.splitSign_append (signs : SpellsSign sign negative)
    (unsigned : ∀ c ∈ cs.head?, c ≠ '-' ∧ c ≠ '+') : splitSign (sign ++ cs) = (negative, cs) := by
  cases signs with
  | plus | minus => rfl
  | none =>
    cases cs with
    | nil => rfl
    | cons c cs =>
      obtain ⟨minus, plus⟩ := unsigned c rfl
      simp [splitSign, minus, plus]

theorem exponent?_of_spells (spells : SpellsExponent power exponent) :
    exponent? power = some exponent := by
  cases spells with
  | none => rfl
  | @power mark sign digits negative isMark signs all nonempty =>
    have unsigned : ∀ c ∈ digits.head?, c ≠ '-' ∧ c ≠ '+' := by
      intro c first
      have digit := all c (List.mem_of_head? first)
      exact ⟨ne_of_isDigit digit (by decide), ne_of_isDigit digit (by decide)⟩
    have marked : (mark == 'e' || mark == 'E') = true := by simpa using isMark
    have shown : digits.isEmpty = false := List.isEmpty_eq_false_iff.mpr nonempty
    have every : digits.all Char.isDigit = true := List.all_eq_true.mpr all
    rw [exponent?, signs.splitSign_append unsigned]
    simp only [marked, shown, every]
    simp

theorem spells_of_exponent? (reads : exponent? power = some exponent) :
    SpellsExponent power exponent := by
  cases power with
  | nil =>
    obtain rfl := Option.some.inj reads
    exact .none
  | cons mark rest =>
    obtain ⟨sign, split, signs⟩ := exists_spellsSign rest
    rw [exponent?] at reads
    generalize splitSign rest = parts at reads split signs
    obtain ⟨negative, digits⟩ := parts
    subst split
    dsimp only at reads signs ⊢
    split at reads
    · next accepted =>
      simp only [Bool.and_eq_true, Bool.or_eq_true, beq_iff_eq, Bool.not_eq_true',
        List.isEmpty_eq_false_iff, List.all_eq_true] at accepted
      obtain ⟨⟨isMark, nonempty⟩, all⟩ := accepted
      obtain rfl := Option.some.inj reads
      exact .power isMark signs all nonempty
    · cases reads

/-- An exponent starts neither with a digit nor with a point. -/
theorem SpellsExponent.stops (spells : SpellsExponent power exponent) :
    ∀ c ∈ power.head?, c.isDigit = false ∧ c ≠ '.' := by
  cases spells with
  | none => simp
  | power isMark =>
    intro c first
    obtain rfl := Option.some.inj first
    obtain rfl | rfl := isMark <;> decide

/-- Digits, perhaps with a point, start with a digit or with the point. -/
theorem SpellsDigits.exists_cons {digits places : Nat} (spells : SpellsDigits mantissa digits places) :
    ∃ c cs, mantissa = c :: cs ∧ (c.isDigit = true ∨ c = '.') := by
  cases spells with
  | whole all nonempty =>
    obtain ⟨c, cs, rfl⟩ := List.exists_cons_of_ne_nil nonempty
    exact ⟨c, cs, rfl, .inl (all c List.mem_cons_self)⟩
  | @point whole fraction wholeDigits =>
    cases whole with
    | nil => exact ⟨'.', fraction, rfl, .inr rfl⟩
    | cons c cs => exact ⟨c, _, rfl, .inl (wholeDigits c List.mem_cons_self)⟩

theorem decimal?_of_spells {digits places : Nat} (negative : Bool)
    (spellsDigits : SpellsDigits mantissa digits places)
    (spellsExponent : SpellsExponent power exponent) :
    decimal? negative (mantissa ++ power) = some (.decimal negative digits (exponent - places)) := by
  have stops := spellsExponent.stops
  have reads := exponent?_of_spells spellsExponent
  cases spellsDigits with
  | whole all nonempty =>
    rw [decimal?_whole negative all nonempty stops reads, Nat.cast_zero, Int.sub_zero]
  | point wholeDigits fractionDigits nonempty =>
    rw [List.append_assoc, List.cons_append]
    exact decimal?_point negative wholeDigits fractionDigits nonempty
      (fun c first => (stops c first).1) reads

theorem splitFraction_cases (cs : List Char) :
    splitFraction cs = ([], cs) ∨ ∃ fraction power, cs = '.' :: (fraction ++ power) ∧
      AllDigits fraction ∧ splitFraction cs = (fraction, power) := by
  unfold splitFraction
  split
  · next rest =>
    refine .inr ⟨rest.takeWhile Char.isDigit, rest.dropWhile Char.isDigit, ?_, ?_, rfl⟩
    · rw [List.takeWhile_append_dropWhile]
    · exact fun c member => List.mem_takeWhile_imp member
  · exact .inl rfl

theorem spells_of_decimal? {numeral : Numeral} (reads : decimal? negative cs = some numeral) :
    ∃ mantissa power digits places exponent, cs = mantissa ++ power ∧
      SpellsDigits mantissa digits places ∧ SpellsExponent power exponent ∧
      numeral = .decimal negative digits (exponent - places) := by
  have split : cs.takeWhile Char.isDigit ++ cs.dropWhile Char.isDigit = cs :=
    List.takeWhile_append_dropWhile
  have all : AllDigits (cs.takeWhile Char.isDigit) := fun c member => List.mem_takeWhile_imp member
  rw [decimal?] at reads
  generalize cs.takeWhile Char.isDigit = whole at reads split all
  generalize cs.dropWhile Char.isDigit = rest at reads split
  subst split
  obtain noPoint | ⟨fraction, power, rfl, fractionDigits, isPoint⟩ := splitFraction_cases rest
  · rw [noPoint] at reads
    simp only [List.append_nil] at reads
    split at reads
    · cases reads
    · next nonempty =>
      obtain ⟨exponent, found, rfl⟩ := Option.map_eq_some_iff.mp reads
      exact ⟨whole, rest, _, 0, exponent, rfl, .whole all (by simpa using nonempty),
        spells_of_exponent? found, rfl⟩
  · rw [isPoint] at reads
    dsimp only at reads
    split at reads
    · cases reads
    · next nonempty =>
      obtain ⟨exponent, found, rfl⟩ := Option.map_eq_some_iff.mp reads
      refine ⟨whole ++ '.' :: fraction, power, _, _, exponent, ?_,
        .point all fractionDigits (by simpa using nonempty), spells_of_exponent? found, rfl⟩
      rw [List.append_assoc, List.cons_append]

end Parts

section Numerals

variable {word cs : List Char} {numeral : Numeral}

/-- A special word does not start with a sign. -/
theorem unsigned_of_map_toLower {c : Char} {lower : List Char}
    (isWord : word.map Char.toLower = c :: lower) (letter : c ≠ '-' ∧ c ≠ '+') :
    ∀ c ∈ word.head?, c ≠ '-' ∧ c ≠ '+' := by
  intro c' first
  obtain ⟨rest, rfl⟩ := List.head?_eq_some_iff.mp first
  obtain ⟨rfl, -⟩ := List.cons.inj isWord
  constructor
  · rintro rfl
    exact letter.1 (by decide)
  · rintro rfl
    exact letter.2 (by decide)

theorem parse?_of_spells (spells : Spells cs numeral) : parse? cs = some numeral := by
  cases spells with
  | nan signs isWord =>
    have unsigned := unsigned_of_map_toLower isWord (by decide)
    rw [parse?, signs.splitSign_append unsigned]
    exact if_pos isWord
  | infinity signs isWord =>
    obtain isWord | isWord := isWord
    all_goals
      have unsigned := unsigned_of_map_toLower isWord (by decide)
      rw [parse?, signs.splitSign_append unsigned]
      dsimp only
      rw [isWord]
      rfl
  | @decimal sign mantissa power negative digits places exponent signs spellsDigits
      spellsExponent =>
    have reads := decimal?_of_spells negative spellsDigits spellsExponent
    obtain ⟨c, rest, rfl, first⟩ := spellsDigits.exists_cons
    have unsigned : ∀ c' ∈ (c :: rest ++ power).head?, c' ≠ '-' ∧ c' ≠ '+' := by
      intro c' same
      obtain rfl := Option.some.inj same
      obtain digit | rfl := first
      · exact ⟨ne_of_isDigit digit (by decide), ne_of_isDigit digit (by decide)⟩
      · decide
    have noLetter : c.toLower ≠ 'n' ∧ c.toLower ≠ 'i' := by
      obtain digit | rfl := first
      · rw [toLower_of_isDigit digit]
        exact ⟨ne_of_isDigit digit (by decide), ne_of_isDigit digit (by decide)⟩
      · decide
    rw [parse?, signs.splitSign_append unsigned]
    dsimp only
    rw [if_neg, if_neg, reads]
    · simp [noLetter.2]
    · simp [noLetter.1]

theorem spells_of_parse? (reads : parse? cs = some numeral) : Spells cs numeral := by
  obtain ⟨sign, split, signs⟩ := exists_spellsSign cs
  rw [parse?] at reads
  generalize splitSign cs = parts at reads split signs
  obtain ⟨negative, body⟩ := parts
  subst split
  dsimp only at reads signs ⊢
  split at reads
  · next isWord =>
    obtain rfl := Option.some.inj reads
    exact .nan signs isWord
  · split at reads
    · next isWord =>
      obtain rfl := Option.some.inj reads
      exact .infinity signs isWord
    · obtain ⟨mantissa, power, digits, places, exponent, rfl, spellsDigits, spellsExponent, rfl⟩ :=
        spells_of_decimal? reads
      exact .decimal signs spellsDigits spellsExponent

/-- The numerals that are read are those of the grammar. -/
theorem parse?_eq_some_iff : parse? cs = some numeral ↔ Spells cs numeral :=
  ⟨spells_of_parse?, parse?_of_spells⟩

end Numerals

end Numeral

end Rpn
