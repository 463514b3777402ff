import Rpn.Proofs.Binary64.Decimal
import Rpn.Proofs.Decimal.Grammar
import Rpn.Proofs.Text.Trim
import Rpn.Value.Literal

/-!
# Literals and their separators

A literal is a numeral of the grammar with underscores in it, each between two digits. The reader
goes through the text once and looks at the character before an underscore and at the one after it,
as they stand in the text and not in what is left of it. So an underscore beside another is refused
although both have digits around them, and one that stands between two digits can come or go without
a difference to the value.
-/

namespace Rpn

/-- Whether a text ends with a digit. -/
def endsWithDigit (cs : List Char) : Bool := cs.getLast?.any Char.isDigit

/-- Each underscore in the text has a digit immediately on each side. -/
def SeparatesDigits (cs : List Char) : Prop :=
  ∀ front back, cs = front ++ '_' :: back → endsWithDigit front = true ∧ startsWithDigit back = true

section Separators

variable {before cs : List Char} {c : Char}

@[simp] theorem endsWithDigit_concat (cs : List Char) (c : Char) :
    endsWithDigit (cs ++ [c]) = c.isDigit := by
  rw [endsWithDigit, List.getLast?_concat, Option.any_some]

/-- Each underscore has a digit on each side where the text stands after another one. -/
def SeparatesAfter (before cs : List Char) : Prop :=
  ∀ front back, cs = front ++ '_' :: back →
    endsWithDigit (before ++ front) = true ∧ startsWithDigit back = true

theorem separatesAfter_nil (before : List Char) : SeparatesAfter before [] := by
  intro front back split
  simp at split

theorem separatesAfter_cons :
    SeparatesAfter before (c :: cs) ↔
      (c = '_' → endsWithDigit before = true ∧ startsWithDigit cs = true) ∧
        SeparatesAfter (before ++ [c]) cs := by
  constructor
  · intro separates
    constructor
    · rintro rfl
      have here := separates [] cs rfl
      rwa [List.append_nil] at here
    · rintro front back rfl
      have later := separates (c :: front) back rfl
      rwa [List.append_cons] at later
  · rintro ⟨here, later⟩ front back split
    cases front with
    | nil =>
      obtain ⟨rfl, rfl⟩ := List.cons.inj split
      rw [List.append_nil]
      exact here rfl
    | cons first front =>
      obtain ⟨rfl, rfl⟩ := List.cons.inj split
      rw [List.append_cons]
      exact later front back rfl

theorem dropSeparators_separator (afterDigit : Bool) (cs : List Char) :
    dropSeparators afterDigit ('_' :: cs) =
      if afterDigit && startsWithDigit cs then dropSeparators false cs else none := by
  rw [dropSeparators, if_pos rfl]

theorem dropSeparators_of_ne (other : c ≠ '_') (afterDigit : Bool) (cs : List Char) :
    dropSeparators afterDigit (c :: cs) = (dropSeparators c.isDigit cs).map (c :: ·) := by
  rw [dropSeparators, if_neg other]

/-- The flag of the reader tells of the text before it whether that ends with a digit. -/
theorem dropSeparators_eq_some_iff (before cs rest : List Char) :
    dropSeparators (endsWithDigit before) cs = some rest ↔
      SeparatesAfter before cs ∧ rest = cs.filter (· ≠ '_') := by
  induction cs generalizing before rest with
  | nil => simp [dropSeparators, separatesAfter_nil, eq_comm]
  | cons c cs ih =>
    have next (rest : List Char) := ih (before ++ [c]) rest
    rw [endsWithDigit_concat] at next
    rw [separatesAfter_cons]
    by_cases separator : c = '_'
    · subst separator
      have dropped : ('_' :: cs).filter (· ≠ '_') = cs.filter (· ≠ '_') :=
        List.filter_cons_of_neg (by decide)
      have noDigit : '_'.isDigit = false := by decide
      rw [noDigit] at next
      rw [dropSeparators_separator, dropped, and_assoc, ← next]
      simp
    · have kept : (c :: cs).filter (· ≠ '_') = c :: cs.filter (· ≠ '_') :=
        List.filter_cons_of_pos (by simp [separator])
      rw [dropSeparators_of_ne separator, kept, Option.map_eq_some_iff]
      constructor
      · rintro ⟨others, reads, rfl⟩
        obtain ⟨separates, rfl⟩ := (next others).mp reads
        exact ⟨⟨fun same => absurd same separator, separates⟩, rfl⟩
      · rintro ⟨⟨-, separates⟩, rfl⟩
        exact ⟨_, (next _).mpr ⟨separates, rfl⟩, rfl⟩

theorem dropSeparators_false_eq_some_iff {rest : List Char} :
    dropSeparators false cs = some rest ↔
      SeparatesDigits cs ∧ rest = cs.filter (· ≠ '_') :=
  dropSeparators_eq_some_iff [] cs rest

instance (cs : List Char) : Decidable (SeparatesDigits cs) :=
  decidable_of_iff ((dropSeparators false cs).isSome = true) (by
    rw [Option.isSome_iff_exists]
    simp only [dropSeparators_false_eq_some_iff, exists_eq_right])

/-- A separator may stand between two digits or not, whatever there is around them. -/
theorem dropSeparators_between {a b : Char} (digit : a.isDigit = true) (digit' : b.isDigit = true)
    (afterDigit : Bool) (front back : List Char) :
    dropSeparators afterDigit (front ++ a :: '_' :: b :: back) =
      dropSeparators afterDigit (front ++ a :: b :: back) := by
  have other : a ≠ '_' := ne_of_isDigit digit (by decide)
  have other' : b ≠ '_' := ne_of_isDigit digit' (by decide)
  induction front generalizing afterDigit with
  | nil =>
    have follows : startsWithDigit (b :: back) = true := digit'
    rw [List.nil_append, List.nil_append, dropSeparators_of_ne other, dropSeparators_of_ne other,
      dropSeparators_separator, digit, follows, dropSeparators_of_ne other',
      dropSeparators_of_ne other']
    rfl
  | cons c front ih =>
    have follows : startsWithDigit (front ++ a :: '_' :: b :: back) =
        startsWithDigit (front ++ a :: b :: back) := by
      cases front <;> rfl
    rw [List.cons_append, List.cons_append, dropSeparators, dropSeparators, follows, ih, ih]

end Separators

/-- What is read as a literal, and as which numeral. -/
theorem literal?_eq_some_iff {token : String} {numeral : Numeral} :
    literal? token = some numeral ↔ SeparatesDigits (trim token.toList) ∧
      Numeral.Spells ((trim token.toList).filter (· ≠ '_')) numeral := by
  rw [literal?, Option.bind_eq_some_iff]
  constructor
  · rintro ⟨rest, dropped, reads⟩
    obtain ⟨separates, rfl⟩ := dropSeparators_false_eq_some_iff.mp dropped
    exact ⟨separates, Numeral.parse?_eq_some_iff.mp reads⟩
  · rintro ⟨separates, spells⟩
    exact ⟨_, dropSeparators_false_eq_some_iff.mpr ⟨separates, rfl⟩,
      Numeral.parse?_eq_some_iff.mpr spells⟩

theorem literal?_between {a b : Char} (digit : a.isDigit = true) (digit' : b.isDigit = true)
    (front back : List Char) :
    literal? (.ofList (front ++ a :: '_' :: b :: back)) =
      literal? (.ofList (front ++ a :: b :: back)) := by
  have visible := isBlank_of_isDigit digit
  have visible' := isBlank_of_isDigit digit'
  have apart : trim (front ++ a :: '_' :: b :: back) =
      front.dropWhile isBlank ++ a :: '_' :: b :: dropRightWhile isBlank back :=
    trim_append_cons_cons visible visible' front ['_'] back
  have together : trim (front ++ a :: b :: back) =
      front.dropWhile isBlank ++ a :: b :: dropRightWhile isBlank back :=
    trim_append_cons_cons visible visible' front [] back
  rw [literal?, literal?, String.toList_ofList, String.toList_ofList, apart, together,
    dropSeparators_between digit digit']

namespace Value

variable {token : String}

theorem ofLiteral?_eq_some_iff {v : Value} :
    ofLiteral? token = some v ↔ ∃ numeral x, SeparatesDigits (trim token.toList) ∧
      Numeral.Spells ((trim token.toList).filter (· ≠ '_')) numeral ∧ numeral.RoundsTo x ∧
      v = .ofBinary64 x := by
  rw [ofLiteral?, Option.map_eq_some_iff]
  refine exists_congr fun numeral => ?_
  rw [literal?_eq_some_iff]
  constructor
  · rintro ⟨⟨separates, spells⟩, rfl⟩
    exact ⟨_, separates, spells, Numeral.roundsTo_iff.mpr rfl, rfl⟩
  · rintro ⟨x, separates, spells, rounds, rfl⟩
    rw [Numeral.roundsTo_iff.mp rounds]
    exact ⟨⟨separates, spells⟩, rfl⟩

/-- An underscore that is not between two digits is in no literal. -/
theorem ofLiteral?_eq_none {front back : List Char} (split : trim token.toList = front ++ '_' :: back)
    (apart : endsWithDigit front = false ∨ startsWithDigit back = false) :
    ofLiteral? token = none := by
  rw [Option.eq_none_iff_forall_ne_some]
  intro v reads
  obtain ⟨numeral, x, separates, -⟩ := ofLiteral?_eq_some_iff.mp reads
  obtain ⟨before, after⟩ := separates front back split
  obtain noDigit | noDigit := apart
  · cases before.symm.trans noDigit
  · cases after.symm.trans noDigit

/-- A token is a literal exactly when, trimmed, it has a digit on each side of each underscore and is
a numeral of the grammar without them. Its value is that of the number nearest to what the numeral
denotes. An underscore between two digits that stand side by side makes no difference; one at the
start, at the end or beside another is in no literal. -/
theorem ofLiteral?_grammar (token : String) :
    (∀ v, ofLiteral? token = some v ↔ ∃ numeral x, SeparatesDigits (trim token.toList) ∧
      Numeral.Spells ((trim token.toList).filter (· ≠ '_')) numeral ∧ numeral.RoundsTo x ∧
      v = .ofBinary64 x) ∧
    (∀ front back a b, a.isDigit = true → b.isDigit = true →
      token.toList = front ++ a :: b :: back →
      ofLiteral? (.ofList (front ++ a :: '_' :: b :: back)) = ofLiteral? token) ∧
    ∀ front back, trim token.toList = front ++ '_' :: back →
      front = [] ∨ back = [] ∨ back.head? = some '_' → ofLiteral? token = none := by
  refine ⟨fun v => ofLiteral?_eq_some_iff, ?_, ?_⟩
  · intro front back a b digit digit' split
    rw [ofLiteral?, literal?_between digit digit', ← split, String.ofList_toList, ofLiteral?]
  · intro front back split place
    apply ofLiteral?_eq_none split
    obtain rfl | rfl | doubled := place
    · exact .inl rfl
    · exact .inr rfl
    · right
      rw [startsWithDigit, doubled]
      rfl

/-- Separators before the point and in the exponent, and misplaced ones. -/
theorem ofLiteral?_grammar_thousand :
    ofLiteral? "\t1_0.5e1_0 " = some (.int 105000000000) ∧
      ofLiteral? "1_5" = ofLiteral? "15" ∧ ofLiteral? "15" ≠ none ∧ ofLiteral? "1__5" = none ∧
      ofLiteral? " _15" = none ∧ ofLiteral? "15_" = none := by
  have mantissa : Numeral.SpellsDigits "10.5".toList 105 1 :=
    @Numeral.SpellsDigits.point ['1', '0'] ['5'] (by decide) (by decide) (by decide)
  have power : Numeral.SpellsExponent "e10".toList 10 :=
    @Numeral.SpellsExponent.power 'e' [] ['1', '0'] false (.inl rfl) .none (by decide) (by decide)
  have spells : Numeral.Spells ((trim "\t1_0.5e1_0 ".toList).filter (· ≠ '_'))
      (.decimal false 105 9) :=
    Numeral.Spells.decimal .none mantissa power
  have separates : SeparatesDigits (trim "\t1_0.5e1_0 ".toList) := by
    decide +kernel
  refine ⟨?_, ?_, by decide +kernel, ?_, ?_, ?_⟩
  · exact ((ofLiteral?_grammar _).1 _).mpr
      ⟨_, _, separates, spells, Numeral.roundsTo_iff.mpr rfl, by decide +kernel⟩
  · exact (ofLiteral?_grammar "15").2.1 [] [] '1' '5' (by decide) (by decide) rfl
  · exact (ofLiteral?_grammar "1__5").2.2 ['1'] ['_', '5'] (by decide) (.inr (.inr rfl))
  · exact (ofLiteral?_grammar " _15").2.2 [] ['1', '5'] (by decide) (.inl rfl)
  · exact (ofLiteral?_grammar "15_").2.2 ['1', '5'] [] (by decide) (.inr (.inl rfl))

end Value

end Rpn
