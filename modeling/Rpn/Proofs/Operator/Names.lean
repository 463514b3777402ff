import Mathlib.Tactic.IntervalCases
import Rpn.Operator
import Rpn.Value.Literal

/-!
# The names of operators

The names of the operators are distinct, so looking up the name of an operator gives that
operator. None of them can be read as a literal, nor can the marker of a definition, while
a digit on its own is always the literal of its value.
-/

namespace Rpn

namespace Operator

@[simp] theorem named?_name (op : Operator) : named? op.name = some op := by
  rcases op with p | c
  · cases p <;> decide
  · cases c <;> decide

theorem name_of_named? {token : String} {op : Operator} (found : named? token = some op) :
    op.name = token := by
  simpa using List.find?_some found

theorem named?_eq_some_iff {token : String} {op : Operator} :
    named? token = some op ↔ op.name = token := by
  constructor
  · exact name_of_named?
  · rintro rfl
    exact named?_name op

theorem name_inj {op op' : Operator} : op.name = op'.name ↔ op = op' := by
  constructor
  · intro same
    exact Option.some.inj ((named?_name op).symm.trans (same ▸ named?_name op'))
  · rintro rfl
    rfl

@[simp] theorem isName_name (op : Operator) : isName op.name = true := by
  rw [isName, named?_name]
  rfl

theorem isName_iff {name : String} : isName name = true ↔ ∃ op : Operator, name = op.name := by
  rw [isName, Option.isSome_iff_exists]
  exact exists_congr fun op => named?_eq_some_iff.trans eq_comm

end Operator

namespace Value

@[simp] theorem ofLiteral?_name (op : Operator) : ofLiteral? op.name = none := by
  rcases op with p | c
  · cases p <;> decide
  · cases c <;> decide

/-- The value of a digit. -/
def ofDigit (c : Char) : Value := int (.ofNat (c.toNat - '0'.toNat))

theorem ofLiteral?_singleton {c : Char} (digit : c.isDigit = true) :
    ofLiteral? (String.singleton c) = some (ofDigit c) := by
  obtain ⟨lower, upper⟩ : 48 ≤ c.toNat ∧ c.toNat ≤ 57 := by
    simpa [Char.isDigit, UInt32.le_iff_toNat_le] using digit
  have same : Char.ofNat c.toNat = c := Char.ofNat_toNat c
  generalize c.toNat = n at lower upper same
  subst same
  interval_cases n <;> decide +kernel

end Value

end Rpn
