import Rpn.Proofs.Dictionary.Sound
import Rpn.Proofs.Session.Definition
import Rpn.Proofs.Text.Trim
import Rpn.Session.Words

/-!
# The lines of a words file

A line of a words file does what a statement does that has the marker in front of the line. The
statement is trimmed as a whole and the line on its own, yet both are taken apart into the same
tokens, unless the line is blank. The statement would then be the marker alone and do nothing,
while the line has one field, which is empty, and removes the word of that name.

What becomes of a line is seen from the line. So the lines that are refused can be left out
without a difference to the dictionary, and each of them is reported once.
-/

namespace Rpn

namespace Session

/-- The first field of a line, which has a name and the tokens of a body. -/
def lineName (line : String) : String := (tokens line).headD ""

/-- A line with a body is refused when its first field is the name of an operator, a digit or
the marker. -/
def IsRefused (line : String) : Prop :=
  2 ≤ (tokens line).length ∧
    ((∃ op : Operator, lineName line = op.name) ∨
      (∃ c : Char, c.isDigit = true ∧ lineName line = String.singleton c) ∨
      lineName line = definitionMarker)

instance (line : String) : Decidable (IsRefused line) :=
  decidable_of_iff
    (2 ≤ (tokens line).length ∧ Dictionary.isForbidden Operator.isName (lineName line) = true)
    (and_congr_right fun _ => Dictionary.isForbidden_iff)

/-- What is reported for some lines. -/
def refusals (lines : List String) : List Fault :=
  (lines.filter fun line => IsRefused line).map fun line => .reservedName (lineName line)

/-- What is typed for a line. -/
def lineStatement (line : String) : String := "= " ++ .ofList (trim line.toList)

/-- Evaluate a line as a statement, or remove the word with the empty name if the line is blank.
There is no result when the statement does not get to its end. -/
def typeLine (steps : Nat) (s : Session) (line : String) : Option Session :=
  if trim line.toList = [] then some { s with dictionary := s.dictionary.remove "" }
  else
    match s.statement steps (lineStatement line) with
    | some (s', .ok .proceed) => some s'
    | _ => none

/-- Evaluate lines one after the other. -/
def typeLines (steps : Nat) (s : Session) (lines : List String) : Option Session :=
  lines.foldlM (typeLine steps) s

section Line

variable {line : String}

theorem tokens_lineStatement (nonblank : trim line.toList ≠ []) :
    tokens (lineStatement line) = lineDefinition line := by
  have characters : (lineStatement line).toList = ['='] ++ ' ' :: trim line.toList := by
    rw [lineStatement, String.toList_append, String.toList_ofList, String.toList_ofList]
    rfl
  have trimmed : trim (['='] ++ ' ' :: trim line.toList) = ['='] ++ ' ' :: trim line.toList :=
    trim_cons_append_trim (by decide) [' '] nonblank
  rw [tokens, characters, trimmed, spaceSeparated,
    List.splitOn_append_cons_self_of_not_mem (by decide)]
  rfl

/-- Evaluating a line defines what the line does, in whatever number of steps. -/
theorem typeLine_eq (s : Session) (line : String) :
    ∃ s', (∀ steps, s.typeLine steps line = some s') ∧
      s'.dictionary = (s.dictionary.afterDefinition (lineDefinition line)).1 ∧
      s'.err = s.err.report (s.dictionary.afterDefinition (lineDefinition line)).2 := by
  by_cases blank : trim line.toList = []
  · refine ⟨_, fun steps => if_pos blank, ?_⟩
    rw [lineDefinition, blank]
    exact ⟨rfl, rfl⟩
  · have found := tokens_lineStatement blank
    have leading : leadingTokens (lineStatement line) = [] := by
      rw [leadingTokens, found, lineDefinition]
      exact List.takeWhile_cons_of_neg (by decide)
    have marked : definitionMarker ∈ tokens (lineStatement line) := by
      rw [found, lineDefinition]
      exact List.mem_cons_self
    refine ⟨((s.enter (lineStatement line)).define (lineDefinition line)).1, ?_, ?_, ?_⟩
    · intro steps
      rw [typeLine, if_neg blank, statement_eq, leading, resume_nil, Option.map_some]
      dsimp only
      rw [conclude_of_mem _ _ marked, found]
      rfl
    · rw [dictionary_define, dictionary_enter]
    · rw [err_define, dictionary_enter, err_enter]

variable (d : Dictionary)

theorem afterDefinition_of_isRefused (refused : IsRefused line) :
    d.afterDefinition (lineDefinition line) = (d, [.reservedName (lineName line)]) := by
  have definition : lineDefinition line = definitionMarker :: tokens line := rfl
  obtain ⟨long, forbidden⟩ := refused
  rw [← Dictionary.isForbidden_iff, lineName] at forbidden
  rw [definition, lineName]
  match fields : tokens line with
  | [] | [_] => simp [fields] at long
  | name :: token :: body =>
    rw [fields, List.headD_cons] at forbidden
    rw [Dictionary.afterDefinition, Dictionary.define_cons, if_pos forbidden]
    rfl

theorem afterDefinition_of_not_isRefused (accepted : ¬ IsRefused line) :
    (d.afterDefinition (lineDefinition line)).2 = [] := by
  have definition : lineDefinition line = definitionMarker :: tokens line := rfl
  rw [IsRefused, ← Dictionary.isForbidden_iff, lineName] at accepted
  rw [definition]
  match fields : tokens line with
  | [] | [_] => rfl
  | name :: token :: body =>
    have allowed : ¬ Dictionary.isForbidden Operator.isName name = true := by
      intro forbidden
      refine accepted ⟨?_, ?_⟩
      · simp [fields]
      · rw [fields]
        exact forbidden
    rw [Dictionary.afterDefinition, Dictionary.define_cons, if_neg allowed]

theorem refusals_cons (line : String) (lines : List String) :
    refusals (line :: lines) =
      (d.afterDefinition (lineDefinition line)).2 ++ refusals lines := by
  by_cases refused : IsRefused line
  · rw [refusals, List.filter_cons_of_pos (by simpa using refused),
      afterDefinition_of_isRefused d refused]
    rfl
  · rw [refusals, List.filter_cons_of_neg (by simpa using refused),
      afterDefinition_of_not_isRefused d refused]
    rfl

end Line

/-- A dictionary after the definitions on some lines. -/
def afterLines (d : Dictionary) (lines : List String) : Dictionary :=
  lines.foldl (fun d line => (d.afterDefinition (lineDefinition line)).1) d

section Lines

variable (s : Session) (lines : List String)

/-- What lines do, all at once. -/
theorem defineLines_eq :
    s.defineLines lines =
      ({ s with
        dictionary := afterLines s.dictionary lines
        err := s.err.report (refusals lines) }, (refusals lines).isEmpty) := by
  induction lines generalizing s with
  | nil => rfl
  | cons line rest ih =>
    rw [defineLines_cons, ih, refusals_cons s.dictionary, Sink.report_append, fst_define,
      snd_define]
    cases (s.dictionary.afterDefinition (lineDefinition line)).2 <;> rfl

theorem typeLines_eq :
    ∃ s', (∀ steps, s.typeLines steps lines = some s') ∧
      s'.dictionary = afterLines s.dictionary lines ∧ s'.err = s.err.report (refusals lines) := by
  induction lines generalizing s with
  | nil => exact ⟨s, fun _ => rfl, rfl, rfl⟩
  | cons line rest ih =>
    obtain ⟨s₁, typed, dictionary, err⟩ := s.typeLine_eq line
    obtain ⟨s₂, later, dictionary', err'⟩ := ih s₁
    refine ⟨s₂, ?_, ?_, ?_⟩
    · intro steps
      rw [typeLines, List.foldlM_cons, typed]
      exact later steps
    · rw [dictionary', dictionary]
      rfl
    · rw [err', err, ← Sink.report_append, ← refusals_cons]

/-- Lines that are refused leave the dictionary alone. -/
theorem afterLines_filter (d : Dictionary) :
    afterLines d (lines.filter fun line => ¬ IsRefused line) = afterLines d lines := by
  induction lines generalizing d with
  | nil => rfl
  | cons line rest ih =>
    by_cases refused : IsRefused line
    · have same : (d.afterDefinition (lineDefinition line)).1 = d := by
        rw [afterDefinition_of_isRefused d refused]
      rw [List.filter_cons_of_neg (by simpa using refused), ih, afterLines, afterLines,
        List.foldl_cons, same]
    · rw [List.filter_cons_of_pos (by simpa using refused)]
      exact ih _

theorem refusals_filter : refusals (lines.filter fun line => ¬ IsRefused line) = [] := by
  rw [refusals, List.filter_filter, List.map_eq_nil_iff, List.filter_eq_nil_iff]
  intro line _
  simp

/-- Carrying out lines and typing them in lead to the same dictionary and to the same reports;
nothing else of the session changes. Lines are not all accepted exactly when some line is
refused, each line that is refused is reported, and the others alone lead to the same
dictionary. -/
theorem defineLines_as_typed :
    (∃ typed, (∀ steps, s.typeLines steps lines = some typed) ∧
        (s.defineLines lines).1.dictionary = typed.dictionary ∧
        (s.defineLines lines).1.err = typed.err) ∧
      (s.defineLines lines).1 =
        { s with
          dictionary := (s.defineLines lines).1.dictionary
          err := (s.defineLines lines).1.err } ∧
      ((s.defineLines lines).2 = false ↔ ∃ line ∈ lines, IsRefused line) ∧
      (s.defineLines lines).1.err =
        s.err.report ((lines.filter fun line => IsRefused line).map fun line =>
          .reservedName (lineName line)) ∧
      s.defineLines (lines.filter fun line => ¬ IsRefused line) =
        ({ s with dictionary := (s.defineLines lines).1.dictionary }, true) := by
  obtain ⟨typed, result, dictionary, err⟩ := s.typeLines_eq lines
  simp only [defineLines_eq, afterLines_filter, refusals_filter]
  refine ⟨⟨typed, result, dictionary.symm, err.symm⟩, trivial, ?_, rfl, rfl⟩
  rw [refusals, List.isEmpty_eq_false_iff, Ne, List.map_eq_nil_iff, List.filter_eq_nil_iff]
  simp

end Lines

end Session

end Rpn
