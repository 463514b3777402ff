import Rpn.Proofs.Session.Sinks

/-!
# Definitions in a session

A definition changes the dictionary or is refused, and one that is refused is reported.
Nothing else of a session takes part.
-/

namespace Rpn

/-- What a definition makes of a dictionary, and the fault that it is refused for, if it is. -/
def Dictionary.afterDefinition (d : Dictionary) (definition : List String) :
    Dictionary × List Fault :=
  match d.define Operator.isName definition with
  | .ok defined => (defined, [])
  | .error fault => (d, [fault])

namespace Session

variable (s : Session) (definition : List String)

theorem fst_define :
    (s.define definition).1 =
      { s with
        dictionary := (s.dictionary.afterDefinition definition).1
        err := s.err.report (s.dictionary.afterDefinition definition).2 } := by
  rw [define, Dictionary.afterDefinition]
  cases s.dictionary.define Operator.isName definition <;> rfl

theorem snd_define :
    (s.define definition).2 = (s.dictionary.afterDefinition definition).2.isEmpty := by
  rw [define, Dictionary.afterDefinition]
  cases s.dictionary.define Operator.isName definition <;> rfl

@[simp] theorem stack_define : (s.define definition).1.stack = s.stack := by
  rw [fst_define]

@[simp] theorem length_define : (s.define definition).1.length = s.length := by
  rw [fst_define]

@[simp] theorem cursor_define : (s.define definition).1.cursor = s.cursor := by
  rw [fst_define]

@[simp] theorem out_define : (s.define definition).1.out = s.out := by
  rw [fst_define]

@[simp] theorem dictionary_define :
    (s.define definition).1.dictionary = (s.dictionary.afterDefinition definition).1 := by
  rw [fst_define]

@[simp] theorem err_define :
    (s.define definition).1.err =
      s.err.report (s.dictionary.afterDefinition definition).2 := by
  rw [fst_define]

end Session

end Rpn
