import Rpn.Proofs.Dictionary.Sound
import Rpn.Proofs.Session.Definition
import Rpn.Proofs.Session.Runs

/-!
# Reserved tokens

Every reachable session has a sound dictionary. A statement may define words as may the
lines of a file, and what a statement defines starts wherever the cursor stands, so that
any token may be taken for a name; none of this matters, since all definitions are carried
out in the same way.

Evaluation looks at the dictionary first. In a sound one it finds nothing under the name of
an operator, a digit or the marker, which therefore keep their meaning for ever.
-/

namespace Rpn

theorem Dictionary.Sound.afterDefinition {d : Dictionary} (sound : d.Sound)
    (definition : List String) : (d.afterDefinition definition).1.Sound := by
  rw [Dictionary.afterDefinition]
  split
  · next accepted => exact sound.define accepted
  · exact sound

namespace Session

theorem kept_sound : Kept fun s => s.dictionary.Sound where
  enter _ _ sound := sound
  advance _ sound := sound
  leaf s token sound := (dictionary_leaf s token).symm ▸ sound
  define s definition sound := by
    rw [dictionary_define]
    exact sound.afterDefinition definition

theorem Reachable.sound {s : Session} (h : s.Reachable) : s.dictionary.Sound :=
  kept_sound.reachable (fun _ _ _ _ => Dictionary.builtins_sound) h

/-- `s.Dispatches token result`: where the token is met it is not expanded, and evaluation
goes on, or ends, with `result`. -/
def Dispatches (s : Session) (token : String) (result : Session × Except Fault Control) : Prop :=
  ∀ steps rest waiting, resume (steps + 1) s (token :: rest) waiting =
    match result with
    | (s₁, .ok .proceed) => resume steps s₁.advance rest waiting
    | stopped => some stopped

theorem dispatches_leaf {s : Session} {token : String}
    (notWord : s.dictionary.get? token = none) : s.Dispatches token (s.leaf token) := by
  intro steps rest waiting
  have step := resume_cons steps s token rest waiting
  rw [notWord] at step
  exact step

section Leaves

variable (s : Session)

theorem leaf_name (op : Operator) : s.leaf op.name = s.operator op := by
  rw [leaf, Value.ofLiteral?_name, Operator.named?_name]

theorem leaf_singleton {c : Char} (digit : c.isDigit = true) :
    s.leaf (String.singleton c) = s.literal (Value.ofDigit c) := by
  rw [leaf, Value.ofLiteral?_singleton digit]

theorem stack_literal (v : Value) : (s.literal v).1.stack = s.stack.push v := by
  rw [literal_eq_respond, stack_respond, stackAfter_literalResponse]

end Leaves

/-- In a reachable session names are distinct, no body is empty, and no word has the name of
an operator, of a digit or of the marker. Whenever the name of an operator is met with that
dictionary it is that operator which is evaluated, a digit is pushed as an integer, and a
marker in a body is passed over. -/
theorem Reachable.reserved {s : Session} (h : s.Reachable) :
    (s.dictionary.words.map Word.name).Nodup ∧
      (∀ word ∈ s.dictionary.words, word.body ≠ [] ∧ (∀ op : Operator, word.name ≠ op.name) ∧
        (∀ c : Char, c.isDigit = true → word.name ≠ String.singleton c) ∧
        word.name ≠ definitionMarker) ∧
      ∀ s₁ : Session, s₁.dictionary = s.dictionary →
        (∀ op : Operator, Value.ofLiteral? op.name = none ∧
          s₁.Dispatches op.name (s₁.operator op)) ∧
        (∀ c : Char, c.isDigit = true →
          s₁.Dispatches (String.singleton c) (s₁.literal (Value.ofDigit c)) ∧
            (s₁.literal (Value.ofDigit c)).1.stack.values = Value.ofDigit c :: s₁.stack.values) ∧
        s₁.Dispatches definitionMarker (s₁, .ok .proceed) := by
  have sound := h.sound
  refine ⟨sound.distinct, ?_, ?_⟩
  · intro word member
    exact ⟨sound.bodies word member, Dictionary.ne_of_not_isForbidden (sound.names word member)⟩
  · intro s₁ same
    have passes : ∀ token, Dictionary.isForbidden Operator.isName token = true →
        s₁.Dispatches token (s₁.leaf token) := by
      intro token forbidden
      apply dispatches_leaf
      rw [same]
      exact sound.get?_eq_none forbidden
    refine ⟨?_, ?_, ?_⟩
    · intro op
      have forbidden : Dictionary.isForbidden Operator.isName op.name = true := by
        simp [Dictionary.isForbidden]
      exact ⟨Value.ofLiteral?_name op, leaf_name s₁ op ▸ passes op.name forbidden⟩
    · intro c digit
      have forbidden : Dictionary.isForbidden Operator.isName (String.singleton c) = true := by
        simp [Dictionary.isForbidden, Dictionary.isDigitName_singleton digit]
      refine ⟨leaf_singleton s₁ digit ▸ passes _ forbidden, ?_⟩
      rw [stack_literal, Stack.values_push]
      rfl
    · rw [← leaf_definitionMarker s₁]
      exact passes definitionMarker (by decide)

/-- A word whose body has the marker in it is defined, and after that one is refused. -/
theorem Reachable.reserved_inc :
    let s := (((fresh .machine 80 {} {}).define ["=", "inc", "=", "1", "+"]).1.define
      ["=", "+", "-"]).1
    s.Reachable ∧ s.dictionary.get? "inc" = some ["=", "1", "+"] ∧
      (s.dictionary.words.map Word.name).Nodup ∧
      s.Dispatches "+" (s.operator (.primitive .add)) ∧
      s.Dispatches "7" (s.literal (.int 7)) ∧ s.Dispatches "=" (s, .ok .proceed) := by
  intro s
  have reachable : s.Reachable :=
    ⟨_, _, _, _, _, _, .cons (.define ["=", "inc", "=", "1", "+"])
      (.cons (.define ["=", "+", "-"]) (.nil s))⟩
  obtain ⟨distinct, _, dispatched⟩ := Reachable.reserved reachable
  obtain ⟨operators, digits, marker⟩ := dispatched s rfl
  exact ⟨reachable, by decide +kernel, distinct, (operators (.primitive .add)).2,
    (digits '7' (by decide)).1, marker⟩

end Session

end Rpn
