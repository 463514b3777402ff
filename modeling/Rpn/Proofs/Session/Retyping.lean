import Rpn.Proofs.Session.Canonical
import Rpn.Proofs.Session.Lines
import Rpn.Proofs.Session.Sinks
import Rpn.Proofs.Text.Fields
import Rpn.Proofs.Text.Tokens
import Rpn.Proofs.Value.Reading

/-!
# Typing a stack that is shown

The line that shows a stack is a statement of its own. Where the values are normal, a fresh session
into which it is typed holds them again in the same order, save that an integer has become the
floating-point number nearest to it, if it is not equal to one. Every token of the line is a
literal, and none of them is a word of a fresh session. Only the last token shows the stack.
-/

namespace Rpn

namespace Value

variable {v : Value}

theorem text_ne_empty (v : Value) : v.text ≠ "" := by
  intro empty
  have read := v.ofLiteral?_text
  have nothing : ofLiteral? "" = none := by decide
  rw [empty, nothing] at read
  cases read

/-- The text of a value is not a word before any has been defined. -/
theorem get?_builtins_text (v : Value) : Dictionary.builtins.get? v.text = none := by
  have others : ∀ word ∈ Dictionary.builtins.words, ¬ Numeric word.name.toList :=
    List.forall_mem_cons.mpr ⟨by decide, List.forall_mem_singleton.mpr (by decide)⟩
  refine Dictionary.get?_eq_none_iff.mpr fun word member same => others word member ?_
  rw [same]
  exact v.numeric_text

end Value

namespace Stack

variable {s : Stack}

/-- The tokens of the line that shows a stack are the texts of its values. -/
theorem tokens_text (nonempty : s.values ≠ []) : tokens s.text = s.bottomUp.map Value.text := by
  refine (isTokenList_of_unbroken ?_ ?_ ?_).tokens_eq
  · rwa [bottomUp, Ne, List.map_eq_nil_iff, List.reverse_eq_nil_iff]
  · intro member
    obtain ⟨v, -, empty⟩ := List.mem_map.mp member
    exact v.text_ne_empty empty
  · exact List.forall_mem_map.mpr fun v _ => v.unbroken_text

theorem newline_not_mem_text (s : Stack) : '\n' ∉ s.text.toList := by
  intro member
  have unbroken : ∀ token ∈ s.bottomUp.map Value.text, Unbroken token.toList :=
    List.forall_mem_map.mpr fun v _ => v.unbroken_text
  exact absurd (onlySpaces_intercalate unbroken '\n' member (by decide)) (by decide)

/-- Values that are typed from the bottom up and are normal end up as they were. -/
theorem pushAll_reverse {vs : List Value} (normal : ∀ v ∈ vs, v.IsNormal) :
    ({} : Stack).pushAll vs.reverse = ⟨vs, none⟩ := by
  have kept : vs.reverse.map Value.normalize = vs.reverse := by
    refine List.map_congr_left (fun v member => ?_) |>.trans (List.map_id _)
    exact (normal v (List.mem_reverse.mp member)).normalize_eq
  have values := values_pushAll {} vs.reverse
  rw [kept, List.reverse_reverse, List.append_nil] at values
  exact (Stack.mk.injEq ..).mpr ⟨values, stash_pushAll _ _⟩

theorem definitionMarker_not_mem_tokens_text (s : Stack) : definitionMarker ∉ tokens s.text := by
  by_cases empty : s.values = []
  · rw [text, bottomUp, empty]
    decide
  · rw [tokens_text empty]
    intro member
    obtain ⟨v, -, same⟩ := List.mem_map.mp member
    have numeric := v.numeric_text
    rw [same] at numeric
    exact absurd numeric (by decide)

end Stack

namespace Session

variable {s : Session}

/-- The session after values have been typed, none of them in the last place. -/
def typed (s : Session) (vs : List Value) : Session :=
  { s with stack := s.stack.pushAll vs, cursor := s.cursor + vs.length }

theorem typed_cons (s : Session) (v : Value) (vs : List Value) :
    s.typed (v :: vs) = (s.typed [v]).typed vs := by
  have places : s.cursor + (v :: vs).length = s.cursor + 1 + vs.length := by
    rw [List.length_cons]
    omega
  rw [typed, places]
  rfl

theorem leaf_text {v : Value} (normal : v.IsNormal) (before : s.cursor + 1 ≠ s.length) :
    s.leaf v.text = ({ s with stack := s.stack.push v.retyped }, .ok .proceed) := by
  rw [leaf, normal.ofLiteral?_text]
  exact if_neg before

theorem leaf_text_last {v : Value} (normal : v.IsNormal) (last : s.cursor + 1 = s.length) :
    s.leaf v.text = { s with stack := s.stack.push v.retyped }.showStack := by
  rw [leaf, normal.ofLiteral?_text]
  exact if_pos last

/-- Values that others are typed after are pushed, and nothing else is done about them. -/
theorem resume_texts {vs : List Value} (normal : ∀ v ∈ vs, v.IsNormal)
    (plain : s.dictionary = .builtins) (before : s.cursor + vs.length < s.length) (steps : Nat)
    (rest : List String) (waiting : List (List String)) :
    resume (steps + vs.length) s (vs.map Value.text ++ rest) waiting =
      resume steps (s.typed (vs.map Value.retyped)) rest waiting := by
  induction vs generalizing s with
  | nil => rfl
  | cons v vs ih =>
    obtain ⟨here, later⟩ := List.forall_mem_cons.mp normal
    rw [List.length_cons] at before ⊢
    have notWord : s.dictionary.get? v.text = none := by rw [plain, v.get?_builtins_text]
    have goesOn := leaf_text here (s := s) (by omega)
    rw [List.map_cons, List.cons_append, ← Nat.add_assoc, resume_leaf notWord goesOn,
      List.map_cons, typed_cons]
    refine ih (s := s.typed [v.retyped]) later plain ?_
    show s.cursor + 1 + vs.length < s.length
    omega

/-- What has become of a session by typing `stack` into it: it holds the same values but for the
retyping of integers and has shown them, if there are any, on a line of their own. -/
structure HoldsRetyped (stack : Stack) (s s' : Session) : Prop where
  held : s'.stack = ⟨stack.values.map Value.retyped, none⟩
  dictionary : s'.dictionary = s.dictionary
  err : s'.err = s.err
  shown : s'.out = if stack.isEmpty then s.out else (s.out.write (s'.stack.text ++ "\n")).1
  oneLine : '\n' ∉ s'.stack.text.toList

/-- The value on top is typed last, and shows the stack. -/
theorem resume_text_last {v : Value} (normal : v.IsNormal) (plain : s.dictionary = .builtins)
    (last : s.cursor + 1 = s.length) :
    ∃ s' outcome, resume 1 s [v.text] [] = some (s', outcome) ∧
      s'.stack = s.stack.push v.retyped ∧ s'.dictionary = s.dictionary ∧ s'.err = s.err ∧
      s'.out = (s.out.write (s'.stack.text ++ "\n")).1 ∧
      (s.out.Works → outcome = .ok .proceed) := by
  have notWord : s.dictionary.get? v.text = none := by rw [plain, v.get?_builtins_text]
  have shows := leaf_text_last normal last
  by_cases taken : ({ s with stack := s.stack.push v.retyped } : Session).showStack.2 = .ok .proceed
  · refine ⟨_, _, resume_leaf notWord (shows.trans (Prod.ext rfl taken)) 0 [] [], ?_⟩
    exact ⟨rfl, rfl, rfl, rfl, fun _ => rfl⟩
  · refine ⟨_, _, resume_leaf_of_ne notWord shows taken 0 [] [], rfl, rfl, rfl, rfl, ?_⟩
    intro works
    rw [works.write_snd]

theorem resume_text_empty (functions : Elementary) (width : Nat) (out err : Sink) {stack : Stack}
    (empty : stack.values = []) :
    let s := fresh functions width out err
    ∃ s', resume 1 (s.enter stack.text) (tokens stack.text) [] = some (s', .ok .proceed) ∧
      HoldsRetyped stack s s' := by
  intro s
  have line : stack.text = "" := by rw [Stack.text, Stack.bottomUp, empty]; rfl
  have notWord : Dictionary.builtins.get? "" = none := by decide
  have nothing : (s.enter "").leaf "" = (s.enter "", .ok .proceed) := by
    rw [leaf_eq_respond, response_of_unknown _ (by decide) (by decide)]
    rfl
  rw [line]
  refine ⟨_, resume_leaf (s := s.enter "") notWord nothing 0 [] [], ?_⟩
  constructor
  case held =>
    rw [empty]
    rfl
  case dictionary => rfl
  case err => rfl
  case shown =>
    rw [Stack.isEmpty, empty]
    rfl
  case oneLine => exact Stack.newline_not_mem_text _

theorem resume_text_of_ne_nil (functions : Elementary) (width : Nat) (out err : Sink)
    {stack : Stack} (normal : ∀ v ∈ stack.values, v.IsNormal) (nonempty : stack.values ≠ []) :
    let s := fresh functions width out err
    ∃ steps s' outcome, resume steps (s.enter stack.text) (tokens stack.text) [] =
        some (s', outcome) ∧ HoldsRetyped stack s s' ∧ (out.Works → outcome = .ok .proceed) := by
  intro s
  obtain ⟨v, below, values⟩ := List.exists_cons_of_ne_nil nonempty
  obtain ⟨normalTop, normalBelow⟩ := List.forall_mem_cons.mp (values ▸ normal)
  have normalFirst : ∀ v ∈ below.reverse, v.IsNormal := fun v member =>
    normalBelow v (List.mem_reverse.mp member)
  have texts : tokens stack.text = below.reverse.map Value.text ++ [v.text] := by
    rw [Stack.tokens_text nonempty, Stack.bottomUp, values, List.reverse_cons, List.map_append,
      List.map_singleton]
  have length : (s.enter stack.text).length = below.reverse.length + 1 := by
    rw [length_enter, texts, List.length_append, List.length_map, List.length_singleton]
  let typed := (s.enter stack.text).typed (below.reverse.map Value.retyped)
  have first := resume_texts (s := s.enter stack.text) normalFirst rfl
    (by rw [cursor_enter, length]; omega) 1 [v.text] []
  have place : typed.cursor + 1 = typed.length := by
    show 0 + (below.reverse.map Value.retyped).length + 1 = (s.enter stack.text).length
    rw [List.length_map, length, Nat.zero_add]
  obtain ⟨s', outcome, last, held, dictionary, err, shown, proceeds⟩ :=
    resume_text_last normalTop rfl place
  rw [← texts] at first
  refine ⟨_, s', outcome, first.trans last, ?_, proceeds⟩
  constructor
  case held =>
    have pushed : s'.stack = ({} : Stack).pushAll (stack.values.map Value.retyped).reverse := by
      rw [held, values, List.map_cons, List.reverse_cons, Stack.pushAll, List.foldl_append,
        ← List.map_reverse]
      rfl
    rw [pushed]
    exact Stack.pushAll_reverse (List.forall_mem_map.mpr fun v member =>
      Value.isNormal_retyped (normal v member))
  case dictionary => exact dictionary
  case err => exact err
  case shown =>
    rw [Stack.isEmpty, values]
    exact shown
  case oneLine => exact s'.stack.newline_not_mem_text

theorem resume_text (functions : Elementary) (width : Nat) (out err : Sink) {stack : Stack}
    (normal : ∀ v ∈ stack.values, v.IsNormal) :
    let s := fresh functions width out err
    ∃ steps s' outcome, resume steps (s.enter stack.text) (tokens stack.text) [] =
        some (s', outcome) ∧ HoldsRetyped stack s s' ∧ (out.Works → outcome = .ok .proceed) := by
  intro s
  by_cases empty : stack.values = []
  · obtain ⟨s', result, holds⟩ := resume_text_empty functions width out err empty
    exact ⟨1, s', .ok .proceed, result, holds, fun _ => rfl⟩
  · exact resume_text_of_ne_nil functions width out err normal empty

/-- A statement without a marker leaves the session as evaluating its tokens does. -/
theorem exists_statement_of_resume {s' : Session} {text : String} {steps : Nat}
    {outcome : Except Fault Control} (unmarked : definitionMarker ∉ tokens text)
    (result : resume steps (s.enter text) (tokens text) [] = some (s', outcome)) :
    ∃ outcome', s.statement steps text = some (s', outcome') ∧
      (s'.out.Works → outcome = .ok .proceed → outcome' = .ok .proceed) := by
  rw [statement_eq, leadingTokens_of_not_mem unmarked, result, Option.map_some]
  obtain ⟨stops, concludes⟩ | ⟨_, marked, _⟩ | ⟨_, _, concludes⟩ := conclude_cases text outcome
  · exact ⟨outcome, congrArg some (concludes s'), fun _ same => same⟩
  · exact absurd marked unmarked
  · refine ⟨s'.flush.2, congrArg some (concludes s'), fun works _ => ?_⟩
    rw [flush_of_works works]

/-- The line that shows a stack of normal values comes to an end when it is typed into a fresh
session. The session then holds each floating-point number as it was and each integer as the
floating-point number nearest to it, which is the integer again if it is equal to any such number.
Nothing is reported, and only the last token shows the stack. -/
theorem displayed_stack_typed (functions : Elementary) (width : Nat) (out err : Sink)
    {stack : Stack} (normal : ∀ v ∈ stack.values, v.IsNormal) :
    let s := fresh functions width out err
    ∃ steps s' outcome, s.statement steps stack.text = some (s', outcome) ∧
      HoldsRetyped stack s s' ∧
      (out.Works → outcome = .ok .proceed ∧ s'.out.received = out.received ++
        if stack.isEmpty then [] else utf8Bytes (s'.stack.text ++ "\n")) ∧
      ∀ n : Int64, (∃ x : Binary64, x.toInt? = some n.toInt) → (Value.int n).retyped = .int n := by
  intro s
  obtain ⟨steps, s', inner, result, holds, proceeds⟩ := resume_text functions width out err normal
  obtain ⟨outcome, ended, concluded⟩ :=
    exists_statement_of_resume stack.definitionMarker_not_mem_tokens_text result
  refine ⟨steps, s', outcome, ended, holds, ?_, fun n => Value.retyped_int_iff.mpr⟩
  intro works
  have shown := holds.shown
  split at shown
  · next empty =>
    rw [shown, if_pos empty, List.append_nil]
    exact ⟨concluded (shown ▸ works) (proceeds works), rfl⟩
  · next nonempty =>
    rw [shown, if_neg nonempty]
    exact ⟨concluded (shown ▸ works.write _) (proceeds works), works.received_write _⟩

/-- Of six values only the integer `2⁵³ + 1` comes back as another one. -/
theorem displayed_stack_typed_six :
    let values : List Value := [.int 9007199254740993, .ofBinary64 (.ofDecimal false 1 20),
      .ofBinary64 (.ofDecimal true 1 (-5)), .int (-7), .float (.infinite true), .float .nan]
    let stack : Stack := ⟨values, none⟩
    stack.text = "nan -inf -7 -1e-05 1e+20 9007199254740993" ∧
      (∀ v ∈ values, v.IsNormal) ∧
      ∃ steps s', (fresh .machine 80 {} {}).statement steps stack.text =
          some (s', .ok .proceed) ∧
        s'.stack = ⟨.int 9007199254740992 :: values.tail, none⟩ ∧ s'.err = {} ∧
        s'.out.received = utf8Bytes "nan -inf -7 -1e-05 1e+20 9007199254740992\n" := by
  intro values stack
  have normal : ∀ v ∈ stack.values, v.IsNormal := by
    simp only [stack, values, List.forall_mem_cons]
    exact ⟨.int _, Value.isNormal_ofBinary64 _, Value.isNormal_ofBinary64 _, .int _, .infinite true,
      .nan, fun v member => absurd member List.not_mem_nil⟩
  have works : Sink.Works {} := ⟨rfl, rfl⟩
  obtain ⟨steps, s', outcome, ended, holds, ends, -⟩ :=
    displayed_stack_typed .machine 80 {} {} normal
  obtain ⟨rfl, received⟩ := ends works
  have held : s'.stack = ⟨.int 9007199254740992 :: values.tail, none⟩ := by
    rw [holds.held]
    decide +kernel
  refine ⟨by decide +kernel, normal, steps, s', ended, held, holds.err, ?_⟩
  rw [received, held]
  decide +kernel

end Session

end Rpn
