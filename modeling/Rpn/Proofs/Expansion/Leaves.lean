import Rpn.Proofs.Expansion.Sweep
import Rpn.Proofs.Session.Definition
import Rpn.Proofs.Session.Runs

/-!
# Statements as lists of leaves

What a statement does to the stack and to the stash, what it reports and how it ends can be
computed on the stack alone. `Stack.calculate` goes through the leaves that the tokens of
the statement come to, from left to right, without a dictionary, a cursor or a sink: a
literal is pushed, an operator runs if the stack is deep enough, `quit` ends it and all else
does nothing.

A session agrees with it as long as its output sink works. The one thing that a statement
reports and that does not come from a leaf is the refusal of the definition that it ends
with.
-/

namespace Rpn

/-- What a list of leaves comes to. -/
structure Calculation where
  stack : Stack
  /-- What was reported, in order. -/
  faults : List Fault
  control : Control

namespace Stack

/-- The stack after a leaf other than `quit`, and what the leaf reports. -/
def afterLeaf (f : Elementary) (s : Stack) (token : String) : Stack × List Fault :=
  match Value.ofLiteral? token with
  | some v => (s.push v, [])
  | none =>
    match Operator.named? token with
    | some (.primitive p) =>
      if s.depth < p.pops then (s, [])
      else ((s.execute f p).1, reported (s.execute f p).2)
    | some (.command _) | none => (s, [])

/-- Evaluate leaves from left to right, stopping at the first `quit`. -/
def calculate (f : Elementary) : Stack → List String → Calculation
  | s, [] => ⟨s, [], .proceed⟩
  | s, token :: rest =>
    if token = Command.quit.name then ⟨s, [], .quit⟩
    else
      let later := calculate f (s.afterLeaf f token).1 rest
      { later with faults := (s.afterLeaf f token).2 ++ later.faults }

variable {f : Elementary} {s : Stack} {token : String}

theorem afterLeaf_of_literal {v : Value} (literal : Value.ofLiteral? token = some v) :
    s.afterLeaf f token = (s.push v, []) := by
  rw [afterLeaf, literal]

theorem afterLeaf_of_unknown (notLiteral : Value.ofLiteral? token = none)
    (notOperator : Operator.named? token = none) : s.afterLeaf f token = (s, []) := by
  rw [afterLeaf, notLiteral, notOperator]

theorem afterLeaf_name (op : Operator) :
    s.afterLeaf f op.name =
      match op with
      | .primitive p =>
        if s.depth < p.pops then (s, []) else ((s.execute f p).1, reported (s.execute f p).2)
      | .command _ => (s, []) := by
  rw [afterLeaf, Value.ofLiteral?_name, Operator.named?_name]
  cases op <;> rfl

theorem calculate_quit (rest : List String) :
    s.calculate f (Command.quit.name :: rest) = ⟨s, [], .quit⟩ :=
  if_pos rfl

theorem calculate_of_ne (goesOn : token ≠ Command.quit.name) (rest : List String) :
    s.calculate f (token :: rest) =
      ⟨((s.afterLeaf f token).1.calculate f rest).stack,
        (s.afterLeaf f token).2 ++ ((s.afterLeaf f token).1.calculate f rest).faults,
        ((s.afterLeaf f token).1.calculate f rest).control⟩ :=
  if_neg goesOn

/-- A calculation quits exactly when `quit` is among the leaves, whatever the stack is. -/
theorem control_calculate_eq_quit_iff {tokens : List String} :
    (s.calculate f tokens).control = .quit ↔ Command.quit.name ∈ tokens := by
  induction tokens generalizing s with
  | nil => simp [calculate]
  | cons token rest ih =>
    by_cases quits : token = Command.quit.name
    · subst quits
      simp [calculate_quit]
    · rw [calculate_of_ne quits, List.mem_cons]
      exact ih.trans (or_iff_right (Ne.symm quits)).symm

end Stack

namespace Session

/-- The response to a leaf leaves the stack that the leaf alone leaves, and reports what
the leaf alone reports. -/
theorem afterLeaf_eq_response (s : Session) (token : String) :
    s.stack.afterLeaf s.functions token =
      ((s.response token).stackAfter s.stack, (s.response token).faults) := by
  obtain ⟨v, literal⟩ | ⟨p | c, rfl⟩ | ⟨notLiteral, notOperator⟩ := token_cases token
  · rw [Stack.afterLeaf_of_literal literal, response_of_literal s literal,
      stackAfter_literalResponse, faults_literalResponse]
  · rw [Stack.afterLeaf_name, response_name]
    by_cases shallow : s.stack.depth < (Operator.primitive p).pops
    · rw [operatorResponse_of_lt s shallow]
      exact if_pos shallow
    · rw [operatorResponse_primitive s (Nat.not_lt.mp shallow), Response.stackAfter_ofExecution,
        Response.faults_ofExecution]
      exact if_neg shallow
  · rw [Stack.afterLeaf_name, response_name, operatorResponse_command,
      stackAfter_commandResponse, faults_commandResponse]
  · rw [Stack.afterLeaf_of_unknown notLiteral notOperator,
      response_of_unknown s notLiteral notOperator]
    rfl

variable {s : Session}

/-- A sweep agrees with the calculation on the leaves among its nodes. -/
theorem sweep_eq_calculate (works : s.out.Works) (nodes : List Node) (start : Nat) :
    let c := s.stack.calculate s.functions ((leafRanks start nodes).map Prod.fst)
    (s.sweep nodes).outcome = .ok c.control ∧ (s.sweep nodes).session.stack = c.stack ∧
      (s.sweep nodes).session.err = s.err.report c.faults := by
  -- A word among the nodes only moves the cursor, and the calculation has no cursor.
  induction nodes generalizing s start with
  | nil => exact ⟨rfl, rfl, rfl⟩
  | cons node nodes ih =>
    cases node with
    | word name => exact ih (s := s.advance) works (start + 1)
    | leaf token =>
      rw [leafRanks_leaf, List.map_cons]
      by_cases quits : token = Command.quit.name
      · subst quits
        rw [sweep_quit, Stack.calculate_quit]
        exact ⟨rfl, rfl, rfl⟩
      · have stack := stack_respond s (s.response token)
        have err := err_respond s (s.response token)
        rw [← leaf_eq_respond] at stack err
        obtain ⟨laterOutcome, laterStack, laterErr⟩ :=
          ih (s := (s.leaf token).1.advance) (out_leaf_works works token) (start + 1)
        rw [stack_advance, stack, functions_advance, functions_leaf] at laterOutcome laterStack laterErr
        rw [sweep_leaf_of_works works quits, Stack.calculate_of_ne quits, afterLeaf_eq_response]
        refine ⟨laterOutcome, laterStack, ?_⟩
        rw [laterErr, err_advance, err, Sink.report_append]

end Session

/-- What a statement makes of a dictionary, and what it reports of that, when its leaves end
with `control`: the first marker is reached unless they quit, and what is defined starts as
many tokens into the statement as the expansion has nodes. -/
def Dictionary.afterStatement (d : Dictionary) (text : String) (e : Expansion)
    (control : Control) : Dictionary × List Fault :=
  if control = .proceed ∧ definitionMarker ∈ tokens text then
    d.afterDefinition ((tokens text).drop e.size)
  else (d, [])

namespace Session

theorem conclude_eq_afterStatement {s : Session} (works : s.out.Works) (text : String)
    (e : Expansion) (control : Control) (place : control = .proceed → s.cursor = e.size) :
    let after := s.dictionary.afterStatement text e control
    ∃ s', s.conclude text (.ok control) = (s', .ok control) ∧ s'.stack = s.stack ∧
      s'.cursor = s.cursor ∧ s'.out = s.out ∧ s'.err = s.err.report after.2 ∧
      s'.dictionary = after.1 := by
  cases control with
  | quit => exact ⟨s, conclude_of_ne s text (by simp), rfl, rfl, rfl, rfl, rfl⟩
  | proceed =>
    by_cases marked : definitionMarker ∈ tokens text
    · rw [conclude_of_mem s text marked, place rfl, Dictionary.afterStatement,
        if_pos ⟨rfl, marked⟩]
      exact ⟨_, rfl, stack_define s _, (cursor_define s _).trans (place rfl), out_define s _,
        err_define s _, dictionary_define s _⟩
    · rw [conclude_of_not_mem s text marked, flush_of_works works, Dictionary.afterStatement,
        if_neg fun reached => marked reached.2]
      exact ⟨s, rfl, rfl, rfl, rfl, rfl, rfl⟩

/-- The tokens before the first marker of a statement agree with the calculation on their
leaves, and the cursor ends up past all nodes of their expansion. -/
theorem evaluates_leadingTokens {s : Session} {text : String} {e : Expansion}
    (works : s.out.Works) (expands : s.dictionary.Expands (leadingTokens text) e) :
    let c := s.stack.calculate s.functions e.leaves
    let swept := (s.enter text).sweep e.postorder
    Evaluates (s.enter text) (leadingTokens text) swept.trace swept.session (.ok c.control) ∧
      swept.session.stack = c.stack ∧ swept.session.err = s.err.report c.faults ∧
      (c.control = .proceed → swept.session.cursor = e.size) := by
  intro c swept
  obtain ⟨outcome, stack, err⟩ := sweep_eq_calculate (s := s.enter text) works e.postorder 0
  rw [e.map_fst_leafRanks, stack_enter, functions_enter] at outcome stack err
  have evaluated := evaluates_sweep (s := s.enter text) expands.2
  rw [expands.1, outcome] at evaluated
  refine ⟨evaluated, stack, err, ?_⟩
  intro proceeds
  have place := cursor_sweep (outcome.trans (congrArg Except.ok proceeds))
  rwa [cursor_enter, Nat.zero_add] at place

/-- A statement whose words expand finitely comes to an end. If the sinks work, it leaves
the stack and the stash, reports and ends as its leaves do by themselves; a definition that
is refused at its end is reported after that. No leaf is evaluated with another dictionary,
or leaves another, than that before the statement. -/
theorem statement_eq_calculate {s : Session} {text : String} {e : Expansion}
    (outWorks : s.out.Works) (errWorks : s.err.Works)
    (expands : s.dictionary.Expands (leadingTokens text) e) :
    let c := s.stack.calculate s.functions e.leaves
    let after := s.dictionary.afterStatement text e c.control
    ∃ steps trace s', s.statement steps text = some (s', .ok c.control) ∧
      s.Completes text trace s' (.ok c.control) ∧ s'.stack = c.stack ∧
      s'.err.received = s.err.received ++ faultBytes c.faults ++ faultBytes after.2 ∧
      s'.dictionary = after.1 ∧
      (∀ d ∈ trace, d.session.dictionary = s.dictionary ∧
        (d.session.leaf d.token).1.dictionary = s.dictionary) ∧
      (c.control = .quit ↔ Command.quit.name ∈ e.leaves) := by
  intro c after
  obtain ⟨evaluated, stack, err, place⟩ := evaluates_leadingTokens outWorks expands
  obtain ⟨dictionary, traceDictionary⟩ := evaluated.dictionary_eq
  obtain ⟨s', concluded, stack', _, _, err', dictionary'⟩ :=
    conclude_eq_afterStatement (evaluated.out_works outWorks).1 text e c.control place
  rw [dictionary] at err' dictionary'
  have completes : s.Completes text _ s' (.ok c.control) := ⟨_, _, evaluated, concluded⟩
  obtain ⟨steps, result⟩ := exists_statement_iff.mpr ⟨_, completes⟩
  refine ⟨steps, _, s', result, completes, stack'.trans stack, ?_, dictionary', ?_,
    Stack.control_calculate_eq_quit_iff⟩
  · rw [err', err, (errWorks.report _).received_report, errWorks.received_report]
    rfl
  · intro d member
    rw [dictionary_leaf]
    exact ⟨traceDictionary d member, traceDictionary d member⟩

/-- The definition is refused for the name `+`: the body of `pi` has moved the cursor on, so
it starts after the marker. -/
theorem statement_eq_calculate_pi :
    let s := fresh .machine 80 {} {}
    let e := Expansion.leaf "7" (.word "pi" (.leaf "3.141592653589793" .nil) (.leaf "," .nil))
    s.out.Works ∧ s.err.Works ∧ s.dictionary.Expands (leadingTokens "7 pi , = x + 1") e ∧
      ∃ steps s', s.statement steps "7 pi , = x + 1" = some (s', .ok .proceed) ∧
        s'.stack = ⟨[.int 7], none⟩ ∧ s'.err.received = utf8Bytes "Cannot redefine: +\n" ∧
        s'.dictionary = .builtins := by
  intro s e
  have works : Sink.Works {} := ⟨rfl, rfl⟩
  have expands : s.dictionary.Expands (leadingTokens "7 pi , = x + 1") e := by decide +kernel
  obtain ⟨steps, _, s', result, _, stack, err, dictionary, _⟩ :=
    statement_eq_calculate (s := s) works works expands
  have control : (s.stack.calculate s.functions e.leaves).control = .proceed := by decide +kernel
  have values : (s.stack.calculate s.functions e.leaves).stack = ⟨[.int 7], none⟩ := by
    decide +kernel
  have nothing : (s.stack.calculate s.functions e.leaves).faults = [] := by decide +kernel
  have refused : s.dictionary.afterStatement "7 pi , = x + 1" e .proceed =
      (.builtins, [.reservedName "+"]) := by
    decide +kernel
  rw [control] at result err dictionary
  rw [values] at stack
  rw [nothing, refused] at err
  rw [refused] at dictionary
  exact ⟨works, works, expands, steps, s', result, stack, err, dictionary⟩

/-- The leaves alone do not account for all that a statement reports: the definition at its
end may be refused. -/
theorem not_forall_report_of_leaves :
    ¬ ∀ (s : Session) (text : String) (e : Expansion), s.Reachable → s.out.Works → s.err.Works →
      s.dictionary.Expands (leadingTokens text) e →
        let c := s.stack.calculate s.functions e.leaves
        ∃ steps s', s.statement steps text = some (s', .ok c.control) ∧ s'.stack = c.stack ∧
          s'.err.received = s.err.received ++ faultBytes c.faults := by
  intro all
  have works : Sink.Works {} := ⟨rfl, rfl⟩
  obtain ⟨steps, s', result, -, err⟩ := all (fresh .machine 80 {} {}) "= + 1" .nil
    (fresh_reachable _ _ _ _) works works (by decide +kernel)
  have none : leadingTokens "= + 1" = [] := by decide +kernel
  have marked : definitionMarker ∈ tokens "= + 1" := by decide +kernel
  rw [statement_eq, none, resume_nil, Option.map_some] at result
  have concluded : ((fresh .machine 80 {} {}).enter "= + 1").conclude "= + 1" (.ok .proceed) =
      (s', _) := Option.some.inj result
  rw [conclude_of_mem _ _ marked] at concluded
  cases concluded
  rw [err_define] at err
  have reports : ((({} : Sink).report
      (Dictionary.builtins.afterDefinition (tokens "= + 1")).2).received).length = 19 := by
    decide +kernel
  have silent := congrArg List.length err
  cases reports.symm.trans silent

end Session

end Rpn
