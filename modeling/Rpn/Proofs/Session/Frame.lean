import Rpn.Proofs.Session.Comparison
import Rpn.Proofs.Stack.Frame

/-!
# Statements on top of other values

A statement that keeps to the values it finds on a stack does not notice what lies underneath
them. Two sessions that differ only in that (`StandsOver`) meet the same leaves, and each leaf
leaves them so: the stack, the stash, what is reported, the place in the statement and the way it
ends are the same. Operators that refuse their operands on the way make no difference.

What is written to the output sink does tell the two apart, for the whole stack is shown there.
-/

namespace Rpn

/-- The leaf keeps to the values of the stack that it is met on. -/
def Dispatch.StaysAbove (d : Dispatch) : Prop := d.session.stack.Suffices d.token

instance (d : Dispatch) : Decidable d.StaysAbove :=
  inferInstanceAs (Decidable (d.session.stack.Suffices d.token))

namespace Session

/-- The session with another stack. -/
def withStack (s : Session) (stack : Stack) : Session := { s with stack }

/-- The stack of `b` is that of `a` with more values underneath. The sinks for output may differ, and
both work. -/
structure StandsOver (below : List Value) (a b : Session) : Prop where
  stack : b.stack = a.stack.atop below
  err : b.err = a.err
  dictionary : b.dictionary = a.dictionary
  cursor : b.cursor = a.cursor
  functions : b.functions = a.functions
  works : a.out.Works ∧ b.out.Works

variable {below : List Value} {a b : Session}

theorem StandsOver.advance (h : StandsOver below a b) : StandsOver below a.advance b.advance :=
  ⟨h.stack, h.err, h.dictionary, congrArg (· + 1) h.cursor, h.functions, h.works⟩

theorem StandsOver.leaf (h : StandsOver below a b) {token : String}
    (stays : Dispatch.StaysAbove ⟨a, token⟩) :
    Matches (StandsOver below) (a.leaf token) (b.leaf token) := by
  have afterA := afterLeaf_eq_response a token
  have afterB := afterLeaf_eq_response b token
  rw [h.stack, h.functions, Stack.afterLeaf_atop below a.functions stays, afterA] at afterB
  obtain ⟨stack, faults⟩ := Prod.mk.inj afterB
  obtain ⟨worksA, worksB⟩ := h.works
  constructor
  · constructor
    case stack =>
      rw [leaf_eq_respond, leaf_eq_respond, stack_respond, stack_respond, h.stack]
      exact stack.symm
    case err =>
      rw [leaf_eq_respond, leaf_eq_respond, err_respond, err_respond, h.err]
      exact congrArg a.err.report faults.symm
    case dictionary => rw [dictionary_leaf, dictionary_leaf, h.dictionary]
    case cursor => rw [cursor_leaf, cursor_leaf, h.cursor]
    case functions => rw [functions_leaf, functions_leaf, h.functions]
    case works => exact ⟨out_leaf_works worksA token, out_leaf_works worksB token⟩
  · rw [leaf_snd worksA, leaf_snd worksB]

/-- A statement without a marker and whose words expand finitely comes to an end on any stack. If it
keeps to the values of that stack, then with more underneath it leaves the same above them, together
with the same stash, dictionary and cursor, reports the same and ends in the same way. -/
theorem statement_over {s : Session} {text : String} {e : Expansion} (works : s.out.Works)
    (unmarked : definitionMarker ∉ tokens text) (expands : s.dictionary.Expands (tokens text) e)
    (stack : Stack) (below : List Value) :
    ∃ steps trace s' control,
      (s.withStack stack).statement steps text = some (s', .ok control) ∧
      (s.withStack stack).Completes text trace s' (.ok control) ∧
      ((∀ d ∈ trace, d.StaysAbove) →
        ∃ steps' s'', (s.withStack (stack.atop below)).statement steps' text =
            some (s'', .ok control) ∧
          s''.stack = s'.stack.atop below ∧ s''.err = s'.err ∧ s''.dictionary = s'.dictionary ∧
          s''.cursor = s'.cursor) := by
  have whole := leadingTokens_of_not_mem unmarked
  rw [← whole] at expands
  obtain ⟨evaluated, -⟩ := evaluates_leadingTokens (s := s.withStack stack) works expands
  have completes : (s.withStack stack).Completes text _ _ _ :=
    ⟨_, _, evaluated, conclude_of_works (evaluated.out_works works).1 unmarked _⟩
  obtain ⟨steps, result⟩ := exists_statement_iff.mpr ⟨_, completes⟩
  refine ⟨steps, _, _, _, result, completes, ?_⟩
  intro stays
  have start : StandsOver below ((s.withStack stack).enter text)
      ((s.withStack (stack.atop below)).enter text) :=
    ⟨rfl, rfl, rfl, rfl, rfl, works, works⟩
  obtain ⟨trace', s'', evaluated', finish⟩ :=
    evaluated.keeps_where (fun h => h.dictionary) (fun h => h.advance)
      (fun _ stays h => h.leaf stays) stays start
  have completes' : (s.withStack (stack.atop below)).Completes text _ _ _ :=
    ⟨_, _, evaluated', conclude_of_works finish.works.2 unmarked _⟩
  obtain ⟨steps', result'⟩ := exists_statement_iff.mpr ⟨_, completes'⟩
  exact ⟨steps', s'', result', finish.stack, finish.err, finish.dictionary, finish.cursor⟩

/-- The division by zero is refused on the way. -/
theorem statement_over_three :
    let s := fresh .machine 80 {} {}
    let below := [.int 9, .float .nan]
    definitionMarker ∉ tokens "0 / pi , 4 +" ∧
    ∃ steps s'', (s.withStack ⟨.int 3 :: below, none⟩).statement steps "0 / pi , 4 +" =
        some (s'', .ok .proceed) ∧
      s''.stack = ⟨[.int 4, .int 3] ++ below, none⟩ ∧
      s''.err.received = utf8Bytes "Cannot divide by 0\n" := by
  intro s below
  let top : Stack := ⟨[.int 3], none⟩
  let e : Expansion := .leaf "0" (.leaf "/" (.word "pi" (.leaf "3.141592653589793" .nil)
    (.leaf "," (.leaf "4" (.leaf "+" .nil)))))
  have works : Sink.Works {} := ⟨rfl, rfl⟩
  have unmarked : definitionMarker ∉ tokens "0 / pi , 4 +" := by decide +kernel
  have expands : s.dictionary.Expands (tokens "0 / pi , 4 +") e := by decide +kernel
  obtain ⟨_, trace, s', control, -, completes, carries⟩ :=
    statement_over works unmarked expands top below
  rw [← leadingTokens_of_not_mem unmarked] at expands
  obtain ⟨met, concluded⟩ := (completes_iff_sweep (s := s.withStack top) expands).mp completes
  have stays : ∀ d ∈ trace, d.StaysAbove := by
    rw [← met]
    decide +kernel
  obtain ⟨steps, s'', result, stack, err, -⟩ := carries stays
  have ends := congrArg (fun r => (r.1.stack, r.1.err.received, r.2)) concluded
  have evaluated : (fun r : Session × Except Fault Control => (r.1.stack, r.1.err.received, r.2))
      ((((s.withStack top).enter "0 / pi , 4 +").sweep e.postorder).session.conclude "0 / pi , 4 +"
        (((s.withStack top).enter "0 / pi , 4 +").sweep e.postorder).outcome) =
      (⟨[.int 4, .int 3], none⟩, utf8Bytes "Cannot divide by 0\n", .ok .proceed) := by
    decide +kernel
  obtain ⟨stack', both⟩ := Prod.mk.inj (ends.symm.trans evaluated)
  obtain ⟨err', control'⟩ := Prod.mk.inj both
  obtain rfl : control = .proceed := Except.ok.inj control'
  dsimp only at stack' err'
  exact ⟨unmarked, steps, s'', result, stack.trans (stack' ▸ rfl), err ▸ err'⟩

end Session

end Rpn
