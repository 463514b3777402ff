import Rpn.Proofs.Dictionary.Sound
import Rpn.Proofs.Session.Definition
import Rpn.Proofs.Session.Runs
import Rpn.Proofs.Stack.Arity

/-!
# Failures and reports

Faults part in two. What an operator or a definition refuses is reported to the error sink,
and evaluation goes on. A statement itself fails for the output sink only: either a leaf
writes a text that is not taken, or what was written cannot be handed on in the end.

Running out of operands belongs to neither part, since an operator whose arity is not met is
passed over.
-/

namespace Rpn

/-- The faults that are reported: those of operators that refuse their operands, and those of
definitions. -/
def Fault.IsReported (fault : Fault) : Prop :=
  fault.isRefusal = true ∨ ∃ name, fault = .reservedName name

theorem Fault.IsReported.ne_underflow {fault : Fault} (h : fault.IsReported) :
    fault ≠ .underflow := by
  rintro rfl
  obtain refusal | ⟨name, same⟩ := h
  · cases refusal
  · cases same

namespace Session

variable {s s' : Session}

/-- What a leaf reports, an operator has refused. -/
theorem isRefusal_of_response (s : Session) (token : String) :
    ∀ fault ∈ (s.response token).faults, fault.isRefusal = true := by
  intro fault member
  have responds := s.responds token
  generalize s.response token = r at member responds
  cases responds with
  | literal v => simp at member
  | @primitive p deep =>
    rw [Response.faults_ofExecution] at member
    cases result : (s.stack.execute s.functions p).2 with
    | ok effect =>
      rw [result] at member
      cases member
    | error refused =>
      rw [result] at member
      obtain rfl := List.mem_singleton.mp member
      exact Stack.safe_execute s.functions deep fault result
  | command c => simp at member
  | passes => cases member

theorem err_leaf (s : Session) (token : String) :
    (s.leaf token).1.err = s.err.report (s.response token).faults := by
  rw [leaf_eq_respond, err_respond]

theorem isReported_of_definition (d : Dictionary) (definition : List String) :
    ∀ fault ∈ (d.afterDefinition definition).2, fault.IsReported := by
  intro fault member
  rw [Dictionary.afterDefinition] at member
  split at member
  · cases member
  · next refused =>
    obtain rfl := List.mem_singleton.mp member
    exact .inr (Dictionary.exists_reservedName_of_define refused)

/-- Nothing is written to the error sink but faults that are reported. -/
theorem kept_reports (err : Sink) :
    Kept fun s => ∃ faults, s.err = err.report faults ∧ ∀ fault ∈ faults, fault.IsReported where
  enter _ _ before := before
  advance _ before := before
  leaf s token before := by
    obtain ⟨faults, same, reported⟩ := before
    refine ⟨faults ++ (s.response token).faults, ?_, ?_⟩
    · rw [err_leaf, same, Sink.report_append]
    · refine List.forall_mem_append.mpr ⟨reported, ?_⟩
      exact fun fault member => .inl (isRefusal_of_response s token fault member)
  define s definition before := by
    obtain ⟨faults, same, reported⟩ := before
    refine ⟨faults ++ (s.dictionary.afterDefinition definition).2, ?_, ?_⟩
    · rw [err_define, same, Sink.report_append]
    · exact List.forall_mem_append.mpr ⟨reported, isReported_of_definition _ _⟩

/-- Every run reports faults of operators and definitions, in some order, and nothing else. -/
theorem Runs.reports {calls : List Call} {trace : List Dispatch} (run : s.Runs calls trace s') :
    ∃ faults, s'.err = s.err.report faults ∧ ∀ fault ∈ faults, fault.IsReported :=
  ((kept_reports s.err).runs run ⟨[], rfl, fun _ member => absurd member List.not_mem_nil⟩).1

theorem refusal_leaf (s : Session) (token : String) :
    (s.leaf token).1.out.refusal = s.out.refusal := by
  rw [leaf_eq_respond, refusal_respond]

theorem flushFailure_leaf (s : Session) (token : String) :
    (s.leaf token).1.out.flushFailure = s.out.flushFailure := by
  rw [leaf_eq_respond, flushFailure_respond]

/-- The sink keeps the reasons that it fails for. -/
theorem Evaluates.reasons_eq {names : List String} {trace : List Dispatch}
    {outcome : Except Fault Control} (h : Evaluates s names trace s' outcome) :
    s'.out.flushFailure = s.out.flushFailure ∧ ∀ d ∈ trace, d.session.out.refusal = s.out.refusal :=
  ⟨(h.preserves (P := fun s₁ => s₁.out.flushFailure = s.out.flushFailure)
      (fun s₁ token kept => (flushFailure_leaf s₁ token).trans kept) (fun _ kept => kept) rfl).1,
    (h.preserves (P := fun s₁ => s₁.out.refusal = s.out.refusal)
      (fun s₁ token kept => (refusal_leaf s₁ token).trans kept) (fun _ kept => kept) rfl).2⟩

/-- Tokens fail only where a leaf among them writes a text that is not taken. -/
theorem Evaluates.write_of_error {names : List String} {trace : List Dispatch} {fault : Fault}
    (h : Evaluates s names trace s' (.error fault)) :
    ∃ d ∈ trace, ∃ text, d.session.out.write text = (s'.out, some d.session.out.refusal) ∧
      fault = .inputOutput d.session.out.refusal := by
  obtain ⟨d, member, ran⟩ := h.exists_stopping_leaf (by simp)
  rw [leaf_eq_respond] at ran
  have refused : (d.session.respond (d.session.response d.token)).2 = .error fault := by rw [ran]
  obtain ⟨text, written, reason⟩ := write_of_respond_error refused
  rw [ran] at written
  exact ⟨d, member, text, written, reason⟩

/-- A statement that fails has either had a text refused by the output sink, or its output
could not be handed on after all its tokens had been evaluated. It fails for the reason that
the sink gives. -/
theorem error_of_statement {steps : Nat} {text : String} {fault : Fault}
    (failed : s.statement steps text = some (s', .error fault)) :
    ∃ trace,
      (fault = .inputOutput s.out.refusal ∧
        Evaluates (s.enter text) (leadingTokens text) trace s' (.error fault) ∧
        ∃ d ∈ trace, ∃ written, d.session.out.write written = (s'.out, some s.out.refusal)) ∨
      ∃ reason, fault = .inputOutput reason ∧ s.out.flushFailure = some reason ∧
        Evaluates (s.enter text) (tokens text) trace s' (.ok .proceed) ∧
        s'.flush = (s', .error fault) := by
  obtain ⟨trace, s₁, inner, evaluated, concluded⟩ := exists_statement_iff.mp ⟨steps, failed⟩
  obtain ⟨flushReason, writeReason⟩ := evaluated.reasons_eq
  refine ⟨trace, ?_⟩
  by_cases proceeds : inner = .ok .proceed
  · subst proceeds
    by_cases marked : definitionMarker ∈ tokens text
    · rw [conclude_of_mem _ _ marked] at concluded
      cases concluded
    · rw [conclude_of_not_mem _ _ marked] at concluded
      rw [leadingTokens_of_not_mem marked] at evaluated
      obtain rfl : s₁ = s' := congrArg Prod.fst concluded
      right
      cases cause : s₁.out.flushFailure with
      | none =>
        rw [flush, cause] at concluded
        cases concluded
      | some reason =>
        have same : fault = .inputOutput reason := by
          rw [flush, cause] at concluded
          exact (Except.error.inj (congrArg Prod.snd concluded)).symm
        exact ⟨reason, same, flushReason.symm.trans cause, evaluated, concluded⟩
  · rw [conclude_of_ne _ _ proceeds] at concluded
    cases concluded
    left
    obtain ⟨d, member, written, refused, same⟩ := evaluated.write_of_error
    rw [writeReason d member] at refused same
    exact ⟨same, evaluated, d, member, written, refused⟩

theorem leaf_of_lt (s : Session) {op : Operator} (shallow : s.stack.depth < op.pops) :
    s.leaf op.name = (s, .ok .proceed) := by
  rw [leaf_eq_respond, response_name, operatorResponse_of_lt s shallow]
  rfl

/-- Only the output sink makes a statement fail. A primitive whose arity is met does not run
out of operands, and one whose arity is not met changes nothing, so no leaf of a run reports
that operands have run out, nor is this ever written to the error sink. -/
theorem only_sink_fails :
    (∀ (s s' : Session) (steps : Nat) (text : String) (fault : Fault),
      s.statement steps text = some (s', .error fault) →
        ∃ trace,
          (fault = .inputOutput s.out.refusal ∧
            Evaluates (s.enter text) (leadingTokens text) trace s' (.error fault) ∧
            ∃ d ∈ trace, ∃ written, d.session.out.write written = (s'.out, some s.out.refusal)) ∨
          ∃ reason, fault = .inputOutput reason ∧ s.out.flushFailure = some reason ∧
            Evaluates (s.enter text) (tokens text) trace s' (.ok .proceed) ∧
            s'.flush = (s', .error fault)) ∧
      (∀ (f : Elementary) (stack : Stack) (p : Primitive), p.pops ≤ stack.depth →
        (stack.execute f p).2 ≠ .error .underflow) ∧
      (∀ (s s' : Session) (calls : List Call) (trace : List Dispatch), s.Runs calls trace s' →
        (∃ faults, s'.err = s.err.report faults ∧
          ∀ fault ∈ faults, fault.message ≠ Fault.underflow.message) ∧
        ∀ d ∈ trace,
          (d.session.leaf d.token).1.err =
            d.session.err.report (d.session.response d.token).faults ∧
          ∀ fault ∈ (d.session.response d.token).faults,
            fault.message ≠ Fault.underflow.message) ∧
      ∀ (s : Session) (op : Operator), s.stack.depth < op.pops →
        s.leaf op.name = (s, .ok .proceed) := by
  refine ⟨?_, ?_, ?_, fun s op => leaf_of_lt s⟩
  · intro s s' steps text fault failed
    exact error_of_statement failed
  · intro f stack p deep failed
    cases Stack.safe_execute f deep .underflow failed
  · intro s s' calls trace run
    constructor
    · obtain ⟨faults, same, reported⟩ := run.reports
      exact ⟨faults, same, fun fault member =>
        Fault.message_ne_underflow (reported fault member).ne_underflow⟩
    · intro d _
      refine ⟨err_leaf d.session d.token, ?_⟩
      intro fault member
      have reported : fault.IsReported := .inl (isRefusal_of_response d.session d.token fault member)
      exact Fault.message_ne_underflow reported.ne_underflow

/-- A literal that stands last shows the stack, for which the sink has no room. Its value is
on the stack then, enough for an operator that takes one value and too little for another. -/
theorem only_sink_fails_full :
    let s := fresh .machine 80 { room := some 0, refusal := "sink full" } {}
    ∃ (s' : Session) (trace : List Dispatch),
      s.statement 1 "5" = some (s', .error (.inputOutput "sink full")) ∧
      (∃ d ∈ trace, ∃ written, d.session.out.write written = (s'.out, some "sink full")) ∧
      (s'.stack.execute .machine .drop).2 ≠ .error .underflow ∧
      (∃ faults, s'.err = s.err.report faults ∧
        ∀ fault ∈ faults, fault.message ≠ Fault.underflow.message) ∧
      s'.leaf "+" = (s', .ok .proceed) := by
  intro s
  obtain ⟨fails, arity, reports, shallow⟩ := only_sink_fails
  have evaluated : (s.statement 1 "5").map (fun r => (r.1.stack, r.2)) =
      some (⟨[.int 5], none⟩, .error (.inputOutput "sink full")) := by decide +kernel
  obtain ⟨⟨s', _⟩, result, same⟩ := Option.map_eq_some_iff.mp evaluated
  obtain ⟨stack, rfl⟩ := Prod.mk.inj same
  have deep : s'.stack.depth = 1 := congrArg Stack.depth stack
  obtain ⟨_, completes⟩ := exists_statement_iff.mp ⟨1, result⟩
  have reported := (reports s s' _ _ (.cons (.evaluate completes) (.nil s'))).1
  obtain ⟨trace, ⟨-, -, refused⟩ | ⟨_, -, unflushed, -⟩⟩ := fails s s' 1 "5" _ result
  · refine ⟨s', trace, result, refused, ?_, reported, ?_⟩
    · exact arity .machine s'.stack .drop deep.ge
    · exact shallow s' (.primitive .add) (deep.trans_lt (by decide))
  · cases unflushed

end Session

end Rpn
