import Rpn.Proofs.Operator.Names
import Rpn.Session.Rules

/-!
# The response to a leaf

What a leaf does to a session is settled before either sink is written to: it follows
from the stack, the dictionary and the place in the statement. `Session.response` says
what it is, and `Session.respond` carries it out; together they are `Session.leaf`.

A response writes to one sink at most and only once, after the stack has changed. Whether a
text is taken is therefore of no consequence for the stack, the cursor or the dictionary,
and what a leaf reports is read off the response alone.
-/

namespace Rpn

/-- What a leaf asks of a session. -/
inductive Response where
  | silent (stack : Stack)
  /-- A text is written to the output sink after the stack has changed. -/
  | shows (stack : Stack) (text : String)
  /-- A fault is written to the error sink after the stack has changed. -/
  | refuses (stack : Stack) (fault : Fault)
  | quits
deriving DecidableEq

/-- The fault with which a primitive has ended, if it has. -/
def reported : Except Fault Effect → List Fault
  | .ok _ => []
  | .error fault => [fault]

namespace Response

def ofEffect (stack : Stack) : Effect → Response
  | .silent => .silent stack
  | .display => .shows stack (stack.text ++ "\n")
  | .cleared count => .shows stack ("cleared " ++ .ofList (decimalDigits count) ++ " values\n")

def ofExecution : Stack × Except Fault Effect → Response
  | (stack, .ok effect) => ofEffect stack effect
  | (stack, .error fault) => refuses stack fault

/-- The stack that a response leaves. -/
def stackAfter (before : Stack) : Response → Stack
  | silent stack | shows stack _ | refuses stack _ => stack
  | quits => before

/-- What a response reports, which is one fault at most. -/
def faults : Response → List Fault
  | refuses _ fault => [fault]
  | _ => []

/-- Whether evaluation goes on after a response, if it is carried out without a failure. -/
def control : Response → Control
  | quits => .quit
  | _ => .proceed

section Execution

variable (before : Stack) (x : Stack × Except Fault Effect)

@[simp] theorem stackAfter_ofExecution : (ofExecution x).stackAfter before = x.1 := by
  rcases x with ⟨stack, fault | effect⟩
  · rfl
  · cases effect <;> rfl

@[simp] theorem faults_ofExecution : (ofExecution x).faults = reported x.2 := by
  rcases x with ⟨stack, fault | effect⟩
  · rfl
  · cases effect <;> rfl

@[simp] theorem control_ofExecution : (ofExecution x).control = .proceed := by
  rcases x with ⟨stack, fault | effect⟩
  · rfl
  · cases effect <;> rfl

end Execution

end Response

namespace Session

/-- Carry out a response. -/
def respond (s : Session) : Response → Session × Except Fault Control
  | .silent stack => ({ s with stack }, .ok .proceed)
  | .shows stack text => { s with stack }.print text
  | .refuses stack fault => ({ s with stack }.report fault, .ok .proceed)
  | .quits => (s, .ok .quit)

/-- The response to a literal. -/
def literalResponse (s : Session) (v : Value) : Response :=
  if s.cursor + 1 = s.length then .shows (s.stack.push v) ((s.stack.push v).text ++ "\n")
  else .silent (s.stack.push v)

/-- The response to a command. -/
def commandResponse (s : Session) : Command → Response
  | .quit => .quits
  | .clearScreen => .silent s.stack
  | .words => .shows s.stack s.dictionary.listing
  | .help => .shows s.stack (Operator.helpText s.width)

/-- The response to an operator. -/
def operatorResponse (s : Session) (op : Operator) : Response :=
  if s.stack.depth < op.pops then .silent s.stack
  else match op with
    | .primitive p => .ofExecution (s.stack.execute s.functions p)
    | .command c => s.commandResponse c

/-- The response to a leaf. -/
def response (s : Session) (token : String) : Response :=
  match Value.ofLiteral? token with
  | some v => s.literalResponse v
  | none =>
    match Operator.named? token with
    | some op => s.operatorResponse op
    | none => .silent s.stack

theorem literal_eq_respond (s : Session) (v : Value) :
    s.literal v = s.respond (s.literalResponse v) := by
  simp only [literal, literalResponse]
  split <;> rfl

theorem primitive_eq_respond (s : Session) (p : Primitive) :
    s.primitive p = s.respond (.ofExecution (s.stack.execute s.functions p)) := by
  rw [primitive]
  obtain ⟨stack, _ | effect⟩ := s.stack.execute s.functions p
  · rfl
  · cases effect <;> rfl

theorem command_eq_respond (s : Session) (c : Command) :
    s.command c = s.respond (s.commandResponse c) := by
  cases c <;> rfl

theorem operator_eq_respond (s : Session) (op : Operator) :
    s.operator op = s.respond (s.operatorResponse op) := by
  unfold operator operatorResponse
  split
  · rfl
  · cases op with
    | primitive p => exact primitive_eq_respond s p
    | command c => exact command_eq_respond s c

/-- Evaluating a leaf is carrying out the response to it. -/
theorem leaf_eq_respond (s : Session) (token : String) :
    s.leaf token = s.respond (s.response token) := by
  rw [leaf, response]
  cases Value.ofLiteral? token with
  | some v => exact literal_eq_respond s v
  | none =>
    cases Operator.named? token with
    | some op => exact operator_eq_respond s op
    | none => rfl

section Kinds

variable (s : Session) {token : String}

theorem response_of_literal {v : Value} (literal : Value.ofLiteral? token = some v) :
    s.response token = s.literalResponse v := by
  rw [response, literal]

@[simp] theorem response_name (op : Operator) : s.response op.name = s.operatorResponse op := by
  rw [response, Value.ofLiteral?_name, Operator.named?_name]

theorem response_of_unknown (notLiteral : Value.ofLiteral? token = none)
    (notOperator : Operator.named? token = none) : s.response token = .silent s.stack := by
  rw [response, notLiteral, notOperator]

theorem operatorResponse_of_lt {op : Operator} (shallow : s.stack.depth < op.pops) :
    s.operatorResponse op = .silent s.stack :=
  if_pos shallow

theorem operatorResponse_primitive {p : Primitive} (deep : p.pops ≤ s.stack.depth) :
    s.operatorResponse (.primitive p) = .ofExecution (s.stack.execute s.functions p) :=
  if_neg (Nat.not_lt.mpr deep)

theorem operatorResponse_command (c : Command) :
    s.operatorResponse (.command c) = s.commandResponse c :=
  if_neg (Nat.not_lt_zero _)

@[simp] theorem leaf_quit : s.leaf Command.quit.name = (s, .ok .quit) := by
  have response : s.response (Operator.command .quit).name = .quits := by
    rw [response_name, operatorResponse_command]
    rfl
  exact (leaf_eq_respond s _).trans (congrArg s.respond response)

/-- Where the marker does not start a definition it does nothing. -/
@[simp] theorem leaf_definitionMarker : s.leaf definitionMarker = (s, .ok .proceed) := by
  rw [leaf_eq_respond, response_of_unknown s (by decide) (by decide)]
  rfl

/-- A token is a literal, the name of an operator, or neither. -/
theorem token_cases (token : String) :
    (∃ v, Value.ofLiteral? token = some v) ∨ (∃ op : Operator, token = op.name) ∨
      (Value.ofLiteral? token = none ∧ Operator.named? token = none) := by
  cases literal : Value.ofLiteral? token with
  | some v => exact .inl ⟨v, rfl⟩
  | none =>
    cases named : Operator.named? token with
    | some op => exact .inr (.inl ⟨op, (Operator.name_of_named? named).symm⟩)
    | none => exact .inr (.inr ⟨rfl, rfl⟩)

end Kinds

/-- The ways in which a session responds to a leaf, the token left out. -/
inductive Responds (s : Session) : Response → Prop where
  | literal (v : Value) : Responds s (s.literalResponse v)
  | primitive {p : Primitive} (deep : p.pops ≤ s.stack.depth) :
      Responds s (.ofExecution (s.stack.execute s.functions p))
  | command (c : Command) : Responds s (s.commandResponse c)
  | passes : Responds s (.silent s.stack)

theorem responds (s : Session) (token : String) : s.Responds (s.response token) := by
  obtain ⟨v, literal⟩ | ⟨p | c, rfl⟩ | ⟨notLiteral, notOperator⟩ := token_cases token
  · rw [response_of_literal s literal]
    exact .literal v
  · rw [response_name]
    by_cases shallow : s.stack.depth < (Operator.primitive p).pops
    · rw [operatorResponse_of_lt s shallow]
      exact .passes
    · have deep : p.pops ≤ s.stack.depth := Nat.not_lt.mp shallow
      rw [operatorResponse_primitive s deep]
      exact .primitive deep
  · rw [response_name, operatorResponse_command]
    exact .command c
  · rw [response_of_unknown s notLiteral notOperator]
    exact .passes

section Parts

variable (s : Session) (v : Value) (c : Command)

@[simp] theorem stackAfter_literalResponse :
    (s.literalResponse v).stackAfter s.stack = s.stack.push v := by
  rw [literalResponse]
  split <;> rfl

@[simp] theorem faults_literalResponse : (s.literalResponse v).faults = [] := by
  rw [literalResponse]
  split <;> rfl

@[simp] theorem control_literalResponse : (s.literalResponse v).control = .proceed := by
  rw [literalResponse]
  split <;> rfl

@[simp] theorem stackAfter_commandResponse :
    (s.commandResponse c).stackAfter s.stack = s.stack := by
  cases c <;> rfl

@[simp] theorem faults_commandResponse : (s.commandResponse c).faults = [] := by
  cases c <;> rfl

end Parts

theorem control_operatorResponse (s : Session) (op : Operator) :
    (s.operatorResponse op).control = if op = .command .quit then .quit else .proceed := by
  cases op with
  | command c =>
    rw [operatorResponse_command]
    cases c <;> rfl
  | primitive p =>
    rw [if_neg (by simp)]
    by_cases shallow : s.stack.depth < (Operator.primitive p).pops
    · rw [operatorResponse_of_lt s shallow]
      rfl
    · rw [operatorResponse_primitive s (Nat.not_lt.mp shallow), Response.control_ofExecution]

/-- Of all leaves only `quit` ends a statement. -/
theorem control_response (s : Session) (token : String) :
    (s.response token).control = if token = Command.quit.name then .quit else .proceed := by
  have quitName : Command.quit.name = (Operator.command .quit).name := rfl
  obtain ⟨v, literal⟩ | ⟨op, rfl⟩ | ⟨notLiteral, notOperator⟩ := token_cases token
  · have other : token ≠ Command.quit.name := by
      rintro rfl
      cases literal.symm.trans (Value.ofLiteral?_name (.command .quit))
    rw [response_of_literal s literal, if_neg other, control_literalResponse]
  · rw [response_name, control_operatorResponse, quitName]
    simp only [Operator.name_inj]
  · have other : token ≠ Command.quit.name := by
      rintro rfl
      cases notOperator.symm.trans (Operator.named?_name (.command .quit))
    rw [response_of_unknown s notLiteral notOperator, if_neg other]
    rfl

section Frames

variable (s : Session) (token : String) (r : Response)

@[simp] theorem length_respond : (s.respond r).1.length = s.length := by
  cases r <;> rfl

@[simp] theorem cursor_respond : (s.respond r).1.cursor = s.cursor := by
  cases r <;> rfl

@[simp] theorem functions_respond : (s.respond r).1.functions = s.functions := by
  cases r <;> rfl

@[simp] theorem refusal_respond : (s.respond r).1.out.refusal = s.out.refusal := by
  cases r <;> rfl

@[simp] theorem flushFailure_respond :
    (s.respond r).1.out.flushFailure = s.out.flushFailure := by
  cases r <;> rfl

@[simp] theorem length_leaf : (s.leaf token).1.length = s.length := by
  rw [leaf_eq_respond, length_respond]

@[simp] theorem cursor_leaf : (s.leaf token).1.cursor = s.cursor := by
  rw [leaf_eq_respond, cursor_respond]

@[simp] theorem functions_leaf : (s.leaf token).1.functions = s.functions := by
  rw [leaf_eq_respond, functions_respond]

end Frames

/-- The statement at hand stays the same. -/
theorem Evaluates.length_eq {s s' : Session} {names : List String} {trace : List Dispatch}
    {outcome : Except Fault Control} (h : Evaluates s names trace s' outcome) :
    s'.length = s.length ∧ ∀ d ∈ trace, d.session.length = s.length :=
  h.preserves (P := fun s₁ => s₁.length = s.length)
    (fun s₁ name kept => (length_leaf s₁ name).trans kept) (fun _ kept => kept) rfl

end Session

end Rpn
