import Rpn.Dictionary
import Rpn.Help
import Rpn.Sink
import Rpn.Value.Literal

/-!
# Sessions

A session is a stack, a dictionary and two sinks, together with the place that
evaluation has reached in the statement at hand. That place, the cursor, moves on by one
after every token, also after each token of a word's body and then again after the word
itself. It tells the literal that stands last in a statement from the others: only that
one shows the stack.

`Session.leaf` evaluates a token that is not a word. A fault of an operator is written
to the error sink and evaluation goes on; a failure of the output sink ends it. Nothing
that happens to the error sink has an effect.
-/

namespace Rpn

/-- Whether evaluation goes on. -/
inductive Control where
  | proceed
  | quit
deriving DecidableEq

structure Session where
  stack : Stack := {}
  dictionary : Dictionary := .builtins
  /-- How many tokens the statement has. -/
  length : Nat := 0
  /-- How many tokens are done with, those of bodies included. -/
  cursor : Nat := 0
  out : Sink := {}
  err : Sink := {}
  /-- The width of the screen, for the help text. -/
  width : Nat := defaultWidth
  functions : Elementary

namespace Session

/-- The cursor moves past a token. -/
def advance (s : Session) : Session := { s with cursor := s.cursor + 1 }

/-- Write to the output sink. -/
def print (s : Session) (text : String) : Session × Except Fault Control :=
  ({ s with out := (s.out.write text).1 },
    match (s.out.write text).2 with
    | none => .ok .proceed
    | some reason => .error (.inputOutput reason))

/-- Write a fault to the error sink. -/
def report (s : Session) (fault : Fault) : Session :=
  { s with err := (s.err.write (fault.message ++ "\n")).1 }

/-- Hand the output on at the end of a statement. -/
def flush (s : Session) : Session × Except Fault Control :=
  (s,
    match s.out.flushFailure with
    | none => .ok .proceed
    | some reason => .error (.inputOutput reason))

def showStack (s : Session) : Session × Except Fault Control := s.print (s.stack.text ++ "\n")

def showEffect (s : Session) : Effect → Session × Except Fault Control
  | .silent => (s, .ok .proceed)
  | .display => s.showStack
  | .cleared count => s.print ("cleared " ++ .ofList (decimalDigits count) ++ " values\n")

/-- Run a primitive that the stack is deep enough for. -/
def primitive (s : Session) (p : Primitive) : Session × Except Fault Control :=
  match s.stack.execute s.functions p with
  | (stack, .ok effect) => { s with stack }.showEffect effect
  | (stack, .error fault) => ({ s with stack }.report fault, .ok .proceed)

/-- Clearing the screen is up to the terminal and leaves no trace in the session. -/
def command (s : Session) : Command → Session × Except Fault Control
  | .quit => (s, .ok .quit)
  | .clearScreen => (s, .ok .proceed)
  | .words => s.print s.dictionary.listing
  | .help => s.print (Operator.helpText s.width)

/-- Run an operator, or pass over it when the stack is not deep enough. -/
def operator (s : Session) (op : Operator) : Session × Except Fault Control :=
  if s.stack.depth < op.pops then (s, .ok .proceed)
  else match op with
    | .primitive p => s.primitive p
    | .command c => s.command c

/-- Push a literal, and show the stack if the literal stands last in the statement. -/
def literal (s : Session) (v : Value) : Session × Except Fault Control :=
  let s := { s with stack := s.stack.push v }
  if s.cursor + 1 = s.length then s.showStack else (s, .ok .proceed)

/-- Evaluate a token that is not a word. A token that is neither a literal nor an
operator does nothing. -/
def leaf (s : Session) (token : String) : Session × Except Fault Control :=
  match Value.ofLiteral? token with
  | some v => s.literal v
  | none =>
    match Operator.named? token with
    | some op => s.operator op
    | none => (s, .ok .proceed)

/-- Carry out a definition and tell whether it was accepted. -/
def define (s : Session) (definition : List String) : Session × Bool :=
  match s.dictionary.define Operator.isName definition with
  | .ok dictionary => ({ s with dictionary }, true)
  | .error fault => (s.report fault, false)

section Frames

variable (s : Session) (name : String)

@[simp] theorem stack_advance : s.advance.stack = s.stack := rfl

@[simp] theorem dictionary_advance : s.advance.dictionary = s.dictionary := rfl

@[simp] theorem length_advance : s.advance.length = s.length := rfl

@[simp] theorem cursor_advance : s.advance.cursor = s.cursor + 1 := rfl

@[simp] theorem out_advance : s.advance.out = s.out := rfl

@[simp] theorem err_advance : s.advance.err = s.err := rfl

@[simp] theorem functions_advance : s.advance.functions = s.functions := rfl

@[simp] theorem dictionary_showEffect (effect : Effect) :
    (s.showEffect effect).1.dictionary = s.dictionary := by
  cases effect <;> rfl

@[simp] theorem dictionary_primitive (p : Primitive) :
    (s.primitive p).1.dictionary = s.dictionary := by
  unfold primitive
  split
  · exact dictionary_showEffect _ _
  · rfl

@[simp] theorem dictionary_command (c : Command) :
    (s.command c).1.dictionary = s.dictionary := by
  cases c <;> rfl

@[simp] theorem dictionary_operator (op : Operator) :
    (s.operator op).1.dictionary = s.dictionary := by
  unfold operator
  split
  · rfl
  · cases op with
    | primitive p => exact dictionary_primitive s p
    | command c => exact dictionary_command s c

@[simp] theorem dictionary_literal (v : Value) : (s.literal v).1.dictionary = s.dictionary := by
  unfold literal
  dsimp only
  split <;> rfl

/-- Only a definition changes the dictionary, and no token outside one defines anything. -/
@[simp] theorem dictionary_leaf : (s.leaf name).1.dictionary = s.dictionary := by
  unfold leaf
  split
  · exact dictionary_literal s _
  · split
    · exact dictionary_operator s _
    · rfl

theorem dictionary_of_leaf {s₁ : Session} {outcome : Except Fault Control}
    (ran : s.leaf name = (s₁, outcome)) : s₁.dictionary = s.dictionary := by
  rw [← dictionary_leaf s name, ran]

end Frames

end Session

end Rpn
