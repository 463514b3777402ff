import Rpn.Session.Rules
import Rpn.Session.Words

/-!
# Runs of a session

A session is asked, call after call, to evaluate a statement, to carry out a definition or
the definitions on some lines, or to load a words file. `Runs` records what a sequence of
calls makes of a session, together with all leaves that were met. A call that does not
come to an end has no place in a run; one that fails has, and the run goes on with the
session as the failure has left it.

A session is reachable when a run leads to it from a fresh one, whose sinks may fail at any
point.
-/

namespace Rpn

/-- What a session can be asked for. -/
inductive Call where
  | evaluate (text : String)
  | define (definition : List String)
  | defineLines (lines : List String)
  | load (content : Except String ByteArray)

/-- What a call comes back with. -/
inductive Reply where
  | ended (outcome : Except Fault Control)
  | accepted (all : Bool)
  | loaded (result : Except Fault Bool)

namespace Session

/-- Carry out a call, given a number of steps for a statement. -/
def perform (steps : Nat) (s : Session) : Call → Option (Session × Reply)
  | .evaluate text => (s.statement steps text).map fun (s, outcome) => (s, .ended outcome)
  | .define definition => let (s, accepted) := s.define definition; some (s, .accepted accepted)
  | .defineLines lines => let (s, accepted) := s.defineLines lines; some (s, .accepted accepted)
  | .load content => let (s, result) := s.load content; some (s, .loaded result)

/-- Carry out calls one after the other, keeping the session after each call and the reply to it.
There is no result if a statement has not come to its end in the steps given. -/
def performAll (steps : Nat) : Session → List Call → Option (List (Session × Reply))
  | _, [] => some []
  | s, call :: rest =>
    (s.perform steps call).bind fun (s, reply) =>
      (performAll steps s rest).map ((s, reply) :: ·)

/-- `s.Takes call trace s'`: the call takes the session `s` to `s'`. -/
inductive Takes (s : Session) : Call → List Dispatch → Session → Prop where
  | evaluate {text : String} {trace : List Dispatch} {s' : Session}
      {outcome : Except Fault Control} (completes : s.Completes text trace s' outcome) :
      Takes s (.evaluate text) trace s'
  | define (definition : List String) :
      Takes s (.define definition) [] (s.define definition).1
  | defineLines (lines : List String) :
      Takes s (.defineLines lines) [] (s.defineLines lines).1
  | load (content : Except String ByteArray) : Takes s (.load content) [] (s.load content).1

/-- `s.Runs calls trace s'`: the calls, one after the other, take the session `s` to `s'`. -/
inductive Runs : Session → List Call → List Dispatch → Session → Prop where
  | nil (s : Session) : Runs s [] [] s
  | cons {s s₁ s₂ : Session} {call : Call} {calls : List Call} {trace trace' : List Dispatch}
      (first : s.Takes call trace s₁) (later : Runs s₁ calls trace' s₂) :
      Runs s (call :: calls) (trace ++ trace') s₂

/-- A session that has not been asked for anything. -/
def fresh (functions : Elementary) (width : Nat) (out err : Sink) : Session :=
  { out, err, width, functions }

def Reachable (s : Session) : Prop :=
  ∃ functions width out err calls trace, (fresh functions width out err).Runs calls trace s

theorem fresh_reachable (functions : Elementary) (width : Nat) (out err : Sink) :
    (fresh functions width out err).Reachable :=
  ⟨functions, width, out, err, [], [], .nil _⟩

/-- A property of sessions that is kept by everything a session does: going on to a statement
or past a token, evaluating a leaf and carrying out a definition. -/
structure Kept (P : Session → Prop) : Prop where
  enter : ∀ (s : Session) (text : String), P s → P (s.enter text)
  advance : ∀ s : Session, P s → P s.advance
  leaf : ∀ (s : Session) (token : String), P s → P (s.leaf token).1
  define : ∀ (s : Session) (definition : List String), P s → P (s.define definition).1

namespace Kept

variable {P : Session → Prop} {s s' : Session} {trace : List Dispatch}

theorem conclude (kept : Kept P) (text : String) (outcome : Except Fault Control)
    (start : P s) : P (s.conclude text outcome).1 := by
  obtain ⟨-, stopped⟩ | ⟨-, -, defines⟩ | ⟨-, -, flushes⟩ := conclude_cases text outcome
  · rw [stopped]
    exact start
  · rw [defines]
    exact kept.define s _ start
  · rw [flushes]
    exact start

theorem completes (kept : Kept P) {text : String} {outcome : Except Fault Control}
    (h : s.Completes text trace s' outcome) (start : P s) : P s' ∧ ∀ d ∈ trace, P d.session := by
  obtain ⟨s₁, inner, evaluated, concluded⟩ := h
  obtain ⟨finish, met⟩ := evaluated.preserves kept.leaf kept.advance (kept.enter s text start)
  have last := kept.conclude text inner finish
  rw [concluded] at last
  exact ⟨last, met⟩

theorem defineLines (kept : Kept P) (lines : List String) (start : P s) :
    P (s.defineLines lines).1 := by
  induction lines generalizing s with
  | nil => exact start
  | cons line rest ih => exact ih (kept.define s (lineDefinition line) start)

theorem load (kept : Kept P) (content : Except String ByteArray) (start : P s) :
    P (s.load content).1 := by
  rw [Session.load]
  split
  · exact start
  · exact kept.defineLines _ start

theorem takes (kept : Kept P) {call : Call} (h : s.Takes call trace s') (start : P s) :
    P s' ∧ ∀ d ∈ trace, P d.session := by
  have none : ∀ d ∈ ([] : List Dispatch), P d.session := fun d member =>
    absurd member List.not_mem_nil
  cases h with
  | evaluate completes => exact kept.completes completes start
  | define definition => exact ⟨kept.define s definition start, none⟩
  | defineLines lines => exact ⟨kept.defineLines lines start, none⟩
  | load content => exact ⟨kept.load content start, none⟩

/-- A run keeps the property, and all leaves of the run are met in sessions that have it. -/
theorem runs (kept : Kept P) {calls : List Call} (h : s.Runs calls trace s') (start : P s) :
    P s' ∧ ∀ d ∈ trace, P d.session := by
  induction h with
  | nil s => exact ⟨start, fun d member => absurd member List.not_mem_nil⟩
  | cons first _ ih =>
    obtain ⟨middle, metFirst⟩ := kept.takes first start
    obtain ⟨finish, metLater⟩ := ih middle
    exact ⟨finish, List.forall_mem_append.mpr ⟨metFirst, metLater⟩⟩

/-- What fresh sessions have and everything keeps, all reachable sessions have. -/
theorem reachable (kept : Kept P)
    (start : ∀ functions width out err, P (fresh functions width out err)) (h : s.Reachable) :
    P s := by
  obtain ⟨functions, width, out, err, _, _, run⟩ := h
  exact (kept.runs run (start functions width out err)).1

end Kept

end Session

end Rpn
