import Rpn.Proofs.Session.Response

/-!
# Sinks that work and sinks that fail

A sink works when it takes whatever it is given and hands it on. On a session whose output
sink works every response succeeds. Otherwise a response may fail, but only where it writes
to the output sink, and then for the reason that this sink gives. The error sink is written
to for each fault, and whether it takes what is written changes nothing else.
-/

namespace Rpn

/-- As many of some bytes as a capacity allows, which is all of them if there is no limit. -/
def upTo (capacity : Option Nat) (bytes : List UInt8) : List UInt8 :=
  match capacity with
  | none => bytes
  | some n => bytes.take n

theorem upTo_append (capacity : Option Nat) (bytes bytes' : List UInt8) :
    upTo capacity (bytes ++ bytes') =
      upTo capacity bytes ++ upTo (capacity.map (· - bytes.length)) bytes' := by
  cases capacity with
  | none => rfl
  | some n => exact List.take_append

namespace Sink

theorem fitting_eq_upTo (k : Sink) (bytes : List UInt8) : k.fitting bytes = upTo k.room bytes := rfl

theorem write_snd_of_none {k : Sink} (unlimited : k.room = none) (text : String) :
    (k.write text).2 = none := by
  rw [write, fitting, unlimited]
  exact if_neg (Nat.lt_irrefl _)

structure Works (k : Sink) : Prop where
  room : k.room = none
  flush : k.flushFailure = none

theorem Works.write {k : Sink} (works : k.Works) (text : String) : (k.write text).1.Works :=
  ⟨by rw [room_write, works.room]; rfl, works.flush⟩

theorem Works.append {k : Sink} (works : k.Works) (bytes : List UInt8) :
    (k.append bytes).Works := by
  cases bytes <;> exact ⟨works.room, works.flush⟩

theorem Works.write_snd {k : Sink} (works : k.Works) (text : String) :
    (k.write text).2 = none :=
  write_snd_of_none works.room text

theorem Works.received_write {k : Sink} (works : k.Works) (text : String) :
    (k.write text).1.received = k.received ++ utf8Bytes text := by
  rw [Sink.received_write, fitting, works.room]

/-- The only reason for a failing write is that of the sink. -/
theorem eq_refusal_of_write {k : Sink} {text reason : String}
    (failed : (k.write text).2 = some reason) : reason = k.refusal := by
  simp only [write] at failed
  split at failed
  · exact (Option.some.inj failed).symm
  · cases failed

end Sink

/-- The line that is written for a fault. -/
def Fault.line (fault : Fault) : String := fault.message ++ "\n"

/-- The bytes that are written for some faults. -/
def faultBytes (faults : List Fault) : List UInt8 :=
  faults.flatMap fun fault => utf8Bytes fault.line

namespace Sink

/-- Write a line for each of some faults, whether or not it is taken. -/
def report (k : Sink) (faults : List Fault) : Sink :=
  faults.foldl (fun k fault => (k.write fault.line).1) k

theorem report_append (k : Sink) (faults faults' : List Fault) :
    k.report (faults ++ faults') = (k.report faults).report faults' :=
  List.foldl_append

theorem Works.report {k : Sink} (works : k.Works) (faults : List Fault) :
    (k.report faults).Works := by
  induction faults generalizing k with
  | nil => exact works
  | cons fault faults ih => exact ih (works.write fault.line)

theorem Works.received_report {k : Sink} (works : k.Works) (faults : List Fault) :
    (k.report faults).received = k.received ++ faultBytes faults := by
  induction faults generalizing k with
  | nil => exact (List.append_nil _).symm
  | cons fault faults ih =>
    have later := ih (works.write fault.line)
    rw [works.received_write, List.append_assoc] at later
    exact later

end Sink

namespace Session

variable {s : Session}

@[simp] theorem stack_respond (s : Session) (r : Response) :
    (s.respond r).1.stack = r.stackAfter s.stack := by
  cases r <;> rfl

@[simp] theorem err_respond (s : Session) (r : Response) :
    (s.respond r).1.err = s.err.report r.faults := by
  cases r <;> rfl

theorem stack_leaf_of_literal (s : Session) {token : String} {v : Value}
    (literal : Value.ofLiteral? token = some v) : (s.leaf token).1.stack = s.stack.push v := by
  rw [leaf_eq_respond, stack_respond, response_of_literal s literal, stackAfter_literalResponse]

theorem respond_snd (works : s.out.Works) (r : Response) : (s.respond r).2 = .ok r.control := by
  cases r with
  | shows stack text =>
    simp only [respond, print, works.write_snd]
    rfl
  | silent | refuses | quits => rfl

/-- On a session whose output sink works a leaf succeeds. -/
theorem leaf_snd (works : s.out.Works) (token : String) :
    (s.leaf token).2 = .ok (if token = Command.quit.name then .quit else .proceed) := by
  rw [leaf_eq_respond, respond_snd works, control_response]

theorem out_respond_works (works : s.out.Works) (r : Response) : (s.respond r).1.out.Works := by
  cases r with
  | shows stack text => exact works.write text
  | silent | refuses | quits => exact works

theorem out_leaf_works (works : s.out.Works) (token : String) : (s.leaf token).1.out.Works :=
  leaf_eq_respond s token ▸ out_respond_works works _

theorem Evaluates.out_works {s' : Session} {names : List String} {trace : List Dispatch}
    {outcome : Except Fault Control} (h : Evaluates s names trace s' outcome)
    (works : s.out.Works) : s'.out.Works ∧ ∀ d ∈ trace, d.session.out.Works :=
  h.preserves (P := fun s => s.out.Works) (fun _ name kept => out_leaf_works kept name)
    (fun _ kept => kept) works

theorem flush_of_works (works : s.out.Works) : s.flush = (s, .ok .proceed) := by
  rw [flush, works.flush]

/-- A statement in which no definition starts is concluded without a change. -/
theorem conclude_of_works (works : s.out.Works) {text : String}
    (unmarked : definitionMarker ∉ tokens text) (control : Control) :
    s.conclude text (.ok control) = (s, .ok control) := by
  cases control with
  | quit => exact conclude_of_ne s text (by simp)
  | proceed => rw [conclude_of_not_mem s text unmarked, flush_of_works works]

/-- Both sinks work. -/
structure SinksWork (s : Session) : Prop where
  out : s.out.Works
  err : s.err.Works

theorem SinksWork.respond (works : s.SinksWork) (r : Response) : (s.respond r).1.SinksWork :=
  ⟨out_respond_works works.out r, err_respond s r ▸ works.err.report _⟩

/-- Sinks that work go on to do so. -/
theorem Evaluates.sinksWork {s' : Session} {names : List String} {trace : List Dispatch}
    {outcome : Except Fault Control} (h : Evaluates s names trace s' outcome)
    (works : s.SinksWork) : s'.SinksWork ∧ ∀ d ∈ trace, d.session.SinksWork :=
  h.preserves (fun s name kept => leaf_eq_respond s name ▸ kept.respond _)
    (fun _ kept => ⟨kept.out, kept.err⟩) works

/-- A response fails only when the output sink does not take a text, and for that reason. -/
theorem write_of_respond_error {r : Response} {fault : Fault}
    (failed : (s.respond r).2 = .error fault) :
    ∃ text, s.out.write text = ((s.respond r).1.out, some s.out.refusal) ∧
      fault = .inputOutput s.out.refusal := by
  cases r with
  | shows stack text =>
    simp only [Session.respond, print] at failed
    split at failed
    · cases failed
    · next reason refused =>
      obtain rfl := Sink.eq_refusal_of_write refused
      exact ⟨text, Prod.ext rfl refused, (Except.error.inj failed).symm⟩
  | silent | refuses | quits => cases failed

end Session

end Rpn
