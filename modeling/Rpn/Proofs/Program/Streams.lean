import Rpn.Program.Loop
import Rpn.Proofs.Session.Twins

/-!
# What the streams receive

In the program the sinks of the session are the two streams, and what clearing the screen brings
comes to these in between. A session by itself knows nothing of that. If its sinks work, it takes
the same way through a line as the one in the program (`mirrors_onStreams`), so a line can be told
by what it does to the session alone. The streams receive what its leaves write there, each followed
by what comes from elsewhere, and then the report on the definition that it ends with, if that is
refused (`Answers`). What the streams have received before, a prompt perhaps, has no influence
(`Answers.evaluate`), and where nothing comes from elsewhere they receive what the sinks of the
session by itself do (`Answers.received`).
-/

namespace Rpn

namespace Dispatch

variable (clear : Nat → Clearing) (d : Dispatch)

/-- What the leaf writes to the error sink, as far as this is taken. -/
def complained : List UInt8 :=
  (d.session.leaf d.token).1.err.received.drop d.session.err.received.length

/-- What comes to the output stream with the leaf. -/
def toOut : List UInt8 := d.written ++ (Program.clearingAt clear d.session d.token).out

/-- What comes to the error stream with the leaf. -/
def toErr : List UInt8 := d.complained ++ (Program.clearingAt clear d.session d.token).err

end Dispatch

namespace Program

open Session

variable {clear : Nat → Clearing} {s s' a a' b b₀ : Session} {line : String}
  {trace : List Dispatch} {out err : List UInt8} {control : Control}

/-- The session `a` by itself and the session `b` in the program are twins, and since `b₀` the
streams have received what came with the leaves in `trace`. -/
structure OnStreams (clear : Nat → Clearing) (b₀ : Session) (trace : List Dispatch)
    (a b : Session) : Prop extends Twins a b where
  out : b.out.received = b₀.out.received ++ trace.flatMap (Dispatch.toOut clear)
  err : b.err.received = b₀.err.received ++ trace.flatMap (Dispatch.toErr clear)

theorem OnStreams.leaf (h : OnStreams clear b₀ trace a b) (token : String) :
    OnStreams clear b₀ (trace ++ [⟨a, token⟩]) (a.leaf token).1 (leaf clear b token).1 ∧
      (leaf clear b token).2 = (a.leaf token).2 := by
  obtain ⟨since, same⟩ := (tracks_twinsSince a b).leaf token h.toTwins.since
  obtain ⟨bytes, outA, outB⟩ := since.out
  obtain ⟨bytes', errA, errB⟩ := since.err
  have place : clearingAt clear b token = clearingAt clear a token := by
    rw [h.same]
    rfl
  have toOut : Dispatch.toOut clear ⟨a, token⟩ = bytes ++ (clearingAt clear b token).out := by
    rw [Dispatch.toOut, Dispatch.written, outA, List.drop_left, place]
  have toErr : Dispatch.toErr clear ⟨a, token⟩ = bytes' ++ (clearingAt clear b token).err := by
    rw [Dispatch.toErr, Dispatch.complained, errA, List.drop_left, place]
  refine ⟨⟨?twins, ?out, ?err⟩, same⟩
  case twins =>
    exact since.toTwins.withSinks (since.works'.out.append _) (since.works'.err.append _)
  case out =>
    have here : (Program.leaf clear b token).1.out.received =
        (b.leaf token).1.out.received ++ (clearingAt clear b token).out :=
      Sink.received_append _ _
    rw [here, outB, h.out, List.flatMap_append, List.flatMap_singleton, toOut]
    simp only [List.append_assoc]
  case err =>
    have here : (Program.leaf clear b token).1.err.received =
        (b.leaf token).1.err.received ++ (clearingAt clear b token).err :=
      Sink.received_append _ _
    rw [here, errB, h.err, List.flatMap_append, List.flatMap_singleton, toErr]
    simp only [List.append_assoc]

/-- A session by itself goes the same way as the one in the program. -/
theorem mirrors_onStreams (clear : Nat → Clearing) (b₀ : Session) :
    Mirrors (leaf clear) (OnStreams clear b₀) where
  dictionary h := by rw [h.same]; rfl
  advance {trace a b} h := by
    have since := (tracks_twinsSince a b).advance h.toTwins.since
    exact ⟨since.toTwins, h.out, h.err⟩
  leaf token h := h.leaf token

/-- The line takes the session `s` by itself to `s'` and ends with `control`, and in the program the
streams receive `out` and `err` from it. -/
inductive Answers (clear : Nat → Clearing) (s : Session) (line : String) :
    List UInt8 → List UInt8 → Session → Control → Prop where
  | intro {trace : List Dispatch} {s₁ s' : Session} {inner : Except Fault Control}
      {control : Control} {refusal : List UInt8}
      (evaluated : Evaluates (s.enter line) (leadingTokens line) trace s₁ inner)
      (concluded : s₁.conclude line inner = (s', .ok control))
      (reported : s'.err.received = s₁.err.received ++ refusal) :
      Answers clear s line (trace.flatMap (Dispatch.toOut clear))
        (trace.flatMap (Dispatch.toErr clear) ++ refusal) s' control

theorem received_conclude (s : Session) (text : String) (outcome : Except Fault Control) :
    (s.conclude text outcome).1.out.received = s.out.received :=
  received_changesByLeaves.conclude s text outcome

/-- On a session whose sinks work a line that comes to its end does not fail. -/
theorem exists_control (works : s.SinksWork) {outcome : Except Fault Control}
    (completes : s.Completes line trace s' outcome) : ∃ control, outcome = .ok control := by
  cases outcome with
  | ok control => exact ⟨control, rfl⟩
  | error fault =>
    obtain ⟨steps, result⟩ := exists_statement_iff.mpr ⟨trace, completes⟩
    obtain ⟨trace', ⟨-, evaluated, d, member, text, refused⟩ | ⟨_, -, unflushed, -⟩⟩ :=
      error_of_statement result
    · have worked := (evaluated.out_works works.out).2 d member
      rw [← (d.session.out.write text).eta] at refused
      cases (worked.write_snd text).symm.trans (congrArg Prod.snd refused)
    · cases works.out.flush.symm.trans unflushed

theorem exists_answers (clear : Nat → Clearing) (works : s.SinksWork)
    {outcome : Except Fault Control} (completes : s.Completes line trace s' outcome) :
    s'.SinksWork ∧
      ∃ control out err, outcome = .ok control ∧ Answers clear s line out err s' control := by
  obtain ⟨control, rfl⟩ := exists_control works completes
  obtain ⟨s₁, inner, evaluated, concluded⟩ := completes
  have worked : s₁.SinksWork := (evaluated.sinksWork ⟨works.out, works.err⟩).1
  have twins : s₁.Twins s₁ := ⟨rfl, worked, worked⟩
  obtain ⟨since, -⟩ := (tracks_twinsSince s₁ s₁).conclude twins.since line inner
  rw [concluded] at since
  obtain ⟨refusal, reported, -⟩ := since.err
  exact ⟨since.works, control, _, _, rfl, .intro evaluated concluded reported⟩

/-- The program evaluates the line as the session by itself does, whatever the streams have received
before, and they receive what is said. -/
theorem Answers.evaluate (answers : Answers clear a line out err a' control) (twins : a.Twins b) :
    ∃ b', a'.Twins b' ∧ b'.out.received = b.out.received ++ out ∧
      b'.err.received = b.err.received ++ err ∧
      ∃ enough, ∀ steps, enough ≤ steps → evaluate clear steps b line = (b', some control) := by
  obtain @⟨trace, a₁, a', inner, control, refusal, evaluated, concluded, reported⟩ := answers
  have start : OnStreams clear b [] (a.enter line) (b.enter line) := by
    have since := (tracks_twinsSince a b).enter line twins.since
    exact ⟨since.toTwins, (List.append_nil _).symm, (List.append_nil _).symm⟩
  obtain ⟨b₁, onStreams, enough, result⟩ :=
    evaluated.statementBy_mirrored (mirrors_onStreams clear b) start
  obtain ⟨since, same⟩ := (tracks_twinsSince a₁ b₁).conclude onStreams.toTwins.since line inner
  rw [concluded] at since same
  have control_eq : (b₁.conclude line inner).2 = .ok control := same
  -- The output is as the leaves have left it; a definition may still have been refused.
  obtain ⟨bytes, errA, errB⟩ := since.err
  obtain rfl : bytes = refusal := List.append_cancel_left (errA.symm.trans reported)
  refine ⟨_, since.toTwins, ?_, ?_, enough, fun steps bound => ?_⟩
  · rw [received_conclude, onStreams.out]
  · rw [errB, onStreams.err, List.append_assoc]
  · rw [Program.evaluate, statementBy_mono bound result, ← (b₁.conclude line inner).eta, control_eq]

/-- Where nothing comes from elsewhere, the program evaluates a leaf as a session by itself does. -/
theorem leaf_silent (s : Session) (token : String) :
    leaf (fun _ => {}) s token = s.leaf token := by
  have nothing : clearingAt (fun _ => {}) s token = {} := ite_self _
  rw [leaf, nothing]
  rfl

/-- Where nothing comes from elsewhere, the streams receive what the sinks of a session by itself
do. -/
theorem Answers.received (answers : Answers (fun _ => {}) s line out err s' control)
    (works : s.SinksWork) :
    s'.out.received = s.out.received ++ out ∧ s'.err.received = s.err.received ++ err := by
  have alone : leaf (fun _ => {}) = Session.leaf := funext₂ leaf_silent
  have twins : s.Twins s := ⟨rfl, works, works⟩
  obtain ⟨s₁, -, received, reported, enough, evaluates⟩ := answers.evaluate twins
  obtain ⟨evaluated, concluded, -⟩ := answers
  obtain ⟨steps, result⟩ := exists_statement_iff.mpr ⟨_, _, _, evaluated, concluded⟩
  have same := evaluates (max enough steps) (le_max_left _ _)
  have result := statement_mono (le_max_right enough steps) result
  rw [statement, ← alone] at result
  rw [Program.evaluate, result] at same
  obtain ⟨rfl, -⟩ := Prod.mk.inj same
  exact ⟨received, reported⟩

end Program

end Rpn
