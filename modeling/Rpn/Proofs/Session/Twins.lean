import Rpn.Proofs.Expansion.Transcript
import Rpn.Proofs.Session.Comparison
import Rpn.Proofs.Session.Failure

/-!
# What the sinks have received has no influence

Nothing is read back from a sink. Two sessions whose sinks all work and that differ in their sinks
alone, be it in what these have received before, take the same calls in the same way
(`tracks_twinsSince`): they come back with the same replies, differ in nothing else again, and their
sinks have received the same on the way.
-/

namespace Rpn

namespace Session

/-- The session with other sinks. -/
def withSinks (s : Session) (out err : Sink) : Session := { s with out, err }

/-- The sessions differ in their sinks alone, and these work. -/
structure Twins (a b : Session) : Prop where
  same : b = a.withSinks b.out b.err
  works : a.SinksWork
  works' : b.SinksWork

/-- The sessions are twins, and on the way from `a₀` and `b₀` their sinks have received the same. -/
structure TwinsSince (a₀ b₀ a b : Session) : Prop extends Twins a b where
  out : ∃ bytes, a.out.received = a₀.out.received ++ bytes ∧
    b.out.received = b₀.out.received ++ bytes
  err : ∃ bytes, a.err.received = a₀.err.received ++ bytes ∧
    b.err.received = b₀.err.received ++ bytes

variable {a₀ b₀ a b : Session}

theorem Twins.since (twins : Twins a b) : TwinsSince a b a b :=
  ⟨twins, ⟨[], by simp⟩, ⟨[], by simp⟩⟩

/-- More may be written to the sinks of one of the two. -/
theorem Twins.withSinks (twins : Twins a b) {out err : Sink} (outWorks : out.Works)
    (errWorks : err.Works) : Twins a (b.withSinks out err) where
  same := by
    rw [twins.same]
    rfl
  works := twins.works
  works' := ⟨outWorks, errWorks⟩

theorem respond_withSinks (s : Session) (out err : Sink) (r : Response) :
    ((s.withSinks out err).respond r).1 =
      (s.respond r).1.withSinks ((s.withSinks out err).respond r).1.out
        ((s.withSinks out err).respond r).1.err := by
  cases r <;> rfl

/-- A response is carried out in the same way and makes the sinks receive the same. -/
theorem TwinsSince.respond (h : TwinsSince a₀ b₀ a b) (r : Response) :
    Matches (TwinsSince a₀ b₀) (a.respond r) (b.respond r) := by
  obtain ⟨bytes, outA, outB⟩ := h.out
  obtain ⟨bytes', errA, errB⟩ := h.err
  constructor
  · refine ⟨⟨?same, ?works, ?works'⟩, ?out, ?err⟩
    case same =>
      rw [h.same]
      exact respond_withSinks a b.out b.err r
    case works => exact h.works.respond r
    case works' => exact h.works'.respond r
    case out =>
      refine ⟨bytes ++ r.output, ?_, ?_⟩
      · rw [received_respond h.works.out, outA, List.append_assoc]
      · rw [received_respond h.works'.out, outB, List.append_assoc]
    case err =>
      refine ⟨bytes' ++ faultBytes r.faults, ?_, ?_⟩
      · rw [err_respond, h.works.err.received_report, errA, List.append_assoc]
      · rw [err_respond, h.works'.err.received_report, errB, List.append_assoc]
  · rw [respond_snd h.works.out, respond_snd h.works'.out]

/-- Twins take the same calls in the same way. -/
theorem tracks_twinsSince (a₀ b₀ : Session) : Tracks (TwinsSince a₀ b₀) where
  dictionary h := by rw [h.same]; rfl
  cursor h := by rw [h.same]; rfl
  flush h := by
    rw [flush_of_works h.works.out, flush_of_works h.works'.out]
    exact ⟨h, rfl⟩
  advance h := ⟨⟨by rw [h.same]; rfl, ⟨h.works.out, h.works.err⟩, ⟨h.works'.out, h.works'.err⟩⟩,
    h.out, h.err⟩
  enter text h := ⟨⟨by rw [h.same]; rfl, ⟨h.works.out, h.works.err⟩,
    ⟨h.works'.out, h.works'.err⟩⟩, h.out, h.err⟩
  leaf {a b} token h := by
    have response : b.response token = a.response token := by
      rw [h.same]
      rfl
    rw [leaf_eq_respond, leaf_eq_respond, response]
    exact h.respond _
  define {a b} definition h := by
    have dictionary : b.dictionary = a.dictionary := by
      rw [h.same]
      rfl
    obtain ⟨bytes, errA, errB⟩ := h.err
    let faults := (a.dictionary.afterDefinition definition).2
    constructor
    · rw [fst_define, fst_define, dictionary]
      refine ⟨⟨?same, ?works, ?works'⟩, ?out, ?err⟩
      case same =>
        rw [h.same]
        rfl
      case works => exact ⟨h.works.out, h.works.err.report _⟩
      case works' => exact ⟨h.works'.out, h.works'.err.report _⟩
      case out => exact h.out
      case err =>
        refine ⟨bytes ++ faultBytes faults, ?_, ?_⟩
        · rw [h.works.err.received_report, errA, List.append_assoc]
        · rw [h.works'.err.received_report, errB, List.append_assoc]
    · rw [snd_define, snd_define, dictionary]

end Session

end Rpn
