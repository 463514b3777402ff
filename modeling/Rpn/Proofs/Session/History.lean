import Rpn.Proofs.Session.Definition
import Rpn.Proofs.Session.Runs

/-!
# Histories

Some of what a session holds is changed by leaves alone, each leaf changing it by what it finds: no
definition does, nor do the going on to another statement and the end of one, however it ends. Such
a part of the session is a fold over the leaves that were met (`ChangesByLeaves.runs`). It is the
same for one statement and for a run of many calls, and at each leaf it is the fold over the leaves
before that one.
-/

namespace Rpn

namespace Session

variable {α : Type} {view : Session → α} {step : α → Dispatch → α}

/-- The `view` of a session is changed by leaves alone, as `step` says. -/
structure ChangesByLeaves (view : Session → α) (step : α → Dispatch → α) : Prop where
  enter : ∀ (s : Session) (text : String), view (s.enter text) = view s
  advance : ∀ s : Session, view s.advance = view s
  leaf : ∀ (s : Session) (token : String), view (s.leaf token).1 = step (view s) ⟨s, token⟩
  define : ∀ (s : Session) (definition : List String), view (s.define definition).1 = view s

/-- On the way from `s` to `s'` the leaves in `trace` account for the view, at the end and wherever
a leaf is met. -/
structure Recounts (view : Session → α) (step : α → Dispatch → α) (s : Session)
    (trace : List Dispatch) (s' : Session) : Prop where
  finish : view s' = trace.foldl step (view s)
  met : ∀ before d after, trace = before ++ d :: after →
    view d.session = before.foldl step (view s)

namespace Recounts

variable {s s₁ s₂ : Session} {trace trace' : List Dispatch}

theorem nil (same : view s₁ = view s) : Recounts view step s [] s₁ :=
  ⟨same, fun before d after split => absurd split.symm (by simp)⟩

theorem of_view_eq {s' : Session} (same : view s' = view s)
    (h : Recounts view step s' trace s₁) : Recounts view step s trace s₁ :=
  ⟨same ▸ h.finish, same ▸ h.met⟩

theorem append (first : Recounts view step s trace s₁) (later : Recounts view step s₁ trace' s₂) :
    Recounts view step s (trace ++ trace') s₂ := by
  constructor
  · rw [List.foldl_append, ← first.finish, later.finish]
  · intro before d after split
    obtain ⟨more, rfl, laterSplit⟩ | ⟨more, firstSplit, rest⟩ := List.append_eq_append_iff.mp split
    · rw [List.foldl_append, ← first.finish]
      exact later.met more d after laterSplit
    · cases more with
      | nil =>
        rw [List.append_nil] at firstSplit
        rw [← firstSplit, ← first.finish]
        exact later.met [] d after rest.symm
      | cons e more =>
        obtain ⟨rfl, -⟩ := List.cons.inj rest
        exact first.met before d more firstSplit

end Recounts

namespace ChangesByLeaves

variable {s s' : Session} {trace : List Dispatch}

theorem leafRecounts (h : ChangesByLeaves view step) (s : Session) (token : String) :
    Recounts view step s [⟨s, token⟩] (s.leaf token).1 := by
  refine ⟨h.leaf s token, ?_⟩
  intro before d after split
  cases before with
  | nil =>
    obtain ⟨rfl, -⟩ := List.cons.inj split
    rfl
  | cons _ before =>
    obtain ⟨-, none⟩ := List.cons.inj split
    exact absurd none.symm (by simp)

theorem evaluates (h : ChangesByLeaves view step) {names : List String}
    {outcome : Except Fault Control} (evaluated : Evaluates s names trace s' outcome) :
    Recounts view step s trace s' := by
  induction evaluated with
  | nil s => exact .nil rfl
  | @leaf s s₁ _ name _ _ _ _ ran _ ih =>
    have here := h.leafRecounts s name
    rw [ran] at here
    exact here.append (ih.of_view_eq (h.advance s₁))
  | @leafStops s _ name _ _ _ ran _ =>
    have here := h.leafRecounts s name
    rwa [ran] at here
  | @word _ s₁ _ _ _ _ _ _ _ _ _ _ ihInside ihAfter =>
    exact ihInside.append (ihAfter.of_view_eq (h.advance s₁))
  | wordStops _ _ _ ih => exact ih

theorem conclude (h : ChangesByLeaves view step) (s : Session) (text : String)
    (outcome : Except Fault Control) : view (s.conclude text outcome).1 = view s := by
  obtain ⟨-, stopped⟩ | ⟨-, -, defines⟩ | ⟨-, -, flushes⟩ := conclude_cases text outcome
  · rw [stopped]
  · rw [defines]
    exact h.define s _
  · rw [flushes]
    rfl

theorem completes (h : ChangesByLeaves view step) {text : String} {outcome : Except Fault Control}
    (completed : s.Completes text trace s' outcome) : Recounts view step s trace s' := by
  obtain ⟨s₁, inner, evaluated, concluded⟩ := completed
  have last := h.conclude s₁ text inner
  rw [concluded] at last
  have recounts := (h.evaluates evaluated).of_view_eq (h.enter s text)
  exact ⟨last.trans recounts.finish, recounts.met⟩

theorem defineLines (h : ChangesByLeaves view step) (s : Session) (lines : List String) :
    view (s.defineLines lines).1 = view s := by
  induction lines generalizing s with
  | nil => rfl
  | cons line rest ih => exact (ih _).trans (h.define s (lineDefinition line))

theorem load (h : ChangesByLeaves view step) (s : Session)
    (content : Except String ByteArray) : view (s.load content).1 = view s := by
  rw [Session.load]
  split
  · rfl
  · exact h.defineLines s _

theorem takes (h : ChangesByLeaves view step) {call : Call} (taken : s.Takes call trace s') :
    Recounts view step s trace s' := by
  cases taken with
  | evaluate completed => exact h.completes completed
  | define definition => exact .nil (h.define s definition)
  | defineLines lines => exact .nil (h.defineLines s lines)
  | load content => exact .nil (h.load s content)

/-- Over a run the view is a fold over the leaves of all calls. -/
theorem runs (h : ChangesByLeaves view step) {calls : List Call} (run : s.Runs calls trace s') :
    Recounts view step s trace s' := by
  induction run with
  | nil s => exact .nil rfl
  | cons first _ ih => exact (h.takes first).append ih

end ChangesByLeaves

end Session

end Rpn
