import Rpn.Proofs.Expansion.Forest
import Rpn.Proofs.Session.Sinks

/-!
# Evaluation as a sweep over an expansion

Tokens that expand finitely are evaluated by going through the nodes of their expansion in
post-order: a leaf is carried out, and the cursor moves on by one at every node. With this
the nesting of words is gone, and what holds of an evaluation is shown by induction on a
list (`evaluates_iff_sweep`, and `completes_iff_sweep` for a whole statement). Nothing is
assumed of the sinks for that; where they work, `quit` is the only leaf to stop a sweep.
-/

namespace Rpn

/-- What becomes of a session that goes through some nodes. -/
structure Sweep where
  trace : List Dispatch
  session : Session
  outcome : Except Fault Control

namespace Session

/-- Go through nodes in order, until a leaf does not let evaluation proceed. -/
def sweep : Session → List Node → Sweep
  | s, [] => ⟨[], s, .ok .proceed⟩
  | s, .word _ :: nodes => s.advance.sweep nodes
  | s, .leaf token :: nodes =>
    match s.leaf token with
    | (s₁, .ok .proceed) =>
      let later := s₁.advance.sweep nodes
      ⟨⟨s, token⟩ :: later.trace, later.session, later.outcome⟩
    | (s₁, outcome) => ⟨[⟨s, token⟩], s₁, outcome⟩

section Sweep

variable {s s₁ : Session} {token : String} {outcome : Except Fault Control}

@[simp] theorem sweep_nil (s : Session) : s.sweep [] = ⟨[], s, .ok .proceed⟩ := rfl

@[simp] theorem sweep_word (s : Session) (name : String) (nodes : List Node) :
    s.sweep (.word name :: nodes) = s.advance.sweep nodes := rfl

theorem sweep_leaf (ran : s.leaf token = (s₁, .ok .proceed)) (nodes : List Node) :
    s.sweep (.leaf token :: nodes) =
      ⟨⟨s, token⟩ :: (s₁.advance.sweep nodes).trace, (s₁.advance.sweep nodes).session,
        (s₁.advance.sweep nodes).outcome⟩ := by
  rw [sweep, ran]

theorem sweep_leaf_of_ne (ran : s.leaf token = (s₁, outcome)) (stops : outcome ≠ .ok .proceed)
    (nodes : List Node) : s.sweep (.leaf token :: nodes) = ⟨[⟨s, token⟩], s₁, outcome⟩ := by
  rw [sweep, ran]
  split
  · next same =>
    cases same
    exact absurd rfl stops
  · next same =>
    cases same
    rfl

@[simp] theorem sweep_quit (s : Session) (nodes : List Node) :
    s.sweep (.leaf Command.quit.name :: nodes) = ⟨[⟨s, Command.quit.name⟩], s, .ok .quit⟩ :=
  sweep_leaf_of_ne (leaf_quit s) (by simp) nodes

/-- As long as the output sink works, every leaf but `quit` lets evaluation proceed. -/
theorem sweep_leaf_of_works (works : s.out.Works) (goesOn : token ≠ Command.quit.name)
    (nodes : List Node) :
    s.sweep (.leaf token :: nodes) =
      ⟨⟨s, token⟩ :: ((s.leaf token).1.advance.sweep nodes).trace,
        ((s.leaf token).1.advance.sweep nodes).session,
        ((s.leaf token).1.advance.sweep nodes).outcome⟩ := by
  have proceeds := leaf_snd works token
  rw [if_neg goesOn] at proceeds
  exact sweep_leaf (Prod.ext rfl proceeds) nodes

/-- What is shown of a sweep is shown of a leaf that lets evaluation proceed, and of one
that does not. -/
theorem leaf_cases (s : Session) (token : String) :
    (∃ s₁, s.leaf token = (s₁, .ok .proceed)) ∨
      ∃ s₁ outcome, s.leaf token = (s₁, outcome) ∧ outcome ≠ .ok .proceed := by
  by_cases proceeds : (s.leaf token).2 = .ok .proceed
  · exact .inl ⟨(s.leaf token).1, Prod.ext rfl proceeds⟩
  · exact .inr ⟨_, _, rfl, proceeds⟩

theorem sweep_proceeds (works : s.out.Works) {nodes : List Node}
    (goesOn : Node.leaf Command.quit.name ∉ nodes) :
    (s.sweep nodes).outcome = .ok .proceed ∧ (s.sweep nodes).session.out.Works := by
  induction nodes generalizing s with
  | nil => exact ⟨rfl, works⟩
  | cons node nodes ih =>
    obtain ⟨here, later⟩ := List.ne_and_not_mem_of_not_mem_cons goesOn
    cases node with
    | word name => exact ih (s := s.advance) works later
    | leaf token =>
      have other : token ≠ Command.quit.name := fun same => here (congrArg Node.leaf same.symm)
      rw [sweep_leaf_of_works works other]
      exact ih (s := (s.leaf token).1.advance) (out_leaf_works works token) later

theorem sweep_append_of_proceed {nodes : List Node} (nodes' : List Node)
    (proceeds : (s.sweep nodes).outcome = .ok .proceed) :
    s.sweep (nodes ++ nodes') =
      ⟨(s.sweep nodes).trace ++ ((s.sweep nodes).session.sweep nodes').trace,
        ((s.sweep nodes).session.sweep nodes').session,
        ((s.sweep nodes).session.sweep nodes').outcome⟩ := by
  induction nodes generalizing s with
  | nil => rfl
  | cons node nodes ih =>
    cases node with
    | word name => exact ih proceeds
    | leaf token =>
      obtain ⟨s₁, ran⟩ | ⟨s₁, outcome, ran, stops⟩ := leaf_cases s token
      · rw [sweep_leaf ran] at proceeds
        rw [List.cons_append, sweep_leaf ran, sweep_leaf ran, ih proceeds]
        rfl
      · rw [sweep_leaf_of_ne ran stops] at proceeds
        exact absurd proceeds stops

theorem sweep_append_of_ne {nodes : List Node} (nodes' : List Node)
    (stops : (s.sweep nodes).outcome ≠ .ok .proceed) :
    s.sweep (nodes ++ nodes') = s.sweep nodes := by
  induction nodes generalizing s with
  | nil => exact absurd rfl stops
  | cons node nodes ih =>
    cases node with
    | word name => exact ih stops
    | leaf token =>
      obtain ⟨s₁, ran⟩ | ⟨s₁, outcome, ran, ends⟩ := leaf_cases s token
      · rw [sweep_leaf ran] at stops
        rw [List.cons_append, sweep_leaf ran, sweep_leaf ran, ih stops]
      · rw [List.cons_append, sweep_leaf_of_ne ran ends, sweep_leaf_of_ne ran ends]

/-- The cursor counts the nodes that are complete. -/
theorem cursor_sweep {nodes : List Node} (proceeds : (s.sweep nodes).outcome = .ok .proceed) :
    (s.sweep nodes).session.cursor = s.cursor + nodes.length := by
  induction nodes generalizing s with
  | nil => rfl
  | cons node nodes ih =>
    rw [List.length_cons]
    cases node with
    | word name =>
      have later := ih (s := s.advance) proceeds
      rw [sweep_word, later, cursor_advance]
      omega
    | leaf token =>
      obtain ⟨s₁, ran⟩ | ⟨s₁, outcome, ran, stops⟩ := leaf_cases s token
      · rw [sweep_leaf ran] at proceeds ⊢
        have kept : s₁.cursor = s.cursor := by rw [← cursor_leaf s token, ran]
        have later := ih (s := s₁.advance) proceeds
        rw [later, cursor_advance, kept]
        omega
      · rw [sweep_leaf_of_ne ran stops] at proceeds
        exact absurd proceeds stops

end Sweep

/-- A sweep over the expansion of tokens evaluates them. -/
theorem evaluates_sweep {s : Session} {e : Expansion} (follows : e.Follows s.dictionary) :
    Evaluates s e.roots (s.sweep e.postorder).trace (s.sweep e.postorder).session
      (s.sweep e.postorder).outcome := by
  induction e generalizing s with
  | nil => exact .nil s
  | leaf token rest ih =>
    obtain ⟨notWord, followsRest⟩ := follows
    obtain ⟨s₁, ran⟩ | ⟨s₁, outcome, ran, stops⟩ := leaf_cases s token
    · have kept : s₁.advance.dictionary = s.dictionary := by
        rw [dictionary_advance, dictionary_of_leaf s token ran]
      rw [Expansion.postorder, sweep_leaf ran]
      exact .leaf notWord ran (ih (kept ▸ followsRest))
    · rw [Expansion.postorder, sweep_leaf_of_ne ran stops]
      exact .leafStops notWord ran stops
  | word name body rest ihBody ihRest =>
    obtain ⟨isWord, followsBody, followsRest⟩ := follows
    have inside := ihBody followsBody
    by_cases proceeds : (s.sweep body.postorder).outcome = .ok .proceed
    · have kept : (s.sweep body.postorder).session.advance.dictionary = s.dictionary :=
        inside.dictionary_eq.1
      rw [Expansion.postorder, sweep_append_of_proceed _ proceeds, sweep_word]
      rw [proceeds] at inside
      exact .word isWord inside (ihRest (kept ▸ followsRest))
    · rw [Expansion.postorder, sweep_append_of_ne _ proceeds]
      exact .wordStops isWord inside proceeds

/-- Tokens that expand finitely are evaluated as by a sweep, and in no other way. -/
theorem evaluates_iff_sweep {s s' : Session} {names : List String} {e : Expansion}
    (expands : s.dictionary.Expands names e) {trace : List Dispatch}
    {outcome : Except Fault Control} :
    Evaluates s names trace s' outcome ↔ s.sweep e.postorder = ⟨trace, s', outcome⟩ := by
  obtain ⟨rfl, follows⟩ := expands
  have swept := evaluates_sweep follows
  constructor
  · intro evaluated
    obtain ⟨rfl, rfl, rfl⟩ := swept.deterministic evaluated
    rfl
  · intro same
    rwa [same] at swept

/-- What a statement does when its leading tokens expand finitely. -/
theorem completes_iff_sweep {s s' : Session} {text : String} {e : Expansion}
    (expands : s.dictionary.Expands (leadingTokens text) e) {trace : List Dispatch}
    {outcome : Except Fault Control} :
    s.Completes text trace s' outcome ↔
      ((s.enter text).sweep e.postorder).trace = trace ∧
        ((s.enter text).sweep e.postorder).session.conclude text
          ((s.enter text).sweep e.postorder).outcome = (s', outcome) := by
  rw [← dictionary_enter s text] at expands
  constructor
  · rintro ⟨s₁, inner, evaluated, concluded⟩
    rw [(evaluates_iff_sweep expands).mp evaluated]
    exact ⟨rfl, concluded⟩
  · rintro ⟨rfl, concluded⟩
    exact ⟨_, _, (evaluates_iff_sweep expands).mpr rfl, concluded⟩

theorem completes_sweep {s : Session} {text : String} {e : Expansion}
    (expands : s.dictionary.Expands (leadingTokens text) e) :
    let swept := (s.enter text).sweep e.postorder
    s.Completes text swept.trace (swept.session.conclude text swept.outcome).1
      (swept.session.conclude text swept.outcome).2 :=
  (completes_iff_sweep expands).mpr ⟨rfl, rfl⟩

end Session

end Rpn
