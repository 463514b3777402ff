import Mathlib.Data.List.Forall2
import Rpn.Proofs.Session.Definition
import Rpn.Proofs.Session.Runs

/-!
# Two sessions side by side

Two sessions are compared through a relation between them. If every leaf keeps the relation and
ends in the same way on both sides, evaluation does so too, step by step (`InStep.resume`), and if
definitions keep it as well, then so do all calls that a session takes (`Tracks.performAll`).

The sessions may also part: a leaf that goes through on one side may stop evaluation on the other.
`Evaluates.keeps_or_parts` says that this is then all that can happen. Either the relation is kept
to the end, or there is a first leaf at which the second side stops, and up to there the two have
met the same leaves. Where only leaves of some kind keep the relation, it is kept by evaluations
that meet no others (`Evaluates.keeps_where`).
-/

namespace Rpn

section Results

variable {α β γ δ : Type} {P : α → β → Prop} {Q : γ → δ → Prop} {x : Option α} {y : Option β}

theorem rel_imp {P' : α → β → Prop} (matched : Option.Rel P x y)
    (imp : ∀ a b, P a b → P' a b) : Option.Rel P' x y := by
  cases matched with
  | none => exact .none
  | some h => exact .some (imp _ _ h)

theorem rel_map {f : α → γ} {g : β → δ} (matched : Option.Rel P x y)
    (next : ∀ a b, P a b → Q (f a) (g b)) : Option.Rel Q (x.map f) (y.map g) := by
  cases matched with
  | none => exact .none
  | some h => exact .some (next _ _ h)

theorem rel_bind {f : α → Option γ} {g : β → Option δ} (matched : Option.Rel P x y)
    (next : ∀ a b, P a b → Option.Rel Q (f a) (g b)) : Option.Rel Q (x.bind f) (y.bind g) := by
  cases matched with
  | none => exact .none
  | some h => exact next _ _ h

end Results

namespace Session

/-- The sessions are related and come with the same result. -/
def Matches {α : Type} (R : Session → Session → Prop) (x y : Session × α) : Prop :=
  R x.1 y.1 ∧ y.2 = x.2

variable {R : Session → Session → Prop}

/-- Sessions that are related evaluate tokens in the same way and stay related. -/
structure InStep (R : Session → Session → Prop) : Prop where
  dictionary : ∀ {a b}, R a b → b.dictionary = a.dictionary
  advance : ∀ {a b}, R a b → R a.advance b.advance
  leaf : ∀ {a b} (token : String), R a b → Matches R (a.leaf token) (b.leaf token)

theorem InStep.resume (inStep : InStep R) {a b : Session} (start : R a b) (steps : Nat)
    (names : List String) (waiting : List (List String)) :
    Option.Rel (Matches R) (resume steps a names waiting) (resume steps b names waiting) := by
  induction steps generalizing a b names waiting with
  | zero =>
    match names, waiting with
    | [], [] => exact .some ⟨start, rfl⟩
    | [], _ :: _ => exact .none
    | _ :: _, _ => exact .none
  | succ steps ih =>
    match names, waiting with
    | [], [] => exact .some ⟨start, rfl⟩
    | [], rest :: waiting => exact ih (inStep.advance start) rest waiting
    | name :: rest, waiting =>
      rw [resume_cons, resume_cons, inStep.dictionary start]
      cases a.dictionary.get? name with
      | some body => exact ih start body (rest :: waiting)
      | none =>
        have matched := inStep.leaf name start
        generalize a.leaf name = x at matched ⊢
        generalize b.leaf name = y at matched ⊢
        obtain ⟨a₁, outcome⟩ := x
        obtain ⟨b₁, outcome'⟩ := y
        obtain ⟨related, same⟩ := matched
        obtain rfl : outcome' = outcome := same
        match outcome' with
        | .ok .proceed => exact ih (inStep.advance related) rest waiting
        | .ok .quit => exact .some ⟨related, rfl⟩
        | .error fault => exact .some ⟨related, rfl⟩

/-- Sessions that are related take calls in the same way and stay related. -/
structure Tracks (R : Session → Session → Prop) : Prop extends InStep R where
  cursor : ∀ {a b}, R a b → b.cursor = a.cursor
  flush : ∀ {a b}, R a b → Matches R a.flush b.flush
  enter : ∀ {a b} (text : String), R a b → R (a.enter text) (b.enter text)
  define : ∀ {a b} (definition : List String), R a b →
    Matches R (a.define definition) (b.define definition)

namespace Tracks

variable {a b : Session} (tracks : Tracks R)

include tracks

theorem conclude (start : R a b) (text : String) (outcome : Except Fault Control) :
    Matches R (a.conclude text outcome) (b.conclude text outcome) := by
  obtain ⟨-, stopped⟩ | ⟨-, -, defines⟩ | ⟨-, -, flushes⟩ := conclude_cases text outcome
  · rw [stopped, stopped]
    exact ⟨start, rfl⟩
  · rw [defines, defines, tracks.cursor start]
    exact ⟨(tracks.define _ start).1, rfl⟩
  · rw [flushes, flushes]
    exact tracks.flush start

theorem statement (start : R a b) (steps : Nat) (text : String) :
    Option.Rel (Matches R) (a.statement steps text) (b.statement steps text) := by
  refine rel_map (tracks.resume (tracks.enter text start) steps (leadingTokens text) []) ?_
  rintro ⟨a₁, outcome⟩ ⟨b₁, outcome'⟩ ⟨related, same⟩
  obtain rfl : outcome' = outcome := same
  exact tracks.conclude related text outcome'

theorem defineLines (start : R a b) (lines : List String) :
    Matches R (a.defineLines lines) (b.defineLines lines) := by
  induction lines generalizing a b with
  | nil => exact ⟨start, rfl⟩
  | cons line rest ih =>
    obtain ⟨related, same⟩ := tracks.define (lineDefinition line) start
    obtain ⟨finish, sameLater⟩ := ih related
    rw [defineLines_cons, defineLines_cons]
    exact ⟨finish, congrArg₂ (· && ·) same sameLater⟩

theorem load (start : R a b) (content : Except String ByteArray) :
    Matches R (a.load content) (b.load content) := by
  rw [Session.load, Session.load]
  cases decodeContent content with
  | error fault => exact ⟨start, rfl⟩
  | ok text =>
    obtain ⟨finish, same⟩ := tracks.defineLines start (textLines text)
    exact ⟨finish, congrArg Except.ok same⟩

theorem perform (start : R a b) (steps : Nat) (call : Call) :
    Option.Rel (Matches R) (a.perform steps call) (b.perform steps call) := by
  cases call with
  | evaluate text =>
    refine rel_map (tracks.statement start steps text) ?_
    exact fun _ _ matched => ⟨matched.1, congrArg Reply.ended matched.2⟩
  | define definition =>
    obtain ⟨related, same⟩ := tracks.define definition start
    exact .some ⟨related, congrArg Reply.accepted same⟩
  | defineLines lines =>
    obtain ⟨related, same⟩ := tracks.defineLines start lines
    exact .some ⟨related, congrArg Reply.accepted same⟩
  | load content =>
    obtain ⟨related, same⟩ := tracks.load start content
    exact .some ⟨related, congrArg Reply.loaded same⟩

/-- After every call the sessions are related and the replies are the same. -/
theorem performAll (start : R a b) (steps : Nat) (calls : List Call) :
    Option.Rel (List.Forall₂ (Matches R)) (a.performAll steps calls)
      (b.performAll steps calls) := by
  induction calls generalizing a b with
  | nil => exact .some .nil
  | cons call rest ih =>
    refine rel_bind (tracks.perform start steps call) ?_
    intro r r' matched
    refine rel_map (ih matched.1) ?_
    exact fun _ _ later => .cons matched later

end Tracks

/-- The second side, starting in `b`, has met leaves like those in `before` and then stopped at the
leaf `d` of the first side, having come to the session `e`. -/
structure PartsAt (R : Session → Session → Prop) (Q : Session → Session → String → Prop)
    (b : Session) (names : List String) (before : List Dispatch) (d : Dispatch) (e : Session) :
    Prop where
  related : R d.session e
  stops : Q d.session e d.token
  evaluates : ∃ trace, Evaluates b names trace (e.leaf d.token).1 (e.leaf d.token).2 ∧
    trace.map Dispatch.token = (before ++ [d]).map Dispatch.token

section Parting

variable {Q : Session → Session → String → Prop} {a a' b b₁ : Session} {name : String}
  {rest body : List String} {trace before : List Dispatch} {d : Dispatch} {e : Session}
  {outcome : Except Fault Control}

theorem PartsAt.afterLeaf (parts : PartsAt R Q b₁.advance rest before d e)
    (notWord : b.dictionary.get? name = none) (ran : b.leaf name = (b₁, .ok .proceed)) :
    PartsAt R Q b (name :: rest) (⟨a, name⟩ :: before) d e := by
  obtain ⟨trace', later, tokens⟩ := parts.evaluates
  exact ⟨parts.related, parts.stops, ⟨b, name⟩ :: trace', .leaf notWord ran later,
    congrArg (name :: ·) tokens⟩

theorem PartsAt.afterWord {trace' : List Dispatch} (parts : PartsAt R Q b₁.advance rest before d e)
    (isWord : b.dictionary.get? name = some body)
    (inside : Evaluates b body trace' b₁ (.ok .proceed))
    (same : trace'.map Dispatch.token = trace.map Dispatch.token) :
    PartsAt R Q b (name :: rest) (trace ++ before) d e := by
  obtain ⟨later, evaluated, tokens⟩ := parts.evaluates
  refine ⟨parts.related, parts.stops, trace' ++ later, .word isWord inside evaluated, ?_⟩
  rw [List.map_append, same, tokens, ← List.map_append, List.append_assoc]

theorem PartsAt.insideWord (parts : PartsAt R Q b body before d e)
    (isWord : b.dictionary.get? name = some body) (ends : (e.leaf d.token).2 ≠ .ok .proceed) :
    PartsAt R Q b (name :: rest) before d e := by
  obtain ⟨trace', inside, tokens⟩ := parts.evaluates
  exact ⟨parts.related, parts.stops, trace', .wordStops isWord inside ends, tokens⟩

/-- If a leaf keeps the relation unless the second side stops, then evaluation keeps it to its end,
or the second side has stopped at one of the leaves. -/
theorem Evaluates.keeps_or_parts
    (dictionary : ∀ {a b}, R a b → b.dictionary = a.dictionary)
    (advance : ∀ {a b}, R a b → R a.advance b.advance)
    (leaf : ∀ {a b} (token : String), R a b →
      Matches R (a.leaf token) (b.leaf token) ∨ Q a b token)
    (stops : ∀ {a b} {token : String}, Q a b token → (b.leaf token).2 ≠ .ok .proceed)
    {names : List String} (h : Evaluates a names trace a' outcome) (start : R a b) :
    (∃ trace' b', Evaluates b names trace' b' outcome ∧ R a' b' ∧
      trace'.map Dispatch.token = trace.map Dispatch.token) ∨
    ∃ before d after e, trace = before ++ d :: after ∧ PartsAt R Q b names before d e := by
  induction h generalizing b with
  | nil s => exact .inl ⟨[], b, .nil b, start, rfl⟩
  | @leaf s s₁ _ name rest trace _ notWord ran _ ih =>
    rw [← dictionary start] at notWord
    obtain matched | parted := leaf name start
    · rw [ran] at matched
      have ran' : b.leaf name = ((b.leaf name).1, .ok .proceed) := Prod.ext rfl matched.2
      obtain ⟨trace', b', later, finish, tokens⟩ | ⟨before, d, after, e, split, parts⟩ :=
        ih (advance matched.1)
      · exact .inl ⟨⟨b, name⟩ :: trace', b', .leaf notWord ran' later, finish,
          congrArg (name :: ·) tokens⟩
      · exact .inr ⟨⟨s, name⟩ :: before, d, after, e, congrArg (⟨s, name⟩ :: ·) split,
          parts.afterLeaf notWord ran'⟩
    · exact .inr ⟨[], ⟨s, name⟩, trace, b, rfl, start, parted, [⟨b, name⟩],
        .leafStops notWord rfl (stops parted), rfl⟩
  | @leafStops s s₁ name rest outcome notWord ran ends =>
    rw [← dictionary start] at notWord
    obtain matched | parted := leaf name start
    · rw [ran] at matched
      have ran' : b.leaf name = ((b.leaf name).1, outcome) := Prod.ext rfl matched.2
      exact .inl ⟨[⟨b, name⟩], _, .leafStops notWord ran' ends, matched.1, rfl⟩
    · exact .inr ⟨[], ⟨s, name⟩, [], b, rfl, start, parted, [⟨b, name⟩],
        .leafStops notWord rfl (stops parted), rfl⟩
  | @word s s₁ s₂ name body rest trace trace' outcome isWord _ _ ihInside ihAfter =>
    rw [← dictionary start] at isWord
    obtain ⟨inner, b₁, inside, returned, same⟩ | ⟨before, d, after, e, split, parts⟩ :=
      ihInside start
    · obtain ⟨later, b', evaluated, finish, tokens⟩ | ⟨before, d, after, e, split, parts⟩ :=
        ihAfter (advance returned)
      · refine .inl ⟨inner ++ later, b', .word isWord inside evaluated, finish, ?_⟩
        rw [List.map_append, List.map_append, same, tokens]
      · refine .inr ⟨trace ++ before, d, after, e, ?_, parts.afterWord isWord inside same⟩
        rw [split, List.append_assoc]
    · refine .inr ⟨before, d, after ++ trace', e, ?_, parts.insideWord isWord (stops parts.stops)⟩
      rw [split, List.append_assoc, List.cons_append]
  | wordStops isWord _ ends ih =>
    rw [← dictionary start] at isWord
    obtain ⟨inner, b₁, inside, returned, same⟩ | ⟨before, d, after, e, split, parts⟩ := ih start
    · exact .inl ⟨inner, b₁, .wordStops isWord inside ends, returned, same⟩
    · exact .inr ⟨before, d, after, e, split, parts.insideWord isWord (stops parts.stops)⟩

end Parting

/-- If a leaf keeps the relation where the first side has the property `P`, and the first side has
it at every leaf that it meets, then the second side evaluates the same tokens with the same outcome
and the relation is kept. -/
theorem Evaluates.keeps_where {P : Dispatch → Prop}
    (dictionary : ∀ {a b}, R a b → b.dictionary = a.dictionary)
    (advance : ∀ {a b}, R a b → R a.advance b.advance)
    (leaf : ∀ {a b} (token : String), P ⟨a, token⟩ → R a b →
      Matches R (a.leaf token) (b.leaf token))
    {a a' b : Session} {names : List String} {trace : List Dispatch}
    {outcome : Except Fault Control} (h : Evaluates a names trace a' outcome)
    (met : ∀ d ∈ trace, P d) (start : R a b) :
    ∃ trace' b', Evaluates b names trace' b' outcome ∧ R a' b' := by
  induction h generalizing b with
  | nil s => exact ⟨[], b, .nil b, start⟩
  | @leaf s s₁ _ name _ _ _ notWord ran _ ih =>
    rw [← dictionary start] at notWord
    obtain ⟨here, later⟩ := List.forall_mem_cons.mp met
    have matched := leaf name here start
    rw [ran] at matched
    have ran' : b.leaf name = ((b.leaf name).1, .ok .proceed) := Prod.ext rfl matched.2
    obtain ⟨_, b', after, finish⟩ := ih later (advance matched.1)
    exact ⟨_, b', .leaf notWord ran' after, finish⟩
  | @leafStops s s₁ name _ outcome notWord ran ends =>
    rw [← dictionary start] at notWord
    have matched := leaf name (met _ (List.mem_singleton_self _)) start
    rw [ran] at matched
    have ran' : b.leaf name = ((b.leaf name).1, outcome) := Prod.ext rfl matched.2
    exact ⟨_, _, .leafStops notWord ran' ends, matched.1⟩
  | word isWord _ _ ihInside ihAfter =>
    rw [← dictionary start] at isWord
    obtain ⟨metInside, metAfter⟩ := List.forall_mem_append.mp met
    obtain ⟨_, b₁, inside, returned⟩ := ihInside metInside start
    obtain ⟨_, b', after, finish⟩ := ihAfter metAfter (advance returned)
    exact ⟨_, b', .word isWord inside after, finish⟩
  | wordStops isWord _ ends ih =>
    rw [← dictionary start] at isWord
    obtain ⟨_, b', inside, finish⟩ := ih met start
    exact ⟨_, b', .wordStops isWord inside ends, finish⟩

end Session

end Rpn
