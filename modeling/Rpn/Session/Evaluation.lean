import Rpn.Session.Basic

/-!
# Evaluation

A statement is evaluated token by token. A word stands for the tokens of its body, which
are evaluated in its place and may be words again. What is left of a list of tokens while
the body of one of them is evaluated waits on a list of its own, so that words may nest
as deeply as they like.

A word that leads back to itself may go on for ever, unless a failing sink or a command
to quit ends it. Evaluation is therefore given a number of steps, and `none` says that
they were used up, which is neither success nor a fault. A result other than `none` does
not change with more steps, so a statement is said to terminate when some number of steps
gives it a result.

Evaluation goes from token to token in the same way whatever a token that is not a word
does. `resumeBy` and `statementBy` leave that open; a session by itself does what
`Session.leaf` says.
-/

namespace Rpn

/-- The tokens of a statement. An empty statement has one empty token. -/
def tokens (statement : String) : List String :=
  (spaceSeparated (trim statement.toList)).map String.ofList

theorem tokens_ne_nil (statement : String) : tokens statement ≠ [] := by
  rw [tokens, Ne, List.map_eq_nil_iff]
  exact List.splitOn_ne_nil _ _

/-- The tokens of a statement that stand before its first marker. -/
def leadingTokens (statement : String) : List String :=
  (tokens statement).takeWhile (· != definitionMarker)

theorem definitionMarker_not_mem_leadingTokens (statement : String) :
    definitionMarker ∉ leadingTokens statement := by
  intro member
  have all : (leadingTokens statement).all (· != definitionMarker) = true := List.all_takeWhile
  have unmarked := List.all_eq_true.mp all definitionMarker member
  simp at unmarked

theorem leadingTokens_of_not_mem {statement : String}
    (unmarked : definitionMarker ∉ tokens statement) :
    leadingTokens statement = tokens statement := by
  have all : ∀ token ∈ tokens statement, (token != definitionMarker) = true :=
    fun token member => bne_iff_ne.mpr fun same => unmarked (same ▸ member)
  have appended : (tokens statement ++ []).takeWhile (· != definitionMarker) = _ :=
    List.takeWhile_append_of_pos all
  rwa [List.append_nil, List.takeWhile_nil, List.append_nil] at appended

namespace Session

/-- Evaluate tokens in order and then those that wait, the nearest first, until one does
not let evaluation proceed. A token that is not a word is evaluated by `leaf`. The cursor
moves on after each such token, and past a word when its body is done with. -/
def resumeBy (leaf : Session → String → Session × Except Fault Control) :
    (steps : Nat) → Session → (names : List String) → (waiting : List (List String)) →
      Option (Session × Except Fault Control)
  | _, s, [], [] => some (s, .ok .proceed)
  | 0, _, _, _ => none
  | steps + 1, s, [], rest :: waiting => resumeBy leaf steps s.advance rest waiting
  | steps + 1, s, name :: rest, waiting =>
    match s.dictionary.get? name with
    | some body => resumeBy leaf steps s body (rest :: waiting)
    | none =>
      match leaf s name with
      | (s, .ok .proceed) => resumeBy leaf steps s.advance rest waiting
      | stopped => some stopped

/-- Evaluate tokens in a session by itself. -/
def resume (steps : Nat) (s : Session) (names : List String) (waiting : List (List String)) :
    Option (Session × Except Fault Control) :=
  resumeBy leaf steps s names waiting

/-- The session at the start of a statement. -/
def enter (s : Session) (text : String) : Session :=
  { s with length := (tokens text).length, cursor := 0 }

/-- What a statement does once its leading tokens have been evaluated with an outcome.

A marker starts a definition. What is defined starts at the cursor: the words before the
marker have moved it on, perhaps past the marker and perhaps past the end. Without a
marker the output is flushed. -/
def conclude (s : Session) (text : String) :
    Except Fault Control → Session × Except Fault Control
  | .ok .proceed =>
    if (leadingTokens text).length = (tokens text).length then s.flush
    else ((s.define ((tokens text).drop s.cursor)).1, .ok .proceed)
  | stopped => (s, stopped)

/-- Evaluate a statement in a number of steps: its leading tokens, and then what the first
marker or the end of the statement asks for. -/
def statementBy (leaf : Session → String → Session × Except Fault Control) (steps : Nat)
    (s : Session) (text : String) : Option (Session × Except Fault Control) :=
  (resumeBy leaf steps (s.enter text) (leadingTokens text) []).map fun (s, outcome) =>
    s.conclude text outcome

/-- Evaluate a statement in a session by itself. -/
def statement (steps : Nat) (s : Session) (text : String) :
    Option (Session × Except Fault Control) :=
  statementBy leaf steps s text

/-- How many steps a statement has in a running program. -/
def stepLimit : Nat := 100000000

/-- Evaluate a statement. -/
def run? (s : Session) (text : String) : Option (Session × Except Fault Control) :=
  s.statement stepLimit text

section By

variable {leaf : Session → String → Session × Except Fault Control} {s s₁ : Session}
  {name : String}

theorem resumeBy_nil (steps : Nat) (s : Session) :
    resumeBy leaf steps s [] [] = some (s, .ok .proceed) := by
  cases steps <;> rfl

theorem resumeBy_cons (steps : Nat) (s : Session) (name : String) (rest : List String)
    (waiting : List (List String)) :
    resumeBy leaf (steps + 1) s (name :: rest) waiting =
      match s.dictionary.get? name with
      | some body => resumeBy leaf steps s body (rest :: waiting)
      | none =>
        match leaf s name with
        | (s, .ok .proceed) => resumeBy leaf steps s.advance rest waiting
        | stopped => some stopped := rfl

theorem resumeBy_word {body : List String} (isWord : s.dictionary.get? name = some body)
    (steps : Nat) (rest : List String) (waiting : List (List String)) :
    resumeBy leaf (steps + 1) s (name :: rest) waiting =
      resumeBy leaf steps s body (rest :: waiting) := by
  rw [resumeBy_cons, isWord]

theorem resumeBy_leaf (notWord : s.dictionary.get? name = none)
    (ran : leaf s name = (s₁, .ok .proceed)) (steps : Nat) (rest : List String)
    (waiting : List (List String)) :
    resumeBy leaf (steps + 1) s (name :: rest) waiting =
      resumeBy leaf steps s₁.advance rest waiting := by
  rw [resumeBy_cons, notWord, ran]

theorem resumeBy_leaf_of_ne {outcome : Except Fault Control}
    (notWord : s.dictionary.get? name = none) (ran : leaf s name = (s₁, outcome))
    (stops : outcome ≠ .ok .proceed) (steps : Nat) (rest : List String)
    (waiting : List (List String)) :
    resumeBy leaf (steps + 1) s (name :: rest) waiting = some (s₁, outcome) := by
  rw [resumeBy_cons, notWord, ran]
  dsimp only
  split
  · next same =>
    cases same
    exact absurd rfl stops
  · rfl

/-- One step more does not change a result. -/
theorem resumeBy_succ {steps : Nat} {s : Session} {names : List String}
    {waiting : List (List String)} {r : Session × Except Fault Control}
    (result : resumeBy leaf steps s names waiting = some r) :
    resumeBy leaf (steps + 1) s names waiting = some r := by
  induction steps generalizing s names waiting with
  | zero =>
    match names, waiting with
    | [], [] => exact result
    | [], _ :: _ => cases result
    | _ :: _, _ => cases result
  | succ steps ih =>
    match names, waiting with
    | [], [] => exact result
    | [], rest :: waiting => exact ih result
    | name :: rest, waiting =>
      rw [resumeBy_cons] at result ⊢
      cases found : s.dictionary.get? name with
      | some body =>
        rw [found] at result
        exact ih result
      | none =>
        rw [found] at result
        dsimp only at result ⊢
        split at result
        · exact ih result
        · exact result

/-- A result does not depend on the number of steps. -/
theorem resumeBy_mono {steps steps' : Nat} (h : steps ≤ steps') {s : Session}
    {names : List String} {waiting : List (List String)} {r : Session × Except Fault Control}
    (result : resumeBy leaf steps s names waiting = some r) :
    resumeBy leaf steps' s names waiting = some r := by
  induction h with
  | refl => exact result
  | step _ ih => exact resumeBy_succ ih

/-- The result of a statement does not depend on the number of steps. -/
theorem statementBy_mono {steps steps' : Nat} (h : steps ≤ steps') {s : Session} {text : String}
    {r : Session × Except Fault Control} (result : statementBy leaf steps s text = some r) :
    statementBy leaf steps' s text = some r := by
  obtain ⟨finished, reached, concluded⟩ := Option.map_eq_some_iff.mp result
  exact Option.map_eq_some_iff.mpr ⟨finished, resumeBy_mono h reached, concluded⟩

end By

section Alone

variable {s s₁ : Session} {name : String}

@[simp] theorem resume_nil (steps : Nat) (s : Session) :
    resume steps s [] [] = some (s, .ok .proceed) := resumeBy_nil steps s

theorem resume_return (steps : Nat) (s : Session) (rest : List String)
    (waiting : List (List String)) :
    resume (steps + 1) s [] (rest :: waiting) = resume steps s.advance rest waiting := rfl

theorem resume_cons (steps : Nat) (s : Session) (name : String) (rest : List String)
    (waiting : List (List String)) :
    resume (steps + 1) s (name :: rest) waiting =
      match s.dictionary.get? name with
      | some body => resume steps s body (rest :: waiting)
      | none =>
        match s.leaf name with
        | (s, .ok .proceed) => resume steps s.advance rest waiting
        | stopped => some stopped := rfl

theorem resume_word {body : List String} (isWord : s.dictionary.get? name = some body) (steps : Nat)
    (rest : List String) (waiting : List (List String)) :
    resume (steps + 1) s (name :: rest) waiting = resume steps s body (rest :: waiting) :=
  resumeBy_word isWord steps rest waiting

theorem resume_leaf (notWord : s.dictionary.get? name = none)
    (ran : s.leaf name = (s₁, .ok .proceed)) (steps : Nat) (rest : List String)
    (waiting : List (List String)) :
    resume (steps + 1) s (name :: rest) waiting = resume steps s₁.advance rest waiting :=
  resumeBy_leaf notWord ran steps rest waiting

theorem resume_leaf_of_ne {outcome : Except Fault Control} (notWord : s.dictionary.get? name = none)
    (ran : s.leaf name = (s₁, outcome)) (stops : outcome ≠ .ok .proceed) (steps : Nat)
    (rest : List String) (waiting : List (List String)) :
    resume (steps + 1) s (name :: rest) waiting = some (s₁, outcome) :=
  resumeBy_leaf_of_ne notWord ran stops steps rest waiting

theorem statement_eq (steps : Nat) (s : Session) (text : String) :
    s.statement steps text =
      (resume steps (s.enter text) (leadingTokens text) []).map fun (s, outcome) =>
        s.conclude text outcome := rfl

/-- The result of a statement does not depend on the number of steps. -/
theorem statement_mono {steps steps' : Nat} (h : steps ≤ steps') {text : String}
    {r : Session × Except Fault Control} (result : s.statement steps text = some r) :
    s.statement steps' text = some r :=
  statementBy_mono h result

end Alone

section Statement

variable (s : Session) (text : String)

@[simp] theorem stack_enter : (s.enter text).stack = s.stack := rfl

@[simp] theorem dictionary_enter : (s.enter text).dictionary = s.dictionary := rfl

@[simp] theorem length_enter : (s.enter text).length = (tokens text).length := rfl

@[simp] theorem cursor_enter : (s.enter text).cursor = 0 := rfl

@[simp] theorem out_enter : (s.enter text).out = s.out := rfl

@[simp] theorem err_enter : (s.enter text).err = s.err := rfl

@[simp] theorem functions_enter : (s.enter text).functions = s.functions := rfl

theorem conclude_of_ne {outcome : Except Fault Control} (stops : outcome ≠ .ok .proceed) :
    s.conclude text outcome = (s, outcome) := by
  unfold conclude
  split
  · exact absurd rfl stops
  · rfl

theorem conclude_of_mem (marked : definitionMarker ∈ tokens text) :
    s.conclude text (.ok .proceed) =
      ((s.define ((tokens text).drop s.cursor)).1, .ok .proceed) := by
  have shorter : (leadingTokens text).length ≠ (tokens text).length := by
    intro same
    have whole : leadingTokens text = tokens text :=
      (List.takeWhile_prefix _).eq_of_length same
    exact definitionMarker_not_mem_leadingTokens text (whole ▸ marked)
  exact if_neg shorter

theorem conclude_of_not_mem (unmarked : definitionMarker ∉ tokens text) :
    s.conclude text (.ok .proceed) = s.flush :=
  if_pos (congrArg List.length (leadingTokens_of_not_mem unmarked))

end Statement

/-- A statement is concluded by what has stopped it, by a definition or by handing its output on,
and its text and outcome tell by which of them. -/
theorem conclude_cases (text : String) (outcome : Except Fault Control) :
    (outcome ≠ .ok .proceed ∧ ∀ s : Session, s.conclude text outcome = (s, outcome)) ∨
      (outcome = .ok .proceed ∧ definitionMarker ∈ tokens text ∧
        ∀ s : Session, s.conclude text outcome =
          ((s.define ((tokens text).drop s.cursor)).1, .ok .proceed)) ∨
      (outcome = .ok .proceed ∧ definitionMarker ∉ tokens text ∧
        ∀ s : Session, s.conclude text outcome = s.flush) := by
  by_cases proceeds : outcome = .ok .proceed
  · subst proceeds
    by_cases marked : definitionMarker ∈ tokens text
    · exact .inr (.inl ⟨rfl, marked, fun s => conclude_of_mem s text marked⟩)
    · exact .inr (.inr ⟨rfl, marked, fun s => conclude_of_not_mem s text marked⟩)
  · exact .inl ⟨proceeds, fun s => conclude_of_ne s text proceeds⟩

end Session

end Rpn
