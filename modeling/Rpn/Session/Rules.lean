import Rpn.Session.Evaluation

/-!
# The rules of evaluation

`Evaluates` says by rules what tokens do to a session, without steps and without a list
of what waits: a word is evaluated by evaluating its body. The rules also keep a record
of the leaves that are met, each with the session it is evaluated in; the record takes no
part in evaluation and is there to reason with.

Evaluation in steps gives a result exactly when the rules give it (`exists_resume_iff`,
and `exists_statement_iff` for a whole statement), so what is shown by induction on the
rules holds of every statement that terminates. Where leaves are evaluated in another way
that keeps a relation to the rules, evaluation in steps keeps it too
(`Evaluates.mirrored`).
-/

namespace Rpn

/-- A token that is not a word, and the session that it is evaluated in. -/
structure Dispatch where
  session : Session
  token : String

namespace Session

/-- `Evaluates s names trace s' outcome`: the tokens take the session `s` to `s'`, and
evaluation ends there with `outcome`, having met the leaves in `trace`. -/
inductive Evaluates :
    Session → List String → List Dispatch → Session → Except Fault Control → Prop where
  | nil (s : Session) : Evaluates s [] [] s (.ok .proceed)
  | leaf {s s₁ s₂ : Session} {name : String} {rest : List String} {trace : List Dispatch}
      {outcome : Except Fault Control} (notWord : s.dictionary.get? name = none)
      (ran : s.leaf name = (s₁, .ok .proceed))
      (after : Evaluates s₁.advance rest trace s₂ outcome) :
      Evaluates s (name :: rest) (⟨s, name⟩ :: trace) s₂ outcome
  | leafStops {s s₁ : Session} {name : String} {rest : List String}
      {outcome : Except Fault Control} (notWord : s.dictionary.get? name = none)
      (ran : s.leaf name = (s₁, outcome)) (stops : outcome ≠ .ok .proceed) :
      Evaluates s (name :: rest) [⟨s, name⟩] s₁ outcome
  | word {s s₁ s₂ : Session} {name : String} {body rest : List String}
      {trace trace' : List Dispatch} {outcome : Except Fault Control}
      (isWord : s.dictionary.get? name = some body)
      (inside : Evaluates s body trace s₁ (.ok .proceed))
      (after : Evaluates s₁.advance rest trace' s₂ outcome) :
      Evaluates s (name :: rest) (trace ++ trace') s₂ outcome
  | wordStops {s s₁ : Session} {name : String} {body rest : List String}
      {trace : List Dispatch} {outcome : Except Fault Control}
      (isWord : s.dictionary.get? name = some body)
      (inside : Evaluates s body trace s₁ outcome) (stops : outcome ≠ .ok .proceed) :
      Evaluates s (name :: rest) trace s₁ outcome

/-- Evaluation comes out in one way only. -/
theorem Evaluates.deterministic {s s₁ s₂ : Session} {names : List String}
    {trace₁ trace₂ : List Dispatch} {outcome₁ outcome₂ : Except Fault Control}
    (h₁ : Evaluates s names trace₁ s₁ outcome₁) (h₂ : Evaluates s names trace₂ s₂ outcome₂) :
    trace₁ = trace₂ ∧ s₁ = s₂ ∧ outcome₁ = outcome₂ := by
  induction h₁ generalizing trace₂ s₂ outcome₂ with
  | nil s =>
    cases h₂
    exact ⟨rfl, rfl, rfl⟩
  | leaf notWord ran _ ih =>
    cases h₂ with
    | leaf _ ran' after' =>
      cases ran.symm.trans ran'
      obtain ⟨rfl, rfl, rfl⟩ := ih after'
      exact ⟨rfl, rfl, rfl⟩
    | leafStops _ ran' stops' =>
      cases ran.symm.trans ran'
      exact absurd rfl stops'
    | word isWord' => cases notWord.symm.trans isWord'
    | wordStops isWord' => cases notWord.symm.trans isWord'
  | leafStops notWord ran stops =>
    cases h₂ with
    | leaf _ ran' =>
      cases ran.symm.trans ran'
      exact absurd rfl stops
    | leafStops _ ran' =>
      cases ran.symm.trans ran'
      exact ⟨rfl, rfl, rfl⟩
    | word isWord' => cases notWord.symm.trans isWord'
    | wordStops isWord' => cases notWord.symm.trans isWord'
  | word isWord _ _ ihInside ihAfter =>
    cases h₂ with
    | leaf notWord' => cases isWord.symm.trans notWord'
    | leafStops notWord' => cases isWord.symm.trans notWord'
    | word isWord' inside' after' =>
      cases isWord.symm.trans isWord'
      obtain ⟨rfl, rfl, -⟩ := ihInside inside'
      obtain ⟨rfl, rfl, rfl⟩ := ihAfter after'
      exact ⟨rfl, rfl, rfl⟩
    | wordStops isWord' inside' stops' =>
      cases isWord.symm.trans isWord'
      exact absurd (ihInside inside').2.2.symm stops'
  | wordStops isWord _ stops ih =>
    cases h₂ with
    | leaf notWord' => cases isWord.symm.trans notWord'
    | leafStops notWord' => cases isWord.symm.trans notWord'
    | word isWord' inside' =>
      cases isWord.symm.trans isWord'
      exact absurd (ih inside').2.2 stops
    | wordStops isWord' inside' =>
      cases isWord.symm.trans isWord'
      exact ih inside'

/-- What leaves preserve, and the moving of the cursor does, holds wherever a leaf is met
and in the end. -/
theorem Evaluates.preserves {P : Session → Prop}
    (leaf : ∀ (s : Session) (name : String), P s → P (s.leaf name).1)
    (advance : ∀ s : Session, P s → P s.advance) {s s' : Session} {names : List String}
    {trace : List Dispatch} {outcome : Except Fault Control}
    (h : Evaluates s names trace s' outcome) (start : P s) :
    P s' ∧ ∀ d ∈ trace, P d.session := by
  induction h with
  | nil s => exact ⟨start, fun d member => absurd member List.not_mem_nil⟩
  | @leaf s _ _ name _ _ _ _ ran _ ih =>
    have kept := leaf s name start
    rw [ran] at kept
    obtain ⟨finish, later⟩ := ih (advance _ kept)
    exact ⟨finish, List.forall_mem_cons.mpr ⟨start, later⟩⟩
  | @leafStops s _ name _ _ _ ran _ =>
    have kept := leaf s name start
    rw [ran] at kept
    exact ⟨kept, List.forall_mem_singleton.mpr start⟩
  | word _ _ _ ihInside ihAfter =>
    obtain ⟨returned, inside⟩ := ihInside start
    obtain ⟨finish, after⟩ := ihAfter (advance _ returned)
    exact ⟨finish, List.forall_mem_append.mpr ⟨inside, after⟩⟩
  | wordStops _ _ _ ih => exact ih start

/-- Evaluation that does not get to the end of its tokens stops at one of the leaves. -/
theorem Evaluates.exists_stopping_leaf {s s' : Session} {names : List String}
    {trace : List Dispatch} {outcome : Except Fault Control}
    (h : Evaluates s names trace s' outcome) (stops : outcome ≠ .ok .proceed) :
    ∃ d ∈ trace, d.session.leaf d.token = (s', outcome) := by
  -- A leaf that is followed by another has let evaluation proceed, so it is the last that stops it.
  induction h with
  | nil s => exact absurd rfl stops
  | leaf _ _ _ ih =>
    obtain ⟨d, member, ran⟩ := ih stops
    exact ⟨d, List.mem_cons_of_mem _ member, ran⟩
  | leafStops _ ran _ => exact ⟨_, List.mem_singleton_self _, ran⟩
  | word _ _ _ _ ihAfter =>
    obtain ⟨d, member, ran⟩ := ihAfter stops
    exact ⟨d, List.mem_append_right _ member, ran⟩
  | wordStops _ _ _ ih => exact ih stops

/-- No token is evaluated with another dictionary than that at the start. -/
theorem Evaluates.dictionary_eq {s s' : Session} {names : List String} {trace : List Dispatch}
    {outcome : Except Fault Control} (h : Evaluates s names trace s' outcome) :
    s'.dictionary = s.dictionary ∧ ∀ d ∈ trace, d.session.dictionary = s.dictionary :=
  h.preserves (P := fun s₁ => s₁.dictionary = s.dictionary)
    (fun s₁ name kept => (dictionary_leaf s₁ name).trans kept) (fun _ kept => kept) rfl

/-- What evaluation in steps does once the tokens in front are done with. -/
def continueBy (leaf : Session → String → Session × Except Fault Control) (steps : Nat)
    (s : Session) (outcome : Except Fault Control) (waiting : List (List String)) :
    Option (Session × Except Fault Control) :=
  match outcome with
  | .ok .proceed => resumeBy leaf steps s [] waiting
  | stopped => some (s, stopped)

theorem continueBy_of_ne {leaf : Session → String → Session × Except Fault Control} (steps : Nat)
    (s : Session) {outcome : Except Fault Control} (stops : outcome ≠ .ok .proceed)
    (waiting : List (List String)) :
    continueBy leaf steps s outcome waiting = some (s, outcome) := by
  unfold continueBy
  split
  · exact absurd rfl stops
  · rfl

theorem continueBy_nil {leaf : Session → String → Session × Except Fault Control} (steps : Nat)
    (s : Session) (outcome : Except Fault Control) :
    continueBy leaf steps s outcome [] = some (s, outcome) := by
  by_cases proceeds : outcome = .ok .proceed
  · subst proceeds
    exact resumeBy_nil steps s
  · exact continueBy_of_ne steps s proceeds []

/-- What evaluation by itself does once the tokens in front are done with. -/
def continueWith (steps : Nat) (s : Session) (outcome : Except Fault Control)
    (waiting : List (List String)) : Option (Session × Except Fault Control) :=
  continueBy leaf steps s outcome waiting

theorem continueWith_proceed (steps : Nat) (s : Session) (waiting : List (List String)) :
    continueWith steps s (.ok .proceed) waiting = resume steps s [] waiting := rfl

theorem continueWith_of_ne (steps : Nat) (s : Session) {outcome : Except Fault Control}
    (stops : outcome ≠ .ok .proceed) (waiting : List (List String)) :
    continueWith steps s outcome waiting = some (s, outcome) :=
  continueBy_of_ne steps s stops waiting

section Mirrors

variable {leaf : Session → String → Session × Except Fault Control}
  {R : List Dispatch → Session → Session → Prop}

/-- A way to evaluate leaves mirrors that of a session by itself. `R trace a b` relates the session
`a` by itself to the session `b` on the other side, the leaves in `trace` having been met. -/
structure Mirrors (leaf : Session → String → Session × Except Fault Control)
    (R : List Dispatch → Session → Session → Prop) : Prop where
  dictionary : ∀ {trace a b}, R trace a b → b.dictionary = a.dictionary
  advance : ∀ {trace a b}, R trace a b → R trace a.advance b.advance
  leaf : ∀ {trace a b} (token : String), R trace a b →
    R (trace ++ [⟨a, token⟩]) (a.leaf token).1 (leaf b token).1 ∧
      (leaf b token).2 = (a.leaf token).2

theorem Mirrors.ran {trace : List Dispatch} {a a₁ b : Session} {name : String}
    {outcome : Except Fault Control} (mirrors : Mirrors leaf R) (related : R trace a b)
    (ran : a.leaf name = (a₁, outcome)) :
    leaf b name = ((leaf b name).1, outcome) ∧ R (trace ++ [⟨a, name⟩]) a₁ (leaf b name).1 := by
  obtain ⟨kept, same⟩ := mirrors.leaf name related
  rw [ran] at kept same
  exact ⟨Prod.ext rfl same, kept⟩

/-- Tokens that evaluate by the rules take a number of steps of their own, whatever waits, also
where leaves are evaluated in a way that mirrors the rules. -/
theorem Evaluates.mirrored {a a' b : Session} {names : List String} {trace : List Dispatch}
    {outcome : Except Fault Control} (mirrors : Mirrors leaf R)
    (h : Evaluates a names trace a' outcome) (before : List Dispatch) (start : R before a b) :
    ∃ b', R (before ++ trace) a' b' ∧ ∃ own, ∀ steps waiting,
      resumeBy leaf (steps + own) b names waiting =
        continueBy leaf steps b' outcome waiting := by
  -- What comes after a word starts from the leaves met inside it, so `before` must be general.
  induction h generalizing before b with
  | nil s =>
    rw [List.append_nil]
    exact ⟨b, start, 0, fun steps waiting => rfl⟩
  | leaf notWord ran _ ih =>
    rw [← mirrors.dictionary start] at notWord
    obtain ⟨ran', related⟩ := mirrors.ran start ran
    obtain ⟨b', finish, own, ih⟩ := ih _ (mirrors.advance related)
    rw [List.append_assoc] at finish
    refine ⟨b', finish, own + 1, fun steps waiting => ?_⟩
    rw [← Nat.add_assoc, resumeBy_leaf notWord ran']
    exact ih steps waiting
  | leafStops notWord ran stops =>
    rw [← mirrors.dictionary start] at notWord
    obtain ⟨ran', related⟩ := mirrors.ran start ran
    refine ⟨_, related, 1, fun steps waiting => ?_⟩
    rw [resumeBy_leaf_of_ne notWord ran' stops, continueBy_of_ne _ _ stops]
  | word isWord _ _ ihInside ihAfter =>
    rw [← mirrors.dictionary start] at isWord
    obtain ⟨b₁, returned, ownInside, ihInside⟩ := ihInside _ start
    obtain ⟨b', finish, ownAfter, ihAfter⟩ := ihAfter _ (mirrors.advance returned)
    rw [List.append_assoc] at finish
    refine ⟨b', finish, ownAfter + 1 + ownInside + 1, fun steps waiting => ?_⟩
    have split : steps + (ownAfter + 1 + ownInside + 1) =
        steps + ownAfter + 1 + ownInside + 1 := by omega
    rw [split, resumeBy_word isWord, ihInside]
    exact ihAfter steps waiting
  | wordStops isWord _ stops ih =>
    rw [← mirrors.dictionary start] at isWord
    obtain ⟨b', finish, own, ih⟩ := ih _ start
    refine ⟨b', finish, own + 1, fun steps waiting => ?_⟩
    rw [← Nat.add_assoc, resumeBy_word isWord, ih, continueBy_of_ne _ _ stops,
      continueBy_of_ne _ _ stops]

/-- The same of a statement, which is concluded on either side. -/
theorem Evaluates.statementBy_mirrored {a a₁ b : Session} {text : String} {trace : List Dispatch}
    {inner : Except Fault Control} (mirrors : Mirrors leaf R)
    (h : Evaluates (a.enter text) (leadingTokens text) trace a₁ inner)
    (start : R [] (a.enter text) (b.enter text)) :
    ∃ b₁, R trace a₁ b₁ ∧
      ∃ steps, statementBy leaf steps b text = some (b₁.conclude text inner) := by
  obtain ⟨b₁, finish, own, eventually⟩ := h.mirrored mirrors [] start
  refine ⟨b₁, finish, 0 + own, ?_⟩
  rw [statementBy, eventually, continueBy_nil]
  rfl

theorem mirrors_self : Mirrors Session.leaf fun _ a b => b = a where
  dictionary := congrArg Session.dictionary
  advance := congrArg Session.advance
  leaf token same := by
    rw [same]
    exact ⟨rfl, rfl⟩

/-- Tokens that evaluate by the rules take a number of steps of their own, whatever waits. -/
theorem Evaluates.resume {s s' : Session} {names : List String} {trace : List Dispatch}
    {outcome : Except Fault Control} (h : Evaluates s names trace s' outcome) :
    ∃ own, ∀ steps waiting,
      Session.resume (steps + own) s names waiting = continueWith steps s' outcome waiting := by
  obtain ⟨_, same, own, eventually⟩ := h.mirrored mirrors_self [] rfl
  subst same
  exact ⟨own, eventually⟩

end Mirrors

/-- A result of evaluation in steps comes about by the rules: the tokens in front have
evaluated, and either the result is theirs or it is that of what waits. -/
theorem evaluates_of_resume {steps : Nat} {s : Session} {names : List String}
    {waiting : List (List String)} {r : Session × Except Fault Control}
    (result : resume steps s names waiting = some r) :
    ∃ trace s' outcome, Evaluates s names trace s' outcome ∧
      ∃ left, left ≤ steps ∧ continueWith left s' outcome waiting = some r := by
  induction steps using Nat.strongRecOn generalizing s names waiting with
  | ind steps ih =>
    match steps, names with
    | steps, [] =>
      exact ⟨[], s, .ok .proceed, .nil s, steps, Nat.le_refl steps, result⟩
    | 0, name :: rest => cases result
    | steps + 1, name :: rest =>
      rw [resume_cons] at result
      cases found : s.dictionary.get? name with
      | some body =>
        rw [found] at result
        obtain ⟨_, s₁, inner, inside, left, bound, continued⟩ :=
          ih steps (Nat.lt_succ_self steps) result
        by_cases proceeds : inner = .ok .proceed
        · subst proceeds
          rw [continueWith_proceed] at continued
          match left with
          | 0 => cases continued
          | left + 1 =>
            rw [resume_return] at continued
            obtain ⟨_, s₂, outcome, after, rest, restBound, last⟩ := ih left (by omega) continued
            exact ⟨_, s₂, outcome, .word found inside after, rest, by omega, last⟩
        · rw [continueWith_of_ne _ _ proceeds] at continued
          refine ⟨_, s₁, inner, .wordStops found inside proceeds, 0, Nat.zero_le _, ?_⟩
          rw [continueWith_of_ne _ _ proceeds]
          exact continued
      | none =>
        rw [found] at result
        dsimp only at result
        split at result
        · next s₁ ran =>
          obtain ⟨_, s₂, outcome, after, left, bound, last⟩ :=
            ih steps (Nat.lt_succ_self steps) result
          exact ⟨_, s₂, outcome, .leaf found ran after, left, by omega, last⟩
        · next stops =>
          cases result
          have differs : (s.leaf name).2 ≠ .ok .proceed :=
            fun same => stops (s.leaf name).1 (by rw [← same])
          exact ⟨_, (s.leaf name).1, (s.leaf name).2, .leafStops found rfl differs, 0, Nat.zero_le _,
            continueWith_of_ne _ _ differs _⟩

/-- Evaluation in steps agrees with the rules. -/
theorem exists_resume_iff {s s' : Session} {names : List String} {outcome : Except Fault Control} :
    (∃ steps, resume steps s names [] = some (s', outcome)) ↔
      ∃ trace, Evaluates s names trace s' outcome := by
  constructor
  · rintro ⟨steps, result⟩
    obtain ⟨trace, s₁, inner, derivation, left, _, continued⟩ := evaluates_of_resume result
    by_cases proceeds : inner = .ok .proceed
    · subst proceeds
      rw [continueWith_proceed, resume_nil] at continued
      cases continued
      exact ⟨trace, derivation⟩
    · rw [continueWith_of_ne _ _ proceeds] at continued
      cases continued
      exact ⟨trace, derivation⟩
  · rintro ⟨trace, derivation⟩
    obtain ⟨own, eventually⟩ := derivation.resume
    refine ⟨0 + own, ?_⟩
    rw [eventually]
    exact continueBy_nil 0 s' outcome

/-- `Completes s text trace s' outcome`: the statement takes the session `s` to `s'` and
ends there with `outcome`, having met the leaves in `trace`. -/
def Completes (s : Session) (text : String) (trace : List Dispatch) (s' : Session)
    (outcome : Except Fault Control) : Prop :=
  ∃ s₁ inner, Evaluates (s.enter text) (leadingTokens text) trace s₁ inner ∧
    s₁.conclude text inner = (s', outcome)

/-- A statement comes out in one way only. -/
theorem Completes.deterministic {s s₁ s₂ : Session} {text : String} {trace₁ trace₂ : List Dispatch}
    {outcome₁ outcome₂ : Except Fault Control} (h₁ : s.Completes text trace₁ s₁ outcome₁)
    (h₂ : s.Completes text trace₂ s₂ outcome₂) :
    trace₁ = trace₂ ∧ s₁ = s₂ ∧ outcome₁ = outcome₂ := by
  obtain ⟨_, _, evaluated₁, concluded₁⟩ := h₁
  obtain ⟨_, _, evaluated₂, concluded₂⟩ := h₂
  obtain ⟨rfl, rfl, rfl⟩ := evaluated₁.deterministic evaluated₂
  cases concluded₁.symm.trans concluded₂
  exact ⟨rfl, rfl, rfl⟩

/-- A statement that is evaluated in steps agrees with the rules. -/
theorem exists_statement_iff {s s' : Session} {text : String} {outcome : Except Fault Control} :
    (∃ steps, s.statement steps text = some (s', outcome)) ↔
      ∃ trace, s.Completes text trace s' outcome := by
  constructor
  · rintro ⟨steps, result⟩
    obtain ⟨⟨s₁, inner⟩, reached, concluded⟩ := Option.map_eq_some_iff.mp result
    obtain ⟨trace, derivation⟩ := exists_resume_iff.mp ⟨steps, reached⟩
    exact ⟨trace, s₁, inner, derivation, concluded⟩
  · rintro ⟨trace, s₁, inner, derivation, concluded⟩
    obtain ⟨steps, reached⟩ := exists_resume_iff.mpr ⟨trace, derivation⟩
    exact ⟨steps, Option.map_eq_some_iff.mpr ⟨(s₁, inner), reached, concluded⟩⟩

end Session

end Rpn
