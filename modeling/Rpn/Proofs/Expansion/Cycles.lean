import Mathlib.Data.Set.Finite.Basic
import Mathlib.Logic.Relation
import Rpn.Proofs.Expansion.Marker
import Rpn.Proofs.Session.Failure

/-!
# Words that lead back to themselves

A word refers to the words in its body. Tokens expand finitely exactly if no word that lies on a
cycle can be reached from them (`Dictionary.exists_expands_iff`). Since there are finitely many
words, the words from which no cycle is reached can be taken after those that they refer to.

Evaluation passes over no word. Off the cycles it takes as many steps as there are in the
expansion, whatever the stack and the sinks are like; and as no leaf changes the dictionary, tokens
that reach a cycle are not evaluated to their end. What ends their evaluation is a leaf, and that is
either `quit` or one whose text the output sink refuses.
-/

namespace Rpn

namespace Dictionary

/-- The name of a word occurs in the body of another. -/
def Refers (d : Dictionary) (name other : String) : Prop :=
  ∃ body, d.get? name = some body ∧ other ∈ body ∧ d.contains other

/-- From a name a word is reached that lies on a cycle. -/
def ReachesCycle (d : Dictionary) (name : String) : Prop :=
  ∃ word, Relation.ReflTransGen d.Refers name word ∧ Relation.TransGen d.Refers word word

variable {d : Dictionary} {name other : String}

theorem Refers.reachesCycle (refers : d.Refers name other) (h : d.ReachesCycle other) :
    d.ReachesCycle name := by
  obtain ⟨word, path, cycle⟩ := h
  exact ⟨word, path.head refers, cycle⟩

/-- The way to a cycle and around it goes on for ever. -/
theorem ReachesCycle.exists_refers (h : d.ReachesCycle name) :
    ∃ next, d.Refers name next ∧ d.ReachesCycle next := by
  obtain ⟨word, path, cycle⟩ := h
  obtain rfl | ⟨next, refers, rest⟩ := path.cases_head
  · obtain ⟨next, refers, back⟩ := Relation.TransGen.head'_iff.mp cycle
    exact ⟨next, refers, name, back, cycle⟩
  · exact ⟨next, refers, word, rest, cycle⟩

theorem ReachesCycle.exists_body (h : d.ReachesCycle name) :
    ∃ body, d.get? name = some body ∧ ∃ next ∈ body, d.ReachesCycle next := by
  obtain ⟨next, ⟨body, isWord, member, -⟩, later⟩ := h.exists_refers
  exact ⟨body, isWord, next, member, later⟩

/-- The words that do not lead to a cycle. -/
abbrev Grounded (d : Dictionary) : Type :=
  { name : String // d.contains name ∧ ¬ d.ReachesCycle name }

/-- A grounded word can be reached from another. -/
def Below (d : Dictionary) (other word : d.Grounded) : Prop :=
  Relation.TransGen d.Refers word.1 other.1

instance (d : Dictionary) : Finite d.Grounded := by
  have listed : { name : String | d.contains name ∧ ¬ d.ReachesCycle name } ⊆
      { name | name ∈ d.words.map Word.name } :=
    fun name grounded => contains_iff_mem_names.mp grounded.1
  exact ((List.finite_toSet _).subset listed).to_subtype

/-- Each grounded word comes after those that it leads to. -/
theorem wellFounded_below (d : Dictionary) : WellFounded d.Below := by
  have : IsTrans d.Grounded d.Below := ⟨fun _ _ _ lower upper => upper.trans lower⟩
  have : Std.Irrefl d.Below := ⟨fun word cycle => word.2.2 ⟨word.1, .refl, cycle⟩⟩
  exact Finite.wellFounded_of_trans_of_irrefl d.Below

/-- Tokens expand finitely if the bodies of all words among them do. -/
theorem exists_expands_of_bodies {names : List String}
    (bodies : ∀ token ∈ names, ∀ body, d.get? token = some body → ∃ e, d.Expands body e) :
    ∃ e, d.Expands names e := by
  induction names with
  | nil => exact ⟨.nil, rfl, trivial⟩
  | cons token rest ih =>
    obtain ⟨first, others⟩ := List.forall_mem_cons.mp bodies
    obtain ⟨e, roots, follows⟩ := ih others
    cases found : d.get? token with
    | none => exact ⟨.leaf token e, congrArg (token :: ·) roots, found, follows⟩
    | some body =>
      obtain ⟨inner, innerRoots, innerFollows⟩ := first body found
      exact ⟨.word token inner e, congrArg (token :: ·) roots, innerRoots.symm ▸ found,
        innerFollows, follows⟩

theorem exists_expands_of_grounded (word : d.Grounded) {body : List String}
    (isWord : d.get? word.1 = some body) : ∃ e, d.Expands body e := by
  induction word using d.wellFounded_below.induction generalizing body with
  | _ word ih =>
    refine exists_expands_of_bodies fun token member inner isInner => ?_
    have contained : d.contains token := by rw [contains, isInner, Option.isSome_some]
    have refers : d.Refers word.1 token := ⟨body, isWord, member, contained⟩
    have grounded : ¬ d.ReachesCycle token := fun reaches => word.2.2 (refers.reachesCycle reaches)
    exact ih ⟨token, contained, grounded⟩ (.single refers) isInner

/-- Tokens that expand finitely do not reach a cycle. -/
theorem not_reachesCycle_of_follows {e : Expansion} (follows : e.Follows d) :
    ∀ token ∈ e.roots, ¬ d.ReachesCycle token := by
  induction e with
  | nil => exact fun token member => absurd member List.not_mem_nil
  | leaf token rest ih =>
    obtain ⟨notWord, followsRest⟩ := follows
    refine List.forall_mem_cons.mpr ⟨fun reaches => ?_, ih followsRest⟩
    obtain ⟨body, isWord, -⟩ := reaches.exists_body
    cases notWord.symm.trans isWord
  | word name body rest ihBody ihRest =>
    obtain ⟨isWord, followsBody, followsRest⟩ := follows
    refine List.forall_mem_cons.mpr ⟨fun reaches => ?_, ihRest followsRest⟩
    obtain ⟨inner, isInner, next, member, later⟩ := reaches.exists_body
    obtain rfl : body.roots = inner := Option.some.inj (isWord.symm.trans isInner)
    exact ihBody followsBody next member later

/-- Tokens expand finitely exactly if none of them reaches a cycle. -/
theorem exists_expands_iff {names : List String} :
    (∃ e, d.Expands names e) ↔ ∀ token ∈ names, ¬ d.ReachesCycle token := by
  constructor
  · rintro ⟨e, rfl, follows⟩
    exact not_reachesCycle_of_follows follows
  · intro grounded
    refine exists_expands_of_bodies fun token member body isWord => ?_
    have contained : d.contains token := by rw [contains, isWord, Option.isSome_some]
    exact exists_expands_of_grounded ⟨token, contained, grounded token member⟩ isWord

end Dictionary

/-- How many steps there are in an expansion: one to each leaf, and two to each word, whose body is
gone into and come back from. -/
def Expansion.steps : Expansion → Nat
  | nil => 0
  | leaf _ rest => rest.steps + 1
  | word _ body rest => rest.steps + 1 + body.steps + 1

/-- The leaf `d` ends an evaluation in the session `s'`: it is the command to quit, or its text is
refused. -/
inductive Dispatch.Ends (d : Dispatch) (s' : Session) : Except Fault Control → Prop where
  | quits (token : d.token = Command.quit.name) (same : s' = d.session) : Ends d s' (.ok .quit)
  | fails {text : String}
      (refused : d.session.out.write text = (s'.out, some d.session.out.refusal)) :
      Ends d s' (.error (.inputOutput d.session.out.refusal))

namespace Session

/-- Tokens that expand finitely are evaluated in the steps of their expansion. What waits is gone
on with then, unless a leaf has ended evaluation. -/
theorem resume_isSome_of_follows {e : Expansion} {s : Session} (follows : e.Follows s.dictionary)
    {steps : Nat} {waiting : List (List String)}
    (later : ∀ s₁ : Session, s₁.dictionary = s.dictionary → (resume steps s₁ [] waiting).isSome) :
    (resume (steps + e.steps) s e.roots waiting).isSome := by
  induction e generalizing s steps waiting with
  | nil => exact later s rfl
  | leaf token rest ih =>
    obtain ⟨notWord, followsRest⟩ := follows
    obtain ⟨s₁, ran⟩ | ⟨s₁, outcome, ran, stops⟩ := leaf_cases s token
    · have kept : s₁.advance.dictionary = s.dictionary := by
        rw [dictionary_advance, dictionary_of_leaf s token ran]
      rw [Expansion.steps, ← Nat.add_assoc, Expansion.roots, resume_leaf notWord ran]
      exact ih (kept ▸ followsRest) (kept ▸ later)
    · rw [Expansion.steps, ← Nat.add_assoc, Expansion.roots, resume_leaf_of_ne notWord ran stops]
      rfl
  | word name body rest ihBody ihRest =>
    obtain ⟨isWord, followsBody, followsRest⟩ := follows
    have total : steps + (Expansion.word name body rest).steps =
        steps + rest.steps + 1 + body.steps + 1 := by
      simp only [Expansion.steps]
      omega
    rw [total, Expansion.roots, resume_word isWord]
    refine ihBody followsBody fun s₁ same => ?_
    have kept : s₁.advance.dictionary = s.dictionary := same
    rw [resume_return]
    exact ihRest (kept ▸ followsRest) (kept ▸ later)

/-- A leaf that does not let evaluation proceed is the command to quit, or its text is refused. -/
theorem ends_of_leaf {d : Dispatch} {s' : Session} {outcome : Except Fault Control}
    (ran : d.session.leaf d.token = (s', outcome)) (stops : outcome ≠ .ok .proceed) :
    d.Ends s' outcome := by
  rw [leaf_eq_respond] at ran
  match outcome with
  | .ok .proceed => exact absurd rfl stops
  | .error fault =>
    have refused : (d.session.respond (d.session.response d.token)).2 = .error fault := by rw [ran]
    obtain ⟨text, written, rfl⟩ := write_of_respond_error refused
    rw [ran] at written
    exact .fails written
  | .ok .quit =>
    have control := control_response d.session d.token
    cases response : d.session.response d.token with
    | quits =>
      rw [response] at ran control
      cases ran
      by_cases token : d.token = Command.quit.name
      · exact .quits token rfl
      · rw [if_neg token] at control
        cases control
    | shows stack text =>
      rw [response, respond, print] at ran
      have outcome := congrArg Prod.snd ran
      dsimp only at outcome
      split at outcome <;> cases outcome
    | silent | refuses =>
      rw [response] at ran
      cases ran

/-- Tokens of which one reaches a cycle are not evaluated to their end. If their evaluation comes
to an end at all, this is because a leaf ends it. -/
theorem Evaluates.exists_ends {s s' : Session} {names : List String} {trace : List Dispatch}
    {outcome : Except Fault Control} (h : Evaluates s names trace s' outcome)
    (reaches : ∃ token ∈ names, s.dictionary.ReachesCycle token) :
    outcome ≠ .ok .proceed ∧ ∃ d ∈ trace, d.Ends s' outcome := by
  have stops : outcome ≠ .ok .proceed := by
    intro proceeds
    obtain ⟨token, member, cycle⟩ := reaches
    exact Dictionary.exists_expands_iff.mp (h.exists_expands proceeds) token member cycle
  obtain ⟨d, member, ran⟩ := h.exists_stopping_leaf stops
  exact ⟨stops, d, member, ends_of_leaf ran stops⟩

/-- If no cycle is reached from the tokens of a statement, its evaluation terminates on every
session with these words, in a number of steps that depends on the words alone. A statement that
goes through has no token from which a cycle is reached. Wherever tokens are evaluated of which one
reaches a cycle, evaluation comes to an end at a `quit` among their leaves or at a text that the
output sink refuses, or not at all. -/
theorem terminates_off_cycles :
    (∀ (d : Dictionary) (text : String),
      (∀ token ∈ leadingTokens text, ¬ d.ReachesCycle token) →
        ∃ steps, ∀ s : Session, s.dictionary = d → ∃ r, s.statement steps text = some r) ∧
      (∀ (s s' : Session) (steps : Nat) (text : String),
        s.statement steps text = some (s', .ok .proceed) →
          ∀ token ∈ leadingTokens text, ¬ s.dictionary.ReachesCycle token) ∧
      ∀ (s s' : Session) (steps : Nat) (names : List String) (waiting : List (List String))
        (outcome : Except Fault Control),
        (∃ token ∈ names, s.dictionary.ReachesCycle token) →
          resume steps s names waiting = some (s', outcome) →
            ∃ trace, Evaluates s names trace s' outcome ∧ ∃ d ∈ trace, d.Ends s' outcome := by
  refine ⟨?_, ?_, ?_⟩
  · intro d text grounded
    obtain ⟨e, roots, follows⟩ := Dictionary.exists_expands_iff.mpr grounded
    refine ⟨0 + e.steps, fun s same => ?_⟩
    have evaluated : (resume (0 + e.steps) (s.enter text) e.roots []).isSome := by
      refine resume_isSome_of_follows (same ▸ follows) fun s₁ _ => ?_
      rw [resume_nil, Option.isSome_some]
    rw [roots] at evaluated
    obtain ⟨⟨s₁, outcome⟩, reached⟩ := Option.isSome_iff_exists.mp evaluated
    exact ⟨_, Option.map_eq_some_iff.mpr ⟨_, reached, rfl⟩⟩
  · intro s s' steps text result
    obtain ⟨trace, s₁, inner, evaluated, concluded⟩ := exists_statement_iff.mp ⟨steps, result⟩
    have proceeds : inner = .ok .proceed := by
      by_contra stops
      rw [conclude_of_ne _ _ stops] at concluded
      exact stops (congrArg Prod.snd concluded)
    exact Dictionary.exists_expands_iff.mp (evaluated.exists_expands proceeds)
  · intro s s' steps names waiting outcome reaches result
    obtain ⟨trace, s₁, inner, evaluated, left, -, continued⟩ := evaluates_of_resume result
    obtain ⟨stops, ends⟩ := evaluated.exists_ends reaches
    rw [continueWith_of_ne _ _ stops] at continued
    cases continued
    exact ⟨trace, evaluated, ends⟩

/-- The word `loop` shows the stack and goes round again, until the output sink is full. With the
same words the tokens `4 pi` terminate on every session, as one on which they do is enough to tell
that they reach no cycle. -/
theorem terminates_off_cycles_loop :
    let d : Dictionary := ⟨Dictionary.builtins.words ++ [⟨"loop", [".", "loop"]⟩]⟩
    let small : Sink := { room := some 3, refusal := "sink full" }
    let s := { fresh .machine 80 small {} with dictionary := d }
    (∃ steps, ∀ s : Session, s.dictionary = d → ∃ r, s.statement steps "4 pi" = some r) ∧
      d.ReachesCycle "loop" ∧
      ∃ s' trace, resume 8 s ["loop"] [] = some (s', .error (.inputOutput "sink full")) ∧
        Evaluates s ["loop"] trace s' (.error (.inputOutput "sink full")) ∧
        ∃ leaf ∈ trace, leaf.Ends s' (.error (.inputOutput "sink full")) := by
  intro d small s
  obtain ⟨terminates, goesThrough, ends⟩ := terminates_off_cycles
  have through : (({ fresh .machine 80 {} {} with dictionary := d }).statement 9 "4 pi").map
      Prod.snd = some (.ok .proceed) := by
    decide +kernel
  obtain ⟨⟨s₁, _⟩, result, rfl⟩ := Option.map_eq_some_iff.mp through
  have grounded := goesThrough _ s₁ 9 "4 pi" result
  have refers : d.Refers "loop" "loop" :=
    ⟨[".", "loop"], by decide +kernel, by decide, by decide +kernel⟩
  have reaches : d.ReachesCycle "loop" := ⟨"loop", .refl, .single refers⟩
  have stops : (resume 8 s ["loop"] []).map Prod.snd = some (.error (.inputOutput "sink full")) := by
    decide +kernel
  obtain ⟨⟨s', _⟩, stopped, rfl⟩ := Option.map_eq_some_iff.mp stops
  obtain ⟨trace, evaluated, leaf, member, ended⟩ :=
    ends s s' 8 ["loop"] [] _ ⟨"loop", List.mem_singleton_self _, reaches⟩ stopped
  exact ⟨terminates d "4 pi" grounded, reaches, s', trace, stopped, evaluated, leaf,
    member, ended⟩

end Session

end Rpn
