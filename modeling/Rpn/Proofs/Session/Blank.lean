import Rpn.Proofs.Dictionary.OrderedMap
import Rpn.Proofs.Expansion.Marker
import Rpn.Proofs.Session.Lines
import Rpn.Proofs.Session.Runs
import Rpn.Proofs.Text.Tokens

/-!
# Blank statements

A statement of blank characters is trimmed to nothing and has one token, which is empty. This is no
literal and not the name of an operator, so it does nothing, unless there is a word with the empty
name. No rule of the dictionary keeps that name from being defined: a statement with two spaces
after the marker has an empty token where the name stands. From then on a blank statement is a use
of that word like any other.

The lines of a words file never define it. A line is trimmed before the marker comes in front of it,
so its first field is empty on a blank line only, where there is no body.
-/

namespace Rpn

/-- The definition gives the empty name a body. -/
def NamesEmpty : List String → Prop
  | _ :: name :: _ :: _ => name = ""
  | _ => False

section Tokens

variable {text line : String}

theorem tokens_of_blank (blank : IsBlankText text) : tokens text = [""] := by
  rw [tokens, trim_of_blank blank]
  rfl

/-- The first token of a statement is not empty, unless it is the only one. -/
theorem tokens_cases (text : String) :
    tokens text = [""] ∨ ∃ name body, tokens text = name :: body ∧ name ≠ "" := by
  refine (isTokenList_tokens text).ends.imp_right ?_
  rintro ⟨⟨name, first, c, starts, -⟩, -⟩
  obtain ⟨body, split⟩ := List.head?_eq_some_iff.mp first
  refine ⟨name, body, split, ?_⟩
  rintro rfl
  cases starts

/-- A line of a words file does not define the empty name. -/
theorem not_namesEmpty_line (line : String) : ¬ NamesEmpty (Session.lineDefinition line) := by
  have definition : Session.lineDefinition line = definitionMarker :: tokens line := rfl
  rw [definition]
  obtain single | ⟨name, body, split, named⟩ := tokens_cases line
  · rw [single]
    exact id
  · rw [split]
    cases body with
    | nil => exact id
    | cons token body => exact named

end Tokens

/-- A definition that does not give the empty name a body leaves it without one. -/
theorem Dictionary.get?_empty_afterDefinition {d : Dictionary} {definition : List String}
    (absent : d.get? "" = none) (other : ¬ NamesEmpty definition) :
    (d.afterDefinition definition).1.get? "" = none := by
  match definition with
  | [] | [_] => exact absent
  | [_, name] =>
    have removed : (d.remove name).get? "" = none := by
      rw [get?_remove]
      split
      · rfl
      · exact absent
    exact removed
  | marker :: name :: token :: body =>
    rw [afterDefinition, define_cons]
    split
    · next accepted =>
      split at accepted
      · cases accepted
      · cases accepted
        rw [get?_insert, if_neg (Ne.symm other)]
        exact absent
    · exact absent

namespace Session

variable {s s' : Session} {text : String}

/-- The empty token does nothing where it is a leaf. -/
theorem leaf_empty (s : Session) : s.leaf "" = (s, .ok .proceed) := by
  rw [leaf_eq_respond, response_of_unknown s (by decide) (by decide)]
  rfl

theorem leadingTokens_of_blank (blank : IsBlankText text) : leadingTokens text = [""] := by
  have unmarked : definitionMarker ∉ tokens text := by
    rw [tokens_of_blank blank]
    decide
  rw [leadingTokens_of_not_mem unmarked, tokens_of_blank blank]

theorem enter_of_blank (s : Session) (blank : IsBlankText text) :
    s.enter text = { s with length := 1, cursor := 0 } := by
  rw [enter, tokens_of_blank blank]
  rfl

/-- Without a word of the empty name a blank statement does nothing. -/
theorem statement_of_blank (works : s.out.Works) (blank : IsBlankText text)
    (absent : s.dictionary.get? "" = none) (steps : Nat) :
    s.statement (steps + 1) text = some ({ s with length := 1, cursor := 1 }, .ok .proceed) := by
  have unmarked : definitionMarker ∉ tokens text := by
    rw [tokens_of_blank blank]
    decide
  let entered : Session := { s with length := 1, cursor := 0 }
  have reached : resume (steps + 1) entered [""] [] = some (entered.advance, .ok .proceed) := by
    rw [resume_leaf (s := entered) absent (leaf_empty entered), resume_nil]
  rw [statement_eq, leadingTokens_of_blank blank, enter_of_blank s blank, reached, Option.map_some]
  dsimp only
  rw [conclude_of_works (s := entered.advance) works unmarked]
  rfl

theorem fst_conclude (s : Session) (unmarked : definitionMarker ∉ tokens text)
    (outcome : Except Fault Control) : (s.conclude text outcome).1 = s := by
  obtain ⟨-, stopped⟩ | ⟨-, marked, -⟩ | ⟨-, -, flushes⟩ := conclude_cases text outcome
  · rw [stopped]
  · exact absurd marked unmarked
  · rw [flushes]
    rfl

/-- A word of the empty name is evaluated by a blank statement, which defines nothing even so. -/
theorem Completes.body_of_blank {trace : List Dispatch} {outcome : Except Fault Control}
    (completed : s.Completes text trace s' outcome) (blank : IsBlankText text)
    {body : List String} (isWord : s.dictionary.get? "" = some body) :
    s'.dictionary = s.dictionary ∧ ∃ s₁ inner, Evaluates (s.enter text) body trace s₁ inner ∧
      s'.stack = s₁.stack ∧ s'.out = s₁.out ∧ s'.err = s₁.err := by
  obtain ⟨s₁, inner, evaluated, concluded⟩ := completed
  have unmarked : definitionMarker ∉ tokens text := by
    rw [tokens_of_blank blank]
    decide
  obtain rfl : s₁ = s' := by
    rw [← fst_conclude s₁ unmarked inner, concluded]
  have dictionary := evaluated.dictionary_eq.1
  have isWordThere : (s.enter text).dictionary.get? "" = some body := by
    rw [dictionary_enter]
    exact isWord
  rw [leadingTokens_of_blank blank] at evaluated
  refine ⟨dictionary, ?_⟩
  cases evaluated with
  | leaf notWord | leafStops notWord => cases isWordThere.symm.trans notWord
  | word found inside after =>
    cases isWordThere.symm.trans found
    cases after
    rw [List.append_nil]
    exact ⟨_, _, inside, rfl, rfl, rfl⟩
  | wordStops found inside =>
    cases isWordThere.symm.trans found
    exact ⟨_, _, inside, rfl, rfl, rfl⟩

/-- The call carries out a definition that gives the empty name a body. What a statement defines
starts where the cursor stands when the marker is reached. -/
def NamesEmptyBy (s : Session) : Call → Prop
  | .evaluate text => definitionMarker ∈ tokens text ∧ ∃ trace s₁,
      Evaluates (s.enter text) (leadingTokens text) trace s₁ (.ok .proceed) ∧
        NamesEmpty ((tokens text).drop s₁.cursor)
  | .define definition => NamesEmpty definition
  | .defineLines _ | .load _ => False

theorem get?_empty_afterLines {d : Dictionary} (absent : d.get? "" = none) (lines : List String) :
    (afterLines d lines).get? "" = none := by
  induction lines generalizing d with
  | nil => exact absent
  | cons line rest ih =>
    exact ih (Dictionary.get?_empty_afterDefinition absent (not_namesEmpty_line line))

theorem get?_empty_of_takes {call : Call} {trace : List Dispatch} (taken : s.Takes call trace s')
    (absent : s.dictionary.get? "" = none) (other : ¬ s.NamesEmptyBy call) :
    s'.dictionary.get? "" = none := by
  cases taken with
  | @evaluate text _ _ outcome completes =>
    obtain ⟨s₁, inner, evaluated, concluded⟩ := completes
    have kept : s₁.dictionary.get? "" = none := by
      rw [evaluated.dictionary_eq.1, dictionary_enter]
      exact absent
    have last : s' = (s₁.conclude text inner).1 := by rw [concluded]
    rw [last]
    obtain ⟨-, stopped⟩ | ⟨rfl, marked, defines⟩ | ⟨-, -, flushes⟩ := conclude_cases text inner
    · rw [stopped]
      exact kept
    · rw [defines, dictionary_define]
      apply Dictionary.get?_empty_afterDefinition kept
      exact fun named => other ⟨marked, _, s₁, evaluated, named⟩
    · rw [flushes]
      exact kept
  | define definition =>
    rw [dictionary_define]
    exact Dictionary.get?_empty_afterDefinition absent other
  | defineLines lines =>
    rw [defineLines_eq]
    exact get?_empty_afterLines absent lines
  | load content =>
    rw [load]
    split
    · exact absent
    · dsimp only
      rw [defineLines_eq]
      exact get?_empty_afterLines absent _

/-- No call of a run gives the empty name a body in the session that it is made in. -/
def LeavesEmptyName (s : Session) (calls : List Call) : Prop :=
  ∀ front call back trace s₁, calls = front ++ call :: back → s.Runs front trace s₁ →
    ¬ s₁.NamesEmptyBy call

theorem Runs.get?_empty {calls : List Call} {trace : List Dispatch} (run : s.Runs calls trace s')
    (absent : s.dictionary.get? "" = none) (leaves : s.LeavesEmptyName calls) :
    s'.dictionary.get? "" = none := by
  induction run with
  | nil s => exact absent
  | @cons s s₁ _ call calls _ _ first _ ih =>
    have kept := get?_empty_of_takes first absent (leaves [] call calls [] s rfl (.nil s))
    refine ih kept ?_
    intro front next back trace s₂ split run
    exact leaves (call :: front) next back _ s₂ (congrArg (call :: ·) split) (.cons first run)

theorem kept_out_works : Kept fun s => s.out.Works where
  enter _ _ works := works
  advance _ works := works
  leaf _ token works := out_leaf_works works token
  define s definition works := (out_define s definition).symm ▸ works

theorem leadingTokens_of_definition {definition : List String}
    (split : tokens text = definitionMarker :: definition) : leadingTokens text = [] :=
  @leadingTokens_of_split text [] definition split List.not_mem_nil

/-- A statement that starts with the marker is a definition and nothing else. -/
theorem completes_definition (s : Session) {definition : List String}
    (split : tokens text = definitionMarker :: definition) :
    s.Completes text [] ((s.enter text).define (tokens text)).1 (.ok .proceed) := by
  have marked : definitionMarker ∈ tokens text := split ▸ List.mem_cons_self
  refine ⟨s.enter text, .ok .proceed, ?_, ?_⟩
  · rw [leadingTokens_of_definition split]
    exact .nil _
  · rw [conclude_of_mem _ _ marked]
    rfl

/-- A blank statement in a session that any run has led to from a fresh one. Unless a call of the
run has given the empty name a body there is no word of that name, and then the statement does
nothing. If there is such a word, its body is evaluated, and nothing is defined. -/
theorem statement_of_blank_reachable {functions : Elementary} {width : Nat} {out err : Sink}
    {calls : List Call} {trace : List Dispatch} {s : Session}
    (run : (fresh functions width out err).Runs calls trace s) (works : out.Works) {text : String}
    (blank : IsBlankText text) :
    ((fresh functions width out err).LeavesEmptyName calls → s.dictionary.get? "" = none) ∧
      (s.dictionary.get? "" = none → ∀ steps, s.statement (steps + 1) text =
        some ({ s with length := 1, cursor := 1 }, .ok .proceed)) ∧
      ∀ body, s.dictionary.get? "" = some body → ∀ trace s' outcome,
        s.Completes text trace s' outcome →
          s'.dictionary = s.dictionary ∧
            ∃ s₁ inner, Evaluates (s.enter text) body trace s₁ inner ∧
              s'.stack = s₁.stack ∧ s'.out = s₁.out ∧ s'.err = s₁.err := by
  have worksThere : s.out.Works := (kept_out_works.runs run works).1
  refine ⟨?_, ?_, ?_⟩
  · have absent : Dictionary.builtins.get? "" = none := by decide
    exact run.get?_empty absent
  · exact statement_of_blank worksThere blank
  · intro body isWord trace s' outcome completed
    exact completed.body_of_blank blank isWord

/-- A tab and a space that cannot be broken are typed after a definition. -/
theorem statement_of_blank_reachable_half :
    ∃ trace s, (fresh .machine 80 {} {}).Runs [.evaluate "= half 0.5 *"] trace s ∧
      s.dictionary.get? "half" = some ["0.5", "*"] ∧ Sink.Works {} ∧ IsBlankText " \t\u00a0 " ∧
      (fresh .machine 80 {} {}).LeavesEmptyName [.evaluate "= half 0.5 *"] ∧
      s.statement 1 " \t\u00a0 " = some ({ s with length := 1, cursor := 1 }, .ok .proceed) := by
  let text := "= half 0.5 *"
  have split : tokens text = ["=", "half", "0.5", "*"] := by decide +kernel
  have run := Runs.cons (.evaluate (completes_definition (fresh .machine 80 {} {}) split)) (.nil _)
  have leaves : (fresh .machine 80 {} {}).LeavesEmptyName [.evaluate text] := by
    intro front call back trace s₁ parts before named
    cases front with
    | cons first front => simp at parts
    | nil =>
      obtain ⟨rfl, -⟩ := List.cons.inj parts
      cases before
      obtain ⟨-, trace, s₁, evaluated, empty⟩ := named
      rw [leadingTokens_of_definition split] at evaluated
      cases evaluated
      rw [split] at empty
      have same : "half" = "" := empty
      exact absurd same (by decide)
  have blank : IsBlankText " \t\u00a0 " := by decide
  have works : Sink.Works {} := ⟨rfl, rfl⟩
  obtain ⟨absent, idle, -⟩ := statement_of_blank_reachable run works blank
  exact ⟨_, _, run, by decide +kernel, works, blank, leaves, idle (absent leaves) 0⟩

/-- With two spaces after the marker it is the empty name that is defined, and the next blank
statement pushes a value and shows it. -/
theorem not_forall_blank_idle :
    ¬ ∀ (functions : Elementary) (width : Nat) (out err : Sink) (calls : List Call)
      (trace : List Dispatch) (s : Session) (text : String),
      (fresh functions width out err).Runs calls trace s → out.Works → err.Works →
        IsBlankText text → ∃ steps s', s.statement steps text = some (s', .ok .proceed) ∧
          s'.stack = s.stack ∧ s'.dictionary = s.dictionary ∧ s'.out.received = s.out.received ∧
          s'.err.received = s.err.received := by
  intro all
  have split : tokens "=  5" = ["=", "", "5"] := by decide +kernel
  let s := (((fresh .machine 80 {} {}).enter "=  5").define (tokens "=  5")).1
  have run : (fresh .machine 80 {} {}).Runs [.evaluate "=  5"] ([] ++ []) s :=
    .cons (.evaluate (completes_definition _ split)) (.nil _)
  have works : Sink.Works {} := ⟨rfl, rfl⟩
  obtain ⟨steps, s', result, stack, -⟩ := all _ _ _ _ _ _ s "" run works works (by decide)
  have pushes : (s.statement 3 "").map (fun r => r.1.stack.values) = some [.int 5] := by
    decide +kernel
  obtain ⟨⟨s₁, outcome⟩, ran, values⟩ := Option.map_eq_some_iff.mp pushes
  obtain ⟨_, idle⟩ := exists_statement_iff.mp ⟨steps, result⟩
  obtain ⟨_, pushed⟩ := exists_statement_iff.mp ⟨3, ran⟩
  obtain ⟨-, rfl, -⟩ := idle.deterministic pushed
  have empty : s.stack.values = [] := by decide +kernel
  rw [stack, empty] at values
  cases values

end Session

end Rpn
