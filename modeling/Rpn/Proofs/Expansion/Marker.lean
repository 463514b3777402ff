import Rpn.Proofs.Dictionary.Change
import Rpn.Proofs.Expansion.Leaves
import Rpn.Proofs.Session.Reserved

/-!
# A definition at the end of a statement

The first marker of a statement ends its evaluation, if evaluation gets that far, and starts a
definition. What is defined begins at the cursor, which the tokens before the marker have moved
on by one for each node of their expansion. They have no fewer nodes than there are tokens, so
the definition begins at the marker or after it, and the more is left out the more words stand
before the marker: the marker, then the name, and in the end all of the definition.

Nothing is assumed of the sinks and nothing of the words. That tokens are evaluated to their end
implies that they expand finitely.
-/

namespace Rpn

/-- A token has a node of its own. -/
theorem Expansion.length_roots_le_size (e : Expansion) : e.roots.length ≤ e.size := by
  rw [size]
  induction e with
  | nil => exact Nat.le_refl 0
  | leaf token rest ih => exact Nat.succ_le_succ ih
  | word name body rest _ ihRest =>
    simp only [roots, postorder, List.length_append, List.length_cons]
    omega

theorem leadingTokens_of_split {text : String} {before after : List String}
    (split : tokens text = before ++ definitionMarker :: after)
    (first : definitionMarker ∉ before) : leadingTokens text = before := by
  have unmarked : ∀ token ∈ before, (token != definitionMarker) = true :=
    fun token member => bne_iff_ne.mpr fun same => first (same ▸ member)
  rw [leadingTokens, split, List.takeWhile_append_of_pos unmarked,
    List.takeWhile_cons_of_neg (by simp), List.append_nil]

namespace Dictionary

theorem afterDefinition_of_length_le (d : Dictionary) {definition : List String}
    (short : definition.length ≤ 1) : d.afterDefinition definition = (d, []) := by
  match definition with
  | [] | [_] => rfl
  | _ :: _ :: _ => simp at short

theorem Sound.changesOne {d : Dictionary} (sound : d.Sound) (definition : List String) :
    d.ChangesOne (d.afterDefinition definition).1 := by
  rw [Dictionary.afterDefinition]
  split
  · next accepted => exact sound.changesOne_define accepted
  · exact .none

end Dictionary

namespace Session

/-- Tokens that are evaluated to their end expand finitely. -/
theorem Evaluates.exists_expands {s s' : Session} {names : List String} {trace : List Dispatch}
    {outcome : Except Fault Control} (h : Evaluates s names trace s' outcome)
    (proceeds : outcome = .ok .proceed) : ∃ e, s.dictionary.Expands names e := by
  induction h with
  | nil s => exact ⟨.nil, rfl, trivial⟩
  | @leaf s s₁ _ name _ _ _ notWord ran _ ih =>
    obtain ⟨e, roots, follows⟩ := ih proceeds
    rw [dictionary_advance, dictionary_of_leaf s name ran] at follows
    exact ⟨.leaf name e, congrArg (name :: ·) roots, notWord, follows⟩
  | leafStops _ _ stops => exact absurd proceeds stops
  | @word s s₁ _ name _ _ _ _ _ isWord inside _ ihInside ihAfter =>
    obtain ⟨body, bodyRoots, followsBody⟩ := ihInside rfl
    obtain ⟨e, roots, follows⟩ := ihAfter proceeds
    rw [dictionary_advance, inside.dictionary_eq.1] at follows
    exact ⟨.word name body e, congrArg (name :: ·) roots, bodyRoots.symm ▸ isWord, followsBody,
      follows⟩
  | wordStops _ _ stops => exact absurd proceeds stops

/-- How a statement ends at the marker between `before` and `after`, where `e` is the expansion
of the tokens before it, `s₁` is the session when the marker is reached and `s'` the session
after the statement. -/
structure EndsInDefinition (s : Session) (text : String) (before after : List String)
    (e : Expansion) (s₁ s' : Session) : Prop where
  /-- The definition does not begin before the marker. -/
  place : before.length ≤ e.size
  /-- The statement does nothing more than to define what begins as many tokens into it as the
  expansion has nodes. -/
  ends : s' = (s₁.define ((tokens text).drop e.size)).1
  stack : s'.stack = s₁.stack
  out : s'.out = s₁.out
  dictionary : s'.dictionary = (s.dictionary.afterDefinition ((tokens text).drop e.size)).1
  change : s.dictionary.ChangesOne s'.dictionary
  /-- Without words before the marker the definition is what is written. -/
  plain : (∀ token ∈ before, s.dictionary.get? token = none) →
    e.size = before.length ∧ (tokens text).drop e.size = definitionMarker :: after
  /-- Nothing is left to define when the cursor has gone past the end. -/
  past : (tokens text).length ≤ e.size → (tokens text).drop e.size = []
  /-- No name is left to define when it stands at the last token or beyond. -/
  late : (tokens text).length ≤ e.size + 1 → s'.dictionary = s.dictionary

/-- A statement whose evaluation gets to the first marker ends in a definition there. The leaves
that it meets are those of the tokens before the marker. -/
theorem Reachable.endsInDefinition {s s₁ : Session} (reachable : s.Reachable) {text : String}
    {before after : List String} (split : tokens text = before ++ definitionMarker :: after)
    (first : definitionMarker ∉ before) {trace : List Dispatch}
    (reaches : Evaluates (s.enter text) before trace s₁ (.ok .proceed)) :
    ∃ e s', s.dictionary.Expands before e ∧ (∃ steps, s.statement steps text =
        some (s', .ok .proceed)) ∧
      s.Completes text trace s' (.ok .proceed) ∧ EndsInDefinition s text before after e s₁ s' := by
  obtain ⟨e, expands⟩ := reaches.exists_expands rfl
  have swept := (evaluates_iff_sweep expands).mp reaches
  have place : s₁.cursor = e.size := by
    have proceeds : ((s.enter text).sweep e.postorder).outcome = .ok .proceed := by rw [swept]
    have moved := cursor_sweep proceeds
    rwa [swept, cursor_enter, Nat.zero_add] at moved
  have kept : s₁.dictionary = s.dictionary := reaches.dictionary_eq.1
  have marked : definitionMarker ∈ tokens text := by
    rw [split]
    exact List.mem_append_right _ List.mem_cons_self
  have concluded := conclude_of_mem s₁ text marked
  rw [place] at concluded
  have completes : s.Completes text trace _ (.ok .proceed) :=
    ⟨s₁, _, (leadingTokens_of_split split first).symm ▸ reaches, concluded⟩
  have dictionary := dictionary_define s₁ ((tokens text).drop e.size)
  rw [kept] at dictionary
  refine ⟨e, _, expands, exists_statement_iff.mpr ⟨trace, completes⟩, completes, ?_⟩
  constructor
  case place => exact expands.1 ▸ e.length_roots_le_size
  case ends => rfl
  case stack => exact stack_define s₁ _
  case out => exact out_define s₁ _
  case dictionary => exact dictionary
  case change => exact dictionary ▸ reachable.sound.changesOne _
  case plain =>
    intro plain
    have nodes := Expansion.postorder_of_forall_get?_eq_none expands.2 (expands.1.symm ▸ plain)
    have size : e.size = before.length := by
      rw [Expansion.size, nodes, List.length_map, expands.1]
    exact ⟨size, by rw [size, split, List.drop_left]⟩
  case past => exact List.drop_eq_nil_of_le
  case late =>
    intro late
    rw [dictionary, Dictionary.afterDefinition_of_length_le]
    rw [List.length_drop]
    omega

/-- The body of `pi` moves the cursor past the marker, so `x` is taken for the marker and `y` for
the name. -/
theorem Reachable.endsInDefinition_pi :
    let s := fresh .machine 80 {} {}
    s.Reachable ∧ ∃ steps s', s.statement steps "pi = x y 1 +" = some (s', .ok .proceed) ∧
      s'.dictionary = ⟨Dictionary.builtins.words ++ [⟨"y", ["1", "+"]⟩]⟩ ∧
      s.dictionary.ChangesOne s'.dictionary := by
  intro s
  have reachable := fresh_reachable .machine 80 {} {}
  have works : Sink.Works {} := ⟨rfl, rfl⟩
  let e := Expansion.word "pi" (.leaf "3.141592653589793" .nil) .nil
  have expands : s.dictionary.Expands (leadingTokens "pi = x y 1 +") e := by decide +kernel
  have split : tokens "pi = x y 1 +" = ["pi"] ++ definitionMarker :: ["x", "y", "1", "+"] := by
    decide +kernel
  have first : definitionMarker ∉ ["pi"] := by decide
  obtain ⟨evaluated, -⟩ := evaluates_leadingTokens (s := s) works expands
  have control : (s.stack.calculate s.functions e.leaves).control = .proceed := by decide +kernel
  rw [control, leadingTokens_of_split split first] at evaluated
  obtain ⟨e', s', expands', ⟨steps, result⟩, _, finish⟩ :=
    Reachable.endsInDefinition reachable split first evaluated
  rw [leadingTokens_of_split split first] at expands
  obtain rfl := expands'.unique expands
  have table : (s.dictionary.afterDefinition ((tokens "pi = x y 1 +").drop e.size)).1 =
      ⟨Dictionary.builtins.words ++ [⟨"y", ["1", "+"]⟩]⟩ := by
    decide +kernel
  exact ⟨reachable, steps, s', result, finish.dictionary.trans table, finish.change⟩

end Session

end Rpn
