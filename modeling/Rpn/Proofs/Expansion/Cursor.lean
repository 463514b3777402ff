import Rpn.Proofs.Expansion.Leaves

/-!
# The cursor

The cursor is moved on in two places, after a token that is not a word and after the last
token of a body, and is left alone where a body is entered. Its value inside of a body is
therefore neither a place in the statement nor one in the body: it is the rank of the leaf
at hand in the expansion of the statement, however deep words are nested.

Ranks grow strictly, so no two leaves share one. A literal shows the stack when its rank is
the last place of the statement, and this happens once at most.
-/

namespace Rpn

/-- The leaf that is met and the place of the cursor when it is. -/
def Dispatch.place (d : Dispatch) : String × Nat := (d.token, d.session.cursor)

/-- The leaf is a literal, and the stack with it on top is written to the output sink. -/
def Dispatch.Echoes (d : Dispatch) : Prop :=
  ∃ v, Value.ofLiteral? d.token = some v ∧
    (d.session.leaf d.token).1.out.received =
      d.session.out.received ++ utf8Bytes ((d.session.stack.push v).text ++ "\n")

theorem utf8Bytes_line_ne_nil (text : String) : utf8Bytes (text ++ "\n") ≠ [] := by
  rw [utf8Bytes, String.toList_append, List.flatMap_append]
  exact fun empty => absurd (List.append_eq_nil_iff.mp empty).2 (by decide)

namespace Dispatch

variable {d : Dispatch} {v : Value}

theorem out_of_last (literal : Value.ofLiteral? d.token = some v)
    (last : d.session.cursor + 1 = d.session.length) :
    (d.session.leaf d.token).1.out =
      (d.session.out.write ((d.session.stack.push v).text ++ "\n")).1 := by
  rw [Session.leaf_eq_respond, Session.response_of_literal _ literal, Session.literalResponse,
    if_pos last]
  rfl

theorem out_of_not_last (literal : Value.ofLiteral? d.token = some v)
    (notLast : d.session.cursor + 1 ≠ d.session.length) :
    (d.session.leaf d.token).1.out = d.session.out := by
  rw [Session.leaf_eq_respond, Session.response_of_literal _ literal, Session.literalResponse,
    if_neg notLast]
  rfl

/-- A literal shows the stack when it stands at the last place of the statement. -/
theorem echoes_iff (works : d.session.out.Works) (literal : Value.ofLiteral? d.token = some v) :
    d.Echoes ↔ d.session.cursor + 1 = d.session.length := by
  constructor
  · rintro ⟨u, _, shown⟩
    by_contra notLast
    rw [out_of_not_last literal notLast, List.self_eq_append_right] at shown
    exact utf8Bytes_line_ne_nil _ shown
  · intro last
    refine ⟨v, literal, ?_⟩
    rw [out_of_last literal last, works.received_write]

theorem Echoes.last (works : d.session.out.Works) (echoes : d.Echoes) :
    d.session.cursor + 1 = d.session.length := by
  obtain ⟨v, literal, _⟩ := id echoes
  exact (echoes_iff works literal).mp echoes

/-- Of leaves that are met with a growing cursor only the last can show the stack, if it
stands at the last place itself. -/
theorem eq_last_of_echoes {trace : List Dispatch} {last : Dispatch} {n : Nat}
    (increasing : (trace ++ [last]).Pairwise fun d d' => d.session.cursor < d'.session.cursor)
    (worked : ∀ d ∈ trace ++ [last], d.session.out.Works)
    (lengths : ∀ d ∈ trace ++ [last], d.session.length = n)
    (atLast : last.session.cursor + 1 = n) (member : d ∈ trace ++ [last]) (echoes : d.Echoes) :
    d = last := by
  have here := echoes.last (worked d member)
  rw [lengths d member] at here
  obtain earlier | isLast := List.mem_append.mp member
  · have before := (List.pairwise_append.mp increasing).2.2 d earlier last
      (List.mem_singleton_self last)
    omega
  · exact List.mem_singleton.mp isLast

end Dispatch

/-- The leaves that are met when no response fails: all of them up to the first `quit`, with
that one. -/
def throughQuit : List (String × Nat) → List (String × Nat)
  | [] => []
  | (token, rank) :: rest =>
    if token = Command.quit.name then [(token, rank)] else (token, rank) :: throughQuit rest

theorem throughQuit_quit (rank : Nat) (rest : List (String × Nat)) :
    throughQuit ((Command.quit.name, rank) :: rest) = [(Command.quit.name, rank)] :=
  if_pos rfl

theorem throughQuit_of_ne {token : String} (goesOn : token ≠ Command.quit.name) (rank : Nat)
    (rest : List (String × Nat)) :
    throughQuit ((token, rank) :: rest) = (token, rank) :: throughQuit rest :=
  if_neg goesOn

theorem throughQuit_sublist (ranked : List (String × Nat)) :
    (throughQuit ranked).Sublist ranked := by
  induction ranked with
  | nil => exact .slnil
  | cons leaf rest ih =>
    obtain ⟨token, rank⟩ := leaf
    by_cases quits : token = Command.quit.name
    · subst quits
      rw [throughQuit_quit]
      exact (List.nil_sublist rest).cons_cons _
    · rw [throughQuit_of_ne quits]
      exact ih.cons_cons _

namespace Session

variable {s : Session}

/-- Each leaf is met with the cursor at its rank. -/
theorem map_place_sweep (works : s.out.Works) (nodes : List Node) :
    (s.sweep nodes).trace.map Dispatch.place = throughQuit (leafRanks s.cursor nodes) := by
  -- A node moves the cursor on by one whatever it is, and ranks are counted in the same way.
  induction nodes generalizing s with
  | nil => rfl
  | cons node nodes ih =>
    cases node with
    | word name => exact ih (s := s.advance) works
    | leaf token =>
      rw [leafRanks_leaf]
      by_cases quits : token = Command.quit.name
      · subst quits
        rw [sweep_quit, throughQuit_quit]
        rfl
      · have later := ih (s := (s.leaf token).1.advance) (out_leaf_works works token)
        rw [cursor_advance, cursor_leaf] at later
        rw [sweep_leaf_of_works works quits, throughQuit_of_ne quits, List.map_cons, later]
        rfl

/-- The cursor stays at the first `quit`. -/
theorem cursor_sweep_of_quit (works : s.out.Works) {nodes : List Node} {rank : Nat}
    (met : (Command.quit.name, rank) ∈ throughQuit (leafRanks s.cursor nodes)) :
    (s.sweep nodes).session.cursor = rank := by
  induction nodes generalizing s with
  | nil => cases met
  | cons node nodes ih =>
    cases node with
    | word name => exact ih (s := s.advance) works met
    | leaf token =>
      rw [leafRanks_leaf] at met
      by_cases quits : token = Command.quit.name
      · subst quits
        rw [throughQuit_quit] at met
        cases List.mem_singleton.mp met
        rw [sweep_quit]
      · rw [throughQuit_of_ne quits] at met
        obtain same | later := List.mem_cons.mp met
        · cases same
          exact absurd rfl quits
        · rw [sweep_leaf_of_works works quits]
          refine ih (s := (s.leaf token).1.advance) (out_leaf_works works token) ?_
          rwa [cursor_advance, cursor_leaf]

/-- The cursor has moved on from each leaf to the next. -/
theorem pairwise_cursor_sweep (works : s.out.Works) (nodes : List Node) :
    (s.sweep nodes).trace.Pairwise fun d d' => d.session.cursor < d'.session.cursor := by
  have increasing := (pairwise_leafRanks s.cursor nodes).1
  have met := increasing.sublist ((throughQuit_sublist _).map Prod.snd)
  rw [← map_place_sweep works nodes, List.map_map] at met
  exact List.pairwise_map.mp met

/-- Without words and without `quit` the leaf that is met last is the last token, and after
it nothing happens to the session but that the cursor moves on. -/
theorem sweep_plain (works : s.out.Works) {front : List String} {last : String}
    (goesOn : Command.quit.name ∉ front ++ [last]) :
    ∃ trace s₁, s.sweep ((front ++ [last]).map .leaf) =
        ⟨trace ++ [⟨s₁, last⟩], (s₁.leaf last).1.advance, .ok .proceed⟩ ∧
      s₁.cursor = s.cursor + front.length := by
  have before : Node.leaf Command.quit.name ∉ front.map Node.leaf := by
    rintro member
    obtain ⟨token, inFront, same⟩ := List.mem_map.mp member
    cases same
    exact goesOn (List.mem_append_left _ inFront)
  have other : last ≠ Command.quit.name := by
    rintro rfl
    exact goesOn (List.mem_append_right _ (List.mem_singleton_self _))
  obtain ⟨proceeds, stillWorks⟩ := sweep_proceeds works before
  have place := cursor_sweep proceeds
  rw [List.length_map] at place
  refine ⟨(s.sweep (front.map .leaf)).trace, (s.sweep (front.map .leaf)).session, ?_, place⟩
  rw [List.map_append, sweep_append_of_proceed _ proceeds, List.map_singleton,
    sweep_leaf_of_works stillWorks other]
  rfl

end Session

/-- How the cursor goes through a statement whose leading tokens expand to `e`, and what it
decides: `trace` are the leaves that the statement meets and `s'` is the session after it. -/
structure FollowsRanks (s : Session) (text : String) (e : Expansion) (trace : List Dispatch)
    (s' : Session) : Prop where
  /-- A leaf is met with the cursor at its rank. -/
  places : trace.map Dispatch.place = throughQuit e.rankedLeaves
  /-- Without `quit` the cursor goes past all nodes. -/
  passes : Command.quit.name ∉ e.leaves → s'.cursor = e.size
  /-- It stays at the `quit` that is met. -/
  stays : ∀ rank, (Command.quit.name, rank) ∈ throughQuit e.rankedLeaves → s'.cursor = rank
  /-- A literal shows the stack at the last place of the statement and nothing elsewhere. -/
  echoes : ∀ d ∈ trace, ∀ v, Value.ofLiteral? d.token = some v →
    (d.Echoes ↔ d.session.cursor + 1 = (tokens text).length) ∧
      (¬ d.Echoes → (d.session.leaf d.token).1.out = d.session.out)
  /-- No two literals show the stack. -/
  once : trace.Pairwise fun d d' => ¬ (d.Echoes ∧ d'.Echoes)
  /-- In a statement without words it is the last token that shows the stack, as it is at the
  end of the statement. -/
  plain : (∀ token ∈ tokens text, s.dictionary.get? token = none) →
    definitionMarker ∉ tokens text → Command.quit.name ∉ tokens text →
      ((∃ d ∈ trace, d.Echoes) ↔ ∃ v, (tokens text).getLast?.bind Value.ofLiteral? = some v) ∧
        ∀ d ∈ trace, d.Echoes →
          s'.out.received = d.session.out.received ++ utf8Bytes (s'.stack.text ++ "\n")

namespace Session

variable {s : Session} {text : String} {e : Expansion}

/-- Only the last leaf can show the stack of a statement without words. -/
theorem echo_of_plain (works : s.out.Works)
    (expands : s.dictionary.Expands (leadingTokens text) e)
    (plain : ∀ token ∈ tokens text, s.dictionary.get? token = none)
    (unmarked : definitionMarker ∉ tokens text) (goesOn : Command.quit.name ∉ tokens text) :
    let swept := (s.enter text).sweep e.postorder
    ((∃ d ∈ swept.trace, d.Echoes) ↔ ∃ v, (tokens text).getLast?.bind Value.ofLiteral? = some v) ∧
      ∀ d ∈ swept.trace, d.Echoes → swept.session.out.received =
        d.session.out.received ++ utf8Bytes (swept.session.stack.text ++ "\n") := by
  intro swept
  have whole := leadingTokens_of_not_mem unmarked
  have roots : e.roots = tokens text := expands.1.trans whole
  have nodes : e.postorder = (tokens text).map .leaf := by
    rw [Expansion.postorder_of_forall_get?_eq_none expands.2 (roots ▸ plain), roots]
  obtain ⟨front, last, concat⟩ : ∃ front last, tokens text = front ++ [last] :=
    ⟨_, _, (List.dropLast_concat_getLast (tokens_ne_nil text)).symm⟩
  rw [concat] at nodes goesOn
  obtain ⟨trace, s₁, ran, place⟩ := sweep_plain (s := s.enter text) works goesOn
  have same : swept = _ := (congrArg (s.enter text).sweep nodes).trans ran
  have evaluated := evaluates_sweep (s := s.enter text) expands.2
  have worked := (evaluated.out_works works).2
  have lengths := evaluated.length_eq.2
  have increasing := pairwise_cursor_sweep (s := s.enter text) works e.postorder
  rw [show (s.enter text).sweep e.postorder = _ from same] at worked lengths increasing
  rw [cursor_enter, Nat.zero_add] at place
  rw [length_enter, concat, List.length_append, List.length_singleton] at lengths
  have isMet : ⟨s₁, last⟩ ∈ trace ++ [⟨s₁, last⟩] :=
    List.mem_append_right _ (List.mem_singleton_self _)
  have atLast : s₁.cursor + 1 = front.length + 1 := congrArg (· + 1) place
  rw [same, concat, List.getLast?_concat, Option.bind_some]
  refine ⟨⟨?_, ?_⟩, ?_⟩
  · rintro ⟨d, member, echoes⟩
    obtain rfl := Dispatch.eq_last_of_echoes increasing worked lengths atLast member echoes
    obtain ⟨v, literal, _⟩ := echoes
    exact ⟨v, literal⟩
  · rintro ⟨v, literal⟩
    have echoes := (Dispatch.echoes_iff (d := ⟨s₁, last⟩) (worked _ isMet) literal).mpr
      (atLast.trans (lengths _ isMet).symm)
    exact ⟨_, isMet, echoes⟩
  · intro d member echoes
    obtain rfl := Dispatch.eq_last_of_echoes increasing worked lengths atLast member echoes
    obtain ⟨v, literal, shown⟩ := echoes
    rw [out_advance, stack_advance, stack_leaf_of_literal s₁ literal]
    exact shown

/-- A statement whose words expand finitely comes to an end if the output sink works, and
the cursor goes through it by the ranks of its leaves. -/
theorem statement_followsRanks (works : s.out.Works)
    (expands : s.dictionary.Expands (leadingTokens text) e) :
    ∃ steps trace s' control, s.statement steps text = some (s', .ok control) ∧
      s.Completes text trace s' (.ok control) ∧ FollowsRanks s text e trace s' := by
  obtain ⟨evaluated, _, _, place⟩ := evaluates_leadingTokens works expands
  have worked := evaluated.out_works works
  have lengths := evaluated.length_eq.2
  obtain ⟨s', concluded, stack, cursor, out, _, _⟩ :=
    conclude_eq_afterStatement worked.1 text e _ place
  have completes : s.Completes text _ s' _ := ⟨_, _, evaluated, concluded⟩
  obtain ⟨steps, result⟩ := exists_statement_iff.mpr ⟨_, completes⟩
  have places := map_place_sweep (s := s.enter text) works e.postorder
  refine ⟨steps, _, s', _, result, completes, ?_⟩
  constructor
  case places => exact places
  case passes =>
    intro goesOn
    have proceeds := sweep_proceeds (s := s.enter text) works
      (mt (e.leaf_mem_postorder Command.quit.name).mp goesOn)
    rw [cursor, cursor_sweep proceeds.1, cursor_enter, Nat.zero_add]
    rfl
  case stays =>
    intro rank met
    rw [cursor]
    exact cursor_sweep_of_quit (s := s.enter text) works met
  case echoes =>
    intro d member v literal
    have iff := Dispatch.echoes_iff (worked.2 d member) literal
    rw [lengths d member, length_enter] at iff
    refine ⟨iff, fun unseen => ?_⟩
    apply Dispatch.out_of_not_last literal
    rw [lengths d member, length_enter]
    exact fun last => unseen (iff.mpr last)
  case once =>
    have increasing := pairwise_cursor_sweep (s := s.enter text) works e.postorder
    refine increasing.imp_of_mem ?_
    rintro d d' member member' before ⟨echoes, echoes'⟩
    have last := echoes.last (worked.2 d member)
    have last' := echoes'.last (worked.2 d' member')
    rw [lengths d member] at last
    rw [lengths d' member'] at last'
    omega
  case plain =>
    intro plain unmarked goesOn
    rw [stack, out]
    exact echo_of_plain works expands plain unmarked goesOn

/-- The body of `pi` moves the cursor past the end of the statement before its last token is
met, so nothing is shown. -/
theorem statement_followsRanks_pi :
    let s := fresh .machine 80 {} {}
    let e := Expansion.word "pi" (.leaf "3.141592653589793" .nil) (.leaf "4" .nil)
    s.out.Works ∧ s.dictionary.Expands (leadingTokens "pi 4") e ∧
      ∃ (steps : Nat) (trace : List Dispatch) (s' : Session) (control : Control),
        s.statement steps "pi 4" = some (s', .ok control) ∧
        trace.map Dispatch.place = [("3.141592653589793", 0), ("4", 2)] ∧ s'.cursor = 3 ∧
        ∀ d ∈ trace, ¬ d.Echoes := by
  intro s e
  have works : Sink.Works {} := ⟨rfl, rfl⟩
  have expands : s.dictionary.Expands (leadingTokens "pi 4") e := by decide +kernel
  obtain ⟨steps, trace, s', control, result, _, follows⟩ :=
    statement_followsRanks (s := s) works expands
  have places : trace.map Dispatch.place = [("3.141592653589793", 0), ("4", 2)] :=
    follows.places.trans (by decide)
  refine ⟨works, expands, steps, trace, s', control, result, places, ?_, ?_⟩
  · exact follows.passes (by decide)
  · intro d member echoes
    obtain ⟨v, literal, _⟩ := id echoes
    have last := (follows.echoes d member v literal).1.mp echoes
    have length : (tokens "pi 4").length = 2 := by decide +kernel
    have place := List.mem_map_of_mem (f := Dispatch.place) member
    rw [places] at place
    rw [length] at last
    simp [Dispatch.place] at place
    omega

end Session

end Rpn
