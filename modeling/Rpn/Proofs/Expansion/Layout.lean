import Rpn.Proofs.Expansion.Transcript
import Rpn.Proofs.Text.Fields

/-!
# Layout

What is left of a statement without its empty tokens, and with every word replaced by the leaves of
its body, settles what the statement does, all but the echoes of literals: the places of tokens and
the number of them have no other use. So it does not matter how a program is laid out, on one line
or on several, with a word or with what the word stands for, and with how many spaces.

A word named by the empty string would make a difference, as empty tokens would not do nothing.
-/

namespace Rpn

namespace Expansion

/-- One forest and then another one. -/
def append : Expansion → Expansion → Expansion
  | nil, later => later
  | leaf token rest, later => .leaf token (rest.append later)
  | word name body rest, later => .word name body (rest.append later)

variable (e later : Expansion)

@[simp] theorem roots_append : (e.append later).roots = e.roots ++ later.roots := by
  induction e with
  | nil => rfl
  | leaf token rest ih => exact congrArg (token :: ·) ih
  | word name body rest _ ih => exact congrArg (name :: ·) ih

@[simp] theorem leaves_append : (e.append later).leaves = e.leaves ++ later.leaves := by
  induction e with
  | nil => rfl
  | leaf token rest ih => exact congrArg (token :: ·) ih
  | word name body rest _ ih =>
    rw [append, leaves, leaves, ih, List.append_assoc]

@[simp] theorem follows_append {d : Dictionary} :
    (e.append later).Follows d ↔ e.Follows d ∧ later.Follows d := by
  induction e with
  | nil => exact (and_iff_right trivial).symm
  | leaf token rest ih => rw [append, Follows, Follows, ih, and_assoc]
  | word name body rest _ ih => rw [append, Follows, Follows, ih, and_assoc, and_assoc]

/-- The forest of some tokens and others is cut in two between them. -/
theorem exists_append_of_roots {e : Expansion} {names names' : List String}
    (roots : e.roots = names ++ names') :
    ∃ first later : Expansion, e = first.append later ∧ first.roots = names ∧ later.roots = names' := by
  induction names generalizing e with
  | nil => exact ⟨.nil, e, rfl, rfl, roots⟩
  | cons name names ih =>
    cases e with
    | nil => cases roots
    | leaf token rest =>
      obtain ⟨rfl, rootsRest⟩ := List.cons.inj roots
      obtain ⟨first, later, rfl, rfl, same⟩ := ih rootsRest
      exact ⟨.leaf token first, later, rfl, rfl, same⟩
    | word name' body rest =>
      obtain ⟨rfl, rootsRest⟩ := List.cons.inj roots
      obtain ⟨first, later, rfl, rfl, same⟩ := ih rootsRest
      exact ⟨.word name' body first, later, rfl, rfl, same⟩

end Expansion

namespace Dictionary

/-- The tokens expand finitely, and `leaves` are the leaves that they come to, without the empty
ones. -/
def ComeTo (d : Dictionary) (names leaves : List String) : Prop :=
  ∃ e, d.Expands names e ∧ e.leaves.filter (· ≠ "") = leaves

variable {d : Dictionary} {names names' leaves : List String}

theorem comeTo_append : d.ComeTo (names ++ names') leaves ↔
    ∃ first later, leaves = first ++ later ∧ d.ComeTo names first ∧ d.ComeTo names' later := by
  constructor
  · rintro ⟨e, ⟨roots, follows⟩, rfl⟩
    obtain ⟨first, later, rfl, rootsFirst, rootsLater⟩ := Expansion.exists_append_of_roots roots
    obtain ⟨followsFirst, followsLater⟩ := (first.follows_append later).mp follows
    refine ⟨_, _, ?_, ⟨first, ⟨rootsFirst, followsFirst⟩, rfl⟩,
      ⟨later, ⟨rootsLater, followsLater⟩, rfl⟩⟩
    rw [Expansion.leaves_append, List.filter_append]
  · rintro ⟨_, _, rfl, ⟨e, ⟨rfl, follows⟩, rfl⟩, e', ⟨rfl, follows'⟩, rfl⟩
    refine ⟨e.append e', ⟨e.roots_append e', (e.follows_append e').mpr ⟨follows, follows'⟩⟩, ?_⟩
    rw [Expansion.leaves_append, List.filter_append]

/-- An empty token that is no word comes to nothing. -/
theorem comeTo_empty (unnamed : d.get? "" = none) : d.ComeTo [""] leaves ↔ leaves = [] := by
  have expands : d.Expands [""] (.leaf "" .nil) := ⟨rfl, unnamed, trivial⟩
  constructor
  · rintro ⟨e, expands', rfl⟩
    rw [expands'.unique expands]
    rfl
  · rintro rfl
    exact ⟨_, expands, rfl⟩

/-- Tokens come to the same without the empty ones among them. -/
theorem comeTo_filter (unnamed : d.get? "" = none) :
    d.ComeTo (names.filter (· ≠ "")) leaves ↔ d.ComeTo names leaves := by
  induction names generalizing leaves with
  | nil => exact Iff.rfl
  | cons name names ih =>
    rw [← List.singleton_append, comeTo_append]
    by_cases empty : name = ""
    · subst empty
      simp only [comeTo_empty unnamed]
      rw [List.filter_append, List.filter_cons_of_neg (by decide), List.filter_nil,
        List.nil_append, ih]
      simp
    · rw [List.filter_append, List.filter_cons_of_pos (by simpa using empty)]
      simp only [comeTo_append, List.filter_nil, ih]

/-- A word comes to what its body comes to. -/
theorem comeTo_body {name : String} {body : List String} (h : d.ComeTo [name] leaves)
    (isWord : d.get? name = some body) :
    d.ComeTo body leaves := by
  obtain ⟨e, ⟨roots, follows⟩, rfl⟩ := h
  cases e with
  | nil => cases roots
  | leaf token rest =>
    obtain ⟨rfl, -⟩ := List.cons.inj roots
    cases follows.1.symm.trans isWord
  | word name' inside rest =>
    obtain ⟨rfl, rootsRest⟩ := List.cons.inj roots
    obtain ⟨isWord', followsInside, followsRest⟩ := follows
    cases rest with
    | nil =>
      refine ⟨inside, ⟨Option.some.inj (isWord'.symm.trans isWord), followsInside⟩, ?_⟩
      rw [Expansion.leaves, Expansion.leaves, List.append_nil]
    | leaf | word => cases rootsRest

end Dictionary

/-- What is left of some statements once they are done with, the echoes of literals apart. -/
structure Upshot where
  stack : Stack
  dictionary : Dictionary
  err : Sink
  control : Control
  /-- The output without the echoes. -/
  shown : List UInt8

namespace Session

/-- `s.CompletesAll texts trace s' control`: the statements, one after the other until one of them
quits, take the session `s` to `s'` and end there with `control`, having met the leaves in
`trace`. -/
inductive CompletesAll :
    Session → List String → List Dispatch → Session → Control → Prop where
  | nil (s : Session) : CompletesAll s [] [] s .proceed
  | quits {s s' : Session} {text : String} {rest : List String} {trace : List Dispatch}
      (completes : s.Completes text trace s' (.ok .quit)) :
      CompletesAll s (text :: rest) trace s' .quit
  | cons {s s₁ s' : Session} {text : String} {rest : List String} {trace trace' : List Dispatch}
      {control : Control} (completes : s.Completes text trace s₁ (.ok .proceed))
      (later : CompletesAll s₁ rest trace' s' control) :
      CompletesAll s (text :: rest) (trace ++ trace') s' control

/-- Statements that take the session to their end leave this behind. -/
def ComesTo (s : Session) (texts : List String) (u : Upshot) : Prop :=
  ∃ trace s', s.CompletesAll texts trace s' u.control ∧ s'.stack = u.stack ∧
    s'.dictionary = u.dictionary ∧ s'.err = u.err ∧ unechoed trace = u.shown

/-- Some statements and others come to their ends, and there is no difference but for the echoes. -/
def SameUpshot (s : Session) (texts texts' : List String) : Prop :=
  ∃ u, s.ComesTo texts u ∧ s.ComesTo texts' u

theorem CompletesAll.deterministic {s s₁ s₂ : Session} {texts : List String}
    {trace₁ trace₂ : List Dispatch} {control₁ control₂ : Control}
    (h₁ : s.CompletesAll texts trace₁ s₁ control₁) (h₂ : s.CompletesAll texts trace₂ s₂ control₂) :
    trace₁ = trace₂ ∧ s₁ = s₂ ∧ control₁ = control₂ := by
  induction h₁ generalizing trace₂ s₂ control₂ with
  | nil s =>
    cases h₂
    exact ⟨rfl, rfl, rfl⟩
  | quits completes =>
    cases h₂ with
    | quits completes' =>
      obtain ⟨rfl, rfl, -⟩ := completes.deterministic completes'
      exact ⟨rfl, rfl, rfl⟩
    | cons completes' _ => cases (completes.deterministic completes').2.2
  | cons completes _ ih =>
    cases h₂ with
    | quits completes' => cases (completes.deterministic completes').2.2
    | cons completes' later' =>
      obtain ⟨rfl, rfl, -⟩ := completes.deterministic completes'
      obtain ⟨rfl, rfl, rfl⟩ := ih later'
      exact ⟨rfl, rfl, rfl⟩

/-- Statements come to one thing only. -/
theorem ComesTo.unique {s : Session} {texts : List String} {u u' : Upshot} (h : s.ComesTo texts u)
    (h' : s.ComesTo texts u') : u = u' := by
  obtain ⟨stack, dictionary, err, control, shown⟩ := u
  obtain ⟨stack', dictionary', err', control', shown'⟩ := u'
  obtain ⟨trace, s₁, completes, rfl, rfl, rfl, rfl⟩ := h
  obtain ⟨trace', s₂, completes', rfl, rfl, rfl, rfl⟩ := h'
  obtain ⟨rfl, rfl, rfl⟩ := completes.deterministic completes'
  rfl

/-- What leaves come to by themselves. -/
def upshot (s : Session) (leaves : List String) : Upshot where
  stack := (s.stack.calculate s.functions leaves).stack
  dictionary := s.dictionary
  err := s.err.report (s.stack.calculate s.functions leaves).faults
  control := (s.stack.calculate s.functions leaves).control
  shown := s.stack.transcript s.functions s.dictionary s.width leaves

/-- Neither the functions nor the width of the screen ever change, and a sink that works goes on
working. -/
theorem kept_settings (functions : Elementary) (width : Nat) :
    Kept fun s => s.functions = functions ∧ s.width = width ∧ s.out.Works where
  enter _ _ start := start
  advance _ start := start
  leaf s token start :=
    ⟨(functions_leaf s token).trans start.1, (width_leaf s token).trans start.2.1,
      out_leaf_works start.2.2 token⟩
  define s definition start := by
    rw [fst_define]
    exact start

section Upshot

variable {s : Session} {text text' : String} {leaves leaves' : List String}

/-- A statement does what its leaves do by themselves. -/
theorem completes_upshot (works : s.out.Works) (unmarked : definitionMarker ∉ tokens text)
    (comes : s.dictionary.ComeTo (tokens text) leaves) :
    ∃ trace s', s.Completes text trace s' (.ok (s.upshot leaves).control) ∧
      s'.stack = (s.upshot leaves).stack ∧ s'.dictionary = (s.upshot leaves).dictionary ∧
      s'.err = (s.upshot leaves).err ∧ unechoed trace = (s.upshot leaves).shown := by
  obtain ⟨e, expands, rfl⟩ := comes
  rw [← leadingTokens_of_not_mem unmarked] at expands
  obtain ⟨evaluated, stack, err, -⟩ := evaluates_leadingTokens works expands
  have shown := unechoed_sweep (s := s.enter text) works e.postorder 0
  rw [e.map_fst_leafRanks] at shown
  obtain ⟨calculated, written⟩ :=
    Stack.filter_nonempty s.functions s.dictionary s.width s.stack e.leaves
  rw [upshot, calculated, written]
  have concluded := conclude_of_works (evaluated.out_works works).1 unmarked
    (s.stack.calculate s.functions e.leaves).control
  exact ⟨_, _, ⟨_, _, evaluated, concluded⟩, stack, evaluated.dictionary_eq.1, err, shown⟩

theorem comesTo_upshot (works : s.out.Works) (unmarked : definitionMarker ∉ tokens text)
    (comes : s.dictionary.ComeTo (tokens text) leaves) : s.ComesTo [text] (s.upshot leaves) := by
  obtain ⟨trace, s', completes, stack, dictionary, err, shown⟩ :=
    completes_upshot works unmarked comes
  cases control : (s.upshot leaves).control with
  | quit =>
    rw [control] at completes
    exact ⟨trace, s', control.symm ▸ .quits completes, stack, dictionary, err, shown⟩
  | proceed =>
    rw [control] at completes
    have all : s.CompletesAll [text] (trace ++ []) s' .proceed := .cons completes (.nil s')
    rw [List.append_nil] at all
    exact ⟨trace, s', control.symm ▸ all, stack, dictionary, err, shown⟩

/-- Two statements do what the leaves of both do, those of the second one after those of the
first. -/
theorem comesTo_upshot_append (works : s.out.Works) (unmarked : definitionMarker ∉ tokens text)
    (unmarked' : definitionMarker ∉ tokens text')
    (comes : s.dictionary.ComeTo (tokens text) leaves)
    (comes' : s.dictionary.ComeTo (tokens text') leaves') :
    s.ComesTo [text, text'] (s.upshot (leaves ++ leaves')) := by
  obtain ⟨trace, s₁, completes, stack, dictionary, err, shown⟩ :=
    completes_upshot works unmarked comes
  cases control : (s.upshot leaves).control with
  | quit =>
    rw [control] at completes
    obtain ⟨calculated, written⟩ :=
      Stack.append_of_quit s.dictionary s.width leaves' control
    have same : s.upshot (leaves ++ leaves') = s.upshot leaves := by
      rw [upshot, upshot, calculated, written]
    rw [same]
    exact ⟨trace, s₁, control.symm ▸ .quits completes, stack, dictionary, err, shown⟩
  | proceed =>
    rw [control] at completes
    obtain ⟨functions, width, works₁⟩ :=
      ((kept_settings s.functions s.width).completes completes ⟨rfl, rfl, works⟩).1
    have same : s₁.dictionary = s.dictionary := dictionary
    obtain ⟨calculated, written⟩ :=
      Stack.append_of_proceed s.dictionary s.width leaves' control
    have whole : s.upshot (leaves ++ leaves') =
        { s₁.upshot leaves' with
          shown := (s.upshot leaves).shown ++ (s₁.upshot leaves').shown } := by
      simp only [upshot, calculated, written, stack, functions, same, width, err,
        Sink.report_append]
    rw [← same] at comes'
    obtain ⟨trace', s', all, stack', dictionary', err', shown'⟩ :=
      comesTo_upshot works₁ unmarked' comes'
    rw [whole]
    refine ⟨trace ++ trace', s', .cons completes all, stack', dictionary', err', ?_⟩
    rw [unechoed_append, shown, shown']

/-- A statement does what its tokens do, the empty ones left out. -/
theorem comesTo_of_visibleTokens (works : s.out.Works) (unnamed : s.dictionary.get? "" = none)
    {names : List String} (visible : visibleTokens text = names)
    (unmarked : definitionMarker ∉ names) (comes : s.dictionary.ComeTo names leaves) :
    s.ComesTo [text] (s.upshot leaves) := by
  rw [← visible] at unmarked comes
  exact comesTo_upshot works (mt mem_visibleTokens_iff.mpr unmarked)
    ((Dictionary.comeTo_filter unnamed).mp comes)

/-- The tokens of a plain statement, the empty ones left out, come to something if all of them do,
and the marker is not among them. -/
theorem exists_comeTo_of_isPlain (plain : IsPlain text) (unnamed : s.dictionary.get? "" = none)
    {e : Expansion} (expands : s.dictionary.Expands (tokens text) e) {names : List String}
    (visible : visibleTokens text = names) :
    definitionMarker ∉ names ∧ ∃ leaves, s.dictionary.ComeTo names leaves := by
  rw [← visible]
  exact ⟨mt mem_visibleTokens_iff.mp plain.unmarked, _,
    (Dictionary.comeTo_filter unnamed).mpr ⟨e, expands, rfl⟩⟩

/-- Two statements may be typed as one. -/
theorem sameUpshot_joined (works : s.out.Works) (unnamed : s.dictionary.get? "" = none)
    {e e' : Expansion} (plain : IsPlain text) (plain' : IsPlain text')
    (expands : s.dictionary.Expands (tokens text) e)
    (expands' : s.dictionary.Expands (tokens text') e') :
    s.SameUpshot [text ++ " " ++ text'] [text, text'] := by
  have visible := visibleTokens_append_spaces plain.spaced plain'.spaced 0
  have space : spaces (0 + 1) = " " := by decide
  rw [space] at visible
  have comes : s.dictionary.ComeTo (tokens text) _ := ⟨e, expands, rfl⟩
  have comes' : s.dictionary.ComeTo (tokens text') _ := ⟨e', expands', rfl⟩
  have unmarked : definitionMarker ∉ visibleTokens text ++ visibleTokens text' := by
    rw [List.mem_append, mem_visibleTokens_iff, mem_visibleTokens_iff]
    exact fun marked => marked.elim plain.unmarked plain'.unmarked
  have comesBoth := Dictionary.comeTo_append.mpr ⟨_, _, rfl,
    (Dictionary.comeTo_filter unnamed).mpr comes, (Dictionary.comeTo_filter unnamed).mpr comes'⟩
  exact ⟨_, comesTo_of_visibleTokens works unnamed visible unmarked comesBoth,
    comesTo_upshot_append works plain.unmarked plain'.unmarked comes comes'⟩

/-- A word may be replaced by the tokens of its body. -/
theorem sameUpshot_replaced (works : s.out.Works) (unnamed : s.dictionary.get? "" = none)
    {left name right : String} {body : List String} {e : Expansion}
    (opens : left = "" ∨ ∃ start, left = start ++ " ")
    (closes : right = "" ∨ ∃ rest, right = " " ++ rest) (unspaced : ' ' ∉ name.toList)
    (plain : IsPlain (left ++ name ++ right))
    (expands : s.dictionary.Expands (tokens (left ++ name ++ right)) e)
    (isWord : s.dictionary.get? name = some body)
    (ordinary : ∀ token ∈ body, Unbroken token.toList ∧ token ≠ definitionMarker) :
    s.SameUpshot [left ++ name ++ right] [left ++ " ".intercalate body ++ right] := by
  have named : name ≠ "" := by
    rintro rfl
    cases unnamed.symm.trans isWord
  have unbroken : ∀ token ∈ body, Unbroken token.toList := fun token member =>
    (ordinary token member).1
  obtain ⟨spacedFront, spacedRight⟩ := onlySpaces_append.mp plain.spaced
  obtain ⟨spacedLeft, spacedName⟩ := onlySpaces_append.mp spacedFront
  have spacedBody : OnlySpaces (left ++ " ".intercalate body ++ right).toList :=
    onlySpaces_append.mpr
      ⟨onlySpaces_append.mpr ⟨spacedLeft, onlySpaces_intercalate unbroken⟩, spacedRight⟩
  have visible := visibleTokens_between opens closes plain.spaced
  have visibleBody := visibleTokens_between opens closes spacedBody
  rw [visibleTokens_of_unspaced spacedName unspaced named] at visible
  rw [visibleTokens_intercalate unbroken] at visibleBody
  obtain ⟨unmarked, leaves, comes⟩ := exists_comeTo_of_isPlain plain unnamed expands visible
  have unmarkedBody : definitionMarker ∉
      visibleTokens left ++ body.filter (· ≠ "") ++ visibleTokens right := by
    simp only [List.mem_append, List.mem_filter, not_or] at unmarked ⊢
    exact ⟨⟨unmarked.1.1, fun inBody => (ordinary _ inBody.1).2 rfl⟩, unmarked.2⟩
  -- The leaves before the word and after it are the same, and the word itself comes to those of
  -- its body.
  obtain ⟨front, last, whole, comesFront, comesRight⟩ := Dictionary.comeTo_append.mp comes
  obtain ⟨first, middle, frontWhole, comesLeft, comesName⟩ :=
    Dictionary.comeTo_append.mp comesFront
  have comesMiddle :=
    (Dictionary.comeTo_filter unnamed).mpr (Dictionary.comeTo_body comesName isWord)
  have comesBody := Dictionary.comeTo_append.mpr ⟨front, last, whole,
    Dictionary.comeTo_append.mpr ⟨first, middle, frontWhole, comesLeft, comesMiddle⟩, comesRight⟩
  exact ⟨_, comesTo_of_visibleTokens works unnamed visible unmarked comes,
    comesTo_of_visibleTokens works unnamed visibleBody unmarkedBody comesBody⟩

/-- Where there is a space there may be more. -/
theorem sameUpshot_spaced (works : s.out.Works) (unnamed : s.dictionary.get? "" = none)
    {left right : String} {e : Expansion} (plain : IsPlain (left ++ " " ++ right))
    (expands : s.dictionary.Expands (tokens (left ++ " " ++ right)) e) (count : Nat) :
    s.SameUpshot [left ++ " " ++ right] [left ++ spaces (count + 1) ++ right] := by
  have space : " " = spaces (0 + 1) := by decide
  rw [space] at plain expands ⊢
  obtain ⟨spacedFront, spacedRight⟩ := onlySpaces_append.mp plain.spaced
  obtain ⟨spacedLeft, -⟩ := onlySpaces_append.mp spacedFront
  have visible := visibleTokens_append_spaces spacedLeft spacedRight
  obtain ⟨unmarked, leaves, comes⟩ := exists_comeTo_of_isPlain plain unnamed expands (visible 0)
  exact ⟨_, comesTo_of_visibleTokens works unnamed (visible 0) unmarked comes,
    comesTo_of_visibleTokens works unnamed (visible count) unmarked comes⟩

end Upshot

theorem CompletesAll.recounts {α : Type} {view : Session → α} {step : α → Dispatch → α}
    (h : ChangesByLeaves view step) {s s' : Session} {texts : List String} {trace : List Dispatch}
    {control : Control} (all : s.CompletesAll texts trace s' control) :
    Recounts view step s trace s' := by
  induction all with
  | nil s => exact .nil rfl
  | quits completes => exact h.completes completes
  | cons completes _ ih => exact (h.completes completes).append ih

/-- The literals among the leaves echo the stack or write nothing. -/
theorem CompletesAll.written {s s' : Session} {texts : List String} {trace : List Dispatch}
    {control : Control} (works : s.out.Works) (all : s.CompletesAll texts trace s' control) :
    ∀ d ∈ trace, ∀ v, Value.ofLiteral? d.token = some v →
      d.written = [] ∨ d.written = utf8Bytes ((d.session.stack.push v).text ++ "\n") := by
  induction all with
  | nil => exact fun d member => absurd member List.not_mem_nil
  | @quits s _ _ _ _ completes =>
    have met := ((kept_settings s.functions s.width).completes completes ⟨rfl, rfl, works⟩).2
    intro d member v literal
    exact Dispatch.written_of_literal (met d member).2.2 literal
  | @cons s s₁ _ _ _ _ _ _ completes _ ih =>
    obtain ⟨after, met⟩ :=
      (kept_settings s.functions s.width).completes completes ⟨rfl, rfl, works⟩
    refine List.forall_mem_append.mpr ⟨?_, ih after.2.2⟩
    intro d member v literal
    exact Dispatch.written_of_literal (met d member).2.2 literal

/-- How a program is laid out makes no difference but for the echoes of literals. Two statements may
be typed as one with a space between them, a word may be replaced by the tokens of its body, and
spaces may be added where there is one: the stack and the stash, the dictionary, the reports, the way
it ends and the rest of the output are the same.

A program comes to one thing only. All output is written by leaves, and what literals write is the
echoes, each of them a line with the stack. -/
theorem layout_affects_echoes_only {s : Session} (works : s.out.Works)
    (unnamed : s.dictionary.get? "" = none) :
    (∀ text text' e e', IsPlain text → IsPlain text' → s.dictionary.Expands (tokens text) e →
        s.dictionary.Expands (tokens text') e' →
        s.SameUpshot [text ++ " " ++ text'] [text, text']) ∧
      (∀ left name right body e, (left = "" ∨ ∃ start, left = start ++ " ") →
        (right = "" ∨ ∃ rest, right = " " ++ rest) → ' ' ∉ name.toList →
        IsPlain (left ++ name ++ right) → s.dictionary.Expands (tokens (left ++ name ++ right)) e →
        s.dictionary.get? name = some body →
        (∀ token ∈ body, Unbroken token.toList ∧ token ≠ definitionMarker) →
        s.SameUpshot [left ++ name ++ right] [left ++ " ".intercalate body ++ right]) ∧
      (∀ left right count e, IsPlain (left ++ " " ++ right) →
        s.dictionary.Expands (tokens (left ++ " " ++ right)) e →
        s.SameUpshot [left ++ " " ++ right] [left ++ spaces (count + 1) ++ right]) ∧
      (∀ texts u u', s.ComesTo texts u → s.ComesTo texts u' → u = u') ∧
      ∀ texts trace s' control, s.CompletesAll texts trace s' control →
        s'.out.received = s.out.received ++ trace.flatMap Dispatch.written ∧
        ∀ d ∈ trace, ∀ v, Value.ofLiteral? d.token = some v →
          d.written = [] ∨ d.written = utf8Bytes ((d.session.stack.push v).text ++ "\n") := by
  refine ⟨?_, ?_, ?_, fun _ _ _ h h' => h.unique h', ?_⟩
  · intro text text' e e' plain plain' expands expands'
    exact sameUpshot_joined works unnamed plain plain' expands expands'
  · intro left name right body e opens closes unspaced plain expands isWord ordinary
    exact sameUpshot_replaced works unnamed opens closes unspaced plain expands isWord ordinary
  · intro left right count e plain expands
    exact sameUpshot_spaced works unnamed plain expands count
  · intro texts trace s' control all
    have received := (all.recounts received_changesByLeaves).finish
    refine ⟨?_, all.written works⟩
    rw [received, List.flatMap_def]
    simp

/-- The square root of nine is shown in between, the echo of the last literal only where there is
one. -/
theorem layout_affects_echoes_only_nine :
    let s := fresh .machine 80 {} {}
    s.out.Works ∧ s.dictionary.get? "" = none ∧
      s.SameUpshot ["9 sqrt 2 quit 4"] ["9 sqrt 2", "quit 4"] ∧
      s.SameUpshot [" 9 sqrt  2"] [" 9 0.5 ^  2"] ∧
      s.SameUpshot [" 9 sqrt 2"] [" 9 sqrt   2"] := by
  intro s
  have works : Sink.Works {} := ⟨rfl, rfl⟩
  have unnamed : s.dictionary.get? "" = none := by decide +kernel
  obtain ⟨joined, replaced, spaced, -⟩ := layout_affects_echoes_only works unnamed
  let root : Expansion := .word "sqrt" (.leaf "0.5" (.leaf "^" .nil)) (.leaf "2" .nil)
  let rootSpaced : Expansion :=
    .word "sqrt" (.leaf "0.5" (.leaf "^" .nil)) (.leaf "" (.leaf "2" .nil))
  have plain : IsPlain "9 sqrt 2" := ⟨by decide +kernel, by decide +kernel⟩
  have expands : s.dictionary.Expands (tokens "9 sqrt 2") (.leaf "9" root) := by decide +kernel
  refine ⟨works, unnamed, ?_, ?_, ?_⟩
  · exact joined "9 sqrt 2" "quit 4" (.leaf "9" root) (.leaf "quit" (.leaf "4" .nil)) plain
      ⟨by decide +kernel, by decide +kernel⟩ expands (by decide +kernel)
  · exact replaced " 9 " "sqrt" "  2" ["0.5", "^"] (.leaf "9" rootSpaced) (.inr ⟨" 9", rfl⟩)
      (.inr ⟨" 2", rfl⟩) (by decide) ⟨by decide +kernel, by decide +kernel⟩ (by decide +kernel)
      (by decide +kernel) (by decide +kernel)
  · exact spaced " 9 sqrt" "2" 2 (.leaf "9" root) ⟨by decide +kernel, by decide +kernel⟩
      (by decide +kernel)

end Session

end Rpn
