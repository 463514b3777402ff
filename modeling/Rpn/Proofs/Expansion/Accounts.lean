import Rpn.Proofs.Expansion.Transcript
import Rpn.Proofs.Session.Failure
import Rpn.Proofs.Session.Retyping
import Rpn.Proofs.Session.Stash

/-!
# What the sinks receive

Each leaf has an entry in the account of a statement: it writes nothing, or one line to the output
sink, or the line of a fault to the error sink. Which of these it is follows from the kind of leaf
and from how its operator has come out, and a line that shows the stack shows it as the leaf has
left it. What a statement writes to the sinks is what the entries of its leaves come to, one after
the other.

`words` and `help` are left out here: they print tables that have nothing to do with the stack.
-/

namespace Rpn

/-- What one leaf writes. -/
inductive Entry where
  | nothing
  /-- A line of output, without its end. -/
  | line (text : String)
  | report (fault : Fault)
deriving DecidableEq

namespace Entry

/-- What comes to the output sink. -/
def out : Entry → List UInt8
  | line text => utf8Bytes (text ++ "\n")
  | nothing | report _ => []

/-- What comes to the error sink. -/
def err : Entry → List UInt8
  | report fault => utf8Bytes fault.line
  | nothing | line _ => []

end Entry

/-- The entry of a primitive that has succeeded and taken one stack to another. -/
def Primitive.entry (p : Primitive) (before after : Stack) : Entry :=
  match p with
  | .stash => .nothing
  | .clear => .line ("cleared " ++ toString (before.depth - after.depth) ++ " values")
  | _ => .line after.text

namespace Dispatch

/-- The session that the leaf leaves. -/
def after (d : Dispatch) : Session := (d.session.leaf d.token).1

/-- The entry of a leaf. A literal shows the stack at the last place of the statement, and an
operator does so when it has succeeded. -/
def entry (d : Dispatch) : Entry :=
  match Value.ofLiteral? d.token with
  | some _ =>
    if d.session.cursor + 1 = d.session.length then .line d.after.stack.text else .nothing
  | none =>
    match Operator.named? d.token with
    | none | some (.command _) => .nothing
    | some (.primitive p) =>
      if d.session.stack.depth < p.pops then .nothing
      else match (d.session.stack.execute d.session.functions p).2 with
        | .ok _ => p.entry d.session.stack d.after.stack
        | .error fault => .report fault

end Dispatch

/-- The response writes what the entry says. -/
inductive Response.Posts : Response → Entry → Prop where
  | silent (stack : Stack) : Posts (.silent stack) .nothing
  | shows (stack : Stack) (text : String) : Posts (.shows stack (text ++ "\n")) (.line text)
  | refuses (stack : Stack) (fault : Fault) : Posts (.refuses stack fault) (.report fault)
  | quits : Posts .quits .nothing

namespace Response.Posts

variable {r : Response} {entry : Entry}

theorem output_eq (posts : r.Posts entry) : r.output = entry.out := by
  cases posts <;> rfl

theorem faultBytes_eq (posts : r.Posts entry) : faultBytes r.faults = entry.err := by
  cases posts with
  | refuses stack fault => exact List.append_nil _
  | silent | shows | quits => rfl

end Response.Posts

namespace Primitive

variable {p : Primitive}

theorem entry_of_ne (quiet : p ≠ .stash) (other : p ≠ .clear) (before after : Stack) :
    p.entry before after = .line after.text := by
  cases p with
  | stash => exact absurd rfl quiet
  | clear => exact absurd rfl other
  | _ => rfl

end Primitive

namespace Stack

/-- A primitive posts the fault that it ends with, or its entry. -/
theorem posts_execute (f : Elementary) (s : Stack) (p : Primitive) :
    (Response.ofExecution (s.execute f p)).Posts
      (match (s.execute f p).2 with
        | .ok _ => p.entry s (s.execute f p).1
        | .error fault => .report fault) := by
  have outcome := outcome_execute f s p
  generalize s.execute f p = result at outcome
  cases outcome with
  | short | refuses => exact .refuses _ _
  | answers operands rest v values count computes =>
    have answering : p ≠ .stash ∧ p ≠ .clear := by
      constructor <;> (rintro rfl; cases computes.2)
    dsimp only
    rw [Primitive.entry_of_ne answering.1 answering.2]
    exact .shows _ _
  | displays | drops | totals | pulls => exact .shows _ _
  | clears =>
    have line : "cleared " ++ String.ofList (decimalDigits s.depth) ++ " values\n" =
        "cleared " ++ toString (s.depth - 0) ++ " values" ++ "\n" := by
      have parts : " values\n" = " values" ++ "\n" := by decide
      rw [parts, ← String.append_assoc]
      rfl
    dsimp only [Response.ofExecution, Response.ofEffect]
    rw [line]
    exact .shows _ _
  | stashes => exact .silent _

end Stack

/-- A leaf other than `words` and `help` does what its entry says. -/
theorem Dispatch.posts {d : Dispatch} (notWords : d.token ≠ Command.words.name)
    (notHelp : d.token ≠ Command.help.name) : (d.session.response d.token).Posts d.entry := by
  have stack : d.after.stack = (d.session.response d.token).stackAfter d.session.stack := by
    rw [after, Session.leaf_eq_respond, Session.stack_respond]
  rw [entry, stack]
  obtain ⟨v, literal⟩ | ⟨op, named⟩ | ⟨notLiteral, notOperator⟩ := Session.token_cases d.token
  · rw [literal, Session.response_of_literal _ literal, Session.stackAfter_literalResponse,
      Session.literalResponse]
    dsimp only
    split
    · exact .shows _ _
    · exact .silent _
  · rw [named, Value.ofLiteral?_name, Operator.named?_name, Session.response_name]
    obtain p | c := op
    · dsimp only
      split
      · next shallow =>
        rw [Session.operatorResponse_of_lt _ shallow]
        exact .silent _
      · next deep =>
        rw [Session.operatorResponse_primitive _ (Nat.not_lt.mp deep),
          Response.stackAfter_ofExecution]
        exact Stack.posts_execute _ _ p
    · rw [Session.operatorResponse_command]
      cases c with
      | quit => exact .quits
      | clearScreen => exact .silent _
      | words => exact absurd named notWords
      | help => exact absurd named notHelp
  · rw [notLiteral, notOperator, Session.response_of_unknown _ notLiteral notOperator]
    exact .silent _

/-- An entry reports nothing but what an operator refuses its operands for. -/
theorem Dispatch.isRefusal_of_entry {d : Dispatch} (notWords : d.token ≠ Command.words.name)
    (notHelp : d.token ≠ Command.help.name) {fault : Fault} (entry : d.entry = .report fault) :
    fault.isRefusal = true := by
  have posts := d.posts notWords notHelp
  have refused := Session.isRefusal_of_response d.session d.token
  rw [entry] at posts
  generalize d.session.response d.token = r at posts refused
  apply refused
  cases posts with
  | refuses => exact List.mem_singleton_self fault

/-- A leaf leaves one sink alone. -/
theorem Dispatch.apart (d : Dispatch) :
    d.after.out = d.session.out ∨ d.after.err = d.session.err := by
  rw [after, Session.leaf_eq_respond]
  cases d.session.response d.token with
  | refuses stack fault => exact .inl rfl
  | silent | shows | quits => exact .inr rfl

namespace Session

/-- The leaves in `trace` account for what the sinks receive on the way from `s` to `s'`. -/
structure Accounts (s : Session) (trace : List Dispatch) (s' : Session) : Prop where
  out : s'.out.received = s.out.received ++ trace.flatMap fun d => d.entry.out
  err : s'.err.received = s.err.received ++ trace.flatMap fun d => d.entry.err

namespace Accounts

variable {s s₁ s₂ : Session} {trace trace' : List Dispatch}

theorem nil (s : Session) : s.Accounts [] s :=
  ⟨(List.append_nil _).symm, (List.append_nil _).symm⟩

theorem append (first : s.Accounts trace s₁) (later : s₁.Accounts trace' s₂) :
    s.Accounts (trace ++ trace') s₂ := by
  constructor
  · rw [later.out, first.out, List.flatMap_append, List.append_assoc]
  · rw [later.err, first.err, List.flatMap_append, List.append_assoc]

/-- Going on to the statement writes nothing. -/
theorem of_enter {text : String} (accounts : (s.enter text).Accounts trace s₁) :
    s.Accounts trace s₁ where
  out := by rw [accounts.out, out_enter]
  err := by rw [accounts.err, err_enter]

/-- One leaf accounts for what the sinks receive from it. -/
theorem leaf {d : Dispatch} (works : d.session.SinksWork)
    (plain : d.token ≠ Command.words.name ∧ d.token ≠ Command.help.name) :
    d.session.Accounts [d] d.after := by
  have posts := d.posts plain.1 plain.2
  constructor
  · rw [List.flatMap_singleton, Dispatch.after, leaf_eq_respond, received_respond works.out,
      posts.output_eq]
  · rw [List.flatMap_singleton, Dispatch.after, err_leaf, works.err.received_report,
      posts.faultBytes_eq]

end Accounts

/-- Tokens make the sinks receive what the leaves that they meet account for. -/
theorem Evaluates.accounts {s s' : Session} {names : List String} {trace : List Dispatch}
    {outcome : Except Fault Control} (h : Evaluates s names trace s' outcome)
    (works : ∀ d ∈ trace, d.session.SinksWork)
    (plain : ∀ d ∈ trace, d.token ≠ Command.words.name ∧ d.token ≠ Command.help.name) :
    s.Accounts trace s' := by
  induction h with
  | nil s => exact .nil s
  | @leaf s s₁ _ name _ _ _ _ ran _ ih =>
    obtain ⟨worksHere, worksLater⟩ := List.forall_mem_cons.mp works
    obtain ⟨plainHere, plainLater⟩ := List.forall_mem_cons.mp plain
    have here := Accounts.leaf worksHere plainHere
    have later := ih worksLater plainLater
    rw [Dispatch.after, ran] at here
    exact here.append ⟨later.out, later.err⟩
  | leafStops _ ran _ =>
    obtain ⟨worksHere, -⟩ := List.forall_mem_cons.mp works
    obtain ⟨plainHere, -⟩ := List.forall_mem_cons.mp plain
    have here := Accounts.leaf worksHere plainHere
    rwa [Dispatch.after, ran] at here
  | word _ _ _ ihInside ihAfter =>
    obtain ⟨worksInside, worksAfter⟩ := List.forall_mem_append.mp works
    obtain ⟨plainInside, plainAfter⟩ := List.forall_mem_append.mp plain
    have later := ihAfter worksAfter plainAfter
    exact (ihInside worksInside plainInside).append ⟨later.out, later.err⟩
  | wordStops _ _ _ ih => exact ih works plain

end Session

/-- The line that shows a stack: as many fields as there are values, none of them empty, with single
spaces between them and no end of a line inside. -/
structure Stack.IsLine (s : Stack) (line : String) : Prop where
  empty : s.values = [] → line = ""
  fields : s.values ≠ [] →
    (spaceSeparated line.toList).length = s.depth ∧ [] ∉ spaceSeparated line.toList
  unbroken : '\n' ∉ line.toList

theorem Stack.isLine_text (s : Stack) : s.IsLine s.text where
  empty none := by
    rw [text, bottomUp, none]
    rfl
  fields some := by
    rw [spaceSeparated_text some]
    constructor
    · rw [List.length_map, bottomUp, List.length_reverse, depth]
    · intro member
      obtain ⟨v, -, same⟩ := List.mem_map.mp member
      exact v.text_ne_empty (String.toList_inj.mp same)
  unbroken := s.newline_not_mem_text

/-- What a statement with the expansion `e` writes: `trace` are the leaves that it meets and `s'` is
the session after it. -/
structure Accounted (s : Session) (text : String) (e : Expansion) (trace : List Dispatch)
    (s' : Session) : Prop where
  /-- The leaves up to the first `quit` are met, in their order. -/
  places : trace.map Dispatch.place = throughQuit e.rankedLeaves
  /-- The places are those in the statement, so there is one literal at most at the last. -/
  lengths : ∀ d ∈ trace, d.session.length = (tokens text).length
  increasing : trace.Pairwise fun d d' => d.session.cursor < d'.session.cursor
  /-- The sinks receive what the entries of the leaves say, and nothing else. -/
  accounts : s.Accounts trace s'
  each : ∀ d ∈ trace, d.session.Accounts [d] d.after
  /-- Faults are those that operators refuse their operands for. -/
  refusals : ∀ d ∈ trace, ∀ fault, d.entry = .report fault → fault.isRefusal = true
  /-- No leaf writes to both sinks. -/
  apart : ∀ d ∈ trace, d.after.out = d.session.out ∨ d.after.err = d.session.err
  /-- All lines that show stacks are of the same form. -/
  lines : ∀ d ∈ trace, d.after.stack.IsLine d.after.stack.text

namespace Session

variable {s : Session} {text : String} {e : Expansion}

/-- A statement in which no definition starts and whose words expand finitely comes to an end if the
sinks work, and they receive what the entries of its leaves say. -/
theorem statement_accounted (outWorks : s.out.Works) (errWorks : s.err.Works)
    (unmarked : definitionMarker ∉ tokens text) (expands : s.dictionary.Expands (tokens text) e)
    (noWords : Command.words.name ∉ e.leaves) (noHelp : Command.help.name ∉ e.leaves) :
    ∃ steps trace s' control, s.statement steps text = some (s', .ok control) ∧
      s.Completes text trace s' (.ok control) ∧ Accounted s text e trace s' := by
  rw [← leadingTokens_of_not_mem unmarked] at expands
  obtain ⟨evaluated, -⟩ := evaluates_leadingTokens outWorks expands
  have entered : (s.enter text).SinksWork := by
    constructor
    · rw [out_enter]
      exact outWorks
    · rw [err_enter]
      exact errWorks
  obtain ⟨works, worked⟩ := evaluated.sinksWork entered
  have completes : s.Completes text _ _ (.ok _) :=
    ⟨_, _, evaluated, conclude_of_works works.out unmarked _⟩
  obtain ⟨steps, result⟩ := exists_statement_iff.mpr ⟨_, completes⟩
  have places := map_place_sweep entered.out e.postorder
  have plain : ∀ d ∈ ((s.enter text).sweep e.postorder).trace,
      d.token ≠ Command.words.name ∧ d.token ≠ Command.help.name := by
    intro d member
    have met : d.token ∈ e.leaves := by
      have ranked := (throughQuit_sublist _).subset (places ▸ List.mem_map_of_mem member)
      rw [← e.map_fst_leafRanks 0]
      exact List.mem_map_of_mem ranked
    exact ⟨fun same => noWords (same ▸ met), fun same => noHelp (same ▸ met)⟩
  refine ⟨steps, _, _, _, result, completes, ?_⟩
  constructor
  case places => exact places
  case lengths => exact evaluated.length_eq.2
  case increasing => exact pairwise_cursor_sweep entered.out e.postorder
  case accounts => exact (evaluated.accounts worked plain).of_enter
  case each => exact fun d member => .leaf (worked d member) (plain d member)
  case refusals =>
    intro d member fault entry
    obtain ⟨notWords, notHelp⟩ := plain d member
    exact d.isRefusal_of_entry notWords notHelp entry
  case apart => exact fun d _ => d.apart
  case lines => exact fun d _ => d.after.stack.isLine_text

/-- A count of what is dropped, a refused division and the literal that stands last. -/
theorem statement_accounted_division :
    let s := fresh .machine 80 {} {}
    let text := "9 8 clear x 3 0 / 4"
    let e : Expansion := .leaf "9" (.leaf "8" (.leaf "clear" (.leaf "x" (.leaf "3" (.leaf "0"
      (.leaf "/" (.leaf "4" .nil)))))))
    s.out.Works ∧ s.err.Works ∧ definitionMarker ∉ tokens text ∧
      s.dictionary.Expands (tokens text) e ∧
      ∃ (steps : Nat) (s' : Session) (control : Control),
        s.statement steps text = some (s', .ok control) ∧
          s'.out.received = utf8Bytes "cleared 2 values\n3 0 4\n" ∧
          s'.err.received = utf8Bytes "Cannot divide by 0\n" := by
  intro s text e
  have works : Sink.Works {} := ⟨rfl, rfl⟩
  have unmarked : definitionMarker ∉ tokens text := by decide +kernel
  have expands : s.dictionary.Expands (tokens text) e := by decide +kernel
  obtain ⟨steps, trace, s', control, result, completes, accounted⟩ :=
    statement_accounted (s := s) works works unmarked expands (by decide +kernel)
      (by decide +kernel)
  have leading : s.dictionary.Expands (leadingTokens text) e := by decide +kernel
  obtain ⟨rfl, -, -⟩ := (completes_sweep leading).deterministic completes
  refine ⟨works, works, unmarked, expands, steps, s', control, result, ?_, ?_⟩
  · rw [accounted.accounts.out]
    decide +kernel
  · rw [accounted.accounts.err]
    decide +kernel

end Session

end Rpn
