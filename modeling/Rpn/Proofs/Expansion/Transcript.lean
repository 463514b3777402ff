import Rpn.Proofs.Expansion.Cursor
import Rpn.Proofs.Session.History
import Rpn.Proofs.Session.OutputLimit

/-!
# What leaves write

Everything that a session writes to its output sink is written by a leaf. A literal writes the stack
or nothing, and which of the two depends on its place in the statement. What any other leaf writes
depends on the stack, and not on the place; so without the echoes of literals the output of a
statement can be computed from its leaves, as its stack and its reports can (`Stack.transcript`).

The calculation and the transcript of a list of leaves are made up of those of its parts, and empty
leaves add nothing to them.
-/

namespace Rpn

/-- What a response writes to the output sink. -/
def Response.output : Response → List UInt8
  | shows _ text => utf8Bytes text
  | silent _ | refuses _ _ | quits => []

theorem Session.received_respond {s : Session} (works : s.out.Works) (r : Response) :
    (s.respond r).1.out.received = s.out.received ++ r.output := by
  cases r with
  | shows stack text => exact works.received_write text
  | silent | refuses | quits => exact (List.append_nil _).symm

namespace Dispatch

/-- What the leaf writes to the output sink, as far as this is taken. -/
def written (d : Dispatch) : List UInt8 :=
  (d.session.leaf d.token).1.out.received.drop d.session.out.received.length

/-- What was in the output sink stays there, and what the leaf writes comes after it. -/
theorem received_leaf (d : Dispatch) :
    (d.session.leaf d.token).1.out.received = d.session.out.received ++ d.written := by
  obtain ⟨written, grown⟩ := Session.received_prefix_leaf d.session d.token
  rw [Dispatch.written, ← grown, List.drop_left]

theorem written_of_works {d : Dispatch} (works : d.session.out.Works) :
    d.written = (d.session.response d.token).output := by
  have grown := d.received_leaf
  rw [Session.leaf_eq_respond] at grown
  rw [← List.append_right_inj d.session.out.received, ← grown]
  exact Session.received_respond works _

/-- A literal writes nothing, or it writes the stack with its value on top. -/
theorem written_of_literal {d : Dispatch} {v : Value} (works : d.session.out.Works)
    (literal : Value.ofLiteral? d.token = some v) :
    d.written = [] ∨ d.written = utf8Bytes ((d.session.stack.push v).text ++ "\n") := by
  rw [written_of_works works, Session.response_of_literal _ literal, Session.literalResponse]
  split
  · exact .inr rfl
  · exact .inl rfl

end Dispatch

/-- What some leaves write to the output sink, but for the echoes of literals. -/
def unechoed (trace : List Dispatch) : List UInt8 :=
  (trace.filter fun d => (Value.ofLiteral? d.token).isNone).flatMap Dispatch.written

theorem unechoed_append (trace trace' : List Dispatch) :
    unechoed (trace ++ trace') = unechoed trace ++ unechoed trace' := by
  rw [unechoed, List.filter_append, List.flatMap_append]
  rfl

namespace Stack

/-- What a leaf writes on a stack, be it in whatever place; nothing if it is a literal. -/
def remarks (f : Elementary) (d : Dictionary) (width : Nat) (s : Stack) (token : String) :
    List UInt8 :=
  match Operator.named? token with
  | none => []
  | some op =>
    (Session.operatorResponse { stack := s, dictionary := d, width, functions := f } op).output

/-- What leaves write, but for echoes, up to the first `quit`. -/
def transcript (f : Elementary) (d : Dictionary) (width : Nat) : Stack → List String → List UInt8
  | _, [] => []
  | s, token :: rest =>
    if token = Command.quit.name then []
    else s.remarks f d width token ++ transcript f d width (s.afterLeaf f token).1 rest

variable {f : Elementary} {d : Dictionary} {width : Nat} {s : Stack} {token : String}

theorem remarks_of_literal {v : Value} (literal : Value.ofLiteral? token = some v) :
    s.remarks f d width token = [] := by
  rw [remarks]
  cases named : Operator.named? token with
  | none => rfl
  | some op =>
    rw [← Operator.name_of_named? named, Value.ofLiteral?_name] at literal
    cases literal

theorem transcript_quit (rest : List String) :
    s.transcript f d width (Command.quit.name :: rest) = [] :=
  if_pos rfl

theorem transcript_of_ne (goesOn : token ≠ Command.quit.name) (rest : List String) :
    s.transcript f d width (token :: rest) =
      s.remarks f d width token ++ (s.afterLeaf f token).1.transcript f d width rest :=
  if_neg goesOn

section Append

variable (d width) {leaves : List String} (leaves' : List String)

/-- Leaves that do not quit are followed by others as if these were by themselves. -/
theorem append_of_proceed (proceeds : (s.calculate f leaves).control = .proceed) :
    let c := s.calculate f leaves
    let later := c.stack.calculate f leaves'
    s.calculate f (leaves ++ leaves') = ⟨later.stack, c.faults ++ later.faults, later.control⟩ ∧
      s.transcript f d width (leaves ++ leaves') =
        s.transcript f d width leaves ++ c.stack.transcript f d width leaves' := by
  induction leaves generalizing s with
  | nil => exact ⟨rfl, rfl⟩
  | cons token rest ih =>
    by_cases quits : token = Command.quit.name
    · subst quits
      rw [calculate_quit] at proceeds
      cases proceeds
    · rw [calculate_of_ne quits] at proceeds
      obtain ⟨calculated, written⟩ := ih proceeds
      rw [List.cons_append, calculate_of_ne quits, calculate_of_ne quits, transcript_of_ne quits,
        transcript_of_ne quits, calculated, written]
      simp only [List.append_assoc, and_self]

/-- Nothing follows on leaves that quit. -/
theorem append_of_quit (quits : (s.calculate f leaves).control = .quit) :
    s.calculate f (leaves ++ leaves') = s.calculate f leaves ∧
      s.transcript f d width (leaves ++ leaves') = s.transcript f d width leaves := by
  induction leaves generalizing s with
  | nil => cases quits
  | cons token rest ih =>
    rw [List.cons_append]
    by_cases here : token = Command.quit.name
    · subst here
      simp only [calculate_quit, transcript_quit, and_self]
    · rw [calculate_of_ne here] at quits
      obtain ⟨calculated, written⟩ := ih quits
      rw [calculate_of_ne here, calculate_of_ne here, transcript_of_ne here,
        transcript_of_ne here, calculated, written]
      exact ⟨rfl, rfl⟩

end Append

theorem afterLeaf_empty (f : Elementary) (s : Stack) : s.afterLeaf f "" = (s, []) :=
  afterLeaf_of_unknown (by decide) (by decide)

variable (f d width s) in
/-- Empty leaves can be left out. -/
theorem filter_nonempty (leaves : List String) :
    s.calculate f (leaves.filter (· ≠ "")) = s.calculate f leaves ∧
      s.transcript f d width (leaves.filter (· ≠ "")) = s.transcript f d width leaves := by
  induction leaves generalizing s with
  | nil => exact ⟨rfl, rfl⟩
  | cons token rest ih =>
    by_cases quits : token = Command.quit.name
    · subst quits
      rw [List.filter_cons_of_pos (by decide)]
      simp only [calculate_quit, transcript_quit, and_self]
    · obtain ⟨calculated, written⟩ := ih (s := (s.afterLeaf f token).1)
      rw [calculate_of_ne quits, transcript_of_ne quits, ← calculated, ← written]
      by_cases empty : token = ""
      · subst empty
        rw [List.filter_cons_of_neg (by decide), afterLeaf_empty]
        exact ⟨rfl, rfl⟩
      · rw [List.filter_cons_of_pos (by simpa using empty), calculate_of_ne quits,
          transcript_of_ne quits]
        exact ⟨rfl, rfl⟩

end Stack

namespace Session

theorem width_respond (s : Session) (r : Response) : (s.respond r).1.width = s.width := by
  cases r <;> rfl

theorem width_leaf (s : Session) (token : String) : (s.leaf token).1.width = s.width := by
  rw [leaf_eq_respond, width_respond]

theorem output_operatorResponse (s : Session) (op : Operator) :
    (s.operatorResponse op).output = s.stack.remarks s.functions s.dictionary s.width op.name := by
  rw [Stack.remarks, Operator.named?_name]
  obtain p | c := op
  · rfl
  · cases c <;> rfl

/-- A leaf that is not a literal writes what it would write in any other place. -/
theorem output_response {s : Session} {token : String}
    (notLiteral : Value.ofLiteral? token = none) :
    (s.response token).output = s.stack.remarks s.functions s.dictionary s.width token := by
  rw [response, notLiteral]
  cases named : Operator.named? token with
  | none =>
    rw [Stack.remarks, named]
    rfl
  | some op =>
    obtain rfl := Operator.name_of_named? named
    exact output_operatorResponse s op

theorem unechoed_cons {d : Dispatch} (works : d.session.out.Works) (trace : List Dispatch) :
    unechoed (d :: trace) =
      d.session.stack.remarks d.session.functions d.session.dictionary d.session.width d.token ++
        unechoed trace := by
  cases literal : Value.ofLiteral? d.token with
  | some v =>
    rw [Stack.remarks_of_literal literal, unechoed, List.filter_cons_of_neg (by simp [literal])]
    rfl
  | none =>
    rw [← output_response literal, ← Dispatch.written_of_works works, unechoed,
      List.filter_cons_of_pos (by simp [literal]), List.flatMap_cons]
    rfl

/-- Without the echoes the output of a sweep is the transcript of the leaves among its nodes. -/
theorem unechoed_sweep {s : Session} (works : s.out.Works) (nodes : List Node) (start : Nat) :
    unechoed (s.sweep nodes).trace =
      s.stack.transcript s.functions s.dictionary s.width
        ((leafRanks start nodes).map Prod.fst) := by
  induction nodes generalizing s start with
  | nil => rfl
  | cons node nodes ih =>
    cases node with
    | word name => exact ih (s := s.advance) works (start + 1)
    | leaf token =>
      rw [leafRanks_leaf, List.map_cons]
      by_cases quits : token = Command.quit.name
      · subst quits
        rw [sweep_quit, Stack.transcript_quit, unechoed_cons works]
        rfl
      · have stack : (s.leaf token).1.advance.stack = (s.stack.afterLeaf s.functions token).1 := by
          rw [stack_advance, leaf_eq_respond, stack_respond, afterLeaf_eq_response]
        have width : (s.leaf token).1.advance.width = s.width := width_leaf s token
        have later := ih (s := (s.leaf token).1.advance) (out_leaf_works works token) (start + 1)
        rw [stack, width, dictionary_advance, dictionary_leaf, functions_advance,
          functions_leaf] at later
        rw [sweep_leaf_of_works works quits, Stack.transcript_of_ne quits, unechoed_cons works,
          later]

/-- The output is what leaves write, one after the other. -/
theorem received_changesByLeaves :
    ChangesByLeaves (fun s => s.out.received) fun received d => received ++ d.written where
  enter _ _ := rfl
  advance _ := rfl
  leaf s token := Dispatch.received_leaf ⟨s, token⟩
  define s definition := congrArg Sink.received (out_define s definition)

end Session

end Rpn
