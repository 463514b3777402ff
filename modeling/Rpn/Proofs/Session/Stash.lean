import Rpn.Proofs.Expansion.Sweep
import Rpn.Proofs.Session.Canonical
import Rpn.Proofs.Session.History
import Rpn.Proofs.Stack.Effect

/-!
# The stash is what was put there last

Of all leaves only a `stash` that finds a value changes the stash, so what is in it follows from the
leaves that were met, over however many statements: it is the value that the last such leaf has
taken off, and there is none as long as there was no such leaf. It makes no difference what came in
between, be it a `clear`, an operator that refuses its operands, a `quit` or a statement that ends
because its output is not taken.

What is put away comes back the same, for it is normal as all that is on a stack.
-/

namespace Rpn

namespace Dispatch

/-- The leaf is a primitive that the stack is deep enough for. -/
def Executes (d : Dispatch) (p : Primitive) : Prop :=
  d.token = p.name ∧ p.pops ≤ d.session.stack.depth

instance (d : Dispatch) (p : Primitive) : Decidable (d.Executes p) :=
  inferInstanceAs (Decidable (_ ∧ _))

/-- The value that the leaf puts away, if it does. -/
def stashed? (d : Dispatch) : Option Value :=
  if d.token = Primitive.stash.name then d.session.stack.values.head? else none

/-- What is in the stash after a leaf. -/
def stashAfter (stash : Option Value) (d : Dispatch) : Option Value := d.stashed?.or stash

variable {d : Dispatch} {p : Primitive}

theorem stashed?_eq_none_iff : d.stashed? = none ↔ ¬ d.Executes .stash := by
  have one : Primitive.stash.pops = 1 := rfl
  rw [stashed?, Executes, one, Stack.depth]
  by_cases named : d.token = Primitive.stash.name
  · rw [if_pos named, List.head?_eq_none_iff, ← List.length_eq_zero_iff]
    simp only [named, true_and]
    omega
  · simp [named]

theorem leaf_of_executes (executes : d.Executes p) :
    d.session.leaf d.token =
      d.session.respond (.ofExecution (d.session.stack.execute d.session.functions p)) := by
  obtain ⟨named, deep⟩ := executes
  have name : d.token = (Operator.primitive p).name := named
  rw [Session.leaf_eq_respond, name, Session.response_name,
    Session.operatorResponse_primitive _ deep]

theorem stack_of_executes (executes : d.Executes p) :
    (d.session.leaf d.token).1.stack = (d.session.stack.execute d.session.functions p).1 := by
  rw [leaf_of_executes executes, Session.stack_respond, Response.stackAfter_ofExecution]

/-- A `stash` that is executed finds a value and puts it away. -/
theorem exists_of_executes_stash (executes : d.Executes .stash) :
    ∃ v rest, d.session.stack.values = v :: rest ∧ d.stashed? = some v ∧
      (d.session.leaf d.token).1.stack = ⟨rest, some v⟩ := by
  have deep : 0 < d.session.stack.values.length := executes.2
  obtain ⟨v, rest, values⟩ := List.exists_cons_of_length_pos deep
  refine ⟨v, rest, values, ?_, ?_⟩
  · rw [stashed?, if_pos executes.1, values, List.head?_cons]
  · rw [stack_of_executes executes, Stack.execute_stash _ values]

end Dispatch

namespace Session

/-- A leaf changes the stash when it is a `stash` that finds a value, and else never. -/
theorem stash_leaf (s : Session) (token : String) :
    (s.leaf token).1.stack.stash = Dispatch.stashAfter s.stack.stash ⟨s, token⟩ := by
  rw [Dispatch.stashAfter]
  by_cases puts : Dispatch.Executes ⟨s, token⟩ .stash
  · obtain ⟨v, rest, -, stashed, stack⟩ := Dispatch.exists_of_executes_stash puts
    rw [stashed, stack]
    rfl
  · rw [Dispatch.stashed?_eq_none_iff.mpr puts, Option.none_or, leaf_eq_respond, stack_respond]
    obtain ⟨v, literal⟩ | ⟨p | c, rfl⟩ | ⟨notLiteral, notOperator⟩ := token_cases token
    · rw [response_of_literal s literal, stackAfter_literalResponse, Stack.stash_push]
    · rw [response_name]
      by_cases shallow : s.stack.depth < (Operator.primitive p).pops
      · rw [operatorResponse_of_lt s shallow]
        rfl
      · have deep : p.pops ≤ s.stack.depth := Nat.not_lt.mp shallow
        have other : p ≠ .stash := by
          rintro rfl
          exact puts ⟨rfl, deep⟩
        rw [operatorResponse_primitive s deep, Response.stackAfter_ofExecution,
          Stack.stash_execute_of_ne s.functions s.stack other]
    · rw [response_name, operatorResponse_command, stackAfter_commandResponse]
    · rw [response_of_unknown s notLiteral notOperator]
      rfl

theorem stash_changesByLeaves :
    ChangesByLeaves (fun s => s.stack.stash) Dispatch.stashAfter where
  enter _ _ := rfl
  advance _ := rfl
  leaf := stash_leaf
  define s definition := congrArg Stack.stash (stack_define s definition)

section Fold

variable {stash : Option Value} {before : List Dispatch}

theorem foldl_stashAfter_eq_none_iff :
    before.foldl Dispatch.stashAfter stash = none ↔
      stash = none ∧ ∀ e ∈ before, ¬ e.Executes .stash := by
  induction before generalizing stash with
  | nil => simp
  | cons e before ih =>
    rw [List.foldl_cons, ih, Dispatch.stashAfter, Option.or_eq_none_iff,
      Dispatch.stashed?_eq_none_iff, List.forall_mem_cons]
    tauto

theorem foldl_stashAfter_of_forall (never : ∀ e ∈ before, ¬ e.Executes .stash) :
    before.foldl Dispatch.stashAfter stash = stash := by
  induction before with
  | nil => rfl
  | cons e before ih =>
    obtain ⟨here, later⟩ := List.forall_mem_cons.mp never
    rw [List.foldl_cons, Dispatch.stashAfter, Dispatch.stashed?_eq_none_iff.mpr here,
      Option.none_or]
    exact ih later

/-- Where anything has been put away, something was put away last. -/
theorem exists_latest_stash (puts : ∃ e ∈ before, e.Executes .stash) :
    ∃ early e late, before = early ++ e :: late ∧ e.Executes .stash ∧
      ∀ e' ∈ late, ¬ e'.Executes .stash := by
  induction before with
  | nil =>
    obtain ⟨e, member, -⟩ := puts
    exact absurd member List.not_mem_nil
  | cons e before ih =>
    by_cases later : ∃ e' ∈ before, e'.Executes .stash
    · obtain ⟨early, e', late, split, executes, never⟩ := ih later
      exact ⟨e :: early, e', late, congrArg (e :: ·) split, executes, never⟩
    · obtain ⟨e', member, executes⟩ := puts
      obtain rfl | inside := List.mem_cons.mp member
      · exact ⟨[], e', before, rfl, executes, fun d member puts => later ⟨d, member, puts⟩⟩
      · exact absurd ⟨e', inside, executes⟩ later

end Fold

/-- A primitive that succeeds does to the depth of the stack what is declared of it and leaves alone
what is below its operands, and none but `stash` changes the stash. So over all the calls that a
fresh session takes, `pull` brings back the value that the last `stash` executed before it has taken
off, and it fails exactly when none was executed before it. -/
theorem declared_effects_and_latest_stash :
    (∀ (f : Elementary) (stack stack' : Stack) (p : Primitive) (effect : Effect),
        p.pops ≤ stack.depth → stack.execute f p = (stack', .ok effect) →
        stack.Declared stack' effect p) ∧
      (∀ (f : Elementary) (stack : Stack) (p : Primitive), p ≠ .stash →
        (stack.execute f p).1.stash = stack.stash) ∧
      ∀ (functions : Elementary) (width : Nat) (out err : Sink) (calls : List Call)
        (trace : List Dispatch) (s' : Session), (fresh functions width out err).Runs calls trace s' →
        ∀ before d after, trace = before ++ d :: after → d.Executes .pull →
          (d.session.leaf d.token = (d.session.report .emptyStash, .ok .proceed) ↔
            ∀ e ∈ before, ¬ e.Executes .stash) ∧
          ∀ early e late, before = early ++ e :: late → e.Executes .stash →
            (∀ e' ∈ late, ¬ e'.Executes .stash) →
            ∃ v rest, e.session.stack.values = v :: rest ∧
              (e.session.leaf e.token).1.stack = ⟨rest, some v⟩ ∧
              (d.session.leaf d.token).1.stack = ⟨v :: d.session.stack.values, some v⟩ := by
  refine ⟨fun f stack stack' p effect _ ran => Stack.declared_execute ran,
    fun f stack p other => Stack.stash_execute_of_ne f stack other, ?_⟩
  intro functions width out err calls trace s' run before d after split pulls
  have stash : d.session.stack.stash = before.foldl Dispatch.stashAfter none :=
    (stash_changesByLeaves.runs run).met before d after split
  have normal : d.session.stack.Normal := by
    have member : d ∈ trace := split ▸ List.mem_append_right _ List.mem_cons_self
    exact ((kept_built.runs run .empty).2 d member).normal
  have never_iff : d.session.stack.stash = none ↔ ∀ e ∈ before, ¬ e.Executes .stash := by
    rw [stash, foldl_stashAfter_eq_none_iff, and_iff_right rfl]
  constructor
  · rw [← never_iff]
    constructor
    · intro fails
      by_contra present
      obtain ⟨v, stashed⟩ := Option.ne_none_iff_exists'.mp present
      have pushed := Dispatch.stack_of_executes pulls
      rw [Stack.execute_pull_of_some _ stashed, fails] at pushed
      have longer := congrArg Stack.depth pushed
      simp [report, Stack.answer, Stack.depth] at longer
    · intro nothing
      rw [Dispatch.leaf_of_executes pulls, Stack.execute_pull_of_none _ nothing]
      rfl
  · rintro early e late rfl puts never
    obtain ⟨v, rest, values, stashed, stack⟩ := Dispatch.exists_of_executes_stash puts
    have held : d.session.stack.stash = some v := by
      rw [stash, List.foldl_append, List.foldl_cons, foldl_stashAfter_of_forall never,
        Dispatch.stashAfter, stashed]
      rfl
    refine ⟨v, rest, values, stack, ?_⟩
    rw [Dispatch.stack_of_executes pulls, Stack.execute_pull_of_some _ held, Stack.answer,
      Stack.push, (normal.stash v held).normalize_eq, held]

/-- The `pull` that comes first fails. The other one comes after a `clear`, a division that is
refused and the end of a statement whose last literal there is no room to show. -/
theorem declared_effects_and_latest_stash_half :
    let s := fresh .machine 80 { room := some 18, refusal := "sink full" } {}
    let half := Value.float (.ofDecimal false 25 (-1))
    ∃ trace first last s',
      s.Runs [.evaluate "pull 2.5 stash 1 clear 0 0 / 7", .evaluate "pull"]
        (first :: trace ++ [last]) s' ∧
      first.session.leaf first.token = (first.session.report .emptyStash, .ok .proceed) ∧
      last.session.out.room = some 0 ∧
      last.session.stack.values = [.int 7, .int 0, .int 0] ∧
      (last.session.leaf last.token).1.stack =
        ⟨[half, .int 7, .int 0, .int 0], some half⟩ := by
  intro s half
  let text := "pull 2.5 stash 1 clear 0 0 / 7"
  let e : Expansion := .leaf "pull" (.leaf "2.5" (.leaf "stash" (.leaf "1" (.leaf "clear"
    (.leaf "0" (.leaf "0" (.leaf "/" (.leaf "7" .nil))))))))
  let swept := (s.enter text).sweep e.postorder
  have expands : s.dictionary.Expands (leadingTokens text) e := by decide +kernel
  obtain ⟨s₁, _, completes, notWord, fails, room, values⟩ : ∃ s₁ outcome,
      s.Completes text swept.trace s₁ outcome ∧ s₁.dictionary.get? "pull" = none ∧
        ((s₁.enter "pull").leaf "pull").2 ≠ .ok .proceed ∧ s₁.out.room = some 0 ∧
        s₁.stack.values = [.int 7, .int 0, .int 0] :=
    ⟨_, _, completes_sweep expands, by decide +kernel, by decide +kernel, by decide +kernel,
      by decide +kernel⟩
  let last : Dispatch := ⟨s₁.enter "pull", "pull"⟩
  have completesLast : s₁.Completes "pull" [last] (last.session.leaf "pull").1
      (last.session.leaf "pull").2 := by
    have leading : leadingTokens "pull" = ["pull"] := by decide +kernel
    refine ⟨_, _, ?_, conclude_of_ne _ _ fails⟩
    rw [leading]
    exact .leafStops notWord rfl fails
  have run : s.Runs [.evaluate text, .evaluate "pull"] (swept.trace ++ ([last] ++ [])) _ :=
    .cons (.evaluate completes) (.cons (.evaluate completesLast) (.nil _))
  have runs := declared_effects_and_latest_stash.2.2 _ _ _ _ _ _ _ run
  obtain ⟨first, rest, split⟩ : ∃ first rest, swept.trace = first :: rest :=
    List.exists_cons_of_length_pos (by decide +kernel)
  have firstPulls : ∀ d ∈ swept.trace.head?, d.Executes .pull := by decide +kernel
  have popped : ∀ d ∈ swept.trace, d.Executes .stash →
      d.session.stack.values.head? = some half := by
    decide +kernel
  obtain ⟨early, putting, late, around, puts, never⟩ : ∃ early e late,
      swept.trace = early ++ e :: late ∧ e.Executes .stash ∧ ∀ e' ∈ late, ¬ e'.Executes .stash :=
    exists_latest_stash (by decide +kernel)
  rw [split, List.head?_cons] at firstPulls
  obtain ⟨firstFails, -⟩ := runs [] first (rest ++ [last]) (by rw [split]; rfl)
    (firstPulls first rfl)
  obtain ⟨-, latest⟩ := runs swept.trace last [] rfl ⟨rfl, Nat.zero_le _⟩
  obtain ⟨v, below, top, -, pulled⟩ := latest early putting late around puts never
  have value := popped putting (around ▸ List.mem_append_right _ List.mem_cons_self) puts
  rw [top, List.head?_cons, Option.some.injEq] at value
  have values' : last.session.stack.values = [.int 7, .int 0, .int 0] := values
  rw [values', value] at pulled
  rw [split] at run
  have noneBefore : ∀ d ∈ ([] : List Dispatch), ¬ d.Executes .stash :=
    fun d member => absurd member List.not_mem_nil
  exact ⟨rest, first, last, _, run, firstFails.mpr noneBefore, room, values', pulled⟩

end Session

end Rpn
