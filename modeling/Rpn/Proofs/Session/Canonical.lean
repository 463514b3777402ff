import Rpn.Proofs.Session.Definition
import Rpn.Proofs.Session.Runs
import Rpn.Proofs.Stack.Normal

/-!
# Canonical stacks

On a stack that operations have built, a number has one form: values that are equal as numbers
are the same value and read the same, and there is no negative zero, neither among the values
nor on the line that shows them. All of it follows from the values being normal.

A session works on its stack by these operations alone, pushing literals and running operators,
so the stack of a reachable session has been built by them and so has every stack on the way.
-/

namespace Rpn

namespace Stack

theorem toList_text (s : Stack) :
    s.text.toList = [' '].intercalate (s.bottomUp.map fun v => v.text.toList) := by
  rw [text, String.toList_intercalate, List.map_map]
  rfl

/-- Where the stack is not empty, the fields of the line that shows it are the texts of its
values. -/
theorem spaceSeparated_text {s : Stack} (nonempty : s.values ≠ []) :
    spaceSeparated s.text.toList = s.bottomUp.map fun v => v.text.toList := by
  rw [spaceSeparated, toList_text]
  refine List.splitOn_intercalate ' ' ?_ ?_
  · intro cs member blank
    obtain ⟨v, _, rfl⟩ := List.mem_map.mp member
    exact absurd (v.unbroken_text ' ' blank) (by decide)
  · rw [bottomUp, Ne, List.map_eq_nil_iff, List.reverse_eq_nil_iff]
    exact nonempty

/-- A number has one form on the stack and in the stash, and zero has no sign. -/
structure Canonical (s : Stack) : Prop where
  normal : ∀ v ∈ s.held, v.IsNormal
  /-- The other value may be on this stack or on another one that is canonical. -/
  unique : ∀ v ∈ s.held, ∀ w : Value, w.IsNormal → v ≠ .float .nan → v.number? = w.number? →
    v = w ∧ v.text = w.text
  stored : .float (.zero true) ∉ s.held
  shown : ∀ v ∈ s.held, v.text ≠ "-0"
  line : "-0".toList ∉ spaceSeparated s.text.toList

theorem Built.canonical {s : Stack} (built : s.Built) : s.Canonical where
  normal := built.normal.held
  unique v member w normal notNan same := by
    obtain ⟨number, found⟩ :=
      Option.ne_none_iff_exists'.mp fun none => notNan (Value.number?_eq_none_iff.mp none)
    have equal : v = w :=
      (built.normal.held v member).eq_of_number?_eq normal found (same ▸ found)
    exact ⟨equal, congrArg Value.text equal⟩
  stored member := (built.normal.held _ member).ne_zero true rfl
  shown v member := (built.normal.held v member).text_ne
  line member := by
    by_cases empty : s.values = []
    · rw [text, bottomUp, empty] at member
      exact absurd member (by decide)
    · rw [spaceSeparated_text empty] at member
      obtain ⟨v, on, written⟩ := List.mem_map.mp member
      refine (built.normal.values v (List.mem_reverse.mp on)).text_ne ?_
      exact String.toList_inj.mp written

end Stack

namespace Session

/-- A leaf pushes, runs an operator or leaves the stack alone. -/
theorem built_leaf {s : Session} (built : s.stack.Built) (token : String) :
    (s.leaf token).1.stack.Built := by
  rw [leaf_eq_respond, stack_respond]
  have responds := s.responds token
  generalize s.response token = r at responds
  cases responds with
  | literal v =>
    rw [stackAfter_literalResponse]
    exact built.push v
  | primitive deep =>
    rw [Response.stackAfter_ofExecution]
    exact built.execute s.functions _
  | command c =>
    rw [stackAfter_commandResponse]
    exact built
  | passes => exact built

theorem kept_built : Kept fun s => s.stack.Built where
  enter _ _ built := built
  advance _ built := built
  leaf _ token built := built_leaf built token
  define s definition built := (stack_define s definition).symm ▸ built

theorem Reachable.built {s : Session} (h : s.Reachable) : s.stack.Built :=
  kept_built.reachable (fun _ _ _ _ => .empty) h

/-- Every stack that operations have built is canonical, as is that of every reachable session,
and those that its runs go through: before each leaf and after it. -/
theorem stacks_canonical :
    (∀ s : Stack, s.Built → s.Canonical) ∧
      ∀ s : Session, s.Reachable → s.stack.Canonical ∧
        ∀ calls trace s', s.Runs calls trace s' → s'.stack.Canonical ∧
          ∀ d ∈ trace, d.session.stack.Canonical ∧ (d.session.leaf d.token).1.stack.Canonical := by
  refine ⟨fun s built => built.canonical, ?_⟩
  intro s reachable
  refine ⟨reachable.built.canonical, ?_⟩
  intro calls trace s' run
  obtain ⟨finish, met⟩ := kept_built.runs run reachable.built
  refine ⟨finish.canonical, ?_⟩
  intro d member
  have before := met d member
  exact ⟨before.canonical, (built_leaf before d.token).canonical⟩

/-- A four and a negative zero that are pushed as floating-point numbers become integers, and so
do those that are typed, one of which ends up in the stash. -/
theorem stacks_canonical_four :
    let four := Binary64.ofDecimal false 40 (-1)
    let pushed := ({} : Stack).pushAll [.float four, .float (.zero true)]
    pushed.values = [.int 0, .int 4] ∧ pushed.Canonical ∧
      ∃ s' : Session, (fresh .machine 80 {} {}).statement 3 "4.0 stash -0" =
          some (s', .ok .proceed) ∧
        s'.stack = ⟨[.int 0], some (.int 4)⟩ ∧ s'.stack.Canonical := by
  intro four pushed
  obtain ⟨operations, sessions⟩ := stacks_canonical
  have evaluated : ((fresh .machine 80 {} {}).statement 3 "4.0 stash -0").map
      (fun r => (r.1.stack, r.2)) = some (⟨[.int 0], some (.int 4)⟩, .ok .proceed) := by
    decide +kernel
  obtain ⟨⟨s', _⟩, result, same⟩ := Option.map_eq_some_iff.mp evaluated
  obtain ⟨stack, rfl⟩ := Prod.mk.inj same
  obtain ⟨_, completes⟩ := exists_statement_iff.mp ⟨3, result⟩
  obtain ⟨-, runs⟩ := sessions _ (fresh_reachable .machine 80 {} {})
  obtain ⟨canonical, -⟩ := runs _ _ _ (.cons (.evaluate completes) (.nil s'))
  exact ⟨by decide +kernel, operations pushed (Stack.Built.empty.pushAll _), s', result, stack,
    canonical⟩

end Session

end Rpn
