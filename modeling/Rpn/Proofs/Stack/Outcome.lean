import Rpn.Stack.Primitive

/-!
# What a primitive can do

`Outcome` lists the ways in which a primitive can come out on a stack of any depth: it runs
out of operands, refuses those it has looked at, or succeeds. What it computes is left open,
but what becomes of the stack is said in full, so that a property of stacks is shown of all
primitives by going through the list (`outcome_execute`).
-/

namespace Rpn

namespace Primitive

/-- The faults that a primitive refuses operands for. -/
def refusals : Primitive → List Fault
  | div | mod => [.divisionByZero]
  | pow => [.fractionalPowerOfNegative, .negativePowerOfZero]
  | factorial => [.factorialOfFraction, .factorialOfNegative]
  | log | ln => [.logarithmOfNonPositive]
  | round => [.fractionalPrecision]
  | pull => [.emptyStash]
  | _ => []

end Primitive

namespace Fault

/-- How many operands have been taken off when the fault is found. -/
def inspected : Fault → Nat
  | fractionalPowerOfNegative | negativePowerOfZero => 2
  | divisionByZero | factorialOfFraction | factorialOfNegative | fractionalPrecision
  | logarithmOfNonPositive => 1
  | emptyStash | underflow | reservedName _ | inputOutput _ => 0

/-- Whether the operands are put back. -/
def restores : Fault → Bool
  | negativePowerOfZero | fractionalPrecision => false
  | _ => true

end Fault

namespace Stack

/-- `Outcome s p (s', result)`: run on `s`, the primitive may leave `s'` and come out with
`result`. -/
inductive Outcome (s : Stack) : Primitive → Stack × Except Fault Effect → Prop
  /-- The operands run out, and those that there were are used up. -/
  | short {p : Primitive} (shallow : s.depth < p.pops) :
      Outcome s p (⟨[], s.stash⟩, .error .underflow)
  | refuses {p : Primitive} {fault : Fault} (operands rest : List Value)
      (values : s.values = operands ++ rest) (count : operands.length = fault.inspected)
      (refusal : fault ∈ p.refusals) :
      Outcome s p
        (⟨if fault.restores then operands.map Value.normalize ++ rest else rest, s.stash⟩,
          .error fault)
  | answers {p : Primitive} (operands rest : List Value) (v : Value)
      (values : s.values = operands ++ rest) (count : operands.length = p.pops)
      (computes : 0 < p.pops ∧ p.pushes = 1) :
      Outcome s p (⟨v.normalize :: rest, s.stash⟩, .ok .display)
  | displays : Outcome s .display (s, .ok .display)
  | drops (v : Value) (rest : List Value) (values : s.values = v :: rest) :
      Outcome s .drop (⟨rest, s.stash⟩, .ok .display)
  | clears : Outcome s .clear (⟨[], s.stash⟩, .ok (.cleared s.depth))
  | totals : Outcome s .sum (⟨[s.total.normalize], s.stash⟩, .ok .display)
  | stashes (v : Value) (rest : List Value) (values : s.values = v :: rest) :
      Outcome s .stash (⟨rest, some v⟩, .ok .silent)
  | pulls (v : Value) (stashed : s.stash = some v) :
      Outcome s .pull (⟨v.normalize :: s.values, s.stash⟩, .ok .display)

section Steps

variable {s : Stack} {p : Primitive} {fault : Fault} (operands : List Value) {rest : List Value}

/-- Where a primitive takes one operand more, the operands run out there or it goes on with
that operand. -/
theorem outcome_withTop {next : Value → Stack → Stack × Except Fault Effect}
    (values : s.values = operands ++ rest) (takes : operands.length < p.pops)
    (go : ∀ v rest, s.values = operands ++ v :: rest → Outcome s p (next v ⟨rest, s.stash⟩)) :
    Outcome s p ((⟨rest, s.stash⟩ : Stack).withTop next) := by
  cases rest with
  | nil =>
    have shallow : s.depth < p.pops := by
      rwa [depth, values, List.append_nil]
    exact .short shallow
  | cons v rest => exact go v rest values

theorem outcome_answer (values : s.values = operands ++ rest) (count : operands.length = p.pops)
    (computes : 0 < p.pops ∧ p.pushes = 1) (v : Value) :
    Outcome s p ((⟨rest, s.stash⟩ : Stack).answer v) :=
  .answers operands rest v values count computes

/-- Operands are put back in the order in which they were. -/
theorem outcome_refuse (values : s.values = operands ++ rest)
    (count : operands.length = fault.inspected) (refusal : fault ∈ p.refusals)
    (restores : fault.restores = true) :
    Outcome s p ((⟨rest, s.stash⟩ : Stack).refuse fault operands.reverse) := by
  have same : (⟨rest, s.stash⟩ : Stack).pushAll operands.reverse =
      ⟨operands.map Value.normalize ++ rest, s.stash⟩ := by
    have values := values_pushAll ⟨rest, s.stash⟩ operands.reverse
    rw [List.map_reverse, List.reverse_reverse] at values
    exact (Stack.mk.injEq ..).mpr ⟨values, stash_pushAll _ _⟩
  have refused := Outcome.refuses operands rest values count refusal
  rwa [if_pos restores, ← same] at refused

theorem outcome_consume (values : s.values = operands ++ rest)
    (count : operands.length = fault.inspected) (refusal : fault ∈ p.refusals)
    (consumes : fault.restores = false) :
    Outcome s p ((⟨rest, s.stash⟩ : Stack).refuse fault []) := by
  have refused := Outcome.refuses operands rest values count refusal
  rwa [if_neg (Bool.eq_false_iff.mp consumes)] at refused

end Steps

section Operators

variable (s : Stack)

theorem outcome_binary {p : Primitive} (takes : p.pops = 2) (pushes : p.pushes = 1)
    (f : Value → Value → Value) : Outcome s p (s.binary f) := by
  refine outcome_withTop [] rfl (by simp [takes]) ?_
  intro a rest values
  refine outcome_withTop [a] values (by simp [takes]) ?_
  intro b rest values
  exact outcome_answer [a, b] values takes.symm ⟨by omega, pushes⟩ _

/-- An operator that looks at its first operand before it takes the second. -/
theorem outcome_guarded {p : Primitive} {fault : Fault} (takes : p.pops = 2)
    (pushes : p.pushes = 1) (refusal : fault ∈ p.refusals) (inspects : fault.inspected = 1)
    (restores : fault.restores = true) (refuses : Value → Prop) [DecidablePred refuses]
    (f : Value → Value → Value) :
    Outcome s p (s.withTop fun a s => if refuses a then s.refuse fault [a]
      else s.withTop fun b s => s.answer (f b a)) := by
  refine outcome_withTop [] rfl (by simp [takes]) ?_
  intro a rest values
  split
  · exact outcome_refuse [a] values inspects.symm refusal restores
  · refine outcome_withTop [a] values (by simp [takes]) ?_
    intro b rest values
    exact outcome_answer [a, b] values takes.symm ⟨by omega, pushes⟩ _

theorem outcome_raise (f : Elementary) : Outcome s .pow (s.raise f) := by
  refine outcome_withTop [] rfl (by decide) ?_
  intro exponent rest values
  refine outcome_withTop [exponent] values Nat.one_lt_two ?_
  intro base rest values
  split
  · exact outcome_refuse [exponent, base] values rfl (by decide) rfl
  · split
    · exact outcome_consume [exponent, base] values rfl (by decide) rfl
    · exact outcome_answer [exponent, base] values rfl (by decide) _

theorem outcome_takeFactorial : Outcome s .factorial s.takeFactorial := by
  refine outcome_withTop [] rfl (by decide) ?_
  intro v rest values
  cases v with
  | float x => exact outcome_refuse [.float x] values rfl (by decide) rfl
  | int n =>
    dsimp only
    split
    · exact outcome_refuse [.int n] values rfl (by decide) rfl
    · exact outcome_answer [.int n] values rfl (by decide) _

theorem outcome_unary {p : Primitive} (takes : p.pops = 1) (pushes : p.pushes = 1)
    (f : Binary64 → Binary64) : Outcome s p (s.unary f) := by
  refine outcome_withTop [] rfl (by simp [takes]) ?_
  intro v rest values
  exact outcome_answer [v] values takes.symm ⟨by omega, pushes⟩ _

theorem outcome_logarithm {p : Primitive} (takes : p.pops = 1) (pushes : p.pushes = 1)
    (refusal : .logarithmOfNonPositive ∈ p.refusals) (f : Binary64 → Binary64) :
    Outcome s p (s.logarithm f) := by
  refine outcome_withTop [] rfl (by simp [takes]) ?_
  intro v rest values
  split
  · exact outcome_refuse [v] values rfl refusal rfl
  · exact outcome_answer [v] values takes.symm ⟨by omega, pushes⟩ _

theorem outcome_roundTop : Outcome s .round s.roundTop := by
  refine outcome_withTop [] rfl (by decide) ?_
  intro precision rest values
  split
  · refine outcome_withTop [precision] values Nat.one_lt_two ?_
    intro v rest values
    exact outcome_answer [precision, v] values rfl (by decide) _
  · exact outcome_consume [precision] values rfl (by decide) rfl

end Operators

/-- There is no other way for a primitive to come out, however deep the stack is. -/
theorem outcome_execute (f : Elementary) (s : Stack) (p : Primitive) :
    Outcome s p (s.execute f p) := by
  cases p with
  | add | sub | mul => exact outcome_binary s rfl rfl _
  | div => exact outcome_guarded s rfl rfl (by decide) rfl rfl _ Value.div
  | pow => exact outcome_raise s f
  | mod => exact outcome_guarded s rfl rfl (by decide) rfl rfl _ Value.rem
  | factorial => exact outcome_takeFactorial s
  | degrees | radians | sine | cosine =>
    rw [execute]
    exact outcome_unary s rfl rfl _
  | log | ln => exact outcome_logarithm s rfl rfl (by decide) _
  | round => exact outcome_roundTop s
  | display => exact .displays
  | drop =>
    rw [execute]
    exact outcome_withTop [] rfl Nat.one_pos fun v rest => .drops v rest
  | clear => exact .clears
  | sum => exact .totals
  | stash =>
    rw [execute]
    exact outcome_withTop [] rfl Nat.one_pos fun v rest => .stashes v rest
  | pull =>
    rw [execute]
    split
    · have refusal : Fault.emptyStash ∈ Primitive.pull.refusals := by decide
      exact .refuses [] s.values rfl rfl refusal
    · next v stashed => exact .pulls v stashed

end Stack

end Rpn
