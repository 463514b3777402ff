import Rpn.Proofs.Expansion.Leaves

/-!
# What lies underneath

A primitive whose arity is met looks at its operands and at nothing below them, whether it
succeeds, refuses them, or has put some of them back by then. Only `clear` and `sum` reach for
the whole stack. So a leaf does to a stack with more values underneath what it does to the stack
by itself, as long as it keeps to the values of that stack (`Stack.Suffices`).

The arity is what is compared with the depth, and the depth does count what lies underneath: an
operator that is passed over on the stack by itself may run when there is more.
-/

namespace Rpn

namespace Stack

/-- The stack with more values underneath, the first of them next to the lowest of its own. -/
def atop (s : Stack) (below : List Value) : Stack := { s with values := s.values ++ below }

/-- What a primitive comes to when there is more underneath. -/
def resultAtop (result : Stack × Except Fault Effect) (below : List Value) :
    Stack × Except Fault Effect :=
  (result.1.atop below, result.2)

/-- The values of the stack are all that a token can need: there are enough for the operator of
that name, and it is none of the two that take all there is. -/
def Suffices (s : Stack) (token : String) : Prop :=
  ∀ op : Operator, token = op.name →
    op.pops ≤ s.depth ∧ op ≠ .primitive .clear ∧ op ≠ .primitive .sum

instance (s : Stack) (token : String) : Decidable (s.Suffices token) :=
  decidable_of_iff
    (∀ op ∈ Operator.named? token,
      op.pops ≤ s.depth ∧ op ≠ .primitive .clear ∧ op ≠ .primitive .sum)
    (forall_congr' fun _ => imp_congr_left (Operator.named?_eq_some_iff.trans eq_comm))

section Atop

variable (s : Stack) (below : List Value)

@[simp] theorem values_atop : (s.atop below).values = s.values ++ below := rfl

@[simp] theorem stash_atop : (s.atop below).stash = s.stash := rfl

@[simp] theorem depth_atop : (s.atop below).depth = s.depth + below.length :=
  List.length_append

theorem pushAll_atop (vs : List Value) : (s.atop below).pushAll vs = (s.pushAll vs).atop below := by
  induction vs generalizing s with
  | nil => rfl
  | cons v vs ih => exact ih (s.push v)

theorem answer_atop (v : Value) :
    (s.atop below).answer v = resultAtop (s.answer v) below := rfl

theorem refuse_atop (fault : Fault) (operands : List Value) :
    (s.atop below).refuse fault operands = resultAtop (s.refuse fault operands) below :=
  Prod.ext (pushAll_atop s below operands) rfl

end Atop

section Operators

variable {s : Stack} (below : List Value)

/-- Where there is an operand, the values underneath are not looked for. -/
theorem withTop_atop {next : Value → Stack → Stack × Except Fault Effect} (deep : 1 ≤ s.depth)
    (go : ∀ v rest, s.values = v :: rest →
      next v ((⟨rest, s.stash⟩ : Stack).atop below) = resultAtop (next v ⟨rest, s.stash⟩) below) :
    (s.atop below).withTop next = resultAtop (s.withTop next) below := by
  obtain ⟨values, stash⟩ := s
  cases values with
  | nil => cases deep
  | cons v rest => exact go v rest rfl

/-- The depth that is left for a second operand. -/
theorem depth_of_values_eq_cons {v : Value} {rest : List Value} (values : s.values = v :: rest)
    (deep : 2 ≤ s.depth) : 1 ≤ (⟨rest, s.stash⟩ : Stack).depth := by
  rw [depth, values, List.length_cons] at deep
  exact Nat.le_of_succ_le_succ deep

theorem binary_atop (deep : 2 ≤ s.depth) (f : Value → Value → Value) :
    (s.atop below).binary f = resultAtop (s.binary f) below := by
  apply withTop_atop below (Nat.le_of_succ_le deep)
  intro a rest values
  apply withTop_atop below (depth_of_values_eq_cons values deep)
  intro b rest _
  exact answer_atop _ below _

/-- An operator that looks at its first operand before it takes the second. -/
theorem guarded_atop (deep : 2 ≤ s.depth) (fault : Fault) (refuses : Value → Prop)
    [DecidablePred refuses] (f : Value → Value → Value) :
    ((s.atop below).withTop fun a s => if refuses a then s.refuse fault [a]
        else s.withTop fun b s => s.answer (f b a)) =
      resultAtop (s.withTop fun a s => if refuses a then s.refuse fault [a]
        else s.withTop fun b s => s.answer (f b a)) below := by
  apply withTop_atop below (Nat.le_of_succ_le deep)
  intro a rest values
  by_cases refused : refuses a
  · rw [if_pos refused, if_pos refused]
    exact refuse_atop _ below fault [a]
  · rw [if_neg refused, if_neg refused]
    apply withTop_atop below (depth_of_values_eq_cons values deep)
    intro b rest _
    exact answer_atop _ below _

theorem raise_atop (deep : 2 ≤ s.depth) (f : Elementary) :
    (s.atop below).raise f = resultAtop (s.raise f) below := by
  apply withTop_atop below (Nat.le_of_succ_le deep)
  intro exponent rest values
  apply withTop_atop below (depth_of_values_eq_cons values deep)
  intro base rest _
  dsimp only
  split
  · exact refuse_atop _ below _ _
  · split
    · exact refuse_atop _ below _ _
    · exact answer_atop _ below _

theorem takeFactorial_atop (deep : 1 ≤ s.depth) :
    (s.atop below).takeFactorial = resultAtop s.takeFactorial below := by
  apply withTop_atop below deep
  intro v rest _
  cases v with
  | float x => exact refuse_atop _ below _ _
  | int n =>
    dsimp only
    split
    · exact refuse_atop _ below _ _
    · exact answer_atop _ below _

theorem unary_atop (deep : 1 ≤ s.depth) (f : Binary64 → Binary64) :
    (s.atop below).unary f = resultAtop (s.unary f) below := by
  apply withTop_atop below deep
  intro v rest _
  exact answer_atop _ below _

theorem logarithm_atop (deep : 1 ≤ s.depth) (f : Binary64 → Binary64) :
    (s.atop below).logarithm f = resultAtop (s.logarithm f) below := by
  apply withTop_atop below deep
  intro v rest _
  split
  · exact refuse_atop _ below _ _
  · exact answer_atop _ below _

/-- A precision that is refused is used up, and what is under it is not rounded. -/
theorem roundTop_atop (deep : 2 ≤ s.depth) :
    (s.atop below).roundTop = resultAtop s.roundTop below := by
  apply withTop_atop below (Nat.le_of_succ_le deep)
  intro precision rest values
  split
  · apply withTop_atop below (depth_of_values_eq_cons values deep)
    intro v rest _
    exact answer_atop _ below _
  · exact refuse_atop _ below _ []

/-- A primitive whose arity is met works in the same way whatever lies underneath, unless it
takes all there is. -/
theorem execute_atop (f : Elementary) {p : Primitive} (deep : p.pops ≤ s.depth)
    (notClear : p ≠ .clear) (notSum : p ≠ .sum) :
    (s.atop below).execute f p = resultAtop (s.execute f p) below := by
  cases p with
  | add | sub | mul => exact binary_atop below deep _
  | div => exact guarded_atop below deep _ (fun v => v.isZero = true) _
  | pow => exact raise_atop below deep f
  | mod => exact guarded_atop below deep _ (fun v => v.trunc = 0) _
  | factorial => exact takeFactorial_atop below deep
  | degrees => exact unary_atop below deep (·.mul degreesPerRadian)
  | radians => exact unary_atop below deep (·.mul radiansPerDegree)
  | sine | cosine => exact unary_atop below deep _
  | log | ln => exact logarithm_atop below deep _
  | round => exact roundTop_atop below deep
  | display => rfl
  | drop | stash =>
    rw [execute, execute]
    exact withTop_atop below deep fun _ _ _ => rfl
  | clear => exact absurd rfl notClear
  | sum => exact absurd rfl notSum
  | pull =>
    obtain ⟨values, _ | v⟩ := s
    · rfl
    · rfl

/-- A leaf for which the values of a stack suffice does the same whatever lies underneath, and
reports the same. -/
theorem afterLeaf_atop (f : Elementary) {token : String} (enough : s.Suffices token) :
    (s.atop below).afterLeaf f token =
      ((s.afterLeaf f token).1.atop below, (s.afterLeaf f token).2) := by
  obtain ⟨v, literal⟩ | ⟨p | c, rfl⟩ | ⟨notLiteral, notOperator⟩ := Session.token_cases token
  · rw [afterLeaf_of_literal literal, afterLeaf_of_literal literal]
    rfl
  · obtain ⟨deep, notClear, notSum⟩ := enough (.primitive p) rfl
    have runs : ¬ s.depth < p.pops := Nat.not_lt.mpr deep
    have runsOver : ¬ (s.atop below).depth < p.pops := by
      rw [depth_atop]
      omega
    have ran := execute_atop below f deep (fun same => notClear (congrArg _ same))
      (fun same => notSum (congrArg _ same))
    rw [afterLeaf_name, afterLeaf_name]
    dsimp only
    rw [if_neg runs, if_neg runsOver, ran]
    rfl
  · rw [afterLeaf_name, afterLeaf_name]
  · rw [afterLeaf_of_unknown notLiteral notOperator, afterLeaf_of_unknown notLiteral notOperator]

end Operators

end Stack

end Rpn
