import Rpn.Proofs.Stack.Outcome
import Rpn.Proofs.Value.Text

/-!
# Normal stacks

A stack is normal when all that it holds is: the values on it and the one in the stash. The
empty stack is normal and every operation leads from a normal stack to a normal one, whatever
is pushed and whether or not an operator has enough operands. This is not due to arithmetic,
whose results need not be normal, but to `push`, by which alone a value comes onto a stack; a
value gets into the stash from a stack.
-/

namespace Rpn

namespace Stack

/-- What operations make of the empty stack. Values are pushed as they come, and operators are
run at any depth. -/
inductive Built : Stack → Prop
  | empty : Built {}
  | push {s : Stack} (h : Built s) (v : Value) : Built (s.push v)
  | pushAll {s : Stack} (h : Built s) (vs : List Value) : Built (s.pushAll vs)
  | pop {s : Stack} (h : Built s) : Built s.pop.1
  | popAt {s : Stack} (h : Built s) (position : Nat) : Built (s.popAt position).1
  | clear {s : Stack} (h : Built s) : Built s.clear.1
  | execute {s : Stack} (h : Built s) (f : Elementary) (p : Primitive) : Built (s.execute f p).1

/-- All values of a stack, that in the stash included. -/
def held (s : Stack) : List Value := s.values ++ s.stash.toList

structure Normal (s : Stack) : Prop where
  values : ∀ v ∈ s.values, v.IsNormal
  stash : ∀ v, s.stash = some v → v.IsNormal

namespace Normal

variable {s : Stack}

theorem held (normal : s.Normal) : ∀ v ∈ s.held, v.IsNormal := by
  refine List.forall_mem_append.mpr ⟨normal.values, ?_⟩
  intro v member
  exact normal.stash v (Option.mem_toList.mp member)

theorem of_subset {s₁ : Stack} (normal : s.Normal) (values : s₁.values ⊆ s.values)
    (stash : s₁.stash = s.stash) : s₁.Normal :=
  ⟨fun v member => normal.values v (values member), stash ▸ normal.stash⟩

theorem push (normal : s.Normal) (v : Value) : (s.push v).Normal :=
  ⟨List.forall_mem_cons.mpr ⟨v.isNormal_normalize, normal.values⟩, normal.stash⟩

theorem pushAll (normal : s.Normal) (vs : List Value) : (s.pushAll vs).Normal := by
  induction vs generalizing s with
  | nil => exact normal
  | cons v vs ih => exact ih (normal.push v)

theorem pop (normal : s.Normal) : s.pop.1.Normal := by
  obtain ⟨values, stash⟩ := s
  cases values with
  | nil => exact normal
  | cons v rest => exact normal.of_subset (List.subset_cons_self v rest) rfl

theorem popAt (normal : s.Normal) (position : Nat) : (s.popAt position).1.Normal := by
  rw [Stack.popAt]
  split
  · exact normal
  · refine normal.of_subset ?_ rfl
    intro v member
    have kept := (List.eraseIdx_sublist _ _).subset (List.mem_reverse.mp member)
    exact List.mem_reverse.mp kept

theorem clear (normal : s.Normal) : s.clear.1.Normal :=
  normal.of_subset (List.nil_subset _) rfl

/-- What an operator leaves on the stack was there before or has been pushed. -/
theorem outcome {p : Primitive} {result : Stack × Except Fault Effect} (normal : s.Normal)
    (outcome : Outcome s p result) : result.1.Normal := by
  have kept (operands : List Value) {rest : List Value} (values : s.values = operands ++ rest) :
      (⟨rest, s.stash⟩ : Stack).Normal := by
    refine normal.of_subset ?_ rfl
    rw [values]
    exact List.subset_append_right operands rest
  cases outcome with
  | short shallow => exact normal.clear
  | @refuses _ fault operands rest values _ _ =>
    have rest := kept operands values
    dsimp only
    split
    · refine ⟨List.forall_mem_append.mpr ⟨?_, rest.values⟩, rest.stash⟩
      intro _ member
      obtain ⟨v, _, rfl⟩ := List.mem_map.mp member
      exact v.isNormal_normalize
    · exact rest
  | answers operands rest v values _ _ => exact (kept operands values).push v
  | displays => exact normal
  | drops v rest values => exact kept [v] values
  | clears => exact normal.clear
  | totals => exact normal.clear.push s.total
  | stashes v rest values =>
    have top : v.IsNormal := normal.values v (values ▸ List.mem_cons_self)
    refine ⟨(kept [v] values).values, ?_⟩
    rintro _ ⟨⟩
    exact top
  | pulls v _ => exact normal.push v

theorem execute (normal : s.Normal) (f : Elementary) (p : Primitive) :
    (s.execute f p).1.Normal :=
  normal.outcome (outcome_execute f s p)

end Normal

theorem Built.normal {s : Stack} (built : s.Built) : s.Normal := by
  induction built with
  | empty => exact ⟨by simp, by simp⟩
  | push _ v ih => exact ih.push v
  | pushAll _ vs ih => exact ih.pushAll vs
  | pop _ ih => exact ih.pop
  | popAt _ position ih => exact ih.popAt position
  | clear _ ih => exact ih.clear
  | execute _ f p ih => exact ih.execute f p

end Stack

end Rpn
