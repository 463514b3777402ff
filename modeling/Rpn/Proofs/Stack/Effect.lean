import Rpn.Proofs.Stack.Outcome

/-!
# Declared effects

`Primitive.pops` and `Primitive.pushes` say how many values a primitive takes off and how many it
leaves in their place. Nothing compares these tables with what `Stack.execute` does. They do agree
with it for all primitives but the two that take all there is, of which they say that these take
nothing.

The stash is no part of that. It is changed by `stash` alone, on whatever path a primitive comes
out.
-/

namespace Rpn

namespace Stack

/-- The stack `s'` after a primitive has succeeded on `s` is as the tables say. -/
structure MeetsTable (s s' : Stack) (p : Primitive) : Prop where
  /-- The values below the operands are unchanged and in order. -/
  below : s'.values.drop p.pushes = s.values.drop p.pops
  depth : s'.depth = s.depth - p.pops + p.pushes

/-- What a primitive that succeeds does to the depth of a stack. -/
def Declared (s s' : Stack) (effect : Effect) : Primitive → Prop
  | .clear => s'.values = [] ∧ effect = .cleared s.depth
  | .sum => s'.depth = 1
  | p => s.MeetsTable s' p

variable {s s' : Stack} {p : Primitive} {effect : Effect}

theorem MeetsTable.declared (meets : s.MeetsTable s' p) (notClear : p ≠ .clear)
    (notSum : p ≠ .sum) : s.Declared s' effect p := by
  cases p with
  | clear => exact absurd rfl notClear
  | sum => exact absurd rfl notSum
  | _ => exact meets

/-- Operands have been replaced by as many results as the primitive pushes. -/
theorem meetsTable_of_append (operands results : List Value) {rest : List Value}
    (values : s.values = operands ++ rest) (values' : s'.values = results ++ rest)
    (takes : operands.length = p.pops) (leaves : results.length = p.pushes) :
    s.MeetsTable s' p := by
  constructor
  case below => rw [values, values', ← takes, ← leaves, List.drop_left, List.drop_left]
  case depth =>
    rw [depth, depth, values, values', List.length_append, List.length_append]
    omega

/-- A primitive that succeeds does to the stack what is declared of it. -/
theorem declared_of_outcome (outcome : Outcome s p (s', .ok effect)) :
    s.Declared s' effect p := by
  cases outcome with
  | answers operands rest v values count computes =>
    have meets : s.MeetsTable ⟨v.normalize :: rest, s.stash⟩ p :=
      meetsTable_of_append operands [v.normalize] values rfl count computes.2.symm
    obtain ⟨takes, -⟩ := computes
    refine meets.declared ?_ ?_
    · rintro rfl
      cases takes
    · rintro rfl
      cases takes
  | displays => exact meetsTable_of_append [] [] rfl rfl rfl rfl
  | drops v rest values =>
    exact meetsTable_of_append [v] [] values rfl rfl rfl
  | clears => exact ⟨rfl, rfl⟩
  | totals => exact List.length_singleton
  | stashes v rest values =>
    exact meetsTable_of_append [v] [] values rfl rfl rfl
  | pulls v _ =>
    exact meetsTable_of_append [] [v.normalize] rfl rfl rfl rfl

theorem declared_execute {f : Elementary} (ran : s.execute f p = (s', .ok effect)) :
    s.Declared s' effect p :=
  declared_of_outcome (ran ▸ outcome_execute f s p)

/-- A primitive other than `stash` leaves the stash alone, also when it refuses its operands or
runs out of them. -/
theorem stash_execute_of_ne (f : Elementary) (s : Stack) (other : p ≠ .stash) :
    (s.execute f p).1.stash = s.stash := by
  have outcome := outcome_execute f s p
  generalize s.execute f p = result at outcome
  cases outcome with
  | stashes => exact absurd rfl other
  | _ => rfl

/-- On a stack that is not empty `stash` puts the top value away. -/
theorem execute_stash (f : Elementary) {v : Value} {rest : List Value}
    (values : s.values = v :: rest) : s.execute f .stash = (⟨rest, some v⟩, .ok .silent) := by
  rw [execute, withTop, values]

/-- What has been put away comes back. -/
theorem execute_pull_of_some (f : Elementary) {v : Value} (stashed : s.stash = some v) :
    s.execute f .pull = s.answer v := by
  rw [execute, stashed]

theorem execute_pull_of_none (f : Elementary) (nothing : s.stash = none) :
    s.execute f .pull = (s, .error .emptyStash) := by
  rw [execute, nothing]

end Stack

end Rpn
