import Rpn.Fault
import Rpn.Value.Basic

/-!
# The stack

A stack holds values, the top one first, and beside them at most one value in the
stash. Everything that is pushed is normalized, so a stack built by these operations
never holds an integral number as a floating-point one if it could be an integer.

Positions are counted from the bottom, as values are shown.
-/

namespace Rpn

structure Stack where
  /-- The values, the top one first. -/
  values : List Value := []
  stash : Option Value := none
deriving DecidableEq

namespace Stack

def depth (s : Stack) : Nat := s.values.length

def isEmpty (s : Stack) : Bool := s.values.isEmpty

/-- The values in the order in which they are shown. -/
def bottomUp (s : Stack) : List Value := s.values.reverse

def push (s : Stack) (v : Value) : Stack := { s with values := v.normalize :: s.values }

/-- Push values in order, the last one ending on top. -/
def pushAll (s : Stack) (vs : List Value) : Stack := vs.foldl push s

def pop : Stack → Stack × Except Fault Value
  | ⟨[], stash⟩ => (⟨[], stash⟩, .error .underflow)
  | ⟨v :: rest, stash⟩ => (⟨rest, stash⟩, .ok v)

def peek (s : Stack) : Except Fault Value :=
  match s.values with
  | [] => .error .underflow
  | v :: _ => .ok v

def get? (s : Stack) (position : Nat) : Option Value := s.bottomUp[position]?

/-- Take out the value at a position. -/
def popAt (s : Stack) (position : Nat) : Stack × Except Fault Value :=
  match s.get? position with
  | none => (s, .error .underflow)
  | some v => ({ s with values := (s.bottomUp.eraseIdx position).reverse }, .ok v)

/-- Drop all values and count them. The stash stays. -/
def clear (s : Stack) : Stack × Nat := ({ s with values := [] }, s.depth)

/-- The values with a space between each two of them. -/
def text (s : Stack) : String := " ".intercalate (s.bottomUp.map Value.text)

@[simp] theorem values_push (s : Stack) (v : Value) :
    (s.push v).values = v.normalize :: s.values := rfl

@[simp] theorem stash_push (s : Stack) (v : Value) : (s.push v).stash = s.stash := rfl

@[simp] theorem stash_pushAll (s : Stack) (vs : List Value) : (s.pushAll vs).stash = s.stash := by
  induction vs generalizing s with
  | nil => rfl
  | cons v vs ih => exact ih (s.push v)

@[simp] theorem values_pushAll (s : Stack) (vs : List Value) :
    (s.pushAll vs).values = (vs.map Value.normalize).reverse ++ s.values := by
  induction vs generalizing s with
  | nil => rfl
  | cons v vs ih => simpa [pushAll] using ih (s.push v)

end Stack

end Rpn
