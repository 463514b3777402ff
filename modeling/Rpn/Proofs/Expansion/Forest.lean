import Rpn.Dictionary

/-!
# Expansions

A word stands for the tokens of its body, which may be words again. Where that comes to an
end, tokens and all that they stand for make up a forest. The tokens are its roots, the
children of a word are the tokens of its body, and a token that is not a word is a leaf.

The nodes of a forest are numbered in post-order, a word coming after all that is below it.
The rank of a node is therefore the number of nodes that are complete before it.
-/

namespace Rpn

/-- A forest, written as its first tree and the trees after that one. -/
inductive Expansion where
  | nil
  | leaf (token : String) (rest : Expansion)
  | word (name : String) (body rest : Expansion)
deriving DecidableEq

inductive Node where
  | leaf (token : String)
  | word (name : String)
deriving DecidableEq

/-- The leaves among some nodes, each with its rank, the first node having the rank `start`. -/
def leafRanks (start : Nat) (nodes : List Node) : List (String × Nat) :=
  (nodes.zipIdx start).filterMap fun
    | (.leaf token, rank) => some (token, rank)
    | (.word _, _) => none

@[simp] theorem leafRanks_nil (start : Nat) : leafRanks start [] = [] := rfl

@[simp] theorem leafRanks_leaf (start : Nat) (token : String) (nodes : List Node) :
    leafRanks start (.leaf token :: nodes) = (token, start) :: leafRanks (start + 1) nodes := rfl

@[simp] theorem leafRanks_word (start : Nat) (name : String) (nodes : List Node) :
    leafRanks start (.word name :: nodes) = leafRanks (start + 1) nodes := rfl

theorem leafRanks_append (start : Nat) (nodes nodes' : List Node) :
    leafRanks start (nodes ++ nodes') =
      leafRanks start nodes ++ leafRanks (start + nodes.length) nodes' := by
  rw [leafRanks, List.zipIdx_append, List.filterMap_append]
  rfl

/-- Ranks grow from each leaf to the next. -/
theorem pairwise_leafRanks (start : Nat) (nodes : List Node) :
    ((leafRanks start nodes).map Prod.snd).Pairwise (· < ·) ∧
      ∀ rank ∈ (leafRanks start nodes).map Prod.snd, start ≤ rank := by
  induction nodes generalizing start with
  | nil => exact ⟨.nil, fun rank member => absurd member List.not_mem_nil⟩
  | cons node nodes ih =>
    obtain ⟨increasing, bound⟩ := ih (start + 1)
    cases node with
    | leaf token =>
      simp only [leafRanks_leaf, List.map_cons, List.pairwise_cons, List.forall_mem_cons]
      refine ⟨⟨fun rank member => bound rank member, increasing⟩, Nat.le_refl start, ?_⟩
      exact fun rank member => Nat.le_of_succ_le (bound rank member)
    | word name =>
      exact ⟨increasing, fun rank member => Nat.le_of_succ_le (bound rank member)⟩

namespace Expansion

/-- The tokens that are expanded. -/
def roots : Expansion → List String
  | nil => []
  | leaf token rest => token :: rest.roots
  | word name _ rest => name :: rest.roots

/-- What the tokens come to, once each word is replaced by the leaves of its body. -/
def leaves : Expansion → List String
  | nil => []
  | leaf token rest => token :: rest.leaves
  | word _ body rest => body.leaves ++ rest.leaves

/-- All nodes, a word after all that is below it. -/
def postorder : Expansion → List Node
  | nil => []
  | leaf token rest => .leaf token :: rest.postorder
  | word name body rest => body.postorder ++ .word name :: rest.postorder

def size (e : Expansion) : Nat := e.postorder.length

/-- The leaves from left to right, each with its rank. -/
def rankedLeaves (e : Expansion) : List (String × Nat) := leafRanks 0 e.postorder

/-- The words of a dictionary, and no other tokens, are expanded, each to its body. -/
def Follows (d : Dictionary) : Expansion → Prop
  | nil => True
  | leaf token rest => d.get? token = none ∧ rest.Follows d
  | word name body rest => d.get? name = some body.roots ∧ body.Follows d ∧ rest.Follows d

instance decidableFollows (d : Dictionary) : (e : Expansion) → Decidable (e.Follows d)
  | nil => inferInstanceAs (Decidable True)
  | leaf _ rest =>
    have := decidableFollows d rest
    inferInstanceAs (Decidable (_ ∧ _))
  | word _ body rest =>
    have := decidableFollows d body
    have := decidableFollows d rest
    inferInstanceAs (Decidable (_ ∧ _ ∧ _))

/-- Tokens have one expansion at most. -/
theorem Follows.unique {d : Dictionary} {e e' : Expansion} (h : e.Follows d) (h' : e'.Follows d)
    (same : e.roots = e'.roots) : e = e' := by
  induction e generalizing e' with
  | nil =>
    cases e' with
    | nil => rfl
    | leaf | word => cases same
  | leaf token rest ih =>
    cases e' with
    | nil => cases same
    | leaf token' rest' =>
      obtain ⟨rfl, sameRest⟩ := List.cons.inj same
      rw [ih h.2 h'.2 sameRest]
    | word name' _ _ =>
      obtain ⟨rfl, -⟩ := List.cons.inj same
      cases h.1.symm.trans h'.1
  | word name body rest ihBody ihRest =>
    cases e' with
    | nil => cases same
    | leaf token' _ =>
      obtain ⟨rfl, -⟩ := List.cons.inj same
      cases h.1.symm.trans h'.1
    | word name' body' rest' =>
      obtain ⟨rfl, sameRest⟩ := List.cons.inj same
      have sameBody := Option.some.inj (h.1.symm.trans h'.1)
      rw [ihBody h.2.1 h'.2.1 sameBody, ihRest h.2.2 h'.2.2 sameRest]

theorem map_fst_leafRanks (e : Expansion) (start : Nat) :
    (leafRanks start e.postorder).map Prod.fst = e.leaves := by
  induction e generalizing start with
  | nil => rfl
  | leaf token rest ih => exact congrArg (token :: ·) (ih (start + 1))
  | word name body rest ihBody ihRest =>
    simp only [postorder, leafRanks_append, leafRanks_word, List.map_append, ihBody, ihRest, leaves]

theorem leaf_mem_postorder (e : Expansion) (token : String) :
    Node.leaf token ∈ e.postorder ↔ token ∈ e.leaves := by
  induction e with
  | nil => simp [postorder, leaves]
  | leaf token' rest ih => simp [postorder, leaves, ih]
  | word name body rest ihBody ihRest => simp [postorder, leaves, ihBody, ihRest]

/-- Without words every token is a leaf, and its rank is its place. -/
theorem postorder_of_forall_get?_eq_none {d : Dictionary} {e : Expansion} (h : e.Follows d)
    (plain : ∀ token ∈ e.roots, d.get? token = none) : e.postorder = e.roots.map .leaf := by
  induction e with
  | nil => rfl
  | leaf token rest ih =>
    have plainRest := (List.forall_mem_cons.mp plain).2
    exact congrArg (.leaf token :: ·) (ih h.2 plainRest)
  | word name body rest =>
    have isLeaf := (List.forall_mem_cons.mp plain).1
    cases isLeaf.symm.trans h.1

end Expansion

namespace Dictionary

/-- `d.Expands names e`: the tokens `names` expand finitely, namely to `e`. -/
def Expands (d : Dictionary) (names : List String) (e : Expansion) : Prop :=
  e.roots = names ∧ e.Follows d

instance (d : Dictionary) (names : List String) (e : Expansion) : Decidable (d.Expands names e) :=
  inferInstanceAs (Decidable (_ ∧ _))

theorem Expands.unique {d : Dictionary} {names : List String} {e e' : Expansion}
    (h : d.Expands names e) (h' : d.Expands names e') : e = e' :=
  h.2.unique h'.2 (h.1.trans h'.1.symm)

end Dictionary

end Rpn
