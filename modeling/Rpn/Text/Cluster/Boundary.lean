import Rpn.Text.Cluster.Class

/-!
# Clusters

A text falls into clusters by the rules of Unicode for extended grapheme clusters. Each
rule looks at the next character and at the end of the cluster that is being built, which
is therefore kept with its last character first.

Nothing is lost or moved: the clusters of a text joined together are the text.
-/

namespace Rpn

namespace Cluster

/-- Whether a cluster, last character first, ends with a pictograph and perhaps marks. -/
def endsWithPictograph (cluster : List Char) : Bool :=
  (cluster.dropWhile (classOf · == .mark)).head?.any isPictograph

/-- Whether a cluster, last character first, ends with a consonant that is linked to a
consonant after it. -/
def endsLinked (cluster : List Char) : Bool :=
  (cluster.takeWhile isConjunctFiller).any isConjunctLinker &&
    (cluster.dropWhile isConjunctFiller).head?.any isConjunctConsonant

/-- Whether a cluster, last character first, goes on with a character. -/
def joins (cluster : List Char) (c : Char) : Bool :=
  match cluster with
  | [] => false
  | last :: earlier =>
    match classOf last, classOf c with
    | .control, _ | _, .control => last == '\r' && c == '\n'
    | _, .mark | _, .joiner | _, .spacingMark => true
    | .prepended, _ => true
    | .leadingJamo, .leadingJamo | .leadingJamo, .vowelJamo => true
    | .leadingJamo, .openSyllable | .leadingJamo, .closedSyllable => true
    | .openSyllable, .vowelJamo | .openSyllable, .trailingJamo => true
    | .vowelJamo, .vowelJamo | .vowelJamo, .trailingJamo => true
    | .closedSyllable, .trailingJamo | .trailingJamo, .trailingJamo => true
    | .flagHalf, .flagHalf => (cluster.takeWhile (classOf · == .flagHalf)).length % 2 == 1
    | .joiner, _ =>
      isPictograph c && endsWithPictograph earlier || isConjunctConsonant c && endsLinked cluster
    | _, _ => isConjunctConsonant c && endsLinked cluster

/-- Add a character to clusters that are kept, like their characters, last first. -/
def extend (clusters : List (List Char)) (c : Char) : List (List Char) :=
  match clusters with
  | [] => [[c]]
  | cluster :: earlier => if joins cluster c then (c :: cluster) :: earlier else [c] :: clusters

/-- The text of clusters that are kept last first. -/
def unreversed (clusters : List (List Char)) : List (List Char) :=
  (clusters.map List.reverse).reverse

theorem flatten_unreversed_extend (clusters : List (List Char)) (c : Char) :
    (unreversed (extend clusters c)).flatten = (unreversed clusters).flatten ++ [c] := by
  unfold extend
  split
  · rfl
  · split <;> simp [unreversed]

theorem flatten_unreversed_foldl (clusters : List (List Char)) (cs : List Char) :
    (unreversed (cs.foldl extend clusters)).flatten = (unreversed clusters).flatten ++ cs := by
  induction cs generalizing clusters with
  | nil => simp
  | cons c rest ih => simp [ih, flatten_unreversed_extend]

end Cluster

/-- The clusters of a text. -/
def clusters (cs : List Char) : List (List Char) := Cluster.unreversed (cs.foldl Cluster.extend [])

@[simp] theorem flatten_clusters (cs : List Char) : (clusters cs).flatten = cs :=
  Cluster.flatten_unreversed_foldl [] cs

end Rpn
