import Mathlib.Data.List.Nodup
import Rpn.Proofs.Dictionary.Sound

/-!
# What a definition changes

A definition touches one word of a dictionary at most. A word that is new comes last, and where
there is a word of the name already its body is replaced in place or it is taken out; all other
words stay as they are and in the same order. This is due to names being distinct: `insert` goes
to the first word of a name and `remove` through all of them, and there is one at most.
-/

namespace Rpn

namespace Dictionary

/-- `d.ChangesOne d'`: between `d` and `d'` there is a change to one word at most. -/
inductive ChangesOne (d : Dictionary) : Dictionary → Prop where
  | none : ChangesOne d d
  | adds (word : Word) : ChangesOne d ⟨d.words ++ [word]⟩
  | replaces {front back : List Word} {word : Word} (body : List String)
      (words : d.words = front ++ word :: back) :
      ChangesOne d ⟨front ++ ⟨word.name, body⟩ :: back⟩
  | removes {front back : List Word} {word : Word} (words : d.words = front ++ word :: back) :
      ChangesOne d ⟨front ++ back⟩

section Words

variable {d : Dictionary} {front back : List Word} {word : Word} {name : String}

/-- Words that do not have the name are not removed. -/
theorem filter_name_eq_self {words : List Word} (others : ∀ word ∈ words, word.name ≠ name) :
    (words.filter fun word => word.name != name) = words :=
  List.filter_eq_self.mpr fun word member => bne_iff_ne.mpr (others word member)

/-- The name of a word is that of no other. -/
theorem name_ne_of_distinct (distinct : (d.words.map Word.name).Nodup)
    (words : d.words = front ++ word :: back) :
    (∀ other ∈ front, other.name ≠ word.name) ∧ ∀ other ∈ back, other.name ≠ word.name := by
  rw [words, List.map_append, List.map_cons, List.nodup_middle, ← List.map_append] at distinct
  have absent := (List.nodup_cons.mp distinct).1
  rw [← List.forall_mem_append]
  intro other member same
  exact absent (same ▸ List.mem_map_of_mem member)

theorem remove_of_distinct (distinct : (d.words.map Word.name).Nodup)
    (words : d.words = front ++ word :: back) : d.remove word.name = ⟨front ++ back⟩ := by
  obtain ⟨inFront, inBack⟩ := name_ne_of_distinct distinct words
  rw [remove, words, List.filter_append, List.filter_cons_of_neg (by simp),
    filter_name_eq_self inFront, filter_name_eq_self inBack]

theorem insert_of_distinct (distinct : (d.words.map Word.name).Nodup)
    (words : d.words = front ++ word :: back) (body : List String) :
    d.insert word.name body = ⟨front ++ ⟨word.name, body⟩ :: back⟩ :=
  insert_of_first words (name_ne_of_distinct distinct words).1 body

end Words

namespace Sound

variable {d : Dictionary}

theorem changesOne_remove (sound : d.Sound) (name : String) : d.ChangesOne (d.remove name) := by
  by_cases present : d.contains name = true
  · obtain ⟨front, word, back, words, rfl, _⟩ := exists_first_of_contains present
    rw [remove_of_distinct sound.distinct words]
    exact .removes words
  · have others := contains_eq_false_iff.mp (Bool.eq_false_iff.mpr present)
    rw [Dictionary.remove, filter_name_eq_self others]
    exact .none

theorem changesOne_insert (sound : d.Sound) (name : String) (body : List String) :
    d.ChangesOne (d.insert name body) := by
  by_cases present : d.contains name = true
  · obtain ⟨front, word, back, words, rfl, _⟩ := exists_first_of_contains present
    rw [insert_of_distinct sound.distinct words]
    exact .replaces body words
  · rw [insert_of_absent (contains_eq_false_iff.mp (Bool.eq_false_iff.mpr present))]
    exact .adds _

/-- A definition that is accepted changes one word at most. -/
theorem changesOne_define {defined : Dictionary} {definition : List String} (sound : d.Sound)
    (accepted : d.define Operator.isName definition = .ok defined) : d.ChangesOne defined := by
  match definition with
  | [] | [_] =>
    cases accepted
    exact .none
  | [_, name] =>
    cases accepted
    exact sound.changesOne_remove name
  | marker :: name :: token :: body =>
    rw [define_cons] at accepted
    split at accepted
    · cases accepted
    · cases accepted
      exact sound.changesOne_insert name (token :: body)

end Sound

end Dictionary

end Rpn
