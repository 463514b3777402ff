import Rpn.Proofs.Operator.Names
import Rpn.Dictionary

/-!
# Sound dictionaries

A dictionary is sound when its names are distinct and may be defined, and when no body is
empty. A definition leads from a sound dictionary to a sound one, whatever tokens it is made
of: `define` looks at the name before it inserts a word, and a definition without a body
removes one.

The marker that a definition starts with is not looked at, so nothing is assumed of it.
-/

namespace Rpn

namespace Dictionary

section Lookup

variable {d : Dictionary} {name : String}

theorem get?_eq_none_iff : d.get? name = none ↔ ∀ word ∈ d.words, word.name ≠ name := by
  simp only [get?, Option.map_eq_none_iff, List.find?_eq_none, beq_iff_eq, ne_eq]

theorem contains_eq_false_iff : d.contains name = false ↔ ∀ word ∈ d.words, word.name ≠ name := by
  rw [contains, Option.isSome_eq_false_iff, Option.isNone_iff_eq_none, get?_eq_none_iff]

theorem contains_iff_mem_names : d.contains name = true ↔ name ∈ d.words.map Word.name := by
  rw [← Bool.not_eq_false, contains_eq_false_iff]
  simp

/-- A name that there is a word for splits the dictionary at its first word. -/
theorem exists_first_of_contains (present : d.contains name = true) :
    ∃ front word back, d.words = front ++ word :: back ∧ word.name = name ∧
      ∀ other ∈ front, other.name ≠ name := by
  rw [contains, get?, Option.isSome_map] at present
  obtain ⟨word, found⟩ := Option.isSome_iff_exists.mp present
  obtain ⟨same, front, back, words, others⟩ := List.find?_eq_some_iff_append.mp found
  refine ⟨front, word, back, words, beq_iff_eq.mp same, ?_⟩
  simpa using others

/-- The body of the first word of a name is replaced. -/
theorem insert_of_first {front back : List Word} {word : Word}
    (words : d.words = front ++ word :: back) (others : ∀ other ∈ front, other.name ≠ word.name)
    (body : List String) : d.insert word.name body = ⟨front ++ ⟨word.name, body⟩ :: back⟩ := by
  have before : front.findIdx? (·.name == word.name) = none := by
    rw [List.findIdx?_eq_none_iff]
    exact fun other member => beq_eq_false_iff_ne.mpr (others other member)
  have place : d.position? word.name = some front.length := by
    rw [position?, words, List.findIdx?_append, before, List.findIdx?_cons,
      if_pos (beq_self_eq_true _)]
    simp
  have bound : front.length < (front ++ word :: back).length := by simp
  rw [insert, place]
  dsimp only
  rw [words, List.modify_eq_take_cons_drop bound]
  simp

theorem insert_of_absent (absent : ∀ word ∈ d.words, word.name ≠ name) (body : List String) :
    d.insert name body = ⟨d.words ++ [⟨name, body⟩]⟩ := by
  have nowhere : d.position? name = none := by
    rw [position?, List.findIdx?_eq_none_iff]
    exact fun word member => beq_eq_false_iff_ne.mpr (absent word member)
  rw [insert, nowhere]

/-- A word that is there after a definition is what was defined or was there before. -/
theorem mem_words_insert {body : List String} {word : Word}
    (member : word ∈ (d.insert name body).words) : word = ⟨name, body⟩ ∨ word ∈ d.words := by
  by_cases present : d.contains name = true
  · obtain ⟨front, old, back, words, rfl, others⟩ := exists_first_of_contains present
    rw [insert_of_first words others] at member
    rw [words]
    obtain inFront | fromThere := List.mem_append.mp member
    · exact .inr (List.mem_append_left _ inFront)
    · obtain rfl | inBack := List.mem_cons.mp fromThere
      · exact .inl rfl
      · exact .inr (List.mem_append_right _ (List.mem_cons_of_mem _ inBack))
  · rw [insert_of_absent (contains_eq_false_iff.mp (Bool.eq_false_iff.mpr present))] at member
    obtain old | new := List.mem_append.mp member
    · exact .inr old
    · exact .inl (List.mem_singleton.mp new)

end Lookup

theorem define_cons (d : Dictionary) (isOperator : String → Bool) (marker name token : String)
    (body : List String) :
    d.define isOperator (marker :: name :: token :: body) =
      if isForbidden isOperator name then .error (.reservedName name)
      else .ok (d.insert name (token :: body)) := rfl

/-- The only thing that a definition is refused for is its name. -/
theorem exists_reservedName_of_define {d : Dictionary} {isOperator : String → Bool}
    {definition : List String} {fault : Fault}
    (refused : d.define isOperator definition = .error fault) :
    ∃ name, fault = .reservedName name := by
  match definition with
  | [] | [_] | [_, _] => cases refused
  | marker :: name :: token :: body =>
    rw [define_cons] at refused
    split at refused
    · exact ⟨name, (Except.error.inj refused).symm⟩
    · cases refused

section Names

theorem isDigitName_singleton {c : Char} (digit : c.isDigit = true) :
    isDigitName (String.singleton c) = true := by
  rw [isDigitName, String.toList_singleton]
  exact digit

theorem isDigitName_iff {name : String} :
    isDigitName name = true ↔ ∃ c : Char, c.isDigit = true ∧ name = String.singleton c := by
  constructor
  · intro digit
    rw [isDigitName] at digit
    split at digit
    · next c single =>
      refine ⟨c, digit, String.toList_inj.mp ?_⟩
      rw [single, String.toList_singleton]
    · cases digit
  · rintro ⟨c, digit, rfl⟩
    exact isDigitName_singleton digit

theorem isForbidden_eq_true_iff {isOperator : String → Bool} {name : String} :
    isForbidden isOperator name = true ↔
      isOperator name = true ∨
        (∃ c : Char, c.isDigit = true ∧ name = String.singleton c) ∨ name = definitionMarker := by
  rw [isForbidden, Bool.or_eq_true, Bool.or_eq_true, isDigitName_iff, beq_iff_eq, or_assoc]

/-- What cannot be defined is the name of an operator, a digit or the marker. -/
theorem isForbidden_iff {name : String} :
    isForbidden Operator.isName name = true ↔
      (∃ op : Operator, name = op.name) ∨
        (∃ c : Char, c.isDigit = true ∧ name = String.singleton c) ∨ name = definitionMarker := by
  rw [isForbidden_eq_true_iff, Operator.isName_iff]

/-- A name that may be defined is neither that of an operator nor a digit nor the marker. -/
theorem ne_of_not_isForbidden {name : String}
    (allowed : isForbidden Operator.isName name = false) :
    (∀ op : Operator, name ≠ op.name) ∧
      (∀ c : Char, c.isDigit = true → name ≠ String.singleton c) ∧ name ≠ definitionMarker := by
  have none := mt isForbidden_iff.mpr (Bool.eq_false_iff.mp allowed)
  simpa only [not_or, not_exists, not_and] using none

end Names

structure Sound (d : Dictionary) : Prop where
  distinct : (d.words.map Word.name).Nodup
  bodies : ∀ word ∈ d.words, word.body ≠ []
  names : ∀ word ∈ d.words, isForbidden Operator.isName word.name = false

theorem builtins_sound : builtins.Sound where
  distinct := by decide
  bodies := by decide
  names := by decide

namespace Sound

variable {d : Dictionary} {name : String} {body : List String}

/-- A name that cannot be defined is not that of a word. -/
theorem get?_eq_none (sound : d.Sound)
    (forbidden : isForbidden Operator.isName name = true) : d.get? name = none := by
  rw [get?_eq_none_iff]
  rintro word member rfl
  cases forbidden.symm.trans (sound.names word member)

theorem remove (sound : d.Sound) (name : String) : (d.remove name).Sound := by
  have kept : (d.remove name).words.Sublist d.words := List.filter_sublist
  constructor
  · exact sound.distinct.sublist (kept.map Word.name)
  · exact fun word member => sound.bodies word (kept.subset member)
  · exact fun word member => sound.names word (kept.subset member)

theorem insert (sound : d.Sound) (allowed : isForbidden Operator.isName name = false)
    (nonempty : body ≠ []) : (d.insert name body).Sound where
  distinct := by
    by_cases present : d.contains name = true
    · obtain ⟨front, word, back, words, rfl, others⟩ := exists_first_of_contains present
      have sameNames : (d.insert word.name body).words.map Word.name = d.words.map Word.name := by
        rw [insert_of_first words others, words, List.map_append, List.map_append]
        rfl
      exact sameNames ▸ sound.distinct
    · have absent := contains_eq_false_iff.mp (Bool.eq_false_iff.mpr present)
      rw [insert_of_absent absent, List.map_append, List.nodup_append]
      refine ⟨sound.distinct, List.pairwise_singleton _ name, ?_⟩
      intro old oldMember new newMember
      obtain ⟨word, member, rfl⟩ := List.mem_map.mp oldMember
      obtain rfl := List.mem_singleton.mp newMember
      exact absent word member
  bodies word member := by
    obtain rfl | old := mem_words_insert member
    · exact nonempty
    · exact sound.bodies word old
  names word member := by
    obtain rfl | old := mem_words_insert member
    · exact allowed
    · exact sound.names word old

/-- A definition that is accepted leads to a sound dictionary. -/
theorem define {defined : Dictionary} {definition : List String} (sound : d.Sound)
    (accepted : d.define Operator.isName definition = .ok defined) : defined.Sound := by
  match definition with
  | [] | [_] =>
    cases accepted
    exact sound
  | [_, name] =>
    cases accepted
    exact sound.remove name
  | marker :: name :: token :: body =>
    rw [define_cons] at accepted
    split at accepted
    · cases accepted
    · next allowed =>
      cases accepted
      exact sound.insert (Bool.eq_false_iff.mpr allowed) (List.cons_ne_nil token body)

end Sound

end Dictionary

end Rpn
