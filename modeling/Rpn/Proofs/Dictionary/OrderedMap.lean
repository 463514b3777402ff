import Mathlib.Data.List.Nodup
import Mathlib.Logic.Function.Basic
import Rpn.Proofs.Dictionary.Change

/-!
# The dictionary as an ordered map

A dictionary is one list of words. What it stands for is a map from names to bodies together with
an order of its names: a name that is stored again keeps its place, and one that was dropped and
comes back goes to the end. `OrderedMap` says so without words, and `Dictionary.toMap` is the view
of a dictionary as such a map.

What an edit asks for can be told from the edit alone. So an edit of the dictionary and the same
edit of the map give the same answer and lead to the same map (`toMap_edit`), and this goes on
along every sequence of edits. It needs names to be distinct, since `insert` goes to the first
word of a name, `remove` goes to all of them, and the map has each name once.
-/

namespace Rpn

/-- A map from names to bodies, with an order of the names that it has. -/
@[ext]
structure OrderedMap where
  names : List String
  body : String → Option (List String)

namespace Dictionary

/-- What a dictionary can be asked for. -/
inductive Edit where
  | define (isOperator : String → Bool) (definition : List String)
  | insert (name : String) (body : List String)
  | remove (name : String)

/-- What an edit comes to, whatever the dictionary holds. -/
inductive Action where
  | pass
  | refuse (fault : Fault)
  | store (name : String) (body : List String)
  | drop (name : String)
deriving DecidableEq

/-- What an edit gives back. -/
inductive Answer where
  | done
  | refused (fault : Fault)
  | removed (present : Bool)
deriving DecidableEq

/-- The names that a definition is refused for, given those of the operators. -/
def IsReserved (isOperator : String → Bool) (name : String) : Prop :=
  isOperator name = true ∨
    (∃ c : Char, c.isDigit = true ∧ name = String.singleton c) ∨ name = definitionMarker

instance (isOperator : String → Bool) (name : String) : Decidable (IsReserved isOperator name) :=
  decidable_of_iff (isForbidden isOperator name = true) isForbidden_eq_true_iff

/-- Two tokens, the marker and a name, drop the name. More of them store what comes after the
name, unless the name is reserved, and fewer do nothing. -/
def Edit.action : Edit → Action
  | define isOperator definition =>
    let name := definition.getD 1 ""
    if definition.length < 2 then .pass
    else if definition.length = 2 then .drop name
    else if IsReserved isOperator name then .refuse (.reservedName name)
    else .store name (definition.drop 2)
  | insert name body => .store name body
  | remove name => .drop name

/-- The action is to store or to drop the name. -/
def Action.Concerns (name : String) : Action → Prop
  | pass | refuse _ => False
  | store stored _ => stored = name
  | drop dropped => dropped = name

/-- Carry out edits in order, given what a single one does. -/
def runEdits {σ : Type} (step : σ → Edit → Answer × σ) : σ → List Edit → List Answer × σ
  | state, [] => ([], state)
  | state, e :: rest =>
    ((step state e).1 :: (runEdits step (step state e).2 rest).1,
      (runEdits step (step state e).2 rest).2)

def edit (d : Dictionary) : Edit → Answer × Dictionary
  | .define isOperator definition =>
    match d.define isOperator definition with
    | .ok defined => (.done, defined)
    | .error fault => (.refused fault, d)
  | .insert name body => (.done, d.insert name body)
  | .remove name => (.removed (d.removes name), d.remove name)

/-- A dictionary as a map. -/
def toMap (d : Dictionary) : OrderedMap := ⟨d.words.map Word.name, d.get?⟩

end Dictionary

open Dictionary

namespace OrderedMap

/-- Give a name a body. A name that is new comes last. -/
def store (m : OrderedMap) (name : String) (body : List String) : OrderedMap where
  names := if name ∈ m.names then m.names else m.names ++ [name]
  body := Function.update m.body name (some body)

/-- Take out a name, the others keeping their order. -/
def drop (m : OrderedMap) (name : String) : OrderedMap where
  names := m.names.erase name
  body := Function.update m.body name none

/-- The names in order, each with its body. -/
def words (m : OrderedMap) : List Word :=
  m.names.filterMap fun name => (m.body name).map (Word.mk name)

def perform (m : OrderedMap) : Action → OrderedMap
  | .pass | .refuse _ => m
  | .store name body => m.store name body
  | .drop name => m.drop name

/-- A removal tells whether there was something to remove, and a definition whether it was
refused. -/
def answer (m : OrderedMap) : Edit → Answer
  | .define isOperator definition =>
    match (Edit.define isOperator definition).action with
    | .refuse fault => .refused fault
    | _ => .done
  | .insert _ _ => .done
  | .remove name => .removed (decide (name ∈ m.names))

def edit (m : OrderedMap) (e : Edit) : Answer × OrderedMap := (m.answer e, m.perform e.action)

variable {m : OrderedMap}

theorem nodup_perform (distinct : m.names.Nodup) (a : Action) : (m.perform a).names.Nodup := by
  cases a with
  | pass | refuse => exact distinct
  | drop name => exact distinct.erase name
  | store name body =>
    show (if name ∈ m.names then m.names else m.names ++ [name]).Nodup
    split
    · exact distinct
    · next absent => exact List.concat_eq_append ▸ distinct.concat absent

theorem body_perform_iff {a : Action} {name : String} {body : List String} :
    (m.perform a).body name = some body ↔
      a = .store name body ∨ (¬ a.Concerns name ∧ m.body name = some body) := by
  cases a with
  | pass | refuse => simp [perform, Action.Concerns]
  | store stored stored' =>
    obtain rfl | other := eq_or_ne stored name
    · simp [perform, store, Action.Concerns]
    · simp [perform, store, Action.Concerns, other, Function.update_of_ne other.symm]
  | drop dropped =>
    obtain rfl | other := eq_or_ne dropped name
    · simp [perform, drop, Action.Concerns]
    · simp [perform, drop, Action.Concerns, other, Function.update_of_ne other.symm]

/-- A name has the body that was last stored for it, unless it was dropped after that. A name that
no action concerns has the body that it had. -/
theorem body_foldl_perform_iff {actions : List Action} {name : String} {body : List String} :
    (actions.foldl perform m).body name = some body ↔
      (∃ before after, actions = before ++ .store name body :: after ∧
        ∀ later ∈ after, ¬ later.Concerns name) ∨
      ((∀ a ∈ actions, ¬ a.Concerns name) ∧ m.body name = some body) := by
  induction actions generalizing m with
  | nil => simp
  | cons a rest ih =>
    rw [List.foldl_cons, ih, body_perform_iff, List.forall_mem_cons]
    constructor
    · rintro (⟨before, after, rfl, later⟩ | ⟨none, rfl | ⟨other, kept⟩⟩)
      · exact .inl ⟨a :: before, after, rfl, later⟩
      · exact .inl ⟨[], rest, rfl, none⟩
      · exact .inr ⟨⟨other, none⟩, kept⟩
    · rintro (⟨before, after, split, later⟩ | ⟨⟨other, none⟩, kept⟩)
      · obtain ⟨rfl, same⟩ | ⟨before, rfl, rfl⟩ := List.cons_eq_append_iff.mp split
        · cases same
          exact .inr ⟨later, .inl rfl⟩
        · exact .inl ⟨before, after, rfl, later⟩
      · exact .inr ⟨none, .inr ⟨other, kept⟩⟩

end OrderedMap

namespace Dictionary

variable {d : Dictionary} {name : String}

theorem get?_insert (d : Dictionary) (name other : String) (body : List String) :
    (d.insert name body).get? other = if other = name then some body else d.get? other := by
  by_cases present : d.contains name = true
  · obtain ⟨front, word, back, words, rfl, others⟩ := exists_first_of_contains present
    have before : front.find? (·.name == word.name) = none := by simpa using others
    rw [insert_of_first words others]
    obtain rfl | differs := eq_or_ne other word.name
    · simp [get?, List.find?_append, before]
    · simp [get?, words, List.find?_append, differs.symm, differs]
  · have absent := contains_eq_false_iff.mp (Bool.eq_false_iff.mpr present)
    rw [insert_of_absent absent]
    obtain rfl | differs := eq_or_ne other name
    · have nowhere : d.words.find? (·.name == other) = none := by simpa using absent
      simp [get?, List.find?_append, nowhere]
    · simp [get?, List.find?_append, differs.symm, differs]

theorem get?_remove (d : Dictionary) (name other : String) :
    (d.remove name).get? other = if other = name then none else d.get? other := by
  obtain rfl | differs := eq_or_ne other name
  · rw [if_pos rfl, get?_eq_none_iff]
    simp [remove]
  · have same : (fun word : Word => word.name != name && word.name == other) =
        fun word => word.name == other := by
      funext word
      obtain rfl | unlike := eq_or_ne word.name other
      · simp [differs]
      · simp [unlike]
    rw [if_neg differs, get?, remove, List.find?_filter]
    simp only [Bool.decide_and, Bool.decide_eq_true]
    rw [same, get?]

theorem mem_names_iff : name ∈ d.toMap.names ↔ d.contains name = true :=
  contains_iff_mem_names.symm

theorem toMap_insert (name : String) (body : List String) :
    (d.insert name body).toMap = d.toMap.store name body := by
  ext1
  · by_cases present : d.contains name = true
    · have listed := mem_names_iff.mpr present
      obtain ⟨front, word, back, words, rfl, others⟩ := exists_first_of_contains present
      rw [OrderedMap.store, if_pos listed, insert_of_first words others]
      simp [toMap, words]
    · rw [OrderedMap.store, if_neg (mt mem_names_iff.mp present),
        insert_of_absent (contains_eq_false_iff.mp (Bool.eq_false_iff.mpr present))]
      simp [toMap]
  · funext other
    exact (get?_insert d name other body).trans (Function.update_apply d.get? name _ other).symm

/-- Taking out all words of a name takes out the one that there is. -/
theorem toMap_remove (distinct : d.toMap.names.Nodup) (name : String) :
    (d.remove name).toMap = d.toMap.drop name := by
  ext1
  · rw [OrderedMap.drop, distinct.erase_eq_filter]
    simp only [toMap, remove, List.filter_map]
    rfl
  · funext other
    exact (get?_remove d name other).trans (Function.update_apply d.get? name _ other).symm

theorem removes_eq (d : Dictionary) (name : String) :
    d.removes name = decide (name ∈ d.toMap.names) := by
  by_cases present : name ∈ d.toMap.names
  · obtain ⟨word, member, same⟩ := List.mem_map.mp present
    have fewer : (d.remove name).words.length < d.words.length := by
      refine List.length_filter_lt_length_iff_exists.mpr ⟨word, member, ?_⟩
      simp [same]
    rw [decide_eq_true present, removes, bne_iff_ne, size, size]
    exact fewer.ne
  · have others : ∀ word ∈ d.words, word.name ≠ name :=
      fun word member same => present (same ▸ List.mem_map_of_mem member)
    rw [decide_eq_false present, removes, remove, filter_name_eq_self others]
    exact bne_self_eq_false _

/-- What a definition does follows from what it asks for. -/
theorem edit_define (d : Dictionary) (isOperator : String → Bool) (definition : List String) :
    d.edit (.define isOperator definition) =
      match (Edit.define isOperator definition).action with
      | .pass => (.done, d)
      | .refuse fault => (.refused fault, d)
      | .store name body => (.done, d.insert name body)
      | .drop name => (.done, d.remove name) := by
  match definition with
  | [] | [_] | [_, _] => rfl
  | marker :: name :: token :: body =>
    have length : ¬ (marker :: name :: token :: body).length < 2 := by simp
    have notTwo : (marker :: name :: token :: body).length ≠ 2 := by simp
    rw [Edit.action, edit, define_cons]
    simp only [if_neg length, if_neg notTwo]
    by_cases reserved : isForbidden isOperator name = true
    · have isReserved : IsReserved isOperator name := isForbidden_eq_true_iff.mp reserved
      simp [reserved, isReserved]
    · have notReserved : ¬ IsReserved isOperator name := mt isForbidden_eq_true_iff.mpr reserved
      simp [reserved, notReserved]

/-- An edit of a dictionary is the edit of the map. -/
theorem toMap_edit (distinct : d.toMap.names.Nodup) (e : Edit) :
    (d.edit e).1 = d.toMap.answer e ∧ (d.edit e).2.toMap = d.toMap.perform e.action := by
  cases e with
  | insert name body => exact ⟨rfl, toMap_insert name body⟩
  | remove name => exact ⟨congrArg Answer.removed (removes_eq d name), toMap_remove distinct name⟩
  | define isOperator definition =>
    rw [edit_define, OrderedMap.answer]
    cases (Edit.define isOperator definition).action with
    | pass | refuse fault => exact ⟨rfl, rfl⟩
    | store name body => exact ⟨rfl, toMap_insert name body⟩
    | drop name => exact ⟨rfl, toMap_remove distinct name⟩

/-- Edits of a dictionary, one after the other, are the edits of the map. -/
theorem toMap_runEdits (distinct : d.toMap.names.Nodup) (edits : List Edit) :
    (runEdits edit d edits).1 = (runEdits OrderedMap.edit d.toMap edits).1 ∧
      (runEdits edit d edits).2.toMap = (runEdits OrderedMap.edit d.toMap edits).2 ∧
      (runEdits edit d edits).2.toMap.names.Nodup := by
  induction edits generalizing d with
  | nil => exact ⟨rfl, rfl, distinct⟩
  | cons e rest ih =>
    obtain ⟨answer, next⟩ := toMap_edit distinct e
    have stillDistinct : (d.edit e).2.toMap.names.Nodup :=
      next ▸ OrderedMap.nodup_perform distinct e.action
    obtain ⟨answers, last, lastDistinct⟩ := ih stillDistinct
    rw [next] at answers last
    refine ⟨?_, last, lastDistinct⟩
    show (d.edit e).1 :: _ = d.toMap.answer e :: _
    rw [answer, answers]
    rfl

/-- The words of a dictionary are those of the map. -/
theorem words_toMap (distinct : d.toMap.names.Nodup) : d.toMap.words = d.words := by
  have found : ∀ word ∈ d.words, (d.get? word.name).map (Word.mk word.name) = some word := by
    intro word member
    obtain ⟨front, back, words⟩ := List.append_of_mem member
    have others := (name_ne_of_distinct distinct words).1
    have before : front.find? (·.name == word.name) = none := by simpa using others
    simp [get?, words, List.find?_append, before]
  calc d.toMap.words
      = d.words.filterMap fun word => (d.get? word.name).map (Word.mk word.name) := by
        rw [OrderedMap.words, toMap, List.filterMap_map]
        rfl
    _ = d.words.filterMap some := List.filterMap_congr found
    _ = d.words := List.filterMap_some

theorem runEdits_eq_foldl (m : OrderedMap) (edits : List Edit) :
    (runEdits OrderedMap.edit m edits).2 = (edits.map Edit.action).foldl OrderedMap.perform m := by
  induction edits generalizing m with
  | nil => rfl
  | cons e rest ih => exact ih (m.perform e.action)

/-- What storing and removing a name do to the words, where there is a word of the name and where
there is none. -/
structure EditsInPlace (d : Dictionary) : Prop where
  replaces : ∀ front word back body, d.words = front ++ word :: back →
    d.insert word.name body = ⟨front ++ ⟨word.name, body⟩ :: back⟩
  appends : ∀ name body, d.contains name = false →
    d.insert name body = ⟨d.words ++ [⟨name, body⟩]⟩
  removes : ∀ front word back, d.words = front ++ word :: back →
    d.removes word.name = true ∧ d.remove word.name = ⟨front ++ back⟩
  passes : ∀ name, d.contains name = false → d.removes name = false ∧ d.remove name = d

theorem editsInPlace (distinct : d.toMap.names.Nodup) : d.EditsInPlace where
  replaces front word back body words := insert_of_distinct distinct words body
  appends name body absent := insert_of_absent (contains_eq_false_iff.mp absent) body
  removes front word back words := by
    refine ⟨?_, remove_of_distinct distinct words⟩
    rw [removes_eq, decide_eq_true_iff, toMap, words]
    simp
  passes name absent := by
    constructor
    · rw [removes_eq, decide_eq_false_iff_not, mem_names_iff, absent]
      exact Bool.false_ne_true
    · rw [remove, filter_name_eq_self (contains_eq_false_iff.mp absent)]

/-- A dictionary behaves as a map with an order of its names, whatever is done to it. It gives the
answers of the map and holds what the map holds. Names are distinct; the body that is found for a
name is the one that was last stored for it, if it was not dropped since; and the words in order,
their number and whether there is one for a name are as in the map. -/
theorem edits_refine_map {start : Dictionary} (initial : start = {} ∨ start = builtins)
    (edits : List Edit) :
    let d := (runEdits edit start edits).2
    let m := (runEdits OrderedMap.edit start.toMap edits).2
    (runEdits edit start edits).1 = (runEdits OrderedMap.edit start.toMap edits).1 ∧
      d.toMap = m ∧
      (d.words.map Word.name).Nodup ∧
      (∀ name body, d.get? name = some body ↔
        (∃ before after, edits.map Edit.action = before ++ .store name body :: after ∧
          ∀ later ∈ after, ¬ later.Concerns name) ∨
        ((∀ a ∈ edits.map Edit.action, ¬ a.Concerns name) ∧ start.get? name = some body)) ∧
      d.EditsInPlace ∧
      d.words = m.words ∧ d.size = m.names.length ∧ (d.isEmpty = true ↔ m.names = []) ∧
      ∀ name, d.contains name = true ↔ name ∈ m.names := by
  intro d m
  have startDistinct : start.toMap.names.Nodup := by
    obtain rfl | rfl := initial <;> decide
  obtain ⟨answers, same, distinct⟩ := toMap_runEdits startDistinct edits
  have view : m = d.toMap := same.symm
  refine ⟨answers, same, distinct, ?_, editsInPlace distinct, ?_, ?_, ?_, ?_⟩
  · intro name body
    have lookup : d.get? name = m.body name := congrArg (OrderedMap.body · name) same
    rw [lookup, show m = _ from runEdits_eq_foldl start.toMap edits]
    exact OrderedMap.body_foldl_perform_iff
  · rw [view, words_toMap distinct]
  · rw [view]
    exact (List.length_map Word.name).symm
  · rw [view, toMap, isEmpty, List.isEmpty_iff, List.map_eq_nil_iff]
  · intro name
    rw [view, mem_names_iff]

/-- The name `x` is stored twice in its place, dropped and stored again after `y`; the definition
of a digit is refused. -/
theorem edits_refine_map_again :
    let edits : List Edit := [.insert "x" ["1"], .define (· == "y") ["=", "x", "2", "+"],
      .define (· == "x") ["=", "y", "x"], .remove "x", .define (· == "+") ["=", "7", "x"],
      .remove "x", .insert "x" []]
    let run := runEdits edit builtins edits
    run.1 = [.done, .done, .done, .removed true, .refused (.reservedName "7"), .removed false,
        .done] ∧
      run.2.toMap.names = ["sqrt", "pi", "y", "x"] ∧ (run.2.words.map Word.name).Nodup ∧
      run.2.get? "x" = some [] ∧ run.2.EditsInPlace := by
  intro edits run
  obtain ⟨answers, same, distinct, lookup, inPlace, -⟩ := edits_refine_map (.inr rfl) edits
  have actions : edits.map Edit.action =
      (edits.map Edit.action).dropLast ++ [.store "x" []] := by
    decide +kernel
  have stored : run.2.get? "x" = some [] :=
    (lookup "x" []).mpr (.inl ⟨_, [], actions, fun _ member => absurd member List.not_mem_nil⟩)
  refine ⟨answers.trans (by decide +kernel), ?_, distinct, stored, inPlace⟩
  rw [same]
  decide +kernel

end Dictionary

end Rpn
