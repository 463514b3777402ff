import Rpn.Proofs.Session.Blank
import Rpn.Proofs.Text.Lines

/-!
# What the listing of words tells

In the listing of a dictionary each word has a line, in which a space follows the name with its colon
and each token but the last. So the line is taken apart at its single spaces: the first field is the
name with one colon at its end, whatever colons there are in the name itself, and the others are the
body, the empty ones as well.

This takes names and tokens without a space and without a line feed, and bodies that are not empty.
Definitions that come from lines, typed or in a file, keep a dictionary to that.
-/

namespace Rpn

/-- A text that stays in one piece on a line of the listing. -/
def IsEntry (text : String) : Prop := ' ' ∉ text.toList ∧ '\n' ∉ text.toList

instance (text : String) : Decidable (IsEntry text) := inferInstanceAs (Decidable (_ ∧ _))

/-- The word on a line of the listing. -/
def Word.ofEntry (line : List Char) : Word :=
  match spaceSeparated line with
  | [] => ⟨"", []⟩
  | label :: body => ⟨.ofList label.dropLast, body.map .ofList⟩

/-- The line of a word in the listing, without its end. -/
def Word.entry (word : Word) : List Char :=
  [' '].intercalate ((word.name.toList ++ [':']) :: word.body.map String.toList)

namespace Dictionary

/-- No body is empty, and names and tokens have neither a space nor a line feed in them. -/
structure Listable (d : Dictionary) : Prop where
  bodies : ∀ word ∈ d.words, word.body ≠ []
  names : ∀ word ∈ d.words, IsEntry word.name
  tokens : ∀ word ∈ d.words, ∀ token ∈ word.body, IsEntry token

instance (d : Dictionary) : Decidable d.Listable :=
  decidable_of_iff
    ((∀ word ∈ d.words, word.body ≠ []) ∧ (∀ word ∈ d.words, IsEntry word.name) ∧
      ∀ word ∈ d.words, ∀ token ∈ word.body, IsEntry token)
    ⟨fun ⟨bodies, names, tokens⟩ => ⟨bodies, names, tokens⟩,
      fun listable => ⟨listable.bodies, listable.names, listable.tokens⟩⟩

/-- The dictionary that has been listed. -/
def ofListing (listing : String) : Dictionary :=
  ⟨((listing.toList.splitOn '\n').dropLast).map Word.ofEntry⟩

end Dictionary

section Entry

variable {word : Word}

theorem Word.entry_eq (nonempty : word.body ≠ []) :
    (word.name ++ ": " ++ " ".intercalate word.body ++ "\n").toList = word.entry ++ ['\n'] := by
  have some_ : word.body.map String.toList ≠ [] := by simpa using nonempty
  have space : " ".toList = [' '] := rfl
  rw [Word.entry, List.intercalate_cons_of_ne_nil some_]
  simp only [String.toList_append, String.toList_intercalate, space]
  simp

theorem Word.ofEntry_entry (name : ' ' ∉ word.name.toList)
    (tokens : ∀ token ∈ word.body, ' ' ∉ token.toList) : Word.ofEntry word.entry = word := by
  have label : ' ' ∉ word.name.toList ++ [':'] := by simp [name]
  have parts : ∀ part ∈ (word.name.toList ++ [':']) :: word.body.map String.toList, ' ' ∉ part := by
    refine List.forall_mem_cons.mpr ⟨label, ?_⟩
    rwa [List.forall_mem_map]
  rw [Word.ofEntry, Word.entry, spaceSeparated,
    List.splitOn_intercalate ' ' parts (List.cons_ne_nil _ _)]
  dsimp only
  rw [List.dropLast_concat, String.ofList_toList, map_ofList_toList]

theorem Word.lineFeed_not_mem_entry (name : '\n' ∉ word.name.toList)
    (tokens : ∀ token ∈ word.body, '\n' ∉ token.toList) : '\n' ∉ word.entry := by
  refine not_mem_intercalate (by decide) (List.forall_mem_cons.mpr ⟨?_, ?_⟩)
  · simp [name]
  · rwa [List.forall_mem_map]

end Entry

namespace Dictionary

variable {d : Dictionary}

/-- The words are read from the listing. -/
theorem Listable.ofListing_listing (listable : d.Listable) : ofListing d.listing = d := by
  have characters : d.listing.toList = d.words.flatMap fun word => word.entry ++ ['\n'] := by
    rw [listing, String.toList_join, List.flatMap_map]
    refine List.flatMap_congr fun word member => ?_
    exact word.entry_eq (listable.bodies word member)
  have single : ∀ word ∈ d.words, '\n' ∉ word.entry := fun word member =>
    word.lineFeed_not_mem_entry (listable.names word member).2
      fun token inBody => (listable.tokens word member token inBody).2
  have restores : ∀ word ∈ d.words, (Word.ofEntry ∘ Word.entry) word = id word :=
    fun word member => word.ofEntry_entry (listable.names word member).1
      fun token inBody => (listable.tokens word member token inBody).1
  rw [ofListing, characters, splitOn_flatMap_append single, List.dropLast_concat, List.map_map,
    List.map_congr_left restores, List.map_id]

namespace Listable

theorem builtins : builtins.Listable := by decide +kernel

theorem remove (listable : d.Listable) (name : String) : (d.remove name).Listable where
  bodies word member := listable.bodies word (List.mem_filter.mp member).1
  names word member := listable.names word (List.mem_filter.mp member).1
  tokens word member := listable.tokens word (List.mem_filter.mp member).1

theorem insert (listable : d.Listable) {name : String} {body : List String} (nonempty : body ≠ [])
    (entries : ∀ token ∈ name :: body, IsEntry token) : (d.insert name body).Listable where
  bodies word member := by
    obtain rfl | old := mem_words_insert member
    · exact nonempty
    · exact listable.bodies word old
  names word member := by
    obtain rfl | old := mem_words_insert member
    · exact entries _ List.mem_cons_self
    · exact listable.names word old
  tokens word member := by
    obtain rfl | old := mem_words_insert member
    · exact fun token inBody => entries token (List.mem_cons_of_mem _ inBody)
    · exact listable.tokens word old

theorem afterDefinition (listable : d.Listable) {definition : List String}
    (entries : ∀ token ∈ definition, IsEntry token) :
    (d.afterDefinition definition).1.Listable := by
  match definition with
  | [] | [_] => exact listable
  | [_, name] => exact listable.remove name
  | marker :: name :: token :: body =>
    rw [Dictionary.afterDefinition, define_cons]
    split
    · next accepted =>
      split at accepted
      · cases accepted
      · cases accepted
        exact listable.insert (List.cons_ne_nil token body) (List.forall_mem_cons.mp entries).2
    · exact listable

end Listable

end Dictionary

/-- The call is given no text that has a line feed other than at its ends, and no token with a space
or a line feed. -/
def Call.IsSingleLine : Call → Prop
  | .evaluate text => '\n' ∉ trim text.toList
  | .define definition => ∀ token ∈ definition, IsEntry token
  | .defineLines lines => ∀ line ∈ lines, '\n' ∉ trim line.toList
  | .load _ => True

/-- The tokens of a text without a line feed stay in one piece. -/
theorem isEntry_of_mem_tokens {text token : String} (single : '\n' ∉ trim text.toList)
    (member : token ∈ tokens text) : IsEntry token := by
  obtain ⟨part, inParts, rfl⟩ := List.mem_map.mp member
  rw [IsEntry, String.toList_ofList]
  exact ⟨not_mem_of_mem_splitOn inParts, fun inside => single (subset_of_mem_splitOn inParts inside)⟩

theorem lineFeed_not_mem_textLines {text line : String} (member : line ∈ textLines text) :
    '\n' ∉ line.toList := by
  obtain ⟨cs, inLines, rfl⟩ := List.mem_map.mp member
  rw [String.toList_ofList]
  exact not_mem_of_mem_splitLines inLines

namespace Session

variable {s s' : Session}

theorem listable_afterLines {d : Dictionary} (listable : d.Listable) {lines : List String}
    (single : ∀ line ∈ lines, '\n' ∉ trim line.toList) : (afterLines d lines).Listable := by
  induction lines generalizing d with
  | nil => exact listable
  | cons line rest ih =>
    obtain ⟨here, later⟩ := List.forall_mem_cons.mp single
    have entries : ∀ token ∈ lineDefinition line, IsEntry token :=
      List.forall_mem_cons.mpr ⟨by decide, fun token => isEntry_of_mem_tokens here⟩
    exact ih (listable.afterDefinition entries) later

/-- A call keeps the dictionary to words that can be listed. What a statement defines is a part of its
tokens, wherever the cursor stands. -/
theorem Takes.listable {call : Call} {trace : List Dispatch} (taken : s.Takes call trace s')
    (single : call.IsSingleLine) (listable : s.dictionary.Listable) : s'.dictionary.Listable := by
  cases taken with
  | @evaluate text _ _ outcome completes =>
    obtain ⟨s₁, inner, evaluated, concluded⟩ := completes
    have kept : s₁.dictionary.Listable := by
      rw [evaluated.dictionary_eq.1, dictionary_enter]
      exact listable
    have last : s' = (s₁.conclude text inner).1 := by rw [concluded]
    rw [last]
    obtain ⟨-, stopped⟩ | ⟨-, -, defines⟩ | ⟨-, -, flushes⟩ := conclude_cases text inner
    · rw [stopped]
      exact kept
    · rw [defines, dictionary_define]
      exact kept.afterDefinition fun token member =>
        isEntry_of_mem_tokens single (List.drop_subset _ _ member)
    · rw [flushes]
      exact kept
  | define definition =>
    rw [dictionary_define]
    exact listable.afterDefinition single
  | defineLines lines =>
    rw [defineLines_eq]
    exact listable_afterLines listable single
  | load content =>
    rw [Session.load]
    split
    · exact listable
    · dsimp only
      rw [defineLines_eq]
      exact listable_afterLines listable fun line member inside =>
        lineFeed_not_mem_textLines member (trim_subset _ inside)

theorem Runs.listable {calls : List Call} {trace : List Dispatch} (run : s.Runs calls trace s')
    (single : ∀ call ∈ calls, call.IsSingleLine) (listable : s.dictionary.Listable) :
    s'.dictionary.Listable := by
  induction run with
  | nil s => exact listable
  | cons first _ ih =>
    obtain ⟨here, later⟩ := List.forall_mem_cons.mp single
    exact ih later (first.listable here listable)

/-- Two dictionaries that have the same listing are the same, with their words in the same order, if
no body is empty and if names and tokens have neither a space nor a line feed in them. Definitions on
lines, typed or in a file, lead to such dictionaries only. -/
theorem listing_unambiguous :
    (∀ d d' : Dictionary, d.Listable → d'.Listable → d.listing = d'.listing → d = d') ∧
      ∀ (functions : Elementary) (width : Nat) (out err : Sink) (calls : List Call)
        (trace : List Dispatch) (s : Session), (fresh functions width out err).Runs calls trace s →
        (∀ call ∈ calls, call.IsSingleLine) → s.dictionary.Listable := by
  constructor
  · intro d d' listable listable' same
    rw [← listable.ofListing_listing, same, listable'.ofListing_listing]
  · intro functions width out err calls trace s run single
    exact run.listable single .builtins

/-- A name that ends in a colon and a body that starts with an empty token and a colon. -/
theorem listing_unambiguous_colons :
    ∃ trace s, (fresh .machine 80 {} {}).Runs [.evaluate "= a:  : b"] trace s ∧
      '\n' ∉ trim "= a:  : b".toList ∧ s.dictionary.Listable ∧
      s.dictionary.listing = "sqrt: 0.5 ^\npi: 3.141592653589793\na::  : b\n" ∧
      s.dictionary = ⟨[⟨"sqrt", ["0.5", "^"]⟩, ⟨"pi", ["3.141592653589793"]⟩,
        ⟨"a:", ["", ":", "b"]⟩]⟩ := by
  have split : tokens "= a:  : b" = ["=", "a:", "", ":", "b"] := by decide +kernel
  have run := Runs.cons (.evaluate (completes_definition (fresh .machine 80 {} {}) split)) (.nil _)
  have single : '\n' ∉ trim "= a:  : b".toList := by decide +kernel
  obtain ⟨injective, kept⟩ := listing_unambiguous
  have listable := kept _ _ _ _ _ _ _ run (List.forall_mem_singleton.mpr single)
  exact ⟨_, _, run, single, listable, by decide +kernel,
    injective _ _ listable (by decide +kernel) (by decide +kernel)⟩

end Session

end Rpn
