import Rpn.Proofs.Text.Lines
import Rpn.Session.Evaluation

/-!
# The tokens of a text and the text of tokens

A text is trimmed and taken apart at its spaces, and what stands between two spaces is a token even
where that is nothing. So the tokens with single spaces between them are the trimmed text again. In
the other direction a list of tokens is found again in the text that they are joined to, if none of
them has a space in it and nothing of the first or the last is trimmed off.

Trimming takes off blank characters of every kind and a space alone separates. A token may therefore
have tabs or line feeds in it; only the two ends of a statement may not.
-/

namespace Rpn

section Joined

variable {α : Type} (separator : α) (part : List α)

/-- What is joined starts as the first part does, or with a separator. -/
theorem head?_intercalate_cons (rest : List (List α)) :
    ([separator].intercalate (part :: rest)).head? =
      part.head?.or (if rest = [] then none else some separator) := by
  cases rest with
  | nil => simp
  | cons next rest =>
    rw [List.intercalate_cons_cons, List.append_assoc, List.head?_append, if_neg (by simp)]
    rfl

/-- It ends as the last part does, or with a separator. -/
theorem getLast?_intercalate_concat (front : List (List α)) :
    ([separator].intercalate (front ++ [part])).getLast? =
      part.getLast?.or (if front = [] then none else some separator) := by
  -- A part that is not the last one has a separator after it, which is the end if all parts that
  -- follow are empty.
  induction front with
  | nil => simp
  | cons first front ih =>
    have more : front ++ [part] ≠ [] := by simp
    rw [List.cons_append, List.intercalate_cons_of_ne_nil more, List.getLast?_append, ih,
      List.getLast?_concat, if_neg (List.cons_ne_nil first front)]
    cases part.getLast? with
    | some c => rfl
    | none => split <;> rfl

end Joined

/-- The token is not empty and starts with a character that is not blank. -/
def StartsVisibly (token : String) : Prop := ∃ c ∈ token.toList.head?, isBlank c = false

/-- The token is not empty and ends with a character that is not blank. -/
def EndsVisibly (token : String) : Prop := ∃ c ∈ token.toList.getLast?, isBlank c = false

/-- No token has a space in it, and unless there is the empty token alone, the first of them starts
and the last one ends with a character that is not blank. -/
structure IsTokenList (list : List String) : Prop where
  unspaced : ∀ token ∈ list, ' ' ∉ token.toList
  ends : list = [""] ∨
    (∃ first ∈ list.head?, StartsVisibly first) ∧ ∃ last ∈ list.getLast?, EndsVisibly last

section Tokens

variable {text : String} {list : List String}

theorem IsTokenList.ne_nil (tokenList : IsTokenList list) : list ≠ [] := by
  rintro rfl
  obtain single | ⟨⟨_, first, -⟩, -⟩ := tokenList.ends
  · cases single
  · cases first

/-- A space is blank, so an end is visible only if it is the end of a token or if there is nothing
at all. -/
theorem forall_mem_or_space_iff {c? : Option Char} {single : Prop} [Decidable single] :
    (∀ c ∈ c?.or (if single then none else some ' '), isBlank c = false) ↔
      c? = none ∧ single ∨ ∃ c ∈ c?, isBlank c = false := by
  have space : isBlank ' ' = true := rfl
  cases c? with
  | some c => simp
  | none => by_cases alone : single <;> simp [alone, space]

theorem head_visible_iff (nonempty : list ≠ []) :
    (∀ c ∈ (" ".intercalate list).toList.head?, isBlank c = false) ↔
      list = [""] ∨ ∃ first ∈ list.head?, StartsVisibly first := by
  obtain ⟨first, rest, rfl⟩ := List.exists_cons_of_ne_nil nonempty
  have joined : (" ".intercalate (first :: rest)).toList =
      [' '].intercalate (first.toList :: rest.map String.toList) := String.toList_intercalate
  rw [joined, head?_intercalate_cons, forall_mem_or_space_iff]
  simp [StartsVisibly]

theorem last_visible_iff (nonempty : list ≠ []) :
    (∀ c ∈ (" ".intercalate list).toList.getLast?, isBlank c = false) ↔
      list = [""] ∨ ∃ last ∈ list.getLast?, EndsVisibly last := by
  obtain rfl | ⟨front, last, rfl⟩ := List.eq_nil_or_concat' list
  · exact absurd rfl nonempty
  have joined : (" ".intercalate (front ++ [last])).toList =
      [' '].intercalate (front.map String.toList ++ [last.toList]) := by
    rw [String.toList_intercalate, List.map_append]
    rfl
  have single : front ++ [last] = [""] ↔ last = "" ∧ front = [] := by
    rw [List.append_eq_singleton_iff]
    simp [and_comm]
  rw [joined, getLast?_intercalate_concat, forall_mem_or_space_iff, single]
  simp [EndsVisibly]

/-- Joined tokens are not trimmed exactly when nothing of the outer tokens is. -/
theorem isTrimmed_intercalate_iff (nonempty : list ≠ []) :
    IsTrimmed (" ".intercalate list).toList ↔ list = [""] ∨
      (∃ first ∈ list.head?, StartsVisibly first) ∧ ∃ last ∈ list.getLast?, EndsVisibly last := by
  rw [or_and_left, ← head_visible_iff nonempty, ← last_visible_iff nonempty]
  exact ⟨fun ⟨head, last⟩ => ⟨head, last⟩, fun ⟨head, last⟩ => ⟨head, last⟩⟩

/-- The tokens with single spaces between them are the trimmed text. -/
theorem toList_intercalate_tokens (text : String) :
    (" ".intercalate (tokens text)).toList = trim text.toList := by
  have restores : String.toList ∘ String.ofList = id := funext fun cs => String.toList_ofList
  rw [String.toList_intercalate, tokens, List.map_map, restores, List.map_id]
  exact List.intercalate_splitOn ' '

theorem isTokenList_tokens (text : String) : IsTokenList (tokens text) where
  unspaced token member := by
    obtain ⟨part, inParts, rfl⟩ := List.mem_map.mp member
    rw [String.toList_ofList]
    exact not_mem_of_mem_splitOn inParts
  ends := by
    rw [← isTrimmed_intercalate_iff (tokens_ne_nil text), toList_intercalate_tokens]
    exact isTrimmed_trim text.toList

/-- A text that is trimmed to joined tokens without spaces has these tokens. -/
theorem tokens_of_trim (nonempty : list ≠ []) (unspaced : ∀ token ∈ list, ' ' ∉ token.toList)
    (trimmed : trim text.toList = (" ".intercalate list).toList) : tokens text = list := by
  have parts : list.map String.toList ≠ [] := mt List.map_eq_nil_iff.mp nonempty
  have apart : ∀ part ∈ list.map String.toList, ' ' ∉ part := List.forall_mem_map.mpr unspaced
  have split : spaceSeparated (trim text.toList) = list.map String.toList := by
    rw [trimmed, String.toList_intercalate]
    exact List.splitOn_intercalate ' ' apart parts
  rw [tokens, split, map_ofList_toList]

/-- A list is that of the tokens of a text exactly when it can be one and the text is what is joined
with blank characters around it. -/
theorem tokens_eq_iff :
    tokens text = list ↔ IsTokenList list ∧ ∃ before after : String, IsBlankText before ∧
      IsBlankText after ∧ text = before ++ " ".intercalate list ++ after := by
  constructor
  · rintro rfl
    obtain ⟨left, right, blankLeft, blankRight, whole⟩ := exists_eq_append_trim text.toList
    refine ⟨isTokenList_tokens text, .ofList left, .ofList right, ?_, ?_, ?_⟩
    · rwa [IsBlankText, String.toList_ofList]
    · rwa [IsBlankText, String.toList_ofList]
    · apply String.toList_inj.mp
      rw [String.toList_append, String.toList_append, String.toList_ofList, String.toList_ofList,
        toList_intercalate_tokens]
      exact whole
  · -- Trimming stops at the outer tokens, so it is the joined text that is taken apart again.
    rintro ⟨tokenList, before, after, blankBefore, blankAfter, rfl⟩
    refine tokens_of_trim tokenList.ne_nil tokenList.unspaced (trim_eq_iff.mpr ⟨?_, ?_⟩)
    · exact (isTrimmed_intercalate_iff tokenList.ne_nil).mpr tokenList.ends
    · refine ⟨before.toList, after.toList, blankBefore, blankAfter, ?_⟩
      rw [String.toList_append, String.toList_append]

theorem IsTokenList.tokens_eq (tokenList : IsTokenList list) :
    tokens (" ".intercalate list) = list := by
  have blank : IsBlankText "" := by decide
  refine tokens_eq_iff.mpr ⟨tokenList, "", "", blank, blank, ?_⟩
  rw [String.empty_append, String.append_empty]

/-- Tokens without blank characters stay what they are, unless they are empty. -/
theorem isTokenList_of_unbroken (nonempty : list ≠ []) (visible : "" ∉ list)
    (unbroken : ∀ token ∈ list, Unbroken token.toList) : IsTokenList list where
  unspaced token member space := by cases (unbroken token member ' ' space).symm
  ends := by
    have shown (token : String) (member : token ∈ list) : token.toList ≠ [] := by
      intro empty
      rw [String.toList_eq_nil_iff.mp empty] at member
      exact visible member
    have first := List.head_mem nonempty
    have last := List.getLast_mem nonempty
    refine .inr ⟨⟨_, List.head?_eq_some_head nonempty, ?_⟩,
      ⟨_, List.getLast?_eq_some_getLast nonempty, ?_⟩⟩
    · exact ⟨_, List.head?_eq_some_head (shown _ first), unbroken _ first _ (List.head_mem _)⟩
    · exact ⟨_, List.getLast?_eq_some_getLast (shown _ last),
        unbroken _ last _ (List.getLast_mem _)⟩

/-- Every text has a token at least, no token has a space in it, and joined with single spaces the
tokens are the trimmed text, which is all of the text but for blank characters at its two ends.
Every list of tokens without spaces that is the empty token alone, or starts and ends with a
character that is not blank, is the list of the tokens of the text that it is joined to, with
whatever blank characters before and after. -/
theorem tokens_inverse_join :
    (∀ text : String, tokens text ≠ [] ∧ IsTokenList (tokens text) ∧
      " ".intercalate (tokens text) = .ofList (trim text.toList) ∧
      ∃ before after : String, IsBlankText before ∧ IsBlankText after ∧
        text = before ++ " ".intercalate (tokens text) ++ after) ∧
    ∀ (list : List String) (before after : String), IsTokenList list → IsBlankText before →
      IsBlankText after → tokens (before ++ " ".intercalate list ++ after) = list := by
  constructor
  · intro text
    obtain ⟨tokenList, whole⟩ := tokens_eq_iff.mp (Eq.refl (tokens text))
    refine ⟨tokens_ne_nil text, tokenList, ?_, whole⟩
    rw [← toList_intercalate_tokens, String.ofList_toList]
  · intro list before after tokenList blankBefore blankAfter
    exact tokens_eq_iff.mpr ⟨tokenList, before, after, blankBefore, blankAfter, rfl⟩

/-- An inner token may be empty or a line feed, and the last one may start with a tab. -/
theorem tokens_inverse_join_tab :
    " ".intercalate (tokens "\n\t= 3  \t4 ") = "= 3  \t4" ∧
      IsTokenList ["=", "", "\n", "\t4"] ∧
      tokens ("\t" ++ "=  \n \t4" ++ "\u2003 ") = ["=", "", "\n", "\t4"] := by
  obtain ⟨splits, joins⟩ := tokens_inverse_join
  have tokenList : IsTokenList ["=", "", "\n", "\t4"] :=
    ⟨by decide, .inr ⟨⟨"=", rfl, '=', rfl, rfl⟩, "\t4", rfl, '4', rfl, rfl⟩⟩
  obtain ⟨-, -, joined, -⟩ := splits "\n\t= 3  \t4 "
  refine ⟨joined.trans (by decide), tokenList, ?_⟩
  exact joins ["=", "", "\n", "\t4"] "\t" "\u2003 " tokenList (by decide) (by decide)

end Tokens

end Rpn
