import Rpn.Proofs.Text.Trim
import Rpn.Session.Evaluation

/-!
# The tokens that can be seen

A statement is taken apart at every single space, so spaces in a row have empty tokens between them.
The tokens that are not empty depend on less: where the only blank characters are spaces, they are
the runs of other characters, with trimming or without it, and a text put after a space has its
tokens put after those before the space.
-/

namespace Rpn

/-- The parts of a text between spaces that are not empty. -/
def fields (cs : List Char) : List (List Char) := (spaceSeparated cs).filter (!·.isEmpty)

/-- The text has no other blank characters than spaces. -/
def OnlySpaces (cs : List Char) : Prop := ∀ c ∈ cs, isBlank c = true → c = ' '

instance (cs : List Char) : Decidable (OnlySpaces cs) :=
  List.decidableBAll (fun c : Char => isBlank c = true → c = ' ') cs

section Fields

variable {cs front back : List Char}

@[simp] theorem fields_nil : fields [] = [] := rfl

/-- A space separates, whatever stands around it. -/
theorem fields_append_cons (front back : List Char) :
    fields (front ++ ' ' :: back) = fields front ++ fields back := by
  rw [fields, spaceSeparated, List.splitOn_append_cons_self, List.filter_append]
  rfl

theorem fields_cons (cs : List Char) : fields (' ' :: cs) = fields cs := fields_append_cons [] cs

theorem fields_append_space (cs : List Char) : fields (cs ++ [' ']) = fields cs := by
  rw [fields_append_cons, fields_nil, List.append_nil]

theorem fields_of_not_mem (unspaced : ' ' ∉ cs) (nonempty : cs ≠ []) : fields cs = [cs] := by
  rw [fields, spaceSeparated, List.splitOn_eq_singleton unspaced, List.filter_cons_of_pos]
  · rfl
  · simpa using nonempty

theorem fields_replicate_append (count : Nat) (cs : List Char) :
    fields (List.replicate count ' ' ++ cs) = fields cs := by
  induction count with
  | zero => rfl
  | succ count ih => rw [List.replicate_succ, List.cons_append, fields_cons, ih]

theorem fields_append_replicate (cs : List Char) (count : Nat) :
    fields (cs ++ List.replicate count ' ') = fields cs := by
  induction count with
  | zero => rw [List.replicate_zero, List.append_nil]
  | succ count ih => rw [List.replicate_succ', ← List.append_assoc, fields_append_space, ih]

theorem fields_append_of_open (opens : front = [] ∨ ∃ start, front = start ++ [' '])
    (cs : List Char) : fields (front ++ cs) = fields front ++ fields cs := by
  obtain rfl | ⟨start, rfl⟩ := opens
  · rfl
  · rw [List.append_assoc, List.singleton_append, fields_append_cons, fields_append_space]

theorem fields_append_of_closed (closes : back = [] ∨ ∃ rest, back = ' ' :: rest)
    (cs : List Char) : fields (cs ++ back) = fields cs ++ fields back := by
  obtain rfl | ⟨rest, rfl⟩ := closes
  · rw [List.append_nil, fields_nil, List.append_nil]
  · rw [fields_append_cons, fields_cons]

/-- Texts without spaces are found again where single spaces are put between them. -/
theorem fields_intercalate {parts : List (List Char)} (unspaced : ∀ part ∈ parts, ' ' ∉ part) :
    fields ([' '].intercalate parts) = parts.filter (!·.isEmpty) := by
  by_cases empty : parts = []
  · rw [empty]
    rfl
  · rw [fields, spaceSeparated, List.splitOn_intercalate ' ' unspaced empty]

theorem OnlySpaces.eq_replicate (spaced : OnlySpaces cs) {part : List Char}
    (blank : ∀ c ∈ part, c ∈ cs ∧ isBlank c = true) : part = List.replicate part.length ' ' := by
  refine List.eq_replicate_iff.mpr ⟨rfl, ?_⟩
  intro c member
  obtain ⟨inside, isBlank⟩ := blank c member
  exact spaced c inside isBlank

/-- Trimming takes off spaces alone. -/
theorem fields_trim (spaced : OnlySpaces cs) : fields (trim cs) = fields cs := by
  obtain ⟨left, right, blankLeft, blankRight, whole⟩ := exists_eq_append_trim cs
  have insideLeft : left ⊆ cs := fun c member => whole ▸ by simp [member]
  have insideRight : right ⊆ cs := fun c member => whole ▸ by simp [member]
  have spacesLeft := spaced.eq_replicate fun c member => ⟨insideLeft member, blankLeft c member⟩
  have spacesRight := spaced.eq_replicate fun c member => ⟨insideRight member, blankRight c member⟩
  calc fields (trim cs)
      = fields (left ++ trim cs ++ right) := by
        rw [spacesLeft, spacesRight, fields_append_replicate, fields_replicate_append]
    _ = fields cs := by rw [← whole]

end Fields

/-- A run of spaces. -/
def spaces (count : Nat) : String := .ofList (List.replicate count ' ')

/-- The tokens of a statement that are not empty. -/
def visibleTokens (text : String) : List String := (tokens text).filter (· ≠ "")

/-- The statement has no other blank characters than spaces, and no definition starts in it. -/
structure IsPlain (text : String) : Prop where
  spaced : OnlySpaces text.toList
  unmarked : definitionMarker ∉ tokens text

section Visible

variable {text text' left right name : String} {body : List String}

/-- The marker is not empty. -/
theorem mem_visibleTokens_iff :
    definitionMarker ∈ visibleTokens text ↔ definitionMarker ∈ tokens text := by
  rw [visibleTokens, List.mem_filter, and_iff_left (by decide)]

theorem not_isEmpty_toList (token : String) : (!token.toList.isEmpty) = decide (token ≠ "") := by
  by_cases empty : token = ""
  · rw [empty]
    rfl
  · have characters : token.toList ≠ [] := mt String.toList_eq_nil_iff.mp empty
    rw [decide_eq_true empty, List.isEmpty_eq_false_iff.mpr characters]
    rfl

theorem visibleTokens_eq_fields (spaced : OnlySpaces text.toList) :
    visibleTokens text = (fields text.toList).map String.ofList := by
  rw [visibleTokens, tokens, List.filter_map, ← fields_trim spaced, fields]
  refine congrArg (List.map String.ofList) (List.filter_congr fun cs _ => ?_)
  rw [Function.comp_apply, ← not_isEmpty_toList, String.toList_ofList]

theorem onlySpaces_append :
    OnlySpaces (text ++ text').toList ↔ OnlySpaces text.toList ∧ OnlySpaces text'.toList := by
  rw [String.toList_append]
  exact List.forall_mem_append

/-- A text stands apart from what is on its two sides where there are spaces or nothing. -/
theorem visibleTokens_between (opens : left = "" ∨ ∃ start, left = start ++ " ")
    (closes : right = "" ∨ ∃ rest, right = " " ++ rest)
    (spaced : OnlySpaces (left ++ text ++ right).toList) :
    visibleTokens (left ++ text ++ right) =
      visibleTokens left ++ visibleTokens text ++ visibleTokens right := by
  obtain ⟨spacedFront, spacedRight⟩ := onlySpaces_append.mp spaced
  obtain ⟨spacedLeft, spacedText⟩ := onlySpaces_append.mp spacedFront
  have charactersLeft : left.toList = [] ∨ ∃ start, left.toList = start ++ [' '] := by
    obtain rfl | ⟨start, rfl⟩ := opens
    · exact .inl rfl
    · exact .inr ⟨start.toList, String.toList_append⟩
  have charactersRight : right.toList = [] ∨ ∃ rest, right.toList = ' ' :: rest := by
    obtain rfl | ⟨rest, rfl⟩ := closes
    · exact .inl rfl
    · exact .inr ⟨rest.toList, String.toList_append⟩
  rw [visibleTokens_eq_fields spaced, String.toList_append, String.toList_append,
    fields_append_of_closed charactersRight, fields_append_of_open charactersLeft,
    List.map_append, List.map_append, visibleTokens_eq_fields spacedLeft,
    visibleTokens_eq_fields spacedText, visibleTokens_eq_fields spacedRight]

theorem onlySpaces_spaces (count : Nat) : OnlySpaces (spaces count).toList := by
  intro c member _
  rw [spaces, String.toList_ofList] at member
  exact List.eq_of_mem_replicate member

/-- However many spaces stand between two texts, as long as there is one. -/
theorem visibleTokens_append_spaces (spacedLeft : OnlySpaces left.toList)
    (spacedRight : OnlySpaces right.toList) (count : Nat) :
    visibleTokens (left ++ spaces (count + 1) ++ right) =
      visibleTokens left ++ visibleTokens right := by
  have spaced : OnlySpaces (left ++ spaces (count + 1) ++ right).toList :=
    onlySpaces_append.mpr
      ⟨onlySpaces_append.mpr ⟨spacedLeft, onlySpaces_spaces _⟩, spacedRight⟩
  have characters : (left ++ spaces (count + 1) ++ right).toList =
      left.toList ++ ' ' :: (List.replicate count ' ' ++ right.toList) := by
    rw [String.toList_append, String.toList_append, spaces, String.toList_ofList,
      List.replicate_succ, List.append_assoc, List.cons_append]
  rw [visibleTokens_eq_fields spaced, characters, fields_append_cons, fields_replicate_append,
    List.map_append, visibleTokens_eq_fields spacedLeft, visibleTokens_eq_fields spacedRight]

theorem visibleTokens_of_unspaced (spaced : OnlySpaces name.toList) (unspaced : ' ' ∉ name.toList)
    (nonempty : name ≠ "") : visibleTokens name = [name] := by
  have characters : name.toList ≠ [] := mt String.toList_eq_nil_iff.mp nonempty
  rw [visibleTokens_eq_fields spaced, fields_of_not_mem unspaced characters, List.map_singleton,
    String.ofList_toList]

theorem Unbroken.onlySpaces {cs : List Char} (unbroken : Unbroken cs) : OnlySpaces cs := by
  intro c member blank
  cases blank.symm.trans (unbroken c member)

theorem onlySpaces_intercalate (unbroken : ∀ token ∈ body, Unbroken token.toList) :
    OnlySpaces (" ".intercalate body).toList := by
  induction body with
  | nil => exact fun c member => absurd member List.not_mem_nil
  | cons token rest ih =>
    obtain ⟨here, later⟩ := List.forall_mem_cons.mp unbroken
    by_cases last : rest = []
    · rw [last, String.intercalate_singleton]
      exact here.onlySpaces
    · have space : OnlySpaces " ".toList := by decide
      rw [String.intercalate_cons_of_ne_nil last]
      exact onlySpaces_append.mpr ⟨onlySpaces_append.mpr ⟨here.onlySpaces, space⟩, ih later⟩

/-- Tokens that are typed with single spaces between them are found again, but for the empty ones. -/
theorem visibleTokens_intercalate (unbroken : ∀ token ∈ body, Unbroken token.toList) :
    visibleTokens (" ".intercalate body) = body.filter (· ≠ "") := by
  have unspaced : ∀ part ∈ body.map String.toList, ' ' ∉ part := by
    intro part member blank
    obtain ⟨token, inBody, rfl⟩ := List.mem_map.mp member
    exact absurd (unbroken token inBody ' ' blank) (by decide)
  have characters : (" ".intercalate body).toList = [' '].intercalate (body.map String.toList) :=
    String.toList_intercalate
  rw [visibleTokens_eq_fields (onlySpaces_intercalate unbroken), characters,
    fields_intercalate unspaced, List.filter_map, map_ofList_toList]
  refine List.filter_congr fun token _ => ?_
  exact not_isEmpty_toList token

end Visible

end Rpn
