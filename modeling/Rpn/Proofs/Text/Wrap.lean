import Mathlib.Data.List.Chain
import Rpn.Proofs.Text.Lines
import Rpn.Text.Wrap

/-!
# Filled lines

The lines of a wrapped text hold the words of the text, all of them and in their order, with a space
between each two words of a line. A line is not wider than it may be unless it has a single word, and
it ends only where the next word does not fit.

The last property makes the number of lines the least one possible (`length_le_of_isFull`). Lines
that are laid out in another way cannot be ahead: as long as the words before each line of theirs are
placed by then, the next full line takes at least what their next line does, since one word more
would not fit on it.
-/

namespace Rpn

/-- A run of characters that are not blank. -/
structure IsWord (word : String) : Prop where
  nonempty : word ≠ ""
  unbroken : Unbroken word.toList

/-- The text of a line, which has a space between each two words. -/
def lineText (words : List String) : String := " ".intercalate words

/-- How wide a line of words is. -/
def lineWidth (words : List String) : Nat := (lineText words).utf8ByteSize

/-- A line keeps within the width, unless it is a single word. -/
def Fits (width : Nat) (words : List String) : Prop :=
  lineWidth words ≤ width ∨ words.length = 1

instance (width : Nat) (words : List String) : Decidable (Fits width words) :=
  inferInstanceAs (Decidable (_ ∨ _))

/-- There is no room on a line for the first word of the next one. -/
def IsFull (width : Nat) (line next : List String) : Prop :=
  ∃ word ∈ next.head?, width < lineWidth line + 1 + word.utf8ByteSize

section Words

variable {cs : List Char} {text : String} {words : List String}

/-- A blank character separates, whatever stands around it. -/
theorem blankSeparated_append_cons {c : Char} (blank : isBlank c = true) (front back : List Char) :
    blankSeparated (front ++ c :: back) = blankSeparated front ++ blankSeparated back := by
  rw [blankSeparated, List.splitOnP_append_cons _ _ blank, List.filter_append]
  rfl

theorem blankSeparated_of_unbroken (unbroken : Unbroken cs) (nonempty : cs ≠ []) :
    blankSeparated cs = [cs] := by
  rw [blankSeparated, List.splitOnP_eq_singleton unbroken, List.filter_cons_of_pos]
  · rfl
  · simpa using nonempty

theorem isWord_of_mem_textWords {word : String} (member : word ∈ textWords text) :
    IsWord word := by
  obtain ⟨cs, separated, rfl⟩ := List.mem_map.mp member
  obtain ⟨part, nonempty⟩ := List.mem_filter.mp separated
  constructor
  · intro empty
    rw [← String.ofList_nil, String.ofList_inj] at empty
    rw [empty] at nonempty
    cases nonempty
  · rw [String.toList_ofList]
    exact fun c inside => (of_mem_splitOnP part c inside).2

theorem lineText_cons (word : String) (nonempty : words ≠ []) :
    lineText (word :: words) = word ++ " " ++ lineText words :=
  String.intercalate_cons_of_ne_nil nonempty

/-- The words of a line are found again in its text. -/
theorem textWords_lineText (all : ∀ word ∈ words, IsWord word) :
    textWords (lineText words) = words := by
  have alone (word : String) (isWord : IsWord word) : textWords word = [word] := by
    have characters : word.toList ≠ [] := mt String.toList_eq_nil_iff.mp isWord.nonempty
    rw [textWords, blankSeparated_of_unbroken isWord.unbroken characters, List.map_singleton,
      String.ofList_toList]
  induction words with
  | nil => rfl
  | cons word rest ih =>
    obtain ⟨here, later⟩ := List.forall_mem_cons.mp all
    by_cases last : rest = []
    · rw [last]
      exact alone word here
    · have characters : (lineText (word :: rest)).toList =
          word.toList ++ ' ' :: (lineText rest).toList := by
        rw [lineText_cons word last, String.toList_append, String.toList_append, List.append_assoc]
        rfl
      have first := alone word here
      have others := ih later
      rw [textWords] at first others ⊢
      rw [characters, blankSeparated_append_cons (by decide), List.map_append, first, others]
      rfl

end Words

section Width

variable {front back words : List String}

theorem lineText_append (nonempty : front ≠ []) (nonempty' : back ≠ []) :
    lineText (front ++ back) = lineText front ++ " " ++ lineText back := by
  induction front with
  | nil => exact absurd rfl nonempty
  | cons word rest ih =>
    by_cases last : rest = []
    · rw [last]
      exact lineText_cons word nonempty'
    · rw [List.cons_append, lineText_cons word (List.append_ne_nil_of_left_ne_nil last back),
        ih last, lineText_cons word last]
      simp only [String.append_assoc]

theorem lineWidth_append (nonempty : front ≠ []) (nonempty' : back ≠ []) :
    lineWidth (front ++ back) = lineWidth front + 1 + lineWidth back := by
  rw [lineWidth, lineText_append nonempty nonempty', String.utf8ByteSize_append,
    String.utf8ByteSize_append]
  rfl

theorem lineWidth_le_append (front words back : List String) :
    lineWidth words ≤ lineWidth (front ++ words ++ back) := by
  have extended (words back : List String) : lineWidth words ≤ lineWidth (words ++ back) := by
    by_cases none : words = []
    · rw [none]
      exact Nat.zero_le _
    · by_cases none' : back = []
      · rw [none', List.append_nil]
      · rw [lineWidth_append none none']
        omega
  refine le_trans ?_ (extended (front ++ words) back)
  by_cases none : front = []
  · rw [none, List.nil_append]
  · by_cases none' : words = []
    · rw [none']
      exact Nat.zero_le _
    · rw [lineWidth_append none none']
      omega

end Width

section Filling

variable {width : Nat} {line : List String}

/-- Go on with a line of words that is begun, as `fillLines` does with its text. -/
def filledLines (width : Nat) (line : List String) : List String → List (List String)
  | [] => [line]
  | word :: rest =>
    if lineWidth line + 1 + word.utf8ByteSize ≤ width then
      filledLines width (line ++ [word]) rest
    else
      line :: filledLines width [word] rest

theorem fillLines_lineText (begun : line ≠ []) (rest : List String) :
    fillLines width (lineText line) rest = (filledLines width line rest).map lineText := by
  induction rest generalizing line with
  | nil => rfl
  | cons word rest ih =>
    have extended : lineText (line ++ [word]) = lineText line ++ " " ++ word :=
      lineText_append begun (List.cons_ne_nil word [])
    have longer := ih (List.append_ne_nil_of_left_ne_nil begun [word])
    have next : fillLines width word rest = (filledLines width [word] rest).map lineText :=
      ih (List.cons_ne_nil word [])
    rw [extended] at longer
    rw [fillLines, filledLines, longer, next, lineWidth]
    split <;> rfl

theorem flatten_filledLines (line rest : List String) :
    (filledLines width line rest).flatten = line ++ rest := by
  induction rest generalizing line with
  | nil => rfl
  | cons word rest ih =>
    rw [filledLines]
    split
    · rw [ih, List.append_assoc]
      rfl
    · rw [List.flatten_cons, ih]
      rfl

theorem fits_filledLines (fits : Fits width line) (rest : List String) :
    ∀ words ∈ filledLines width line rest, Fits width words := by
  induction rest generalizing line with
  | nil => exact List.forall_mem_singleton.mpr fits
  | cons word rest ih =>
    rw [filledLines]
    split
    · next room =>
      apply ih
      by_cases begun : line = []
      · rw [begun]
        exact .inr rfl
      · left
        rw [lineWidth_append begun (List.cons_ne_nil word [])]
        exact room
    · exact List.forall_mem_cons.mpr ⟨fits, ih (.inr rfl)⟩

/-- The line that is begun is the start of the first line. -/
theorem exists_filledLines_eq_cons (width : Nat) (line rest : List String) :
    ∃ more others, filledLines width line rest = (line ++ more) :: others := by
  induction rest generalizing line with
  | nil => exact ⟨[], [], by rw [List.append_nil, filledLines]⟩
  | cons word rest ih =>
    rw [filledLines]
    split
    · obtain ⟨more, others, filled⟩ := ih (line ++ [word])
      exact ⟨word :: more, others, by rw [filled, List.append_assoc, List.singleton_append]⟩
    · exact ⟨[], _, by rw [List.append_nil]⟩

theorem isChain_filledLines (line rest : List String) :
    (filledLines width line rest).IsChain (IsFull width) := by
  induction rest generalizing line with
  | nil => exact List.isChain_singleton line
  | cons word rest ih =>
    rw [filledLines]
    split
    · exact ih _
    · next full =>
      obtain ⟨more, others, filled⟩ := exists_filledLines_eq_cons width [word] rest
      have later := ih [word]
      rw [filled] at later ⊢
      exact List.isChain_cons_cons.mpr ⟨⟨word, rfl, Nat.not_le.mp full⟩, later⟩

theorem nil_not_mem_filledLines (begun : line ≠ []) (rest : List String) :
    [] ∉ filledLines width line rest := by
  induction rest generalizing line with
  | nil => exact fun member => begun (List.mem_singleton.mp member).symm
  | cons word rest ih =>
    rw [filledLines]
    split
    · exact ih (List.append_ne_nil_of_left_ne_nil begun _)
    · rw [List.mem_cons, not_or]
      exact ⟨begun.symm, ih (List.cons_ne_nil word [])⟩

end Filling

/-- Lines none of which has room for the first word of the next are not more than any others that
hold the same words, or hold these after words that are placed already. -/
theorem length_le_of_isFull {width : Nat} {lines others : List (List String)}
    (nonempty : [] ∉ lines) (full : lines.IsChain (IsFull width))
    (fits : ∀ words ∈ others, Fits width words) (placed : List String)
    (same : others.flatten = placed ++ lines.flatten) : lines.length ≤ others.length := by
  induction others generalizing lines placed with
  | nil =>
    have none := (List.append_eq_nil_iff.mp same.symm).2
    rw [List.flatten_eq_nil_iff] at none
    cases lines with
    | nil => exact Nat.le_refl _
    | cons line lines => exact absurd (none line List.mem_cons_self ▸ List.mem_cons_self) nonempty
  | cons other others ih =>
    obtain ⟨otherFits, othersFit⟩ := List.forall_mem_cons.mp fits
    cases lines with
    | nil => exact Nat.zero_le _
    | cons line lines =>
      rw [List.mem_cons, not_or] at nonempty
      rw [List.flatten_cons, List.flatten_cons, ← List.append_assoc] at same
      -- What the other line takes is placed by the end of the full line.
      have placedAfter : ∃ placed', others.flatten = placed' ++ lines.flatten := by
        obtain ⟨placed', -, left⟩ | ⟨beyond, taken, left⟩ := List.append_eq_append_iff.mp same
        · exact ⟨placed', left⟩
        · cases beyond with
          | nil => exact ⟨[], left.symm⟩
          | cons word beyond =>
            cases lines with
            | nil => cases left
            | cons next lines =>
              obtain ⟨first, starts, noRoom⟩ := (List.isChain_cons_cons.mp full).1
              obtain ⟨more, rfl⟩ := List.head?_eq_some_iff.mp starts
              obtain ⟨rfl, -⟩ := List.cons.inj left
              have begun : line ≠ [] := Ne.symm nonempty.1
              have width : lineWidth (line ++ [first]) = lineWidth line + 1 + first.utf8ByteSize :=
                lineWidth_append begun (List.cons_ne_nil first [])
              have wider := lineWidth_le_append placed (line ++ [first]) beyond
              have whole : other = placed ++ (line ++ [first]) ++ beyond := by
                rw [taken]
                simp only [List.append_assoc, List.singleton_append]
              have several : 0 < line.length := List.length_pos_iff.mpr begun
              rw [← whole] at wider
              obtain narrow | single := otherFits
              · omega
              · rw [whole] at single
                simp only [List.length_append, List.length_singleton] at single
                omega
      obtain ⟨placed', left⟩ := placedAfter
      exact Nat.succ_le_succ (ih nonempty.2 full.tail othersFit placed' left)

/-- The lines of a wrapped text are lines of words. -/
theorem exists_wrap_eq (text : String) (width : Nat) :
    ∃ lines : List (List String), wrap text width = lines.map lineText ∧
      lines.flatten = textWords text ∧ [] ∉ lines ∧
      (∀ words ∈ lines, Fits (max width 1) words) ∧ lines.IsChain (IsFull (max width 1)) := by
  rw [wrap]
  cases words : textWords text with
  | nil => exact ⟨[], rfl, rfl, List.not_mem_nil, by simp, List.isChain_nil⟩
  | cons word rest =>
    have begun : [word] ≠ [] := List.cons_ne_nil word []
    exact ⟨filledLines (max width 1) [word] rest, fillLines_lineText begun rest,
      flatten_filledLines [word] rest, nil_not_mem_filledLines begun rest,
      fits_filledLines (.inr rfl) rest, isChain_filledLines [word] rest⟩

/-- The lines of a wrapped text have its words in order, none of them is empty, and each has single
spaces between its words. A line keeps within the width unless it is a single word, which is then
wider. The first word of a line would not have fitted on the line before. No other lines of the same
words that keep within the width are fewer, and a larger width does not give more lines. -/
theorem wrap_fewest_lines (text : String) (width : Nat) :
    (wrap text width).flatMap textWords = textWords text ∧
      (∀ line ∈ wrap text width, line ≠ "" ∧ " ".intercalate (textWords line) = line ∧
        (line.utf8ByteSize ≤ max width 1 ∨
          textWords line = [line] ∧ max width 1 < line.utf8ByteSize)) ∧
      (wrap text width).IsChain (fun line next => ∃ word ∈ (textWords next).head?,
        max width 1 < line.utf8ByteSize + 1 + word.utf8ByteSize) ∧
      (∀ others : List (List String), others.flatten = textWords text →
        (∀ words ∈ others, (" ".intercalate words).utf8ByteSize ≤ max width 1 ∨
          words.length = 1) →
        (wrap text width).length ≤ others.length) ∧
      ∀ wider, width ≤ wider → (wrap text wider).length ≤ (wrap text width).length := by
  obtain ⟨lines, wrapped, flatten, nonempty, fits, full⟩ := exists_wrap_eq text width
  have found : ∀ words ∈ lines, textWords (lineText words) = words := by
    intro words member
    refine textWords_lineText fun word inWords => ?_
    have inText : word ∈ textWords text := flatten ▸ List.mem_flatten_of_mem member inWords
    exact isWord_of_mem_textWords inText
  have fewest (others : List (List String)) (same : others.flatten = textWords text)
      (fitting : ∀ words ∈ others, Fits (max width 1) words) :
      lines.length ≤ others.length :=
    length_le_of_isFull nonempty full fitting [] (same.trans flatten.symm)
  rw [wrapped, List.length_map]
  refine ⟨?_, ?_, ?_, fewest, ?_⟩
  · rw [List.flatMap_map, List.flatMap_congr found, List.flatMap_id', flatten]
  · rw [List.forall_mem_map]
    intro words member
    have words_eq := found words member
    refine ⟨?_, congrArg lineText words_eq, ?_⟩
    · intro empty
      rw [empty] at words_eq
      obtain rfl : [] = words := words_eq
      exact nonempty member
    · obtain narrow | wide := le_or_gt (lineWidth words) (max width 1)
      · exact .inl narrow
      · obtain narrow | single := fits words member
        · exact absurd narrow (Nat.not_le.mpr wide)
        · obtain ⟨word, rfl⟩ := List.length_eq_one_iff.mp single
          exact .inr ⟨words_eq, wide⟩
  · rw [List.isChain_map]
    refine full.imp_of_mem_imp ?_
    intro line next inLines nextInLines isFull
    rw [found next nextInLines]
    exact isFull
  · intro wider more
    obtain ⟨lines', wrapped', flatten', nonempty', fits', full'⟩ := exists_wrap_eq text wider
    rw [wrapped', List.length_map]
    refine length_le_of_isFull nonempty' full' ?_ [] (flatten.trans flatten'.symm)
    intro words member
    exact (fits words member).imp_left fun narrow => narrow.trans (by omega)

/-- A word that is too wide stands on a line of its own, and other lines with a word each are more. -/
theorem wrap_fewest_lines_five :
    wrap "a bb\tcccccc dd e" 5 = ["a bb", "cccccc", "dd e"] ∧
      (wrap "a bb\tcccccc dd e" 5).length ≤ [["a"], ["bb"], ["cccccc"], ["dd"], ["e"]].length ∧
      (wrap "a bb\tcccccc dd e" 12).length ≤ (wrap "a bb\tcccccc dd e" 5).length := by
  obtain ⟨-, -, -, fewest, wider⟩ := wrap_fewest_lines "a bb\tcccccc dd e" 5
  exact ⟨by decide +kernel, fewest _ (by decide +kernel) (by decide +kernel), wider 12 (by decide)⟩

end Rpn
