import Mathlib.Data.List.Basic
import Mathlib.Data.List.Induction
import Rpn.Proofs.Text.Trim
import Rpn.Text.Lines

/-!
# Lines that are trimmed

Of the lines of a text only what is left by trimming them is looked at. This does not change when
each line feed gets a carriage return in front of it, when a last line that has no end gets one, and
when a line gets spaces at its ends.

All three follow from two equations. What stands after the end of a line has the lines that it has on
its own (`trimmedLines_append`), and a line with its end is one line before those of the rest,
whichever of the two ends it has (`trimmedLines_ended`).
-/

namespace Rpn

section Split

variable {α β : Type}

/-- What separates is in no part, and the parts have nothing else than the whole. -/
theorem of_mem_splitOnP {p : α → Bool} {xs part : List α} (member : part ∈ xs.splitOnP p) :
    ∀ x ∈ part, x ∈ xs ∧ p x = false := by
  have empty (xs : List α) : ∀ x ∈ ([] : List α), x ∈ xs ∧ p x = false :=
    fun _ member => absurd member List.not_mem_nil
  induction xs generalizing part with
  | nil =>
    obtain rfl := List.mem_singleton.mp member
    exact empty []
  | cons x xs ih =>
    have longer {part : List α} (member : part ∈ xs.splitOnP p) :
        ∀ y ∈ part, y ∈ x :: xs ∧ p y = false :=
      fun y inside => (ih member y inside).imp_left (List.mem_cons_of_mem x)
    rw [List.splitOnP_cons_eq_if_modifyHead] at member
    split at member
    · obtain rfl | later := List.mem_cons.mp member
      · exact empty _
      · exact longer later
    · next stays =>
      obtain ⟨first, others, split⟩ := List.exists_cons_of_ne_nil (List.splitOnP_ne_nil p xs)
      rw [split] at longer member
      obtain rfl | later := List.mem_cons.mp member
      · have here := And.intro (List.mem_cons_self (a := x) (l := xs)) (Bool.eq_false_iff.mpr stays)
        exact List.forall_mem_cons.mpr ⟨here, longer List.mem_cons_self⟩
      · exact longer (List.mem_cons_of_mem _ later)

/-- What is neither in the parts nor between them is not in the whole. -/
theorem not_mem_intercalate {x : α} {separator : List α} {parts : List (List α)}
    (between : x ∉ separator) (inside : ∀ part ∈ parts, x ∉ part) :
    x ∉ separator.intercalate parts := by
  induction parts with
  | nil => exact List.not_mem_nil
  | cons part rest ih =>
    obtain ⟨here, later⟩ := List.forall_mem_cons.mp inside
    by_cases last : rest = []
    · rw [last, List.intercalate_singleton]
      exact here
    · rw [List.intercalate_cons_of_ne_nil last]
      simp only [List.mem_append, not_or]
      exact ⟨⟨here, between⟩, ih later⟩

theorem subset_of_mem_splitOn [BEq α] {separator : α} {xs part : List α}
    (member : part ∈ xs.splitOn separator) : part ⊆ xs := by
  intro x inside
  rw [List.splitOn_eq_splitOnP] at member
  exact (of_mem_splitOnP member x inside).1

variable [BEq α] [LawfulBEq α] {separator : α}

theorem not_mem_of_mem_splitOn {xs part : List α} (member : part ∈ xs.splitOn separator) :
    separator ∉ part := by
  intro inside
  rw [List.splitOn_eq_splitOnP] at member
  exact ne_of_beq_false (of_mem_splitOnP member separator inside).2 rfl

/-- Lists with a separator after each of them are found again. -/
theorem splitOn_flatMap_append {part : β → List α} {xs : List β}
    (separate : ∀ x ∈ xs, separator ∉ part x) :
    (xs.flatMap fun x => part x ++ [separator]).splitOn separator = xs.map part ++ [[]] := by
  induction xs with
  | nil => rfl
  | cons x xs ih =>
    obtain ⟨here, later⟩ := List.forall_mem_cons.mp separate
    rw [List.flatMap_cons, List.append_assoc, List.singleton_append,
      List.splitOn_append_cons_self_of_not_mem here, ih later]
    rfl

theorem not_mem_of_mem_splitLines {carriageReturn : α} {text line : List α}
    (member : line ∈ splitLines carriageReturn separator text) : separator ∉ line := by
  rw [splitLines, List.mem_append] at member
  obtain ended | last := member
  · obtain ⟨part, inParts, rfl⟩ := List.mem_map.mp ended
    have single := not_mem_of_mem_splitOn (List.dropLast_subset _ inParts)
    rw [dropReturn]
    split
    · exact fun inside => single (List.dropLast_subset _ inside)
    · exact single
  · have inParts := Option.mem_toList.mp (List.mem_filter.mp last).1
    exact not_mem_of_mem_splitOn (List.mem_of_getLast? inParts)

/-- The end of a line ends all that is before it. -/
theorem splitLines_append_cons (carriageReturn separator : α) (front back : List α) :
    splitLines carriageReturn separator (front ++ separator :: back) =
      (front.splitOn separator).map (dropReturn carriageReturn) ++
        splitLines carriageReturn separator back := by
  have some_ := List.splitOn_ne_nil separator back
  rw [splitLines, List.splitOn_append_cons_self, List.dropLast_append_of_ne_nil some_,
    List.getLast?_append_of_ne_nil _ some_, List.map_append, List.append_assoc, splitLines]

theorem splitLines_of_not_mem {line : List α} (carriageReturn : α) (single : separator ∉ line)
    (nonempty : line ≠ []) : splitLines carriageReturn separator line = [line] := by
  have kept : [line].filter (!·.isEmpty) = [line] :=
    List.filter_cons_of_pos (by simpa using nonempty)
  rw [splitLines, List.splitOn_eq_singleton single]
  exact kept

end Split

/-- The lines of a text, each of them trimmed. -/
def trimmedLines (cs : List Char) : List (List Char) := (splitLines '\r' '\n' cs).map trim

section Trimmed

variable {front line back : List Char}

theorem trim_append_return (line : List Char) : trim (line ++ ['\r']) = trim line :=
  trim_append_blank (List.forall_mem_singleton.mpr rfl) line

/-- A carriage return is blank, and is taken off with the other blank characters. -/
theorem trim_dropReturn (line : List Char) : trim (dropReturn '\r' line) = trim line := by
  rw [dropReturn]
  split
  · next last =>
    obtain ⟨front, rfl⟩ := List.getLast?_eq_some_iff.mp (eq_of_beq last)
    rw [List.dropLast_concat, trim_append_return]
  · rfl

theorem trimmedLines_append_cons (front back : List Char) :
    trimmedLines (front ++ '\n' :: back) = (front.splitOn '\n').map trim ++ trimmedLines back := by
  rw [trimmedLines, splitLines_append_cons, List.map_append, List.map_map, trimmedLines]
  congr 2
  exact funext trim_dropReturn

theorem trimmedLines_of_not_mem (single : '\n' ∉ line) (nonempty : line ≠ []) :
    trimmedLines line = [trim line] := by
  rw [trimmedLines, splitLines_of_not_mem '\r' single nonempty, List.map_singleton]

/-- What follows an end of a line has the lines that it has on its own. -/
theorem trimmedLines_append (opens : front = [] ∨ ∃ start, front = start ++ ['\n'])
    (back : List Char) : trimmedLines (front ++ back) = trimmedLines front ++ trimmedLines back := by
  obtain rfl | ⟨start, rfl⟩ := opens
  · rfl
  · rw [List.append_assoc, List.singleton_append, trimmedLines_append_cons,
      trimmedLines_append_cons, List.append_assoc]
    rfl

theorem trimmedLines_line (single : '\n' ∉ line) (back : List Char) :
    trimmedLines (line ++ '\n' :: back) = trim line :: trimmedLines back := by
  rw [trimmedLines_append_cons, List.splitOn_eq_singleton single]
  rfl

end Trimmed

section Returns

/-- A text with a carriage return in front of each of its line feeds. -/
def withReturns (text : String) : String :=
  .ofList (text.toList.flatMap fun c => if c = '\n' then ['\r', '\n'] else [c])

/-- A carriage return in front of a line feed is taken off with the line that it ends. -/
theorem trimmedLines_flatMap_returns {line : List Char} (single : '\n' ∉ line) (cs : List Char) :
    trimmedLines (line ++ cs.flatMap fun c => if c = '\n' then ['\r', '\n'] else [c]) =
      trimmedLines (line ++ cs) := by
  -- The characters of the line that is begun are kept apart, since it ends further on.
  induction cs generalizing line with
  | nil => rfl
  | cons c cs ih =>
    rw [List.flatMap_cons]
    by_cases feed : c = '\n'
    · have ended : '\n' ∉ line ++ ['\r'] := by simp [single]
      have next := @ih [] List.not_mem_nil
      rw [List.nil_append, List.nil_append] at next
      rw [if_pos feed, feed, trimmedLines_line single, ← next, List.cons_append,
        List.append_cons line '\r', List.singleton_append, trimmedLines_line ended,
        trim_append_return]
    · have longer : '\n' ∉ line ++ [c] := by simp [single, Ne.symm feed]
      have next := ih longer
      rw [List.append_assoc, List.append_assoc] at next
      rw [if_neg feed, next, List.singleton_append]

theorem trimmedLines_withReturns (text : String) :
    trimmedLines (withReturns text).toList = trimmedLines text.toList := by
  rw [withReturns, String.toList_ofList]
  exact trimmedLines_flatMap_returns List.not_mem_nil text.toList

end Returns

section Between

variable {front line line' back rest : List Char}

/-- A line ends with a line feed alone or with a carriage return in front of it. -/
theorem trimmedLines_ended (single : '\n' ∉ line)
    (ends : back = '\n' :: rest ∨ back = '\r' :: '\n' :: rest) :
    trimmedLines (line ++ back) = trim line :: trimmedLines rest := by
  obtain rfl | rfl := ends
  · exact trimmedLines_line single rest
  · have longer : '\n' ∉ line ++ ['\r'] := by simp [single]
    rw [List.append_cons, trimmedLines_line longer, trim_append_return]

/-- A line may be exchanged for one that is trimmed to the same. -/
theorem trimmedLines_congr (single : '\n' ∉ line) (single' : '\n' ∉ line')
    (same : trim line = trim line')
    (closes : (back = [] ∧ line ≠ [] ∧ line' ≠ []) ∨
      ∃ rest, back = '\n' :: rest ∨ back = '\r' :: '\n' :: rest) :
    trimmedLines (line ++ back) = trimmedLines (line' ++ back) := by
  obtain ⟨rfl, nonempty, nonempty'⟩ | ⟨rest, ends⟩ := closes
  · rw [List.append_nil, List.append_nil, trimmedLines_of_not_mem single nonempty,
      trimmedLines_of_not_mem single' nonempty', same]
  · rw [trimmedLines_ended single ends, trimmedLines_ended single' ends, same]

/-- The last line of a text, which is empty after a line feed. -/
theorem exists_lastLine (cs : List Char) :
    ∃ front line, cs = front ++ line ∧ (front = [] ∨ ∃ start, front = start ++ ['\n']) ∧
      '\n' ∉ line := by
  induction cs using List.reverseRecOn with
  | nil => exact ⟨[], [], rfl, .inl rfl, List.not_mem_nil⟩
  | append_singleton cs c ih =>
    by_cases feed : c = '\n'
    · exact ⟨cs ++ [c], [], (List.append_nil _).symm, .inr ⟨cs, by rw [feed]⟩, List.not_mem_nil⟩
    · obtain ⟨front, line, rfl, opens, single⟩ := ih
      exact ⟨front, line ++ [c], List.append_assoc .., opens, by simp [single, Ne.symm feed]⟩

/-- A last line that has no end may get one. -/
theorem trimmedLines_append_ending {cs : List Char} (nonempty : cs ≠ [])
    (unended : cs.getLast? ≠ some '\n') {ending : List Char}
    (ends : ending = ['\n'] ∨ ending = ['\r', '\n']) :
    trimmedLines (cs ++ ending) = trimmedLines cs := by
  obtain ⟨front, line, rfl, opens, single⟩ := exists_lastLine cs
  have begun : line ≠ [] := by
    rintro rfl
    obtain rfl | ⟨start, rfl⟩ := opens
    · exact nonempty rfl
    · exact unended (by rw [List.append_nil, List.getLast?_concat])
  rw [List.append_assoc, trimmedLines_append opens, trimmedLines_append opens,
    trimmedLines_ended single ends, trimmedLines_of_not_mem single begun]
  rfl

end Between

/-- Blank characters that do not end a line. -/
def IsPadding (text : String) : Prop := ∀ c ∈ text.toList, isBlank c = true ∧ c ≠ '\n'

instance (text : String) : Decidable (IsPadding text) :=
  List.decidableBAll (fun c => isBlank c = true ∧ c ≠ '\n') text.toList

/-- The text `line` is a line where it stands between `front` and `back`: it starts at the start or
after a line feed, and it has an end or is the last line. -/
structure IsLineBetween (front line back : String) : Prop where
  opens : front = "" ∨ ∃ start, front = start ++ "\n"
  single : '\n' ∉ line.toList
  closes : (back = "" ∧ line ≠ "") ∨ ∃ rest, back = "\n" ++ rest ∨ back = "\r\n" ++ rest

/-- Blank characters at the ends of a line are taken off with it. -/
theorem IsLineBetween.trimmedLines_pad {front line back left right : String}
    (between : IsLineBetween front line back) (padsLeft : IsPadding left)
    (padsRight : IsPadding right) :
    trimmedLines (front ++ (left ++ line ++ right) ++ back).toList =
      trimmedLines (front ++ line ++ back).toList := by
  have opens : front.toList = [] ∨ ∃ start, front.toList = start ++ ['\n'] := by
    obtain rfl | ⟨start, rfl⟩ := between.opens
    · exact .inl rfl
    · exact .inr ⟨start.toList, String.toList_append⟩
  have single : '\n' ∉ left.toList ++ line.toList ++ right.toList := by
    simp only [List.mem_append, not_or]
    exact ⟨⟨fun member => (padsLeft _ member).2 rfl, between.single⟩,
      fun member => (padsRight _ member).2 rfl⟩
  have same : trim (left.toList ++ line.toList ++ right.toList) = trim line.toList := by
    rw [trim_append_blank fun c member => (padsRight c member).1,
      trim_blank_append fun c member => (padsLeft c member).1]
  have closes : (back.toList = [] ∧ left.toList ++ line.toList ++ right.toList ≠ [] ∧
      line.toList ≠ []) ∨
      ∃ rest, back.toList = '\n' :: rest ∨ back.toList = '\r' :: '\n' :: rest := by
    obtain ⟨rfl, nonempty⟩ | ⟨rest, rfl | rfl⟩ := between.closes
    · have characters : line.toList ≠ [] := mt String.toList_eq_nil_iff.mp nonempty
      exact .inl ⟨rfl, by simp [characters], characters⟩
    · exact .inr ⟨rest.toList, .inl String.toList_append⟩
    · exact .inr ⟨rest.toList, .inr String.toList_append⟩
  simp only [String.toList_append, List.append_assoc front.toList]
  rw [trimmedLines_append opens, trimmedLines_append opens,
    trimmedLines_congr single between.single same closes]

end Rpn
