import Mathlib.Data.List.Basic
import Rpn.Proofs.Decimal.Characters

/-!
# What trimming leaves

A text keeps what stands between two of its characters that are not blank, and blank characters at
its ends make no difference to what it is trimmed to. What is left has no blank character at an end,
and there is no other part of the text that has none and only blank characters around it
(`trim_eq_iff`).
-/

namespace Rpn

/-- All characters of the text are blank. -/
def IsBlankText (text : String) : Prop := ∀ c ∈ text.toList, isBlank c = true

instance (text : String) : Decidable (IsBlankText text) :=
  decidable_of_iff (text.toList.all isBlank = true) List.all_eq_true

/-- Texts are restored from their characters. -/
theorem map_ofList_toList (texts : List String) :
    (texts.map String.toList).map String.ofList = texts := by
  have restores : String.ofList ∘ String.toList = id := funext fun text => String.ofList_toList
  rw [List.map_map, restores, List.map_id]

section DropRight

variable {α : Type} {p : α → Bool} {x : α}

theorem dropWhile_append_cons_of_neg (stays : p x = false) (front back : List α) :
    (front ++ x :: back).dropWhile p = front.dropWhile p ++ x :: back := by
  rw [List.dropWhile_append]
  split
  · next none =>
    rw [List.isEmpty_iff.mp none, List.dropWhile_cons_of_neg (by simp [stays]), List.nil_append]
  · rfl

theorem dropRightWhile_append_cons_of_neg (stays : p x = false) (front back : List α) :
    dropRightWhile p (front ++ x :: back) = front ++ x :: dropRightWhile p back := by
  have turned : (front ++ x :: back).reverse = back.reverse ++ x :: front.reverse := by simp
  rw [dropRightWhile, turned, dropWhile_append_cons_of_neg stays, dropRightWhile]
  simp

theorem dropRightWhile_append_of_forall {back : List α} (drops : ∀ x ∈ back, p x = true)
    (front : List α) : dropRightWhile p (front ++ back) = dropRightWhile p front := by
  have all : ∀ x ∈ back.reverse, p x = true := fun x member => drops x (List.mem_reverse.mp member)
  rw [dropRightWhile, List.reverse_append, List.dropWhile_append_of_pos all, dropRightWhile]

end DropRight

section Trim

variable {cs kept front back : List Char} {c c' : Char}

theorem trim_subset (cs : List Char) : trim cs ⊆ cs := by
  intro c member
  exact (List.dropWhile_sublist _).subset (dropRightWhile_subset _ _ member)

theorem trim_blank_append (blank : ∀ c ∈ front, isBlank c = true) (cs : List Char) :
    trim (front ++ cs) = trim cs := by
  rw [trim, List.dropWhile_append_of_pos blank, trim]

theorem trim_append_blank (blank : ∀ c ∈ back, isBlank c = true) (cs : List Char) :
    trim (cs ++ back) = trim cs := by
  rw [trim, List.dropWhile_append]
  split
  · next none =>
    rw [List.dropWhile_eq_nil_iff.mpr blank, trim, List.isEmpty_iff.mp none]
  · exact dropRightWhile_append_of_forall blank _

theorem trim_of_blank (blank : ∀ c ∈ cs, isBlank c = true) : trim cs = [] :=
  trim_append_blank blank []

/-- No blank character is at an end of the text. -/
structure IsTrimmed (cs : List Char) : Prop where
  head : ∀ c ∈ cs.head?, isBlank c = false
  last : ∀ c ∈ cs.getLast?, isBlank c = false

theorem isTrimmed_trim (cs : List Char) : IsTrimmed (trim cs) where
  head := by
    intro c first
    have kept := List.head?_dropWhile_not isBlank cs
    have whole := dropRightWhile_append_takeWhile isBlank (cs.dropWhile isBlank)
    rw [← whole, ← trim, List.head?_append, first] at kept
    exact kept
  last := by
    intro c last
    have kept := List.head?_dropWhile_not isBlank (cs.dropWhile isBlank).reverse
    rw [trim, dropRightWhile, List.getLast?_reverse] at last
    rw [last] at kept
    exact kept

theorem IsTrimmed.trim_eq (trimmed : IsTrimmed cs) : trim cs = cs := by
  have keeps (cs : List Char) (first : ∀ c ∈ cs.head?, isBlank c = false) :
      cs.dropWhile isBlank = cs := by
    cases cs with
    | nil => rfl
    | cons c cs => exact List.dropWhile_cons_of_neg (by simp [first c rfl])
  have backwards : ∀ c ∈ cs.reverse.head?, isBlank c = false := by
    rw [List.head?_reverse]
    exact trimmed.last
  rw [trim, dropRightWhile, keeps cs trimmed.head, keeps cs.reverse backwards,
    List.reverse_reverse]

theorem trim_of_unbroken (unbroken : Unbroken cs) : trim cs = cs :=
  IsTrimmed.trim_eq
    ⟨fun c first => unbroken c (List.mem_of_mem_head? first),
      fun c last => unbroken c (List.mem_of_mem_getLast? last)⟩

theorem trim_cons_append_trim (visible : isBlank c = false) (front : List Char)
    (nonempty : trim cs ≠ []) : trim (c :: front ++ trim cs) = c :: front ++ trim cs := by
  refine IsTrimmed.trim_eq ⟨?_, ?_⟩
  · rintro _ ⟨⟩
    exact visible
  · intro c' last
    rw [List.getLast?_append_of_ne_nil _ nonempty] at last
    exact (isTrimmed_trim cs).last c' last

/-- Trimming takes off blank characters alone. -/
theorem exists_eq_append_trim (cs : List Char) :
    ∃ left right, (∀ c ∈ left, isBlank c = true) ∧ (∀ c ∈ right, isBlank c = true) ∧
      cs = left ++ trim cs ++ right := by
  let rest := cs.dropWhile isBlank
  refine ⟨cs.takeWhile isBlank, (rest.reverse.takeWhile isBlank).reverse, ?_, ?_, ?_⟩
  · exact fun c member => List.mem_takeWhile_imp member
  · exact fun c member => List.mem_takeWhile_imp (List.mem_reverse.mp member)
  · rw [trim, List.append_assoc, dropRightWhile_append_takeWhile,
      List.takeWhile_append_dropWhile]

/-- A text is trimmed to the one part of it that has no blank character at an end and nothing else
than blank characters around it. -/
theorem trim_eq_iff :
    trim cs = kept ↔ IsTrimmed kept ∧
      ∃ left right, (∀ c ∈ left, isBlank c = true) ∧ (∀ c ∈ right, isBlank c = true) ∧
        cs = left ++ kept ++ right := by
  constructor
  · rintro rfl
    exact ⟨isTrimmed_trim cs, exists_eq_append_trim cs⟩
  · rintro ⟨trimmed, left, right, blankLeft, blankRight, rfl⟩
    rw [trim_append_blank blankRight, trim_blank_append blankLeft, trimmed.trim_eq]

/-- Trimming does not go past characters that are not blank. -/
theorem trim_append_cons_cons (visible : isBlank c = false) (visible' : isBlank c' = false)
    (front middle back : List Char) :
    trim (front ++ c :: (middle ++ c' :: back)) =
      front.dropWhile isBlank ++ c :: (middle ++ c' :: dropRightWhile isBlank back) := by
  rw [trim, dropWhile_append_cons_of_neg visible, dropRightWhile_append_cons_of_neg visible,
    dropRightWhile_append_cons_of_neg visible']

end Trim

end Rpn
