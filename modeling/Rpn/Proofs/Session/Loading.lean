import Rpn.Proofs.Session.Runs
import Rpn.Proofs.Text.Typed

/-!
# Loading a words file

A file is read and decoded before any of its lines is carried out, so one that cannot be read, or
that has a byte that belongs to no text wherever in it, changes nothing. A text leads to what its
lines do, and these count only for what is left of them by trimming: how the lines of the file end
and what blank characters stand at their ends makes no difference.
-/

namespace Rpn

section Decoding

variable {bytes : ByteArray}

theorem fromUTF8?_eq_none (broken : ∀ text : String, bytes ≠ text.toUTF8) :
    String.fromUTF8? bytes = none := by
  refine dif_neg fun valid => ?_
  obtain ⟨cs, rfl⟩ := valid
  exact broken (.ofList cs) String.toByteArray_ofList.symm

/-- What follows a text in the form of a text is the form of a text. -/
theorem isValidUTF8_of_append (cs : List Char) (valid : (cs.utf8Encode ++ bytes).IsValidUTF8) :
    bytes.IsValidUTF8 := by
  induction cs with
  | nil => simpa using valid
  | cons c cs ih =>
    rw [List.utf8Encode_cons, ByteArray.append_assoc,
      ByteArray.isValidUTF8_utf8Encode_singleton_append_iff] at valid
    exact ih valid

end Decoding

namespace Session

variable (s : Session)

theorem lineDefinition_textLines (text : String) :
    (textLines text).map lineDefinition = (trimmedLines text.toList).map fun line =>
      definitionMarker :: (spaceSeparated line).map String.ofList := by
  rw [textLines, trimmedLines, List.map_map, List.map_map]
  refine List.map_congr_left fun line _ => ?_
  rw [Function.comp_apply, lineDefinition, String.toList_ofList]
  rfl

/-- What lines do is seen from their definitions. -/
theorem defineLines_congr {lines lines' : List String}
    (same : lines.map lineDefinition = lines'.map lineDefinition) :
    s.defineLines lines = s.defineLines lines' := by
  induction lines generalizing s lines' with
  | nil =>
    rw [List.map_nil] at same
    rw [List.map_eq_nil_iff.mp same.symm]
  | cons line rest ih =>
    cases lines' with
    | nil => cases same
    | cons line' rest' =>
      obtain ⟨first, others⟩ := List.cons.inj same
      rw [defineLines_cons, defineLines_cons, first, ih _ others]

theorem load_of_decodes {content : Except String ByteArray} {text : String}
    (decodes : decodeContent content = .ok text) :
    s.load content = ((s.defineLines (textLines text)).1,
      .ok (s.defineLines (textLines text)).2) := by
  rw [load, decodes]

theorem load_of_fails {content : Except String ByteArray} {fault : Fault}
    (fails : decodeContent content = .error fault) : s.load content = (s, .error fault) := by
  rw [load, fails]

theorem load_toUTF8 (text : String) :
    s.load (.ok text.toUTF8) = ((s.defineLines (textLines text)).1,
      .ok (s.defineLines (textLines text)).2) := by
  apply load_of_decodes
  rw [decodeContent, fromUTF8?_toUTF8]

theorem load_of_broken {bytes : ByteArray} (broken : ∀ text : String, bytes ≠ text.toUTF8) :
    s.load (.ok bytes) = (s, .error (.inputOutput notUtf8)) := by
  apply load_of_fails
  rw [decodeContent, fromUTF8?_eq_none broken]

/-- Texts with the same trimmed lines are loaded in the same way. -/
theorem load_congr {text text' : String}
    (same : trimmedLines text.toList = trimmedLines text'.toList) :
    s.load (.ok text.toUTF8) = s.load (.ok text'.toUTF8) := by
  have lines : s.defineLines (textLines text) = s.defineLines (textLines text') := by
    apply defineLines_congr
    rw [lineDefinition_textLines, lineDefinition_textLines, same]
  rw [load_toUTF8, load_toUTF8, lines]

/-- A file that cannot be read, and one with bytes that are not the form of a text, even after a text
with any definitions, leave the session as it was. A text has the result and the effect of its lines.
These stay the same when every line feed gets a carriage return in front of it, when a last line
without an end gets one, and when any line gets spaces or other blank characters at its ends. -/
theorem load_all_or_nothing :
    (∀ reason, s.load (.error reason) = (s, .error (.inputOutput reason))) ∧
      (∀ bytes : ByteArray, (∀ text : String, bytes ≠ text.toUTF8) →
        s.load (.ok bytes) = (s, .error (.inputOutput notUtf8)) ∧
          ∀ text : String, s.load (.ok (text.toUTF8 ++ bytes)) =
            (s, .error (.inputOutput notUtf8))) ∧
      (∀ text : String,
        s.load (.ok text.toUTF8) = ((s.defineLines (textLines text)).1,
          .ok (s.defineLines (textLines text)).2) ∧
        s.load (.ok (withReturns text).toUTF8) = s.load (.ok text.toUTF8) ∧
        (text ≠ "" → text.toList.getLast? ≠ some '\n' → ∀ ending ∈ ["\n", "\r\n"],
          s.load (.ok (text ++ ending).toUTF8) = s.load (.ok text.toUTF8))) ∧
      ∀ front line back left right : String, IsLineBetween front line back → IsPadding left →
        IsPadding right →
        s.load (.ok (front ++ (left ++ line ++ right) ++ back).toUTF8) =
          s.load (.ok (front ++ line ++ back).toUTF8) := by
  refine ⟨fun reason => s.load_of_fails rfl, ?_, ?_, ?_⟩
  · intro bytes broken
    refine ⟨s.load_of_broken broken, fun text => s.load_of_broken fun whole same => ?_⟩
    have valid : (text.toList.utf8Encode ++ bytes).IsValidUTF8 := by
      rw [String.utf8Encode_toList]
      exact same ▸ whole.isValidUTF8
    obtain ⟨cs, rfl⟩ := isValidUTF8_of_append text.toList valid
    exact broken (.ofList cs) String.toByteArray_ofList.symm
  · intro text
    refine ⟨s.load_toUTF8 text, s.load_congr (trimmedLines_withReturns text), ?_⟩
    intro nonempty unended ending ends
    have characters : text.toList ≠ [] := mt String.toList_eq_nil_iff.mp nonempty
    have endings : ending.toList = ['\n'] ∨ ending.toList = ['\r', '\n'] := by
      simp only [List.mem_cons, List.not_mem_nil, or_false] at ends
      obtain rfl | rfl := ends
      · exact .inl rfl
      · exact .inr rfl
    apply load_congr
    rw [String.toList_append, trimmedLines_append_ending characters unended endings]
  · intro front line back left right between padsLeft padsRight
    exact s.load_congr (between.trimmedLines_pad padsLeft padsRight)

/-- A byte that is in no text after a definition, and a line with spaces at its ends in a file whose
lines end with a line feed, with a carriage return as well and with the end of the file. -/
theorem load_all_or_nothing_half :
    let s := fresh .machine 80 {} {}
    s.load (.ok ("half 0.5 *\n".toUTF8 ++ ⟨#[255]⟩)) = (s, .error (.inputOutput notUtf8)) ∧
      s.load (.ok "half 0.5 *\n+ 1\r\n".toUTF8) = s.load (.ok "half 0.5 *\n+ 1".toUTF8) ∧
      s.load (.ok "half 0.5 *\n  + 1 \r\n".toUTF8) = s.load (.ok "half 0.5 *\n+ 1\r\n".toUTF8) ∧
      (s.load (.ok "half 0.5 *\n+ 1".toUTF8)).1.dictionary.get? "half" = some ["0.5", "*"] ∧
      (s.load (.ok "half 0.5 *\n+ 1".toUTF8)).1.err =
        ({} : Sink).report [.reservedName "+"] := by
  intro s
  obtain ⟨-, broken, texts, lines⟩ := load_all_or_nothing s
  have bad : ∀ text : String, (⟨#[255]⟩ : ByteArray) ≠ text.toUTF8 := by
    intro text same
    have invalid : ¬ (⟨#[255]⟩ : ByteArray).IsValidUTF8 := by decide +kernel
    exact invalid (same ▸ text.isValidUTF8)
  have between : IsLineBetween "half 0.5 *\n" "+ 1" "\r\n" :=
    ⟨.inr ⟨"half 0.5 *", rfl⟩, by decide, .inr ⟨"", .inr rfl⟩⟩
  refine ⟨(broken _ bad).2 _, ?_, ?_, by decide +kernel, by decide +kernel⟩
  · exact (texts "half 0.5 *\n+ 1").2.2 (by decide) (by decide) "\r\n" (by decide)
  · exact lines _ _ _ "  " " " between (by decide) (by decide)

end Session

end Rpn
