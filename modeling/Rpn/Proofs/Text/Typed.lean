import Rpn.Proofs.Session.OutputLimit
import Rpn.Proofs.Text.Lines
import Rpn.Text.Typed

/-!
# Lines in bytes

Lines that are put into bytes, each with a line feed after it, are read again from these. The bytes
are taken apart before they are decoded, which finds the same lines because no character but a line
feed has the byte of one in its form.
-/

namespace Rpn

/-- A byte of the form of a character that is below 128 is the whole form. -/
theorem eq_of_mem_utf8EncodeChar {c : Char} {byte : UInt8} (member : byte ∈ String.utf8EncodeChar c)
    (small : byte.toNat < 128) : String.utf8EncodeChar c = [byte] ∧ c.toNat = byte.toNat := by
  have whole (n : Nat) : (UInt8.ofNat n).toNat = n % 256 := UInt8.toNat_ofNat'
  rw [String.utf8EncodeChar] at member ⊢
  -- All parts of a longer form are 128 at least.
  split at member
  · next short =>
    obtain rfl := List.mem_singleton.mp member
    rw [if_pos short, whole]
    refine ⟨rfl, ?_⟩
    show c.val.toNat = _
    omega
  · split at member
    · simp only [List.mem_cons, List.not_mem_nil, or_false] at member
      obtain rfl | rfl := member <;> (rw [whole] at small; omega)
    · split at member
      · simp only [List.mem_cons, List.not_mem_nil, or_false] at member
        obtain rfl | rfl | rfl := member <;> (rw [whole] at small; omega)
      · simp only [List.mem_cons, List.not_mem_nil, or_false] at member
        obtain rfl | rfl | rfl | rfl := member <;> (rw [whole] at small; omega)

/-- A line that can be typed as it is: without an end of a line in it, without a backspace and
without a carriage return that would be taken for a part of its end. -/
structure IsTypable (line : String) : Prop where
  noFeed : '\n' ∉ line.toList
  noBackspace : backspace ∉ line.toList
  noReturn : line.toList.getLast? ≠ some '\r'

instance (line : String) : Decidable (IsTypable line) :=
  decidable_of_iff ('\n' ∉ line.toList ∧ backspace ∉ line.toList ∧
      line.toList.getLast? ≠ some '\r')
    ⟨fun ⟨noFeed, noBackspace, noReturn⟩ => ⟨noFeed, noBackspace, noReturn⟩,
      fun plain => ⟨plain.noFeed, plain.noBackspace, plain.noReturn⟩⟩

/-- The bytes of lines, each with a line feed after it. -/
def typedBytes (lines : List String) : ByteArray :=
  ⟨(lines.flatMap fun line => utf8Bytes (line ++ "\n")).toArray⟩

section Typed

variable {line : String} {lines : List String}

theorem fromUTF8?_toUTF8 (text : String) : String.fromUTF8? text.toUTF8 = some text :=
  dif_pos text.isValidUTF8

theorem fromUTF8?_utf8Bytes (line : String) :
    String.fromUTF8? ⟨(utf8Bytes line).toArray⟩ = some line := by
  have same : (⟨(utf8Bytes line).toArray⟩ : ByteArray) = line.toUTF8 := by
    rw [String.toUTF8, ← String.utf8Encode_toList]
    exact ByteArray.ext List.data_toByteArray.symm
  rw [same, fromUTF8?_toUTF8]

theorem ofBytes_utf8Bytes (plain : IsTypable line) :
    TypedLine.ofBytes ⟨(utf8Bytes line).toArray⟩ = .text line := by
  rw [TypedLine.ofBytes, fromUTF8?_utf8Bytes]
  dsimp only
  rw [applyBackspaces_of_not_mem plain.noBackspace]
  dsimp only
  rw [String.ofList_toList]

theorem lineFeed_not_mem_utf8Bytes (plain : IsTypable line) : 10 ∉ utf8Bytes line := by
  intro member
  obtain ⟨c, inLine, written⟩ := List.mem_flatMap.mp member
  obtain ⟨-, same⟩ := eq_of_mem_utf8EncodeChar written (by decide)
  have feed : c = '\n' := Char.toNat_inj.mp same
  exact plain.noFeed (feed ▸ inLine)

theorem utf8EncodeChar_ne_nil (c : Char) : String.utf8EncodeChar c ≠ [] := by
  rw [String.utf8EncodeChar]
  split
  · exact List.cons_ne_nil _ _
  · split
    · exact List.cons_ne_nil _ _
    · split <;> exact List.cons_ne_nil _ _

theorem dropReturn_utf8Bytes (plain : IsTypable line) :
    dropReturn 13 (utf8Bytes line) = utf8Bytes line := by
  have other : (utf8Bytes line).getLast? ≠ some 13 := by
    intro last
    obtain empty | ⟨front, c, split⟩ := List.eq_nil_or_concat line.toList
    · rw [utf8Bytes, empty] at last
      cases last
    · rw [utf8Bytes, split, List.concat_eq_append, List.flatMap_append, List.flatMap_singleton,
        List.getLast?_append_of_ne_nil _ (utf8EncodeChar_ne_nil c)] at last
      obtain ⟨-, same⟩ := eq_of_mem_utf8EncodeChar (List.mem_of_getLast? last) (by decide)
      have carriage : c = '\r' := Char.toNat_inj.mp same
      apply plain.noReturn
      rw [split, carriage, List.concat_eq_append, List.getLast?_concat]
  rw [dropReturn, if_neg (by simpa using other)]

theorem splitOn_utf8Bytes (plain : ∀ line ∈ lines, IsTypable line) :
    (lines.flatMap fun line => utf8Bytes (line ++ "\n")).splitOn 10 =
      lines.map utf8Bytes ++ [[]] := by
  have feed : utf8Bytes "\n" = [10] := by decide
  simp only [utf8Bytes_append, feed]
  exact splitOn_flatMap_append fun line member => lineFeed_not_mem_utf8Bytes (plain line member)

theorem splitLines_utf8Bytes (plain : ∀ line ∈ lines, IsTypable line) :
    splitLines 13 10 (lines.flatMap fun line => utf8Bytes (line ++ "\n")) =
      lines.map utf8Bytes := by
  rw [splitLines, splitOn_utf8Bytes plain, List.dropLast_concat, List.getLast?_concat, List.map_map]
  have kept : ∀ line ∈ lines, (dropReturn 13 ∘ utf8Bytes) line = utf8Bytes line :=
    fun line member => dropReturn_utf8Bytes (plain line member)
  rw [List.map_congr_left kept]
  exact List.append_nil _

/-- What is typed is read. -/
theorem typedLines_typedBytes (plain : ∀ line ∈ lines, IsTypable line) :
    typedLines (typedBytes lines) = lines.map .text := by
  rw [typedLines, byteLines, typedBytes, splitLines_utf8Bytes plain, List.map_map, List.map_map]
  refine List.map_congr_left fun line member => ?_
  exact ofBytes_utf8Bytes (plain line member)

end Typed

end Rpn
