import Rpn.Text.Cluster.Boundary
import Rpn.Text.Lines

/-!
# Typed lines

A line that is typed may hold backspaces. Each takes back the cluster before it that is
still there, and does nothing at the start of the line. The clusters are those of the
line as it was typed; what is left does not join anew.

What a backspace takes back is measured in bytes of the UTF-8 form, and the width of a
cluster is kept in eight bits. Of a cluster of 256 bytes or more, only as many bytes as
its width leaves modulo 256 are therefore taken from the end of the line. If those do not
end between two characters, the line is torn and cannot be read.
-/

namespace Rpn

def backspace : Char := '\x08'

/-- A line as it is being typed. -/
structure Typing where
  /-- The characters that are left, the last one first. -/
  kept : List Char := []
  /-- The widths of the clusters that can be taken back, the last one first. -/
  widths : List UInt8 := []

namespace Typing

def width (cluster : List Char) : UInt8 := .ofNat (String.ofList cluster).utf8ByteSize

/-- Take a number of bytes off characters, if they end between two of them. -/
def takeBack : (bytes : Nat) → List Char → Option (List Char)
  | 0, kept => some kept
  | _ + 1, [] => none
  | bytes + 1, c :: rest =>
    if c.utf8Size ≤ bytes + 1 then takeBack (bytes + 1 - c.utf8Size) rest else none

/-- Type a cluster, which may be a backspace. -/
def add (t : Typing) (cluster : List Char) : Option Typing :=
  if cluster = [backspace] then
    match t.widths with
    | [] => some t
    | width :: widths => (takeBack width.toNat t.kept).map fun kept => { kept, widths }
  else
    some ⟨cluster.reverse ++ t.kept, width cluster :: t.widths⟩

/-- Type clusters in order. -/
def addAll (t : Typing) : List (List Char) → Option Typing
  | [] => some t
  | cluster :: rest =>
    match t.add cluster with
    | none => none
    | some t => t.addAll rest

theorem addAll_of_not_mem {added : List (List Char)} (h : [backspace] ∉ added) (t : Typing) :
    ∃ widths, t.addAll added = some ⟨added.flatten.reverse ++ t.kept, widths⟩ := by
  induction added generalizing t with
  | nil => exact ⟨t.widths, rfl⟩
  | cons cluster rest ih =>
    rw [List.mem_cons, not_or] at h
    obtain ⟨widths, typed⟩ := ih h.2 ⟨cluster.reverse ++ t.kept, width cluster :: t.widths⟩
    exact ⟨widths, by simp [addAll, add, Ne.symm h.1, typed]⟩

end Typing

/-- What is left of a line after its backspaces; `none` for a line that is torn. -/
def applyBackspaces (cs : List Char) : Option (List Char) :=
  (Typing.addAll {} (clusters cs)).map fun t => t.kept.reverse

/-- A line without backspaces is left as it is. -/
theorem applyBackspaces_of_not_mem {cs : List Char} (h : backspace ∉ cs) :
    applyBackspaces cs = some cs := by
  have absent : [backspace] ∉ clusters cs := by
    intro member
    apply h
    rw [← flatten_clusters cs]
    exact List.mem_flatten_of_mem member (List.mem_singleton_self backspace)
  obtain ⟨widths, typed⟩ := Typing.addAll_of_not_mem absent {}
  simp [applyBackspaces, typed]

/-- A line of typed input. -/
inductive TypedLine where
  | text (text : String)
  | notUtf8
  | torn
deriving DecidableEq

/-- Read a line that is given as bytes. -/
def TypedLine.ofBytes (line : ByteArray) : TypedLine :=
  match String.fromUTF8? line with
  | none => notUtf8
  | some typed =>
    match applyBackspaces typed.toList with
    | none => torn
    | some left => text (.ofList left)

/-- The lines of typed input. -/
def typedLines (input : ByteArray) : List TypedLine := (byteLines input).map TypedLine.ofBytes

end Rpn
