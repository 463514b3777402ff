/-!
# White space

`isBlank` is the Unicode property White_Space, which has 25 characters. A zero-width
space or a byte order mark has no place in it, nor have the four information
separators below U+0020.

Texts are taken apart as lists of characters. A text that is trimmed loses blank
characters of every kind at both ends; its words are the runs between blank
characters of every kind; its fields are what single spaces separate, so that two
spaces in a row have an empty field between them.
-/

namespace Rpn

def isBlank (c : Char) : Bool :=
  let n := c.toNat
  (9 ≤ n && n ≤ 13) || n == 0x20 || n == 0x85 || n == 0xa0 || n == 0x1680 ||
    (0x2000 ≤ n && n ≤ 0x200a) || n == 0x2028 || n == 0x2029 || n == 0x202f ||
    n == 0x205f || n == 0x3000

/-- The list without its longest last part in `p`. -/
def dropRightWhile (p : α → Bool) (xs : List α) : List α := (xs.reverse.dropWhile p).reverse

/-- A text without the blank characters at its two ends. -/
def trim (cs : List Char) : List Char := dropRightWhile isBlank (cs.dropWhile isBlank)

/-- The longest runs of characters that are not blank. -/
def blankSeparated (cs : List Char) : List (List Char) :=
  (cs.splitOnP isBlank).filter (!·.isEmpty)

/-- The parts between single spaces, at least one and some of them possibly empty. -/
def spaceSeparated (cs : List Char) : List (List Char) := cs.splitOn ' '

@[simp] theorem spaceSeparated_nil : spaceSeparated [] = [[]] := rfl

@[simp] theorem trim_nil : trim [] = [] := rfl

end Rpn
