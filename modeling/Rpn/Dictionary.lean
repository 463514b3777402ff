import Rpn.Fault

/-!
# The dictionary

A word is a name that stands for a list of tokens. The dictionary keeps its words in
the order in which they were first defined; defining a word again changes its body and
leaves it in its place, while a word that was removed and comes back goes to the end.

A definition is written as a marker, a name and a body. The name may not be that of an
operator, a single digit or the marker itself, for a word is looked up before anything
else and would hide what it is named after.
-/

namespace Rpn

/-- The token that starts a definition. -/
def definitionMarker : String := "="

structure Word where
  name : String
  body : List String
deriving DecidableEq

structure Dictionary where
  words : List Word := []
deriving DecidableEq

namespace Dictionary

def size (d : Dictionary) : Nat := d.words.length

def isEmpty (d : Dictionary) : Bool := d.words.isEmpty

/-- The body of the word of a name. -/
def get? (d : Dictionary) (name : String) : Option (List String) :=
  (d.words.find? (·.name == name)).map Word.body

def contains (d : Dictionary) (name : String) : Bool := (d.get? name).isSome

/-- The place of a name, counted from the word that was defined first. -/
def position? (d : Dictionary) (name : String) : Option Nat :=
  d.words.findIdx? (·.name == name)

/-- Give a name a body, in its old place if it has one and last otherwise. -/
def insert (d : Dictionary) (name : String) (body : List String) : Dictionary :=
  match d.position? name with
  | some place => ⟨d.words.modify place fun word => { word with body }⟩
  | none => ⟨d.words ++ [⟨name, body⟩]⟩

def remove (d : Dictionary) (name : String) : Dictionary :=
  ⟨d.words.filter fun word => word.name != name⟩

/-- Whether there is a word to remove. -/
def removes (d : Dictionary) (name : String) : Bool := (d.remove name).size != d.size

/-- The words that a session starts with. -/
def builtins : Dictionary :=
  ⟨[⟨"sqrt", ["0.5", "^"]⟩, ⟨"pi", ["3.141592653589793"]⟩]⟩

/-- Whether a name consists of one digit. -/
def isDigitName (name : String) : Bool :=
  match name.toList with
  | [c] => c.isDigit
  | _ => false

/-- The names that cannot be defined, given those of the operators. -/
def isForbidden (isOperator : String → Bool) (name : String) : Bool :=
  isOperator name || isDigitName name || name == definitionMarker

/-- Carry out a definition. Its first token is the marker and is not looked at; without
a name nothing happens, and without a body the word is removed. -/
def define (d : Dictionary) (isOperator : String → Bool) :
    List String → Except Fault Dictionary
  | [] | [_] => .ok d
  | [_, name] => .ok (d.remove name)
  | _ :: name :: body =>
    if isForbidden isOperator name then .error (.reservedName name)
    else .ok (d.insert name body)

/-- One line for each word: its name, a colon and its body. -/
def listing (d : Dictionary) : String :=
  String.join (d.words.map fun word => word.name ++ ": " ++ " ".intercalate word.body ++ "\n")

end Dictionary

end Rpn
