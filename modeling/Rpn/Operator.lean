import Rpn.Stack.Primitive

/-!
# Operators

An operator is a primitive, which works on the stack, or a command, which concerns the
session. The names in `Operator.all` are reserved: no word can be defined under one.
-/

namespace Rpn

inductive Command where
  | quit | clearScreen | words | help
deriving DecidableEq

namespace Command

def all : List Command := [quit, clearScreen, words, help]

def name : Command → String
  | quit => "quit"
  | clearScreen => "cls"
  | words => "words"
  | help => "help"

def description : Command → String
  | quit => "Exit interactive mode"
  | clearScreen => "Clear the terminal screen"
  | words => "Print all defined words to the screen"
  | help => "Print information about available operators to the screen"

end Command

inductive Operator where
  | primitive (primitive : Primitive)
  | command (command : Command)
deriving DecidableEq

namespace Operator

/-- All operators, in the order in which they are listed. -/
def all : List Operator := Primitive.all.map primitive ++ Command.all.map command

def name : Operator → String
  | primitive p => p.name
  | command c => c.name

/-- The depth below which an operator is passed over. -/
def pops : Operator → Nat
  | primitive p => p.pops
  | command _ => 0

def pushes : Operator → Nat
  | primitive p => p.pushes
  | command _ => 0

/-- What the help text says of an operator. -/
def description : Operator → String
  | primitive p => p.description
  | command c => c.description

/-- The operator of a name. -/
def named? (token : String) : Option Operator := all.find? (·.name == token)

/-- Whether a name belongs to an operator. -/
def isName (token : String) : Bool := (named? token).isSome

end Operator

end Rpn
