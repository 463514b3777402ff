import Rpn.CommandLine
import Rpn.Program.Editor
import Rpn.Session.Evaluation

/-!
# The line loop

A run with given options loads a words file if there is one, and then prints the help on
operators, evaluates a single statement or goes through the lines of its input. Each
statement is given the same number of steps.

The loop gives the editor a prompt before each line and evaluates the line in the session
that the lines before it have left. A line that quits ends it; otherwise a last prompt and
a line feed are written when the input is used up.

The sinks of the session are the two streams of the program. To clear the screen another
program is called, which writes to the streams as well, and if there is none a warning is
logged to the error stream. Neither is known here, so both are a parameter (`Clearing`),
like the editor and everything in `World`. The log is taken to be at the level at which
only warnings are written.
-/

namespace Rpn

/-- What comes to the two streams while the screen is cleared. -/
structure Clearing where
  out : List UInt8 := []
  err : List UInt8 := []
deriving DecidableEq

/-- What a run with given options finds outside. -/
structure World where
  /-- The screen width that the environment gives. -/
  columns : Option String := none
  /-- The width of the terminal, if there is one. -/
  terminal : Option Nat := none
  input : ByteArray := .empty
  /-- Whether a path names the input like a file. -/
  isInput : String → Bool := fun _ => false
  /-- The bytes of any other file, or the reason why it cannot be read. -/
  contentOf : String → Except String ByteArray
  /-- What comes to the streams when the screen is cleared, given how many lines were read
  before and the place in the line. It may be different each time. -/
  clearing : Nat → Nat → Clearing := fun _ _ => {}

/-- The width of the screen. -/
def World.width (world : World) : Nat := resolveWidth world.columns world.terminal

structure Outcome where
  status : Nat
  out : List UInt8
  err : List UInt8

namespace Program

/-- The advice given once when a line of the words file was rejected. -/
def rejectionAdvice : String :=
  "Run `help` to see list of operators that cannot be redefined\n"

/-- How a fault that ends the program is reported. -/
def failureText (context : Option String) (cause : String) : String :=
  match context with
  | none => "Error: " ++ cause ++ "\n"
  | some context => "Error: " ++ context ++ "\n\nCaused by:\n    " ++ cause ++ "\n"

/-- Write to standard error. -/
def complain (s : Session) (text : String) : Session :=
  { s with err := (s.err.write text).1 }

/-- Write to standard output. -/
def say (s : Session) (text : String) : Session := (s.print text).1

/-- Load the words file of a path, given what it contains. The text is that of a failure,
which ends the program. -/
def loadWords (s : Session) (path : String) (content : Except String ByteArray) :
    Session × Option String :=
  match s.load content with
  | (s, .ok true) => (s, none)
  | (s, .ok false) => (complain s rejectionAdvice, none)
  | (s, .error (.inputOutput reason)) =>
    if isStandardInput path then
      (s, some (failureText (some "Failed to read words from standard input") reason))
    else
      (s, some (failureText (some ("Failed to read words file " ++ path))
        (Fault.inputOutput reason).message))
  | (s, .error fault) => (s, some (failureText none fault.message))

def prompt (o : Options) (s : Session) : String :=
  if o.plainPrompt then " > " else " " ++ .ofList (decimalDigits s.stack.depth) ++ " > "

section Streams

variable (clear : Nat → Clearing)

/-- What comes to the streams besides what the session writes for a token: something only
where the screen is cleared, and `clear` says what for each place in the line. -/
def clearingAt (s : Session) (token : String) : Clearing :=
  if token = Command.clearScreen.name then clear s.cursor else {}

/-- Evaluate a token that is not a word, in a session whose sinks are the streams. -/
def leaf (s : Session) (token : String) : Session × Except Fault Control :=
  let c := clearingAt clear s token
  let (s, outcome) := s.leaf token
  ({ s with out := s.out.append c.out, err := s.err.append c.err }, outcome)

/-- The complaint about a statement that takes too many steps. -/
def endlessComplaint : String := "the statement does not come to an end"

/-- Evaluate a statement. The control is absent when the program ends with status one. -/
def evaluate (steps : Nat) (s : Session) (text : String) : Session × Option Control :=
  match s.statementBy (leaf clear) steps text with
  | some (s, .ok control) => (s, some control)
  | some (s, .error fault) => (complain s (failureText none fault.message), none)
  | none => (complain s (failureText none endlessComplaint), none)

/-- What the loop does after a line: go on, or end with a status. -/
inductive LineResult where
  | proceed
  | stop (status : Nat)
deriving DecidableEq

/-- Take what a call of the editor returns. -/
def takeReply (steps : Nat) (s : Session) : Editor.Reply → Session × LineResult
  | .line text =>
    match evaluate clear steps s text with
    | (s, some .proceed) => (s, .proceed)
    | (s, some .quit) => (s, .stop 0)
    | (s, none) => (s, .stop 1)
  | .interrupted => (say s "^C\n", .proceed)
  | .failed reason => (complain s (failureText none reason), .stop 0)
  | .crashed report => (complain s report, .stop 101)

end Streams

/-- The line loop, after a number of lines. What the editor returns is given as a list, and
at its end the input is used up. -/
def interact (steps : Nat) (e : Editor) (o : Options) (clearing : Nat → Nat → Clearing) :
    (before : Nat) → Session → List Editor.Reply → Session × Nat
  | _, s, [] => (say s (e.shown (prompt o s) ++ "\n"), 0)
  | before, s, reply :: rest =>
    match takeReply (clearing before) steps (say s (e.shown (prompt o s))) reply with
    | (s, .proceed) => interact steps e o clearing (before + 1) s rest
    | (s, .stop status) => (s, status)

/-- Go on with a session whose words are loaded. -/
def perform (steps : Nat) (e : Editor) (o : Options) (clearing : Nat → Nat → Clearing)
    (s : Session) (input : ByteArray) : Session × Nat :=
  match o.statement? with
  | some text =>
    match evaluate (clearing 0) steps s text with
    | (s, some _) => (s, 0)
    | (s, none) => (s, 1)
  | none => interact steps e o clearing 0 s (e.replies input)

def outcome (s : Session) (status : Nat) : Outcome := ⟨status, s.out.received, s.err.received⟩

/-- The session that a program starts with. -/
def freshSession (functions : Elementary) (width : Nat) : Session := { width, functions }

/-- Run with given options. A words file that is the standard input leaves nothing of
the input to the line loop. -/
def runOptions (steps : Nat) (functions : Elementary) (e : Editor) (o : Options)
    (world : World) : Outcome :=
  let s := freshSession functions world.width
  match o.words with
  | none =>
    let (s, status) := perform steps e o world.clearing s world.input
    outcome s status
  | some path =>
    let (content, input) :=
      if isStandardInput path || world.isInput path then (.ok world.input, .empty)
      else (world.contentOf path, world.input)
    match loadWords s path content with
    | (s, some failure) => outcome (complain s failure) 1
    | (s, none) =>
      let (s, status) := perform steps e o world.clearing s input
      outcome s status

end Program

end Rpn
