import Rpn.Program.Loop

/-!
# The program

The program reads its command line and runs with the options that it finds there. It has
the plain line editor, and everything else that comes from outside is in `Surroundings`.
The outcome is what the run writes and its exit status.
-/

namespace Rpn

structure Surroundings extends World where
  /-- The words file that the environment names. -/
  wordsSetting : Option String := none
  /-- Whether prompts are written. -/
  prompts : Bool := true

namespace Program

def versionText : String := "clacker 0.4.0\n"

/-- The text of the usage, which shows the setting for the words file. -/
def usageText (wordsSetting : Option String) : String := String.join [
  "Reverse polish notation (RPN) calculator\n\n",
  "Usage: clacker [OPTIONS] [PROGRAM]\n\n",
  "Arguments:\n",
  "  [PROGRAM]  Program to run instead of entering interactive mode, ",
  "with statements separated by a space\n\n",
  "Options:\n",
  "  -v, --version            Print version\n",
  "  -c, --calc-help          Show information about available operators and exit\n",
  "  -n, --no-counter         Do not display stack counter in interactive mode\n",
  "  -w, --words-file <PATH>  File of word definitions, one per line: the word, then its body ",
  "(ex. `sqrt 0.5 ^`). Reads from standard in if '-' [env: CLACKER_WORDS=",
  wordsSetting.getD "", "]\n",
  "  -h, --help               Print help\n"]

/-- Terminals that are known by name not to allow for the editing of lines. -/
def hasPlainTerminal (name : String) : Bool :=
  (String.ofList (name.toList.map Char.toLower)) ∈ ["dumb", "cons25", "emacs"]

/-- Run the program, each statement in a number of steps. A command line that cannot be
understood has status two. -/
def runWithin (steps : Nat) (functions : Elementary) (arguments : List String)
    (world : Surroundings) : Outcome :=
  match readCommandLine arguments world.wordsSetting with
  | .error e => ⟨2, [], utf8Bytes ("error: " ++ e.message ++ "\n")⟩
  | .ok .version => ⟨0, utf8Bytes versionText, []⟩
  | .ok .usage => ⟨0, utf8Bytes (usageText world.wordsSetting), []⟩
  | .ok (.run o) => runOptions steps functions (plainEditor world.prompts) o world.toWorld

/-- Run the program. -/
def run (functions : Elementary) (arguments : List String) (world : Surroundings) : Outcome :=
  runWithin Session.stepLimit functions arguments world

end Program

end Rpn
