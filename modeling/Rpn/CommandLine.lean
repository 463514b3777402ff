/-!
# The command line

Arguments are read from the first to the last. A flag has a short and a long form, and
short flags may share one dash. The option that names a words file takes a value, which
may be joined to it or be the argument after it; such an argument is not one that looks
like an option, a single dash excepted. After two dashes every argument is taken for
the program.

Whatever is wrong is reported where it stands, so a request for the version is answered
only if everything before it is in order, and nothing after it matters.

What a run does is a matter of its options and not of how they were read
(`Program.runOptions`).
-/

namespace Rpn

structure Options where
  /-- The words file, a dash standing for the standard input. -/
  words : Option String := none
  /-- Print the help on operators instead of evaluating anything. -/
  operatorHelp : Bool := false
  /-- Leave the depth of the stack out of the prompt. -/
  plainPrompt : Bool := false
  /-- A statement to evaluate instead of reading lines. -/
  program : Option String := none
deriving DecidableEq

/-- What a command line asks for. -/
inductive Request where
  | version
  | usage
  | run (options : Options)
deriving DecidableEq

inductive UsageError where
  | unknownOption (argument : String)
  | repeatedOption (name : String)
  | missingValue (name : String)
  | emptyValue (name : String)
  | unwantedValue (name : String)
  | secondProgram (argument : String)
deriving DecidableEq

def UsageError.message : UsageError → String
  | unknownOption argument => "unknown option " ++ argument
  | repeatedOption name => "option " ++ name ++ " may be given only once"
  | missingValue name => "option " ++ name ++ " needs a value"
  | emptyValue name => "the value of option " ++ name ++ " is empty"
  | unwantedValue name => "option " ++ name ++ " takes no value"
  | secondProgram argument => "unexpected argument " ++ argument

namespace Options

def setWords (o : Options) (path : String) : Except UsageError Options :=
  if path.isEmpty then .error (.emptyValue "--words-file")
  else if o.words.isSome then .error (.repeatedOption "--words-file")
  else .ok { o with words := some path }

def setOperatorHelp (o : Options) : Except UsageError Options :=
  if o.operatorHelp then .error (.repeatedOption "--calc-help")
  else .ok { o with operatorHelp := true }

def setPlainPrompt (o : Options) : Except UsageError Options :=
  if o.plainPrompt then .error (.repeatedOption "--no-counter")
  else .ok { o with plainPrompt := true }

def setProgram (o : Options) (text : String) : Except UsageError Options :=
  if o.program.isSome then .error (.secondProgram text)
  else .ok { o with program := some text }

/-- The statement that is evaluated instead of lines of input. -/
def statement? (o : Options) : Option String :=
  if o.operatorHelp then some "help" else o.program

end Options

/-- Where an argument leaves the reader. -/
inductive Reading where
  | next (options : Options)
  /-- The argument after this one is the path of a words file. -/
  | awaitWords (options : Options)
  | answer (request : Request)

/-- Read short flags that share a dash. The rest after `w` is its value, before which
one equals sign may stand. -/
def readShort (o : Options) : List Char → Except UsageError Reading
  | [] => .ok (.next o)
  | 'v' :: _ => .ok (.answer .version)
  | 'h' :: _ => .ok (.answer .usage)
  | 'c' :: rest => do readShort (← o.setOperatorHelp) rest
  | 'n' :: rest => do readShort (← o.setPlainPrompt) rest
  | ['w'] => .ok (.awaitWords o)
  | 'w' :: '=' :: path => do return .next (← o.setWords (.ofList path))
  | 'w' :: path => do return .next (← o.setWords (.ofList path))
  | c :: _ => .error (.unknownOption (.ofList ['-', c]))

/-- Read a long option, given without its dashes and cut at its first equals sign. -/
def readLong (o : Options) (name : String) (value : Option String) :
    Except UsageError Reading :=
  match name, value with
  | "version", none => .ok (.answer .version)
  | "help", none => .ok (.answer .usage)
  | "calc-help", none => do return .next (← o.setOperatorHelp)
  | "no-counter", none => do return .next (← o.setPlainPrompt)
  | "words-file", none => .ok (.awaitWords o)
  | "words-file", some path => do return .next (← o.setWords path)
  | name, some _ =>
    if name ∈ ["version", "help", "calc-help", "no-counter"] then
      .error (.unwantedValue ("--" ++ name))
    else
      .error (.unknownOption ("--" ++ name))
  | name, none => .error (.unknownOption ("--" ++ name))

/-- What stands before the first equals sign of a text and, if there is one, after it. -/
def cutAtEquals (cs : List Char) : String × Option String :=
  match cs.dropWhile (· != '=') with
  | [] => (.ofList cs, none)
  | _ :: value => (.ofList (cs.takeWhile (· != '=')), some (.ofList value))

/-- Read one argument that is not two bare dashes. -/
def readArgument (o : Options) (argument : String) : Except UsageError Reading :=
  match argument.toList with
  | '-' :: '-' :: long =>
    let (name, value) := cutAtEquals long
    readLong o name value
  | '-' :: c :: short => readShort o (c :: short)
  | _ => do return .next (← o.setProgram argument)

/-- Whether an argument is one that no option takes for its value. -/
def looksLikeOption (argument : String) : Bool :=
  match argument.toList with
  | '-' :: _ :: _ => true
  | _ => false

/-- Read arguments from left to right. -/
def readArguments (o : Options) : List String → Except UsageError Request
  | [] => .ok (.run o)
  | argument :: rest =>
    if argument = "--" then do
      return .run (← rest.foldlM Options.setProgram o)
    else do
      match ← readArgument o argument, rest with
      | .next o, rest => readArguments o rest
      | .answer request, _ => .ok request
      | .awaitWords _, [] => .error (.missingValue "--words-file")
      | .awaitWords o, path :: rest =>
        if looksLikeOption path then .error (.missingValue "--words-file")
        else do readArguments (← o.setWords path) rest

/-- Read a command line. The words file may also be set in the environment, which counts
when no option names one. -/
def readCommandLine (arguments : List String) (wordsSetting : Option String) :
    Except UsageError Request := do
  match ← readArguments {} arguments, wordsSetting with
  | .run o, some path => if o.words.isSome then return .run o else return .run (← o.setWords path)
  | request, _ => return request

/-- Whether a path stands for the standard input. Slashes and dots at the end of a path
do not change what it names. -/
def isStandardInput (path : String) : Bool :=
  match path.toList.splitOn '/' with
  | ['-'] :: rest => rest.all fun part => part.isEmpty || part == ['.']
  | _ => false

end Rpn
