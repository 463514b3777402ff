import Rpn.Program

/-!
# The executable

The outer layer: it reads the environment, the files and the input, and writes what
sessions have written. What a line does is decided by `Program`; here lines are only
taken one at a time, so that an answer appears before the next line is typed. No other
program is called, so nothing is written when the screen is cleared.
-/

namespace Rpn.Main

/-- Why the system refused, in its own words and with its own number for the reason. -/
def reason : IO.Error → String
  | .interrupted _ code details | .noFileOrDirectory _ code details
  | .alreadyExists _ code details | .invalidArgument _ code details
  | .permissionDenied _ code details | .resourceExhausted _ code details
  | .inappropriateType _ code details | .noSuchThing _ code details
  | .otherError code details | .resourceBusy code details | .resourceVanished code details
  | .unsupportedOperation code details | .hardwareFault code details
  | .unsatisfiedConstraints code details | .illegalOperation code details
  | .protocolError code details | .timeExpired code details =>
    details ++ " (os error " ++ toString code ++ ")"
  | .unexpectedEof => "unexpected end of file"
  | .userError text => text

def readContent (path : String) : IO (Except String ByteArray) := do
  try
    return .ok (← IO.FS.withFile path .read IO.FS.Handle.readBinToEnd)
  catch e =>
    return .error (reason e)

/-- Everything that is left of a stream. -/
partial def readRest (stream : IO.FS.Stream) (before : ByteArray) : IO ByteArray := do
  let bytes ← stream.read 65536
  if bytes.isEmpty then return before else readRest stream (before ++ bytes)

/-- The next line of a stream with its line feed; nothing at the end of the input. -/
partial def readLine (stream : IO.FS.Stream) (before : ByteArray) : IO ByteArray := do
  let bytes ← stream.read 1
  let line := before ++ bytes
  if bytes.isEmpty || bytes.data == #[10] then return line else readLine stream line

/-- Write out what a session has written. -/
def carryOut (s : Session) : IO Session := do
  let out ← IO.getStdout
  out.write ⟨s.out.received.toArray⟩
  out.flush
  let err ← IO.getStderr
  err.write ⟨s.err.received.toArray⟩
  err.flush
  return { s with out := s.out.drained, err := s.err.drained }

def noClearing (_ : Nat) : Clearing := {}

/-- The line loop, one line at a time. -/
partial def interact (e : Editor) (o : Options) (stream : IO.FS.Stream) (s : Session) :
    IO Nat := do
  let s ← carryOut (Program.say s (e.shown (Program.prompt o s)))
  match e.replies (← readLine stream .empty) with
  | [] =>
    let _ ← carryOut (Program.say s "\n")
    return 0
  | reply :: _ =>
    let (s, result) := Program.takeReply noClearing Session.stepLimit s reply
    let s ← carryOut s
    match result with
    | .proceed => interact e o stream s
    | .stop status => return status

/-- Evaluate the statement of the options or go through the lines of the input. -/
def perform (e : Editor) (o : Options) (stream : IO.FS.Stream) (s : Session) : IO Nat := do
  if o.statement?.isSome then
    let (s, status) := Program.perform Session.stepLimit e o (fun _ => noClearing) s .empty
    let _ ← carryOut s
    return status
  else
    interact e o stream s

def runOptions (o : Options) : IO Nat := do
  let stream ← IO.getStdin
  let plain := Program.hasPlainTerminal ((← IO.getEnv "TERM").getD "")
  let e := plainEditor (plain || (← stream.isTty))
  let s := Program.freshSession .machine (resolveWidth (← IO.getEnv "COLUMNS") none)
  match o.words with
  | none => perform e o stream s
  | some path =>
    let content ← if isStandardInput path then .ok <$> readRest stream .empty
      else readContent path
    match Program.loadWords s path content with
    | (s, none) => perform e o stream (← carryOut s)
    | (s, some failure) =>
      let _ ← carryOut (Program.complain s failure)
      return 1

end Rpn.Main

def main (arguments : List String) : IO UInt32 := do
  let wordsSetting ← IO.getEnv "CLACKER_WORDS"
  match Rpn.readCommandLine arguments wordsSetting with
  | .error e =>
    (← IO.getStderr).putStrLn ("error: " ++ e.message)
    return 2
  | .ok .version =>
    (← IO.getStdout).putStr Rpn.Program.versionText
    return 0
  | .ok .usage =>
    (← IO.getStdout).putStr (Rpn.Program.usageText wordsSetting)
    return 0
  | .ok (.run o) => return .ofNat (← Rpn.Main.runOptions o)
