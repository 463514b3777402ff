import Rpn.Program
import Rpn.Proofs.Expansion.Sweep
import Rpn.Proofs.Program.Streams
import Rpn.Proofs.Session.Lines
import Rpn.Proofs.Session.Loading

/-!
# The line loop

A run of the program that goes through the lines of its input is a fold over these lines. Each is
evaluated in the session that the lines before it have left, and what is written is the prompt for
that session and then what comes from the line. `Conversation` says so of sessions that know nothing
of prompts and of other programs; the session of the program has what they write in its sinks too,
which has no influence on anything.

The words file comes before that. Its lines leave the session that the first prompt is for, and what
they report stands before all that is reported later.

Nothing is assumed of how the options were read. Of the editor it is assumed that it shows its
prompts and returns the lines of the input, and of what comes to the streams when the screen is
cleared nothing at all.
-/

namespace Rpn

namespace Program

variable {o : Options} {e : Editor} {clearing : Nat → Nat → Clearing} {before : Nat}
  {s s' t : Session} {line : String} {lines rest : List String} {out err : List UInt8}
  {control : Control} {steps : Nat}

/-- `Conversation o clearing before s lines out err`: going through the lines, starting with the
session `s` when there were some lines before, writes `out` and reports `err`. -/
inductive Conversation (o : Options) (clearing : Nat → Nat → Clearing) :
    Nat → Session → List String → List UInt8 → List UInt8 → Prop where
  | ends (before : Nat) (s : Session) :
      Conversation o clearing before s [] (utf8Bytes (prompt o s ++ "\n")) []
  | quits {before : Nat} {s s' : Session} {line : String} {rest : List String}
      {out err : List UInt8} (answers : Answers (clearing before) s line out err s' .quit) :
      Conversation o clearing before s (line :: rest) (utf8Bytes (prompt o s) ++ out) err
  | goesOn {before : Nat} {s s' : Session} {line : String} {rest : List String}
      {out err out' err' : List UInt8}
      (answers : Answers (clearing before) s line out err s' .proceed)
      (later : Conversation o clearing (before + 1) s' rest out' err') :
      Conversation o clearing before s (line :: rest) (utf8Bytes (prompt o s) ++ out ++ out')
        (err ++ err')

/-- Every line that is reached comes to its end. -/
def EndsEach : Session → List String → Prop
  | _, [] => True
  | s, line :: rest => ∃ trace s' outcome, s.Completes line trace s' outcome ∧
      (outcome = .ok .proceed → EndsEach s' rest)

/-- There is a conversation as far as lines come to their ends. -/
theorem exists_conversation (o : Options) (clearing : Nat → Nat → Clearing) (before : Nat)
    (works : s.SinksWork) (ends : EndsEach s lines) :
    ∃ out err, Conversation o clearing before s lines out err := by
  induction lines generalizing s before with
  | nil => exact ⟨_, _, .ends before s⟩
  | cons line rest ih =>
    obtain ⟨trace, s', outcome, completes, later⟩ := ends
    obtain ⟨works', control, out, err, rfl, answers⟩ :=
      exists_answers (clearing before) works completes
    cases control with
    | quit => exact ⟨_, _, .quits answers⟩
    | proceed =>
      obtain ⟨out', err', conversation⟩ := ih (before + 1) works' (later rfl)
      exact ⟨_, _, .goesOn answers conversation⟩

theorem say_eq (s : Session) (text : String) :
    say s text = s.withSinks (s.out.write text).1 s.err := rfl

/-- A session by itself has the same prompt. -/
theorem shown_prompt (shows : e.ShowsPrompts) (twins : t.Twins s) :
    e.shown (prompt o s) = prompt o t := by
  rw [shows, twins.same]
  rfl

/-- What the loop does after a line that has not failed. -/
def resultOf : Control → LineResult
  | .proceed => .proceed
  | .quit => .stop 0

/-- The prompt is written and then the line is evaluated as by a session by itself. -/
theorem Answers.takeReply {clear : Nat → Clearing}
    (answers : Answers clear t line out err s' control) (twins : t.Twins s)
    (shows : e.ShowsPrompts) :
    ∃ s₁, s'.Twins s₁ ∧
      s₁.out.received = s.out.received ++ (utf8Bytes (prompt o t) ++ out) ∧
      s₁.err.received = s.err.received ++ err ∧
      ∃ enough, ∀ steps, enough ≤ steps →
        takeReply clear steps (say s (e.shown (prompt o s))) (.line line) =
          (s₁, resultOf control) := by
  have prompted : t.Twins (say s (e.shown (prompt o s))) :=
    twins.withSinks (twins.works'.out.write _) twins.works'.err
  obtain ⟨s₁, twins₁, received, reported, enough, evaluated⟩ := answers.evaluate prompted
  refine ⟨s₁, twins₁, ?_, reported, enough, fun steps bound => ?_⟩
  · rw [received, say_eq, shown_prompt shows twins, ← List.append_assoc,
      ← twins.works'.out.received_write]
    rfl
  · rw [Program.takeReply, evaluated steps bound]
    cases control <;> rfl

/-- The loop writes and reports what the conversation says. -/
theorem Conversation.interact (conversation : Conversation o clearing before t lines out err)
    (twins : t.Twins s) (shows : e.ShowsPrompts) :
    ∃ enough, ∀ steps, enough ≤ steps → ∃ s₁,
      interact steps e o clearing before s (lines.map .line) = (s₁, 0) ∧
        s₁.out.received = s.out.received ++ out ∧ s₁.err.received = s.err.received ++ err := by
  induction conversation generalizing s with
  | ends before t =>
    refine ⟨0, fun steps _ => ⟨_, rfl, ?_, (List.append_nil _).symm⟩⟩
    rw [shown_prompt shows twins]
    exact twins.works'.out.received_write _
  | quits answers =>
    obtain ⟨s₁, -, received, reported, enough, taken⟩ := answers.takeReply twins shows
    refine ⟨enough, fun steps bound => ⟨s₁, ?_, received, reported⟩⟩
    rw [List.map_cons, Program.interact, taken steps bound]
    rfl
  | goesOn answers _ ih =>
    obtain ⟨s₁, twins₁, received, reported, enough, taken⟩ := answers.takeReply twins shows
    obtain ⟨enoughLater, later⟩ := ih twins₁
    refine ⟨max enough enoughLater, fun steps bound => ?_⟩
    obtain ⟨s₂, ran, receivedLater, reportedLater⟩ := later steps (by omega)
    refine ⟨s₂, ?_, ?_, ?_⟩
    · rw [List.map_cons, Program.interact, taken steps (by omega)]
      exact ran
    · rw [receivedLater, received, List.append_assoc]
    · rw [reportedLater, reported, List.append_assoc]

/-- The lines of the words file, where one is named and can be read, and the input that it leaves to
the line loop. -/
inductive Loads (o : Options) (world : World) : List String → ByteArray → Prop where
  | unnamed (none : o.words = none) : Loads o world [] world.input
  | input {path text : String} (named : o.words = some path)
      (isInput : (isStandardInput path || world.isInput path) = true)
      (decodes : Session.decodeContent (.ok world.input) = .ok text) :
      Loads o world (textLines text) .empty
  | file {path text : String} (named : o.words = some path)
      (isFile : (isStandardInput path || world.isInput path) = false)
      (decodes : Session.decodeContent (world.contentOf path) = .ok text) :
      Loads o world (textLines text) world.input

/-- What is reported while words are loaded: a line for each definition that is refused, and then
the advice if there was one. -/
def loadReport (wordLines : List String) : List UInt8 :=
  faultBytes (Session.refusals wordLines) ++
    if ∃ line ∈ wordLines, Session.IsRefused line then utf8Bytes rejectionAdvice else []

/-- The session that the first prompt is for. -/
def loadedSession (functions : Elementary) (world : World) (wordLines : List String) : Session :=
  ((freshSession functions world.width).defineLines wordLines).1

theorem refusals_isEmpty (wordLines : List String) :
    (Session.refusals wordLines).isEmpty =
      !decide (∃ line ∈ wordLines, Session.IsRefused line) := by
  rw [Bool.eq_iff_iff, List.isEmpty_iff, Session.refusals, List.map_eq_nil_iff,
    List.filter_eq_nil_iff]
  simp

theorem load_of_decodes (s : Session) {content : Except String ByteArray} {text : String}
    (decodes : Session.decodeContent content = .ok text) :
    s.load content = ((s.defineLines (textLines text)).1,
      .ok !decide (∃ line ∈ textLines text, Session.IsRefused line)) := by
  have accepted :
      (s.defineLines (textLines text)).2 = (Session.refusals (textLines text)).isEmpty := by
    rw [s.defineLines_eq]
  rw [s.load_of_decodes decodes, ← refusals_isEmpty, ← accepted]

/-- Loading words succeeds, and gives the advice if a line was refused. -/
theorem loadWords_of_decodes {content : Except String ByteArray} {text : String}
    (works : s.SinksWork) (decodes : Session.decodeContent content = .ok text) (path : String) :
    ∃ s₁, loadWords s path content = (s₁, none) ∧
      (s.defineLines (textLines text)).1.Twins s₁ ∧ s₁.out.received = s.out.received ∧
        s₁.err.received = s.err.received ++ loadReport (textLines text) := by
  have defined := congrArg Prod.fst (s.defineLines_eq (textLines text))
  have out := congrArg Session.out defined
  have err := congrArg Session.err defined
  rw [loadWords, load_of_decodes s decodes, loadReport]
  generalize (s.defineLines (textLines text)).1 = loaded at out err ⊢
  have worksLoaded : loaded.SinksWork := ⟨out ▸ works.out, err ▸ works.err.report _⟩
  have reported : loaded.err.received =
      s.err.received ++ faultBytes (Session.refusals (textLines text)) := by
    rw [err]
    exact works.err.received_report _
  by_cases refused : ∃ line ∈ textLines text, Session.IsRefused line
  · rw [decide_eq_true refused, if_pos refused, ← List.append_assoc, ← reported]
    exact ⟨_, rfl, ⟨rfl, worksLoaded, ⟨worksLoaded.out, worksLoaded.err.write _⟩⟩,
      congrArg Sink.received out, worksLoaded.err.received_write _⟩
  · rw [decide_eq_false refused, if_neg refused, List.append_nil]
    exact ⟨_, rfl, ⟨rfl, worksLoaded, worksLoaded⟩, congrArg Sink.received out, reported⟩

theorem sinksWork_freshSession (functions : Elementary) (width : Nat) :
    (freshSession functions width).SinksWork :=
  ⟨⟨rfl, rfl⟩, ⟨rfl, rfl⟩⟩

/-- A run with words that can be read, from the file or from the input. -/
theorem runOptions_of_words (functions : Elementary) (e : Editor) {world : World}
    {path text : String} {content : Except String ByteArray} {input : ByteArray}
    (interactive : o.statement? = none) (named : o.words = some path)
    (taken : (if isStandardInput path || world.isInput path then (.ok world.input, .empty)
      else (world.contentOf path, world.input)) = (content, input))
    (decodes : Session.decodeContent content = .ok text) :
    ∃ s₁, (loadedSession functions world (textLines text)).Twins s₁ ∧
      s₁.out.received = [] ∧ s₁.err.received = loadReport (textLines text) ∧
      ∀ steps, runOptions steps functions e o world =
        let (s₂, status) := interact steps e o world.clearing 0 s₁ (e.replies input)
        outcome s₂ status := by
  obtain ⟨s₁, loaded, twins, received, reported⟩ :=
    loadWords_of_decodes (sinksWork_freshSession functions _) decodes path
  refine ⟨s₁, twins, received, reported, fun steps => ?_⟩
  rw [runOptions, named]
  dsimp only
  rw [taken]
  dsimp only
  rw [loaded]
  dsimp only
  rw [perform, interactive]

/-- A run that goes through the lines of its input, given what the words file has left of it. -/
theorem runOptions_of_loads (functions : Elementary) (e : Editor) {wordLines : List String}
    {world : World} {input : ByteArray} (interactive : o.statement? = none)
    (loads : Loads o world wordLines input) :
    ∃ s₁, (loadedSession functions world wordLines).Twins s₁ ∧ s₁.out.received = [] ∧
      s₁.err.received = loadReport wordLines ∧
      ∀ steps, runOptions steps functions e o world =
        let (s₂, status) := interact steps e o world.clearing 0 s₁ (e.replies input)
        outcome s₂ status := by
  cases loads with
  | unnamed none =>
    have works := sinksWork_freshSession functions world.width
    refine ⟨freshSession functions world.width, ⟨rfl, works, works⟩, rfl, rfl, fun steps => ?_⟩
    rw [runOptions, none]
    dsimp only
    rw [perform, interactive]
  | input named isInput decodes =>
    exact runOptions_of_words functions e interactive named (if_pos isInput) decodes
  | file named isFile decodes =>
    have notInput := Bool.eq_false_iff.mp isFile
    exact runOptions_of_words functions e interactive named (if_neg notInput) decodes

/-- A program that is run without a statement goes through the lines of its input, if the editor
shows its prompts and returns these lines. As soon as each statement is given enough steps, it
writes what the conversation over the lines writes, and reports what was reported while words were
loaded and then what the conversation reports; and its status is zero. If every line that is reached
comes to its end, there is a conversation. -/
theorem runOptions_conversation {functions : Elementary} {e : Editor} {o : Options}
    {world : World} {wordLines lines : List String} {input : ByteArray}
    (interactive : o.statement? = none) (loads : Loads o world wordLines input)
    (shows : e.ShowsPrompts) (returns : e.replies input = lines.map .line) :
    let s := loadedSession functions world wordLines
    (∀ out err, Conversation o world.clearing 0 s lines out err →
      ∃ enough, ∀ steps, enough ≤ steps →
        runOptions steps functions e o world = ⟨0, out, loadReport wordLines ++ err⟩) ∧
      (EndsEach s lines → ∃ out err, Conversation o world.clearing 0 s lines out err) := by
  intro s
  obtain ⟨s₁, twins, received, reported, ran⟩ :=
    runOptions_of_loads functions e interactive loads
  rw [returns] at ran
  refine ⟨?_, exists_conversation o world.clearing 0 twins.works⟩
  intro out err conversation
  obtain ⟨enough, loop⟩ := conversation.interact twins shows
  refine ⟨enough, fun steps bound => ?_⟩
  obtain ⟨s₂, interacts, receivedLater, reportedLater⟩ := loop steps bound
  rw [ran, interacts]
  dsimp only
  rw [outcome, receivedLater, reportedLater, received, reported]
  rfl

/-- A line whose words expand finitely answers as by a sweep over the expansion. -/
theorem answers_sweep (clear : Nat → Clearing) {e : Expansion} {r : List UInt8}
    (expands : s.dictionary.Expands (leadingTokens line) e) :
    let swept := (s.enter line).sweep e.postorder
    let finish := swept.session.conclude line swept.outcome
    finish.2 = .ok control → finish.1.err.received = swept.session.err.received ++ r →
      Answers clear s line (swept.trace.flatMap (Dispatch.toOut clear))
        (swept.trace.flatMap (Dispatch.toErr clear) ++ r) finish.1 control := by
  intro swept finish succeeds reported
  have evaluated := (Session.evaluates_iff_sweep (s := s.enter line) expands).mpr rfl
  exact .intro evaluated (Prod.ext rfl succeeds) reported

/-- A line that quits brings nothing to the streams. -/
theorem answers_quit (clear : Nat → Clearing)
    (notWord : s.dictionary.get? Command.quit.name = none) :
    Answers clear s "quit" [] [] (s.enter "quit") .quit := by
  let d : Dispatch := ⟨s.enter "quit", Command.quit.name⟩
  have leading : leadingTokens "quit" = [Command.quit.name] := by decide +kernel
  have evaluated : Session.Evaluates (s.enter "quit") (leadingTokens "quit") [d]
      (s.enter "quit") (.ok .quit) := by
    rw [leading]
    exact .leafStops notWord (Session.leaf_quit _) (by simp)
  have other : Command.quit.name ≠ Command.clearScreen.name := by decide
  have place : clearingAt clear d.session d.token = {} := if_neg other
  have out : d.toOut clear = [] := by
    rw [Dispatch.toOut, Dispatch.written, Session.leaf_quit, List.drop_length, place]
    rfl
  have err : d.toErr clear = [] := by
    rw [Dispatch.toErr, Dispatch.complained, Session.leaf_quit, List.drop_length, place]
    rfl
  have answers : Answers clear s "quit" _ _ _ .quit :=
    .intro evaluated rfl (List.append_nil _).symm
  rwa [List.flatMap_singleton, List.flatMap_singleton, out, err] at answers

/-- A words file with a definition that is refused, a line that clears the screen of a terminal
between two uses of the other one, and a line that quits before the last. -/
theorem runOptions_conversation_double :
    let lines := ["2 double cls double", "quit", "9"]
    let world : World :=
      { input := typedBytes lines
        contentOf := fun _ => .ok ⟨(utf8Bytes "double 2 *\n+ 1\n").toArray⟩
        clearing := fun _ _ => { out := utf8Bytes "\x1b[H\x1b[J" } }
    let o : Options := { words := some "words" }
    o.statement? = none ∧ Loads o world ["double 2 *", "+ 1"] world.input ∧
      (plainEditor true).ShowsPrompts ∧
      (plainEditor true).replies world.input = lines.map .line ∧
      ∃ enough, ∀ steps, enough ≤ steps → runOptions steps .machine (plainEditor true) o world =
        ⟨0, utf8Bytes " 0 > 4\n\x1b[H\x1b[J8\n 1 > ",
          utf8Bytes "Cannot redefine: +\n" ++ utf8Bytes rejectionAdvice⟩ := by
  intro lines world o
  have decodes : Session.decodeContent (world.contentOf "words") = .ok "double 2 *\n+ 1\n" := by
    rw [Session.decodeContent, fromUTF8?_utf8Bytes]
  have wordLines : textLines "double 2 *\n+ 1\n" = ["double 2 *", "+ 1"] := by decide +kernel
  have isFile : (isStandardInput "words" || world.isInput "words") = false := by decide +kernel
  have loads : Loads o world ["double 2 *", "+ 1"] world.input :=
    wordLines ▸ @Loads.file o world "words" _ rfl isFile decodes
  have shows : (plainEditor true).ShowsPrompts := fun _ => rfl
  have returns : (plainEditor true).replies world.input = lines.map .line := by
    have typed : typedLines world.input = lines.map .text :=
      typedLines_typedBytes (by decide)
    show (typedLines world.input).map TypedLine.reply = _
    rw [typed]
    rfl
  let s := loadedSession .machine world ["double 2 *", "+ 1"]
  let e : Expansion :=
    .leaf "2" (.word "double" (.leaf "2" (.leaf "*" .nil)) (.leaf "cls"
      (.word "double" (.leaf "2" (.leaf "*" .nil)) .nil)))
  have expands : s.dictionary.Expands (leadingTokens "2 double cls double") e := by decide +kernel
  obtain ⟨s₁, answers, prompted, notWord⟩ :
      ∃ s₁, Answers (world.clearing 0) s "2 double cls double"
          (utf8Bytes "4\n\x1b[H\x1b[J8\n") [] s₁ .proceed ∧
        prompt o s₁ = " 1 > " ∧ s₁.dictionary.get? Command.quit.name = none := by
    let swept := (s.enter "2 double cls double").sweep e.postorder
    have out : swept.trace.flatMap (Dispatch.toOut (world.clearing 0)) =
        utf8Bytes "4\n\x1b[H\x1b[J8\n" := by decide +kernel
    have err : swept.trace.flatMap (Dispatch.toErr (world.clearing 0)) ++ [] = [] := by
      decide +kernel
    rw [← out, ← err]
    exact ⟨_, answers_sweep (world.clearing 0) expands (by decide +kernel) (by decide +kernel),
      by decide +kernel, by decide +kernel⟩
  have conversation : Conversation o world.clearing 0 s lines _ _ :=
    .goesOn answers (.quits (answers_quit _ notWord))
  obtain ⟨runs, -⟩ :=
    @runOptions_conversation .machine _ _ world _ lines _ rfl loads shows returns
  obtain ⟨enough, ran⟩ := runs _ _ conversation
  refine ⟨rfl, loads, shows, returns, enough, fun steps bound => ?_⟩
  have out : utf8Bytes (prompt o s) ++ utf8Bytes "4\n\x1b[H\x1b[J8\n" ++
      (utf8Bytes (prompt o s₁) ++ []) = utf8Bytes " 0 > 4\n\x1b[H\x1b[J8\n 1 > " := by
    rw [prompted]
    decide +kernel
  have err : loadReport ["double 2 *", "+ 1"] ++ ([] ++ []) =
      utf8Bytes "Cannot redefine: +\n" ++ utf8Bytes rejectionAdvice := by decide +kernel
  rw [ran steps bound, out, err]

end Program

end Rpn
