import SpanReview.Engine.Edit
import SpanReview.Engine.Navigate
import SpanReview.Screen
import SpanReview.Session.Command

namespace SpanReview

/-!
A session with the operator. It takes one line at a time: first those that choose a stage
and a case file, then commands. After each line the output holds all that is to be shown
before the next one.
-/

/-- What the next line is for. A file named beforehand is opened when the stage is known. -/
inductive Awaiting where
  | stage (file : Option String)
  | file
  | command
  | nothing
  deriving DecidableEq, Repr

structure Session (σ : Type) where
  engine : Engine
  world : World σ
  awaiting : Awaiting
  output : String
  error : Option EngineError

namespace Session

def stageMenu : String :=
  "What would you like to test?\n1) lexer\n2) parser\n"

def fileQuestion : String :=
  "What case? (blank for the first)\n"

def help : String :=
  "commands:\n" ++
  "  n / p        next / previous token\n" ++
  "  N / P        next / previous file\n" ++
  "  s<N> / e<N>  move start / end by N columns (e.g. s+1, e-2)\n" ++
  "  w            save the proposed span\n" ++
  "  r            run to the next mismatch\n" ++
  "  j / t        toggle json lines / token dump\n" ++
  "  f <name>     open another case file\n" ++
  "  h            this help\n" ++
  "  q            quit\n"

def say (session : Session σ) (text : String) : Session σ :=
  { session with output := session.output ++ text }

def sayLine (session : Session σ) (text : String) : Session σ :=
  session.say (text ++ "\n")

def finish (session : Session σ) : Session σ :=
  { session with awaiting := .nothing }

/-- Ends the session with an error that the operator cannot mend in it. -/
def fail (session : Session σ) (error : EngineError) : Session σ :=
  { session with awaiting := .nothing, error := some error }

def after (session : Session σ) (outcome : Outcome σ α) : Session σ :=
  { session with engine := outcome.engine, world := outcome.world }

def askStage (session : Session σ) (file : Option String) : Session σ :=
  { session.say stageMenu with awaiting := .stage file }

def askFile (session : Session σ) : Session σ :=
  { session.say fileQuestion with awaiting := .file }

def picture (engine : Engine) (color : Bool) : String :=
  if engine.isExhausted then "No more files to process.\n"
  else
    match engine.current, engine.loaded with
    | some comparison, some file =>
        Screen.render {
          file := file.name
          position := engine.position
          actual := comparison.actual
          expected := comparison.expected
          proposed := comparison.proposed
          isMatch := comparison.isMatch
          label := engine.label?.getD ""
          token := engine.currentNode?.map Node.raw
          lines := file.lines
          display := engine.display } color
    | _, _ => engine.currentFile?.getD "" ++ " has no tokens.\n"

def askCommand (color : Bool) (session : Session σ) : Session σ :=
  { session.say (picture session.engine color ++ "> ") with awaiting := .command }

def report (session : Session σ) : FileSelection → Session σ
  | .selected _ _ => session
  | .notFound query suggestions =>
      let session := session.sayLine ("No case named '" ++ query ++ "'.")
      if suggestions.isEmpty then session
      else session.sayLine ("Did you mean: " ++ ", ".intercalate suggestions ++ "?")

def chooseFile (setup : Setup σ) (color : Bool) (name : String) (session : Session σ) :
    Session σ :=
  let outcome := session.engine.selectFile setup name session.world
  let session := session.after outcome
  match outcome.result with
  | .ok (.selected _ _) => session.askCommand color
  | .ok notFound => (session.report notFound).askFile
  | .error e => session.fail e

def chooseStage (setup : Setup σ) (color : Bool) (name : String) (file : Option String)
    (session : Session σ) : Session σ :=
  let outcome := session.engine.selectStage setup name session.world
  let session := session.after outcome
  match outcome.result with
  | .ok _ =>
      match file with
      | some file => session.chooseFile setup color file
      | none => session.askFile
  | .error (.unknownStage name) =>
      (session.sayLine (EngineError.unknownStage name).message).askStage file
  | .error e => session.fail e

def resume (color : Bool) (session : Session σ) (outcome : Outcome σ α)
    (tell : α → Session σ → Session σ) : Session σ :=
  let session := session.after outcome
  match outcome.result with
  | .ok value => (tell value session).askCommand color
  | .error .noFile => (session.sayLine "Nothing to edit here.").askCommand color
  | .error .noNode => (session.sayLine "Nothing to edit here.").askCommand color
  | .error e => session.fail e

def tellStep (step : Step) (session : Session σ) : Session σ :=
  if step = .atStart then session.sayLine "Already at the first token." else session

def tellNothing (_ : α) (session : Session σ) : Session σ :=
  session

def execute (setup : Setup σ) (color : Bool) (command : Command) (session : Session σ) :
    Session σ :=
  let engine := session.engine
  let world := session.world
  match command with
  | .nextToken => session.resume color (engine.next setup world) tellStep
  | .previousToken => session.resume color (engine.previous setup world) tellStep
  | .nextFile => session.resume color (engine.nextFile setup world) tellStep
  | .previousFile => session.resume color (engine.previousFile setup world) tellStep
  | .run => session.resume color (engine.run setup world) tellStep
  | .move endpoint amount =>
      session.resume color (engine.moveEndpoint endpoint amount world) tellNothing
  | .save => session.resume color (engine.save setup world) tellNothing
  | .toggle option => session.resume color (engine.toggle option.name world) tellNothing
  | .file name =>
      let outcome := engine.selectFile setup name world
      let session := session.after outcome
      match outcome.result with
      | .ok selection => (session.report selection).askCommand color
      | .error e => session.fail e
  | .help => (session.say help).askCommand color
  | .quit => session.finish

def commandLine (setup : Setup σ) (color : Bool) (line : String) (session : Session σ) :
    Session σ :=
  if Text.isBlankText line then session.askCommand color
  else
    match Command.parse line with
    | .ok command => session.execute setup color command
    | .error e => (session.sayLine e.message).askCommand color

def feed (setup : Setup σ) (color : Bool) (session : Session σ) (line : String) : Session σ :=
  match session.awaiting with
  | .stage file => session.chooseStage setup color line file
  | .file => session.chooseFile setup color line
  | .command => session.commandLine setup color line
  | .nothing => session

def start (setup : Setup σ) (color : Bool) (stage file : Option String) (engine : Engine)
    (world : World σ) : Session σ :=
  let session : Session σ := ⟨engine, world, .stage file, "", none⟩
  match stage with
  | some stage => session.chooseStage setup color stage file
  | none => session.askStage file

def run (setup : Setup σ) (color : Bool) (stage file : Option String) (engine : Engine)
    (world : World σ) (lines : List String) : Session σ :=
  lines.foldl (feed setup color) (start setup color stage file engine world)

end Session

/-- What comes of asking for the next line. The terminal may already have failed to show what
was said before, but for some characters. -/
inductive Reply where
  | line (text : String)
  | inputFails
  | outputFails (shown : Nat)
  deriving DecidableEq, Repr

namespace Reply

def fails : Reply → Bool
  | .line _ => false
  | _ => true

def heard : List Reply → List String
  | .line text :: rest => text :: heard rest
  | _ => []

end Reply

structure Conversation (σ : Type) where
  session : Session σ
  isBroken : Bool

namespace Session

def cutAfter (count : Nat) (session : Session σ) : Session σ :=
  { session with output := String.ofList (session.output.toList.take count) }

/-- Goes on with a terminal on which `shown` characters stand for sure. -/
def converse (setup : Setup σ) (color : Bool) (session : Session σ) (shown : Nat) :
    List Reply → Conversation σ
  | [] => ⟨session, false⟩
  | reply :: rest =>
      if session.awaiting = .nothing then ⟨session, false⟩
      else
        match reply with
        | .line text =>
            (session.feed setup color text).converse setup color session.output.length rest
        | .inputFails => ⟨session, true⟩
        | .outputFails more => ⟨session.cutAfter (shown + more), true⟩

def talk (setup : Setup σ) (color : Bool) (stage file : Option String) (engine : Engine)
    (world : World σ) (replies : List Reply) : Conversation σ :=
  (start setup color stage file engine world).converse setup color 0 replies

def lineOf (cs : List Char) : String :=
  String.ofList (Text.dropTrailing (fun c => c == '\r' || c == '\n') cs)

/-- The lines of an input; what follows its last line feed is a line only if it is not empty. -/
def inputLines (input : String) : List String :=
  let pieces := input.toList.splitOn '\n'
  let pieces := if pieces.getLast? = some [] then pieces.dropLast else pieces
  pieces.map lineOf

end Session

end SpanReview
