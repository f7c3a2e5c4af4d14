import SpanReview.Shell.Simple

namespace SpanReview.Shell

/-!
Running scripts. Every construct is given `again`, which runs the commands inside it. The
stages of a pipeline run one after another, as each is read only when the one before it has
ended.
-/

def roundLimit : Nat := 1000000000

def depthLimit : Nat := 20000

def overflowSignal : Nat := 11

def pipeRoom : Nat := 65536

inductive Round where
  | done
  | resumed
  | left
  deriving DecidableEq, Repr

def round (action : Run Unit) : Run Round := do
  try
    action
    return .done
  catch
    | .left 1 => return .left
    | .left (n + 1) => throw (.left n)
    | .resumed 1 => return .resumed
    | .resumed (n + 1) => throw (.resumed n)
    | stop => throw stop

def inLoop (action : Run Unit) : Run Unit := do
  modify fun machine => { machine with loops := machine.loops + 1 }
  action.followedBy (modify fun machine => { machine with loops := machine.loops - 1 })

section

variable (again : Manner → Command → Run Unit)

def rounds (manner : Manner) (untilTrue : Bool) (test body : Command) :
    Nat → (status : Nat) → Run Unit
  | 0, status => finish status
  | fuel + 1, status => do
      match ← round (again .test test) with
      | .left => finish status
      | .resumed => rounds manner untilTrue test body fuel status
      | .done =>
          if ((← get).status == 0) == untilTrue then finish status
          else
            let ended ← round (again manner body)
            let status := (← get).status
            if ended = .left then finish status
            else rounds manner untilTrue test body fuel status

def eachRound (manner : Manner) (name : String) (body : Command) : List String → Run Unit
  | [] => return
  | value :: rest => do
      assign name value
      if (← round (again manner body)) = .left then return
      else eachRound manner name body rest

def branchFor (text : List Char) : List Branch → Run Command
  | [] => return .nothing
  | .mk patterns body :: rest => do
      let found ← patterns.anyM fun word => do
        return (← expandPattern (substitute again) word).fits text
      if found then return body else branchFor text rest

def lookAhead : Command → Run Unit
  | .simple _ _ (word :: _) _ => do
      let name := (Word.literal? word).getD []
      let text := String.ofList name
      let isOwn := ((← get).functions.lookup text).isSome || isBuiltin text
      if isName name && !isOwn then
        let _ ← lookFor none text
  | _ => return

/-- Runs the stages of a pipeline, the first of which reads a pipe if one is given. Gives how
they ended and what the pipes are. -/
def runStages (manner : Manner) (room : Nat) (input : Option Nat) :
    List Command → Run (List Status × List Nat)
  | [] => return ([], [])
  | stage :: rest => do
      lookAhead stage
      let output ← if rest.isEmpty then pure none
        else some <$> addStream (.pipe (some room) none)
      let status ← asProcess (← fork) (lifetime again do
        input.forM fun pipe => do connect 0 (← addFile (.stream pipe true false))
        output.forM fun pipe => do connect 1 (← addFile (.stream pipe false true))
        again manner.final stage)
      let (statuses, pipes) ← runStages manner room output rest
      return (status :: statuses, output.toList ++ pipes)

/-- Runs a pipeline. If a stage did not get all that the one before it could have written, it
is run once more with more room in the pipes. -/
def runPipeline (manner : Manner) (commands : List Command) : Nat → (room : Nat) → Run Unit
  | 0, _ => return
  | fuel + 1, room => do
      let before ← get
      let (statuses, pipes) ← runStages again manner room none commands
      let starved := (← get).world.starved
      if pipes.any starved.contains then
        set before
        runPipeline manner commands fuel (16 * room)
      else
        succumb
        statuses.forM fun status =>
          status.notice?.forM fun notice => complain (notice ++ "\n")
        learnEnds
        noteEnd
        finish ((statuses.getLast?.map Status.code).getD 0)

def runSequence (manner : Manner) : List Command → Run Unit
  | [] => return
  | [last] => again manner last
  | first :: rest => do
      again manner.inner first
      runSequence manner rest

/-- Takes the signals that came, and ends a shell that was asked to end on failures. -/
def attendFailure (manner : Manner) : Run Unit := do
  attend again
  let machine ← get
  if machine.has .errexit && !manner.tested && machine.status != 0 then throw .ended

def runShape (manner : Manner) : Command → Run Unit
  | .simple line assignments words redirections =>
      runSimple again manner line assignments words redirections
  | .redirected line body redirections => do
      setLine line
      let prepared ← prepareAll (substitute again) redirections
      let isDone ← withRedirections (substitute again) prepared (again manner.inner body)
      unless isDone do attendFailure again manner
  | .subshell line body redirections => do
      setLine line
      let prepared ← prepareAll (substitute again) redirections
      let inside : Run Unit := do
        applyAll (substitute again) prepared
        again manner.final body
      if manner.last && !(← get).hasTraps then inside
      else finish (← inCopy again inside).code
  | .background (.redirected line body redirections) => do
      setLine line
      inBackground (.subshell line body (← redirections.mapM (settle (substitute again))))
  | .background body => inBackground body
  | .pipeline commands => do
      awaken again
      let _ ← takeNumber
      runPipeline again manner commands 8 pipeRoom
  | .negated body => do
      again .test body
      modify fun machine => { machine with status := if machine.status = 0 then 1 else 0 }
  | .sequence commands => runSequence again manner commands
  | .both first second => do
      again .test first
      if (← get).status = 0 then again manner second
  | .either first second => do
      again .test first
      if (← get).status ≠ 0 then again manner second
  | .choice test success failure => do
      again .test test
      if (← get).status = 0 then again manner success
      else
        match failure with
        | some failure => again manner failure
        | none => finish 0
  | .loop untilTrue test body => inLoop (rounds again manner.inner untilTrue test body roundLimit 0)
  | .each line name words body => do
      setLine line
      let values ← expandWords (substitute again) [] words
      if values.isEmpty then finish 0
      inLoop (eachRound again manner.inner name body values)
  | .select line word branches => do
      setLine line
      let text ← expandText (substitute again) word
      let body ← branchFor again text.toList branches
      if body.isNothing then finish 0 else again manner body
  | .define line name body => do
      setLine line
      modify fun machine =>
        let others := machine.functions.filter fun entry => entry.1 != name
        { machine with functions := (name, body) :: others, status := 0 }

def Command.mayEnd : Command → Bool
  | .simple _ _ _ _ => true
  | .subshell _ _ _ => true
  | .background _ => true
  | .pipeline _ => true
  | _ => false

def runCommand (manner : Manner) (command : Command) : Run Unit := do
  if (← get).has .noexec then return
  attend again
  runShape again manner command
  if command.mayEnd then attendFailure again manner else attend again

end

def runWithin : Nat → Manner → Command → Run Unit
  | 0, _, _ => throw (.killed overflowSignal)
  | depth + 1, manner, command => runCommand (runWithin depth) manner command

def hostProcess : Nat := 0

def Machine.ofInput (disk : Disk) (input : ByteArray) : Machine where
  world :=
    { disk := disk
      outside := outsideFiles
      streams := #[.ofBytes input, .ofBytes ByteArray.empty, .ofBytes ByteArray.empty]
      files := #[.stream 0 true false, .stream 1 false true, .stream 2 false true]
      sent := []
      processes := hostProcess + 1
      running := [hostProcess]
      dead := []
      starved := [] }
  process := hostProcess
  own := hostProcess
  parent := hostProcess
  name := ""
  arguments := []
  bindings := [("PATH", ⟨some defaultSearchPath, true, false⟩), ("HOME", ⟨some "/root", true, false⟩)]
  functions := []
  aliases := []
  tracked := []
  wiring := [(0, 0), (1, 1), (2, 2)]
  shut := []
  options := []
  place := disk.workingDirectory
  directory := ""
  mask := 18
  status := 0
  line := 0
  parsedLine := 1
  isAtEnd := false
  heldAliases := []
  isTracing := false
  command := none
  documents := #[]
  loops := 0
  depth := 0
  kept := []
  saved := none
  traps := []
  deaf := []
  substituted := 0
  background := none
  nextOption := (1, none)
  jobs := []
  ancestors := []

def maxArgumentBytes : Nat := 131071

def isUnfit (word : String) : Bool :=
  word.toList.contains '\x00' || maxArgumentBytes < word.utf8ByteSize

def runFirst (program : String) (arguments : List String) : Run (Option Status) := do
  match ← findReplacement program with
  | .ok place =>
      let context ← fork
      some <$> asProcess context (programAt (runWithin depthLimit) place program arguments)
  | .error _ => return none

/-- Runs a program with its arguments and its input; none if it cannot be started. -/
def start (program : String) (arguments : List String) (input : String) (disk : Disk) :
    Option (Completed × Disk) :=
  if (program :: arguments).any isUnfit then none
  else
    let action := runFirst (Text.octets program) (arguments.map Text.octets)
    match action.run.run (.ofInput disk input.toUTF8) with
    | (.ok (some status), machine) =>
        some (⟨status, machine.world.written 1, machine.world.written 2⟩, machine.world.disk)
    | _ => none

end SpanReview.Shell
