import SpanReview.Shell.Files
import SpanReview.Shell.Numeral
import SpanReview.Shell.Script
import SpanReview.Shell.Setting
import SpanReview.Shell.Signal

namespace SpanReview.Shell

/-!
The state of a shell under way, and what commands do to it one step at a time. All text
in it is octets.
-/

structure Variable where
  value : Option String
  isExported : Bool
  isReadOnly : Bool
  deriving DecidableEq, Repr

inductive Kept where
  | variable (name : String) (held : Option Variable)
  | options (on : List Setting)

/-- A program that was found, with the number of the directory of the search path that it was
found in; it is looked for again once the working directory was changed. -/
structure Tracked where
  name : String
  index : Nat
  isStale : Bool
  deriving DecidableEq, Repr

/-- What a shell has for itself; a copy of a shell starts with the same. `process` is the
shell's number, which its copies share, `own` the one of the copy and `parent` the one of the
process that has begun it; `wiring` tells which open file each descriptor stands for, and `shut`
which of them redirections have closed; `place` is the working directory and `directory` how
it is called. `isAtEnd` holds if the line under way is the last of its text, `heldAliases` are
those that it ended with, and `isTracing` holds while a command is being shown; `command` is the
builtin that is under way, `kept` what the functions under way have put aside, `depth` how many
of them there are, `saved` the status before the action of a trap, `deaf` the signals that were
ignored from the start, `substituted` the status of the last command substitution, and
`background` the last process that was run in the background; `nextOption` tells the argument,
and the character in it, that options are taken from next. -/
structure Context where
  process : Nat
  own : Nat
  parent : Nat
  name : String
  arguments : List String
  bindings : List (String × Variable)
  functions : List (String × Command)
  aliases : List (String × String)
  tracked : List Tracked
  wiring : List (Nat × Nat)
  shut : List Nat
  options : List Setting
  place : Location
  directory : String
  mask : Nat
  status : Nat
  line : Nat
  parsedLine : Nat
  isAtEnd : Bool
  heldAliases : List String
  isTracing : Bool
  command : Option String
  documents : Array Word
  loops : Nat
  depth : Nat
  kept : List (List Kept)
  saved : Option Nat
  traps : List (Nat × String)
  deaf : List Nat
  substituted : Nat
  background : Option Nat
  nextOption : Nat × Option Nat

/-- A process in the background does not begin before the shell waits for something. Its end may
still be unknown to the shell. -/
inductive JobState where
  | waiting (context : Context) (body : Command)
  | ended (status : Status) (isKnown : Bool)

/-- `stages` is how many processes it has, `process` the last of them; `isDone` tells that a
script has waited for it. -/
structure Job where
  number : Nat
  process : Nat
  stages : Nat
  state : JobState
  isDone : Bool

/-- A shell with what there is around it. The ancestors are the processes that wait for this one,
as they were when they began to. -/
structure Machine extends Context where
  world : World
  jobs : List Job
  ancestors : List Context

/-- The action for a signal, none if there is none; an empty one has it ignored. Signal 9 cannot
be caught. -/
def Context.trap? (context : Context) (signal : Nat) : Option String :=
  if signal = 9 then none else context.traps.lookup signal

def Context.ignores (context : Context) (signal : Nat) : Bool :=
  context.trap? signal == some "" || (signal != 9 && context.deaf.contains signal)

def Context.dies (context : Context) (signal : Nat) : Bool :=
  (context.trap? signal).isNone && !context.ignores signal && !isIgnored signal &&
    !isHalting signal

def Context.hasTraps (context : Context) : Bool :=
  context.traps.any fun entry => !entry.2.isEmpty

def Job.isWaiting (job : Job) : Bool :=
  match job.state with
  | .waiting _ _ => true
  | .ended _ _ => false

def Job.receive (job : Job) (signal : Nat) : Job :=
  match job.state with
  | .waiting context _ =>
      if context.dies signal then { job with state := .ended (.killed signal) false } else job
  | .ended _ _ => job

/-- What ends the run of a command early. A function that returns may tell its status; a shell
that exits has the status saved for it, one that ends has that of its last command, and one
that is replaced by another program is not asked for its last words. -/
inductive Stop where
  | left (loops : Nat)
  | resumed (loops : Nat)
  | returned (tellsStatus : Bool)
  | exited
  | ended
  | replaced
  | failed
  | killed (signal : Nat)
  deriving DecidableEq, Repr

abbrev Run := ExceptT Stop (StateM Machine)

def firstProcess : Nat := 4241

def processText (process : Nat) : String :=
  Text.natText (firstProcess + process)

def Run.followedBy (action : Run α) (after : Run Unit) : Run α := do
  try
    let a ← action
    after
    return a
  catch stop =>
    after
    throw stop

def descriptor? (number : Nat) : Run (Option Nat) := do
  return (← get).wiring.lookup number

def disconnect (number : Nat) : Run Unit :=
  modify fun machine =>
    { machine with wiring := machine.wiring.filter fun wire => wire.1 != number }

def connect (number file : Nat) : Run Unit := do
  disconnect number
  modify fun machine => { machine with wiring := (number, file) :: machine.wiring }

def addFile (file : OpenFile) : Run Nat := do
  let machine ← get
  let (index, world) := machine.world.addFile file
  set { machine with world := world }
  return index

def addStream (stream : Stream) : Run Nat := do
  let machine ← get
  let (number, world) := machine.world.addStream stream
  set { machine with world := world }
  return number

def brokenPipe : Nat := 13

/-- Writes text to a descriptor, if that is possible. A program whose text no one reads any
more gets a signal. -/
def emit (number : Nat) (text : String) : Run (Option WriteFault) := do
  if text.isEmpty then return none
  else
    match ← descriptor? number with
    | none => return some .notOpen
    | some index =>
        let machine ← get
        let (fault, world) := machine.world.write index (Text.bytesOfOctets text)
        set { machine with world := world }
        if fault = some .noReader then
          if machine.dies brokenPipe then throw (.killed brokenPipe)
          else if !machine.ignores brokenPipe then
            modify fun machine =>
              { machine with world := machine.world.send machine.own brokenPipe }
        return fault

def complain (text : String) : Run Unit := do
  let _ ← emit 2 text

def warn (text : String) : Run Unit := do
  let machine ← get
  let about := match machine.command with
    | some command => command ++ ": "
    | none => ""
  complain (machine.name ++ ": " ++ Text.natText machine.line ++ ": " ++ about ++ text ++ "\n")

def finish (status : Nat) : Run Unit :=
  modify fun machine => { machine with status := status }

def fail (text : String) : Run α := do
  warn text
  finish 2
  throw .failed

def setLine (line : Nat) : Run Unit :=
  modify fun machine => { machine with line := line }

namespace Machine

def held? (machine : Machine) (name : String) : Option Variable :=
  machine.bindings.lookup name

def valueOf? (machine : Machine) (name : String) : Option String :=
  (machine.held? name).bind (·.value)

def has (machine : Machine) (setting : Setting) : Bool :=
  machine.options.contains setting

def turn (machine : Machine) (setting : Setting) (on : Bool) : Machine :=
  let others := machine.options.filter (· != setting)
  { machine with options := if on then setting :: others else others }

def separators (machine : Machine) : List Char :=
  ((machine.valueOf? "IFS").getD " \t\n").toList

def withVariable (machine : Machine) (name : String) (held : Option Variable) : Machine :=
  let others := machine.bindings.filter fun entry => entry.1 != name
  match held with
  | some held => { machine with bindings := (name, held) :: others }
  | none => { machine with bindings := others }

def entryAt (machine : Machine) (path : String) : Except Fault (Location × Entry) :=
  machine.world.find machine.place path

end Machine

def isNameText (name : String) : Bool :=
  isName name.toList

def cutAtEquals (word : String) : String × Option String :=
  let name := word.toList.takeWhile (· != '=')
  match word.toList.drop name.length with
  | _ :: value => (String.ofList name, some (String.ofList value))
  | [] => (word, none)

def numeral (text : String) : Run Nat := do
  match numeral? text with
  | some n => return n
  | none => fail ("Illegal number: " ++ text)

/-- Takes note of a new value. What is found on the search path may be different, and options
are taken from the argument with a number. -/
def noteValue (name value : String) : Run Unit := do
  if name = "PATH" then modify fun machine => { machine with tracked := [] }
  else if name = "OPTIND" then
    let n ← numeral value
    modify fun machine => { machine with nextOption := (max n 1, none) }

def assign (word value : String) : Run Unit := do
  let (name, _) := cutAtEquals word
  if !isNameText name then fail (name ++ ": bad variable name")
  else
    let machine ← get
    let held := (machine.held? name).getD ⟨none, false, false⟩
    if held.isReadOnly then fail (name ++ ": is read only")
    else
      let held := { held with
        value := some value
        isExported := held.isExported || machine.has .allexport }
      set (machine.withVariable name (some held))
      noteValue name value

def keep (kept : Kept) : Run Unit :=
  modify fun machine =>
    match machine.kept with
    | [] => machine
    | frame :: frames => { machine with kept := (kept :: frame) :: frames }

def keepVariable (name : String) : Run Unit := do
  keep (.variable name ((← get).held? name))

def restore : Kept → Run Unit
  | .options on => modify fun machine => { machine with options := on }
  | .variable name held => do
      modify fun machine => machine.withVariable name held
      noteValue name ((held.bind (·.value)).getD "")

def withKept (action : Run α) : Run α := do
  modify fun machine => { machine with kept := [] :: machine.kept }
  action.followedBy do
    let machine ← get
    match machine.kept with
    | [] => return
    | frame :: frames =>
        set { machine with kept := frames }
        frame.forM restore

def asBuiltin (name : String) (action : Run α) : Run α := do
  let before := (← get).command
  modify fun machine => { machine with command := some name }
  action.followedBy (modify fun machine => { machine with command := before })

def withWiring (action : Run α) : Run α := do
  let wiring := (← get).wiring
  action.followedBy (modify fun machine => { machine with wiring := wiring })

end SpanReview.Shell
