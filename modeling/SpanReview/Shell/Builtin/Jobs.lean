import SpanReview.Shell.Builtin.Signals
import SpanReview.Shell.Process

namespace SpanReview.Shell.Builtin

/-!
Builtins about what runs in the background.
-/

def standing (job : Job) : String :=
  match job.state with
  | .waiting _ _ => "Running"
  | .ended (.exited 0) _ => "Done"
  | .ended (.exited code) _ => "Done(" ++ Text.natText code ++ ")"
  | .ended (.killed signal) _ => meaningOf signal

/-- A line about a job, `mark` telling which of the jobs it is. The processes behind the first
have a bar each. -/
def jobLine (mark : Char) (withProcess : Bool) (job : Job) : String :=
  let first := job.process - (job.stages - 1)
  let number := if withProcess then processText first ++ " " else ""
  let lead := "[" ++ Text.natText job.number ++ "] " ++ String.singleton mark ++ " " ++ number
  let text := lead ++ standing job
  let others := (List.range (job.stages - 1)).map fun index =>
    if withProcess then
      " |\n" ++ String.ofList (List.replicate 6 ' ') ++ processText (first + index + 1) ++ " "
    else " | "
  text ++ String.ofList (List.replicate (max 1 (33 - text.length)) ' ') ++
    "".intercalate others ++ "\n"

def markOf (jobs : List Job) (job : Job) : Char :=
  match jobs.findIdx? fun other => other.number == job.number with
  | some 0 => '+'
  | some 1 => '-'
  | _ => ' '

def showJob (letter : Option Char) (job : Job) : Run Unit := do
  let machine ← get
  if letter.any (· != 'l') then put (processText (job.process - (job.stages - 1)) ++ "\n")
  else
    put (jobLine (markOf machine.jobs job) (letter == some 'l') job)
    if !job.isWaiting then
      modify fun machine =>
        { machine with jobs := machine.jobs.filter fun other => other.number != job.number }

def showJobs (arguments : List String) : Run Unit := do
  let (letters, words) ← takeLetters "lp" arguments
  finish 0
  if words.isEmpty then
    learnEnds
    (← get).jobs.forM (showJob letters.getLast?)
  else words.forM fun word => do showJob letters.getLast? (← job word)

def moveJob (arguments : List String) : Run Unit := do
  let (_, words) ← takeLetters "" arguments
  let name := words.headD "(null)"
  let _ ← job (words.headD "%")
  fail ("job " ++ name ++ " not created under job control")

def interruption? : Run (Option Nat) := do
  let machine ← get
  return (machine.world.sent.find? fun (process, signal) =>
    process == machine.own && signal != childSignal &&
      (machine.trap? signal).any fun text => !text.isEmpty).map (·.2)

def changeJobs (change : Job → Job) : Run Unit :=
  modify fun machine => { machine with jobs := machine.jobs.map change }

def waited? (word : String) : Run (Option Job) := do
  if word.startsWith "%" then return some (← job word)
  else
    let number ← numeral word
    return (← get).jobs.find? fun job => firstProcess + job.process == number

section

variable (again : Manner → Command → Run Unit)

/-- Waits for a job and gives its status, or else the signal that has ended the wait. -/
def waitForJob (job : Job) : Run (Except Nat Nat) := do
  awaken again
  succumb
  match ← interruption?, (← get).jobs.find? fun other => other.number == job.number with
  | some signal, _ => return .error signal
  | none, some ⟨_, _, _, .ended status isKnown, _⟩ =>
      if !isKnown then status.notice?.forM fun notice => complain (notice ++ "\n")
      learnEnds
      changeJobs fun other =>
        if other.number = job.number then { other with isDone := true } else other
      return .ok status.code
  | none, _ => return .ok 127

def waitForEach : List String → Run Unit
  | [] => return
  | word :: rest => do
      match ← waited? word with
      | none => waitForEach rest
      | some job =>
          match ← waitForJob again job with
          | .ok code =>
              finish code
              waitForEach rest
          | .error signal => finish (128 + signal)

def wait (arguments : List String) : Run Unit := do
  let (_, words) ← takeLetters "" arguments
  if words.isEmpty then
    awaken again
    succumb
    match ← interruption? with
    | some signal => finish (128 + signal)
    | none =>
        learnEnds
        changeJobs fun job => { job with isDone := true }
        finish 0
  else
    finish 127
    waitForEach again words

end

end SpanReview.Shell.Builtin
