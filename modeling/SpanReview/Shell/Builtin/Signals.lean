import SpanReview.Shell.Builtin.Variables

namespace SpanReview.Shell.Builtin

/-!
Builtins that send signals and that tell what is done on them.
-/

/-- Sends a signal to a process, if there is one of that number. Zero stands for the shell
itself. -/
def deliver (signal number : Nat) : Run Bool := do
  let machine ← get
  let process := if number = 0 then machine.own else number - firstProcess
  let isRunning := (number == 0 || firstProcess ≤ number) && machine.world.running.contains process
  let isWaiting := firstProcess ≤ number && machine.jobs.any fun job =>
    job.process == process && job.isWaiting
  if isRunning && signal == 0 then return true
  else if isRunning then
    let isFatal := (machine.toContext :: machine.ancestors).any fun context =>
      context.own == process && context.dies signal
    modify fun machine =>
      let world := machine.world.send process signal
      { machine with
        world := { world with dead := if isFatal then process :: world.dead else world.dead } }
    if isFatal && process == machine.own then throw (.killed signal)
    return true
  else if isWaiting then
    let receive (job : Job) : Job := if job.process = process then job.receive signal else job
    modify fun machine => { machine with jobs := machine.jobs.map receive }
    return true
  else return false

/-- The job that a word behind a percent sign stands for, or what is wrong with the word. -/
def jobNamed (jobs : List Job) (word : String) : Except String Job :=
  let none' (what : String) : Except String Job := .error what
  let recent := jobs.head?
  let found (job : Option Job) (what : String) : Except String Job :=
    match job with
    | some job => .ok job
    | none => none' what
  match word.toList with
  | ['%'] => found recent "No current job"
  | ['%', '+'] => found recent "No current job"
  | ['%', '%'] => found recent "No current job"
  | ['%', '-'] => found (jobs.drop 1).head? "No previous job"
  | '%' :: digits =>
      let number := Text.natural? digits
      found (jobs.find? fun job => some job.number == number) ("No such job: " ++ word)
  | _ => none' ("No such job: " ++ word)

def job (word : String) : Run Job := do
  match jobNamed (← get).jobs word with
  | .ok job => return job
  | .error what => fail what

/-- Sends a signal to what a word stands for: a process, or the group of one, which has no
members. -/
def send (signal : Nat) (target : String) : Run Bool := do
  let isGroup ←
    if target.startsWith "%" then
      let _ ← job target
      pure true
    else pure (target.startsWith "-")
  let number ← if target.startsWith "%" then pure 0
    else numeral (if isGroup then String.ofList (target.toList.drop 1) else target)
  let done ← if isGroup then pure false else deliver signal number
  if !done then warn "No such process\n"
  return done

def sendAll (signal : Nat) (targets : List String) : Run Unit := do
  let done ← targets.mapM (send signal)
  finish (if done.all id then 0 else 1)

def killUsage : String :=
  "Usage: kill [-s sigspec | -signum | -sigspec] [pid | job]... or\nkill -l [exitstatus]"

def allSignals : String :=
  "0\n" ++ "".intercalate ((List.range lastSignal).map fun n => signalName (n + 1) ++ "\n")

def listSignals (arguments : List String) : Run Unit := do
  finish 0
  match arguments with
  | [] => put allSignals
  | code :: _ =>
      let n ← numeral code
      let signal := if 128 < n then n - 128 else n
      if 0 < signal ∧ signal ≤ lastSignal then put (signalName signal ++ "\n")
      else fail ("invalid signal number or exit status: " ++ code)

def killOptions (signal : Option Nat) (lists : Bool) : List String → Run Unit
  | [] => act signal lists []
  | word :: rest => do
      match word.toList with
      | ['-', '-'] => act signal lists rest
      | ['-', 'l'] => killOptions signal true rest
      | ['-', 's'] =>
          match rest with
          | [] => fail "No arg for -s option"
          | name :: rest =>
              match signal? name 1 with
              | some n => killOptions (some n) lists rest
              | none => fail ("invalid signal number or name: " ++ name)
      | '-' :: 's' :: name =>
          match signal? (String.ofList name) 1 with
          | some n => killOptions (some n) lists rest
          | none => fail ("invalid signal number or name: " ++ String.ofList name)
      | '-' :: letter :: _ => fail ("Illegal option -" ++ String.singleton letter)
      | _ => act signal lists (word :: rest)
where
  act (signal : Option Nat) (lists : Bool) (targets : List String) : Run Unit := do
    if lists then if signal.isNone then listSignals targets else fail killUsage
    else if targets.isEmpty then fail killUsage
    else sendAll (signal.getD 15) targets

def kill (arguments : List String) : Run Unit := do
  match arguments with
  | [] => fail killUsage
  | word :: rest =>
      match word.toList with
      | '-' :: name =>
          match signal? (String.ofList name) 1 with
          | some signal =>
              if rest.isEmpty then fail killUsage else sendAll signal rest
          | none => killOptions none false arguments
      | _ => killOptions none false arguments

/-- Sets what is done on signals: nothing of its own, or an action, an empty one being nothing
at all. -/
def setTraps (action : Option String) : List String → Run Unit
  | [] => return
  | name :: names => do
      match signal? name 0 with
      | some signal =>
          modify fun machine =>
            let others := machine.traps.filter fun entry => entry.1 != signal
            match action with
            | some action => { machine with traps := (signal, action) :: others }
            | none => { machine with traps := others }
          setTraps action names
      | none =>
          complain ("trap: " ++ name ++ ": bad trap\n")
          finish 1

def trapListing (machine : Machine) : String :=
  "".intercalate ((List.range (lastSignal + 1)).map fun signal =>
    match machine.traps.lookup signal with
    | some action => "trap -- " ++ quoted action ++ " " ++ signalName signal ++ "\n"
    | none => "")

def trap (arguments : List String) : Run Unit := do
  let (_, words) ← takeLetters "" arguments
  finish 0
  match words with
  | [] => put (trapListing (← get))
  | [signal] => setTraps none [signal]
  | "-" :: signals => setTraps none signals
  | action :: signals =>
      let isSignal := match Text.natural? action.toList with
        | some n => decide (n ≤ lastSignal)
        | none => false
      if isSignal then setTraps none (action :: signals) else setTraps (some action) signals

end SpanReview.Shell.Builtin
