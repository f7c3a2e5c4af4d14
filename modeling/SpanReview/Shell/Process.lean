import SpanReview.Shell.Trap

namespace SpanReview.Shell

/-!
Processes. A process has a context of its own; the world, which it shares with all others, is
passed on from one to the next, since they run one after another. Those in the background
begin when the shell waits for something or ends.
-/

def childSignal : Nat := 17

/-- The context and the number of another process of this shell. Actions for signals are not
passed on, but signals that are ignored stay so. -/
def fork : Run Context := do
  let machine ← get
  let world := machine.world
  set { machine with
    world := { world with processes := world.processes + 1 } }
  return { machine.toContext with
    own := world.processes
    parent := machine.own
    parsedLine := 1
    traps := machine.traps.filter fun entry => entry.2.isEmpty }

def noteEnd : Run Unit := do
  let machine ← get
  if (machine.trap? childSignal).any fun text => !text.isEmpty then
    set { machine with world := machine.world.send machine.own childSignal }

def freeNumber : Nat → (number : Nat) → List Job → Nat × List Job
  | 0, number, jobs => (number, jobs)
  | fuel + 1, number, jobs =>
      match jobs.find? fun job => job.number == number with
      | none => (number, jobs)
      | some job =>
          if job.isDone && !job.isWaiting then
            (number, jobs.filter fun other => other.number != number)
          else freeNumber fuel (number + 1) jobs

def takeNumber : Run Nat := do
  let machine ← get
  let (number, jobs) := freeNumber (machine.jobs.length + 1) 1 machine.jobs
  set { machine with jobs := jobs }
  return number

def learnEnds : Run Unit :=
  modify fun machine =>
    { machine with
      jobs := machine.jobs.map fun job =>
        match job.state with
        | .ended status _ => { job with state := .ended status true }
        | .waiting _ _ => job }

def asProcess (context : Context) (action : Run Unit) : Run Status := do
  let machine ← get
  let world := { machine.world with running := context.own :: machine.world.running }
  let (ended, after) := action.run.run
    { context with
      world := world
      jobs := []
      ancestors := machine.toContext :: machine.ancestors }
  let world := { after.world with
    running := after.world.running.erase context.own
    sent := after.world.sent.filter fun entry => entry.1 != context.own }
  set { machine with world := world }
  return match ended with
    | .error (.killed signal) => .killed signal
    | _ => .exited (after.status % 256)

section

variable (again : Manner → Command → Run Unit)

/-- Runs what is still to run in the background, the oldest first. What a process leaves to run
when it ends is run then. -/
def awakenWithin : Nat → Run Unit
  | 0 => return
  | fuel + 1 => do
      match (← get).jobs.reverse.find? Job.isWaiting with
      | some ⟨number, _, _, .waiting context body, _⟩ =>
          let settle (state : JobState) : Run Unit :=
            modify fun machine =>
              { machine with
                jobs := machine.jobs.map fun job =>
                  if job.number = number then { job with state := state } else job }
          settle (.ended (.exited 0) false)
          let status ← asProcess context
            ((closing again (again (.final .plain) body)).followedBy (awakenWithin fuel))
          settle (.ended status false)
          noteEnd
          awakenWithin fuel
      | _ => return

def jobLimit : Nat := 1000000

def awaken : Run Unit :=
  awakenWithin again jobLimit

def lifetime (action : Run Unit) : Run Unit :=
  (closing again action).followedBy (awaken again)

def waitFor (start : Run Status) : Run Status := do
  awaken again
  let _ ← takeNumber
  let status ← start
  succumb
  status.notice?.forM fun notice => complain (notice ++ "\n")
  learnEnds
  noteEnd
  return status

def inCopy (action : Run Unit) : Run Status :=
  waitFor again do asProcess (← fork) (lifetime again action)

def inBackground (body : Command) : Run Unit := do
  let stages := match body with
    | .pipeline commands => commands.length
    | _ => 1
  let nowhere ← addFile (.device .nothing true false)
  let context ← fork
  let number ← takeNumber
  modify fun machine =>
    let world := machine.world
    let last := world.processes - 1 + (stages - 1)
    let context := { context with
      wiring := (0, nowhere) :: context.wiring.filter fun wire => wire.1 != 0
      deaf := 2 :: 3 :: context.deaf }
    { machine with
      world := { world with processes := last + 1 }
      jobs := ⟨number, last, stages, .waiting context body, false⟩ :: machine.jobs
      background := some last
      status := 0 }

def withoutLineEnds (text : List Char) : List Char :=
  (text.reverse.dropWhile (· == '\n')).reverse

def substitute (command : Command) : Run String := do
  if command.isNothing then return ""
  else
    let pipe ← addStream (.pipe none (some (← get).own))
    let status ← inCopy again do
      connect 1 (← addFile (.stream pipe false true))
      again (.final .plain) command
    modify fun machine => { machine with substituted := status.code }
    let output := Text.octetsOfBytes ((← get).world.written pipe)
    return String.ofList (withoutLineEnds (output.toList.filter (· != '\x00')))

end

end SpanReview.Shell
