import SpanReview.Shell.Lines

namespace SpanReview.Shell

/-!
What a shell does on the signals that it gets, and at its end. Signals are dealt with between
commands, but one that ends the shell does so at once.
-/

def endOfShell : Nat := 0

def succumb : Run Unit := do
  let machine ← get
  let deadly := machine.world.sent.find? fun (process, signal) =>
    process == machine.own && machine.dies signal
  match deadly with
  | some (_, signal) => throw (.killed signal)
  | none => pure ()

/-- The signals that wait for the shell, in order and each once; they are taken away. -/
def takeSignals : Run (List Nat) := do
  let machine ← get
  let (mine, others) := machine.world.sent.partition fun entry => entry.1 == machine.own
  set { machine with world := { machine.world with sent := others } }
  return (List.range (lastSignal + 1)).filter fun signal =>
    mine.any (·.2 == signal) && !machine.ignores signal

section

variable (again : Manner → Command → Run Unit)

/-- Runs the action of a trap, which does not change the status unless it returns with one of
its own. -/
def act (status : Nat) (text : String) : Run Unit := do
  try
    runText again text
    finish status
  catch
    | .left loops =>
        finish status
        throw (.left loops)
    | .resumed loops =>
        finish status
        throw (.resumed loops)
    | .returned false =>
        finish status
        throw (.returned false)
    | stop => throw stop

/-- Runs the actions for signals. Those behind one that leaves the commands under way stay. -/
def actOn (status : Nat) : List Nat → Run Unit
  | [] => return
  | signal :: rest => do
      try (← get).trap? signal |>.forM (act again status)
      catch stop =>
        modify fun machine =>
          { machine with
            world := rest.foldl (fun world signal => world.send machine.own signal) machine.world }
        throw stop
      actOn status rest

def attend : Run Unit := do
  if !(← get).world.sent.isEmpty then
    succumb
    let signals ← takeSignals
    let before := (← get).saved
    let status := before.getD (← get).status
    modify fun machine => { machine with saved := some status }
    let settle : Run Unit := modify fun machine => { machine with saved := before }
    try
      actOn again status signals
      settle
    catch
      | .exited => throw .exited
      | stop =>
          settle
          throw stop

def settleExit : Run Unit :=
  modify fun machine =>
    { machine with status := machine.saved.getD machine.status, saved := none }

/-- Runs the action for the end of the shell after all else, which may change the status
by an exit of its own. -/
def closing (action : Run Unit) : Run Unit := do
  try action
  catch
    | .killed signal => throw (.killed signal)
    | .replaced => throw .replaced
    | .exited => settleExit
    | _ => pure ()
  let machine ← get
  match machine.traps.lookup endOfShell with
  | some text =>
      set { machine with
        traps := machine.traps.filter fun entry => entry.1 != endOfShell
        loops := 0
        saved := some machine.status }
      try
        runText again text
        finish machine.status
      catch
        | .exited => settleExit
        | .killed signal => throw (.killed signal)
        | .replaced => throw .replaced
        | .ended => pure ()
        | .failed => pure ()
        | _ => finish machine.status
  | none => pure ()

end

end SpanReview.Shell
