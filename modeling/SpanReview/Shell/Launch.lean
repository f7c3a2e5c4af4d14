import SpanReview.Shell.Builtin.Variables
import SpanReview.Shell.Prompt
import SpanReview.Shell.Program
import SpanReview.Shell.Redirect
import SpanReview.Shell.Search

namespace SpanReview.Shell

/-!
Starting programs. A shell that is started takes its options, variables and script from its
command line, its environment and its input.
-/

def scriptIn (file : String) : Run String := do
  match ← openNamed .read file with
  | .error fault => fail (fault.about file)
  | .ok index => textOf index
where
  textOf (index : Nat) : Run String := do
    let machine ← get
    let (found, world) := machine.world.readAll index
    set { machine with world := world }
    return match found with
      | .ok bytes => Text.octetsOfBytes bytes
      | .error _ => ""

def wholeInput : Run String := do
  match ← descriptor? 0 with
  | none => return ""
  | some index => scriptIn.textOf index

/-- How the working directory is called: as the environment says if that is right. -/
def Machine.calledDirectory (machine : Machine) : String :=
  let physical := "/" ++ "/".intercalate (machine.place.map Text.octets)
  match machine.valueOf? "PWD" with
  | none => physical
  | some path =>
      match machine.entryAt path with
      | .ok (place, .directory) =>
          if Path.isAbsolute path && place == machine.place then path else physical
      | _ => physical

/-- The variables that a shell starts with besides those that are exported to it. Some have
their first values in any case. -/
def Machine.withFirstValues (machine : Machine) : Machine :=
  let ensure (machine : Machine) (entry : String × String) : Machine :=
    if (machine.held? entry.1).isSome then machine
    else machine.withVariable entry.1 (some ⟨some entry.2, false, false⟩)
  let reset (machine : Machine) (entry : String × String) : Machine :=
    let held := (machine.held? entry.1).getD ⟨none, false, false⟩
    machine.withVariable entry.1 (some { held with value := some entry.2 })
  let machine := [("PATH", defaultSearchPath), ("PS1", "# "), ("PS2", "> "), ("PS4", "+ ")].foldl
    ensure machine
  let machine := [("IFS", " \t\n"), ("OPTIND", "1"), ("PPID", processText machine.parent)].foldl
    reset machine
  let directory := machine.calledDirectory
  { machine.withVariable "PWD" (some ⟨some directory, true, false⟩) with directory := directory }

def Machine.opening (machine : Machine) (name : String) : Machine :=
  let isPassed (entry : String × Variable) : Bool :=
    entry.2.isExported && entry.2.value.isSome
  let pass (entry : String × Variable) : String × Variable :=
    (entry.1, { entry.2 with isReadOnly := false })
  Machine.withFirstValues
    { machine with
      process := machine.own
      name := name
      arguments := []
      bindings := (machine.bindings.filter isPassed).map pass
      functions := []
      aliases := []
      tracked := []
      shut := []
      options := []
      status := 0
      line := 0
      parsedLine := 1
      isAtEnd := false
      heldAliases := []
      isTracing := false
      command := none
      loops := 0
      depth := 0
      kept := []
      saved := none
      traps := []
      deaf := (machine.traps.filter fun entry => entry.2.isEmpty).map (·.1) ++ machine.deaf
      substituted := 0
      background := none
      nextOption := (1, none)
      jobs := [] }

def shellNames : List String :=
  ["dash", "sh"]

section

variable (again : Manner → Command → Run Unit)

def askLimit : Nat := 50

def runMain (text : String) : Run Unit := do
  let prompt (name : String) : Run Unit := do
    let machine ← get
    if machine.has .interactive then
      complain (← expandPrompt again ((machine.valueOf? name).getD ""))
  let _ ← runFrom again ⟨true, prompt⟩ false text
  let machine ← get
  if machine.has .ignoreeof then
    (List.range askLimit).forM fun _ => do
      complain "\nUse \"exit\" to leave shell.\n"
      prompt "PS1"
  else if machine.has .interactive then complain "\n"

/-- Runs an action. If it fails where someone types the commands, what is left is run. -/
def orElse (left : Run String) (action : Run Unit) : Run Unit := do
  try action
  catch
    | .failed => if (← get).has .interactive then runMain again (← left) else throw .failed
    | stop => throw stop

def runWelcome : Run Unit := do
  let machine ← get
  match machine.valueOf? "ENV" with
  | some file =>
      if machine.has .interactive && !file.isEmpty then
        let file ← expandPrompt again file
        match ← openNamed .read file with
        | .ok index => let _ ← runFrom again .script false (← scriptIn.textOf index)
        | .error _ => pure ()
  | none => pure ()

def invoke (arguments : List String) : Run Unit := do
  let ⟨takesText, _, words⟩ ←
    Builtin.setOptions true (arguments.length + 1) ⟨false, Setting.all, arguments⟩
  let settle (words : List String) : Run Unit := do
    match words with
    | [] => pure ()
    | name :: rest => modify fun machine => { machine with name := name, arguments := rest }
    if (← get).has .interactive then modify fun machine => machine.turn .monitor true
    Builtin.settleMonitor
    runWelcome again
  let runText (text : String) : Run Unit := do
    let _ ← runFrom again .text false text
    if (← get).has .stdin then runMain again (← wholeInput)
  match takesText, words with
  | true, [] => fail "-c requires an argument"
  | true, text :: rest => do
      settle rest
      orElse again wholeInput (runText text)
  | false, words =>
      if words.isEmpty || (← get).has .stdin then
        modify fun machine => { machine.turn .stdin true with arguments := words }
        settle []
        let text ← wholeInput
        orElse again (pure "") (runMain again text)
      else
        let text ← scriptIn (words.headD "")
        settle words
        orElse again (pure "") (runMain again text)

def programAt (place : Location) (called : String) (arguments : List String) : Run Unit := do
  let name := place.getLast?.getD ""
  if shellNames.contains name then
    modify fun machine => machine.opening called
    lifetime again (invoke again arguments)
  else
    match Program.named? name called with
    | some program => program arguments
    | none => finish 0

def replaceBy (place : Location) (called : String) (arguments : List String) : Run Unit := do
  awaken again
  let context := (← get).toContext
  let context := { context with traps := context.traps.filter fun entry => entry.2.isEmpty }
  match ← asProcess context (programAt again place called arguments) with
  | .killed signal => throw (.killed signal)
  | .exited code =>
      finish code
      throw .replaced

def runProgram (place : Location) (called : String) (arguments : List String) : Run Unit := do
  let status ← waitFor again do
    asProcess (← fork) (programAt again place called arguments)
  finish status.code

end

end SpanReview.Shell
