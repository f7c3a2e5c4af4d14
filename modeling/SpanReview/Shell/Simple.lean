import SpanReview.Shell.Builtin.Table
import SpanReview.Shell.Launch

namespace SpanReview.Shell

/-!
Simple commands: assignments, words and redirections. The words are expanded first; the first
of them tells what is run.
-/

structure Unfolding where
  fields : List String
  words : List Word

/-- What the words of a command ask for. `fields` are all of them, and `start` is how many stand
before the name of what is run. Without functions only builtins and programs are looked for,
`searchPath` being where if it is not the usual one. -/
structure Call where
  fields : List String
  start : Nat
  isSpecial : Bool
  functions : Bool
  searchPath : Option String

def Call.name (call : Call) : String :=
  call.fields.getD call.start ""

def Call.arguments (call : Call) : List String :=
  call.fields.drop (call.start + 1)

def maxDepth : Nat := 1000

section

variable (again : Manner → Command → Run Unit)

def Unfolding.reach (count : Nat) (fields : List String) : List Word → Run Unfolding
  | [] => return ⟨fields, []⟩
  | word :: rest => do
      if count < fields.length then return ⟨fields, word :: rest⟩
      else Unfolding.reach count (fields ++ (← expandWord (substitute again) word)) rest

/-- The number of the field that the builtin before it is to run, with what changes the search
path; none if it runs nothing. -/
def commandStart : Nat → (index : Nat) → Option String → Unfolding →
    Run (Option (Nat × Option String) × Unfolding)
  | 0, _, _, unfolding => return (none, unfolding)
  | fuel + 1, index, searchPath, unfolding => do
      let unfolding ← Unfolding.reach again index unfolding.fields unfolding.words
      match unfolding.fields[index]? with
      | none => return (none, unfolding)
      | some field =>
          match field.toList with
          | ['-', '-'] =>
              let unfolding ← Unfolding.reach again (index + 1) unfolding.fields unfolding.words
              let found := index + 1 < unfolding.fields.length
              return (if found then some (index + 1, searchPath) else none, unfolding)
          | '-' :: letter :: letters =>
              if (letter :: letters).all (· == 'p') then
                commandStart fuel (index + 1) (some defaultSearchPath) unfolding
              else return (none, unfolding)
          | _ => return (some (index, searchPath), unfolding)

def isBuiltin (name : String) : Bool :=
  Builtin.names.contains name

def expandArguments (assigns : Bool) : List Word → Run (List String)
  | [] => return []
  | word :: rest => do
      let fields ←
        match if assigns then Grammar.assignment? word else none with
        | some (name, value) => pure [name ++ "=" ++ (← expandValue (substitute again) value)]
        | none => expandWord (substitute again) word
      return fields ++ (← expandArguments assigns rest)

def callFrom : Nat → Call → Unfolding → Run Call
  | 0, call, unfolding => return { call with fields := unfolding.fields }
  | fuel + 1, call, unfolding => do
      let call := { call with fields := unfolding.fields }
      let finish (assigns : Bool) (call : Call) (unfolding : Unfolding) : Run Call := do
        let others ← expandArguments again assigns unfolding.words
        return { call with fields := unfolding.fields ++ others }
      let isFunction := call.functions && ((← get).functions.lookup call.name).isSome
      if isFunction || !isBuiltin call.name then finish false call unfolding
      else
        let call :=
          if call.functions then { call with isSpecial := specialBuiltins.contains call.name }
          else call
        if call.name = "command" then
          match ← commandStart again (fuel + 1) (call.start + 1) call.searchPath unfolding with
          | (some (start, searchPath), unfolding) =>
              callFrom fuel
                { call with start := start, functions := false, searchPath := searchPath }
                unfolding
          | (none, unfolding) => finish false call unfolding
        else finish (Builtin.assigning.contains call.name) call unfolding

def callOf? (words : List Word) : Run (Option Call) := do
  let unfolding ← Unfolding.reach again 0 [] words
  if unfolding.fields.isEmpty then return none
  else return some (← callFrom again (words.length + 1) ⟨[], 0, false, true, none⟩ unfolding)

/-- Sets variables as a command says. They are put aside first if they are only for what it
runs. -/
def assignAll (isOwn exports : Bool) : List (String × Word) → Run (List String)
  | [] => return []
  | (name, word) :: rest => do
      let value ← expandValue (substitute again) word
      if isOwn then keepVariable name
      assign name value
      if isOwn || exports then
        modify fun machine =>
          machine.withVariable name ((machine.held? name).map fun held =>
            { held with isExported := true })
      return (name ++ "=" ++ value) :: (← assignAll isOwn exports rest)

/-- Shows a command before it is run, where complaints went before its redirections. -/
def trace (wiring : List (Nat × Nat)) (words : List String) : Run Unit := do
  let machine ← get
  if machine.has .xtrace && !machine.isTracing then
    set { machine with isTracing := true }
    let lead ← (expandPrompt again ((machine.valueOf? "PS4").getD "")).followedBy
      (modify fun machine => { machine with isTracing := false })
    withWiring do
      (wiring.lookup 2).forM (connect 2)
      complain (lead ++ " ".intercalate words ++ "\n")

def runFunction (function : Command) (arguments : List String) (tested : Bool) : Run Unit := do
  let before ← get
  if maxDepth ≤ before.depth then
    fail ("Maximum function recursion depth (" ++ Text.natText maxDepth ++ ") reached")
  set { before with
    arguments := arguments
    nextOption := (1, none)
    loops := 0
    depth := before.depth + 1 }
  let action : Run Unit := do
    try again ⟨tested, false⟩ function
    catch
      | .returned _ => pure ()
      | stop => throw stop
  action.followedBy (modify fun machine =>
    { machine with
      arguments := before.arguments
      nextOption := before.nextOption
      loops := before.loops
      depth := before.depth })

def scriptPath (name : String) : Run String := do
  if name.toList.contains '/' then return name
  else
    let machine ← get
    let isScript (path : String) : Bool :=
      match machine.entryAt path with
      | .ok (place, .file _) => (device? place).isNone
      | _ => false
    match (candidates machine.searchPath name).find? isScript with
    | some path => return path
    | none => fail (name ++ ": not found")

def runScript (arguments : List String) : Run Unit := do
  let (_, words) ← Builtin.takeLetters "" arguments
  match words with
  | [] => finish 0
  | name :: _ => do
      let path ← scriptPath name
      let text ← scriptIn path
      asBuiltin path do
        try
          if !(← runFrom again .script false text) then finish 0
        catch
          | .returned _ => pure ()
          | stop => throw stop

def evaluate (tested : Bool) (words : List String) : Run Unit := do
  if !(← runFrom again .text tested (" ".intercalate words)) then finish 0

def runCommandBuiltin (arguments : List String) : Run Unit := do
  let (letters, words) ← Builtin.takeLetters "pvV" arguments
  let searchPath := if letters.contains 'p' then some defaultSearchPath else none
  finish 0
  match letters.any (· != 'p'), words with
  | true, name :: _ =>
      if !(← Builtin.describe searchPath (letters.contains 'V') name) then finish 127
  | _, _ => return

def execute (arguments : List String) : Run Unit := do
  match arguments with
  | [] => finish 0
  | name :: rest =>
      modify fun machine => (machine.turn .interactive false).turn .monitor false
      match ← findReplacement name with
      | .ok place => replaceBy again place name rest
      | .error (reason, status) =>
          warn (name ++ ": " ++ reason)
          finish status
          throw .ended

def builtin? (tested : Bool) (name : String) : Option (List String → Run Unit) :=
  match name with
  | "." => some (runScript again)
  | "command" => some (runCommandBuiltin)
  | "eval" => some (evaluate again tested)
  | "exec" => some (execute again)
  | name => Builtin.named? again name

def runOther (manner : Manner) (call : Call) : Run Unit := do
  let isInPlace := manner.last && !(← get).hasTraps
  match ← findProgram call.searchPath call.name with
  | .ok place =>
      if isInPlace then replaceBy again place call.name call.arguments
      else runProgram again place call.name call.arguments
  | .error (reason, status) =>
      warn (call.name ++ ": " ++ reason)
      finish status
      if call.name.toList.contains '/' then
        if isInPlace then throw .ended else noteEnd

/-- Runs what a command asks for. The shell does not end on an error of a builtin unless it is a
special one. -/
def runCall (manner : Manner) (call : Call) : Run Unit := do
  let functions := (← get).functions
  match if call.functions then functions.lookup call.name else none with
  | some function => runFunction again function call.arguments manner.tested
  | none =>
      match builtin? again manner.tested call.name with
      | some builtin =>
          let action := asBuiltin call.name (builtin call.arguments)
          try action
          catch
            | .failed => if call.isSpecial then throw .failed
            | stop => throw stop
      | none => runOther again manner call

/-- Runs a simple command. Assignments and redirections are only for what it runs, except for
special builtins, whose assignments stay, and for a shell that is to be replaced by nothing,
whose redirections do. -/
def runSimple (manner : Manner) (line : Nat) (assignments : List (String × Word))
    (words : List Word) (redirections : List Redirection) : Run Unit := do
  setLine line
  modify fun machine => { machine with substituted := 0 }
  let call ← callOf? again words
  let prepared ← prepareAll (substitute again) redirections
  let wiring := (← get).wiring
  let done ←
    match call with
    | none =>
        withRedirections (substitute again) prepared do
          trace again wiring (← assignAll again false false assignments)
          finish (← get).substituted
    | some call =>
        let isReplacing := call.name == "exec"
        let action : Run Unit := do
          let exports := isReplacing && !call.arguments.isEmpty
          let shown ← assignAll again (!call.isSpecial) exports assignments
          trace again wiring (shown ++ call.fields)
          runCall again manner call
        let action := if call.isSpecial then action else withKept action
        if isReplacing then withLasting (substitute again) (!call.isSpecial) prepared action
        else withRedirections (substitute again) prepared action
  if !done && call.any (·.isSpecial) then throw .failed

end

end SpanReview.Shell
