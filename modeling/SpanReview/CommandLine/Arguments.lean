import SpanReview.Settings.File

namespace SpanReview

/-!
The command line: options that hold for every subcommand and may stand before or after
it, and a subcommand with options of its own and at most one stage.
-/

inductive Subcommand where
  | step
  | list
  | check
  deriving DecidableEq, Repr

inductive ArgumentKey where
  | config
  | casesDir
  | fixtureRoot
  | repoUrl
  | branch
  | command
  | file
  | format
  | stage
  deriving DecidableEq, Repr

inductive UsageError where
  | help
  | helpOnMissing
  | missingSubcommand
  | invalidSubcommand
  | unknownArgument
  | invalidValue
  | tooManyValues
  | argumentConflict
  deriving DecidableEq, Repr

/-- Asking for help is no failure. -/
def UsageError.exitCode : UsageError → Nat
  | .help => 0
  | _ => 2

inductive ReportFormat where
  | text
  | json
  deriving DecidableEq, Repr

def ReportFormat.ofName? (name : String) : Option ReportFormat :=
  if name = "text" then some .text else if name = "json" then some .json else none

namespace Subcommand

def ofName? (name : String) : Option Subcommand :=
  if name = "step" then some .step
  else if name = "list" then some .list
  else if name = "check" then some .check
  else none

end Subcommand

namespace ArgumentKey

def accepts (key : ArgumentKey) (value : String) : Bool :=
  match key with
  | .config | .casesDir | .fixtureRoot => value != ""
  | .format => (ReportFormat.ofName? value).isSome
  | _ => true

def ofLong? (subcommand : Option Subcommand) (name : String) : Option ArgumentKey :=
  match name with
  | "config" => some .config
  | "cases-dir" => some .casesDir
  | "fixture-root" => some .fixtureRoot
  | "repo-url" => some .repoUrl
  | "branch" => some .branch
  | "command" => some .command
  | "file" => if subcommand = some .step then some .file else none
  | "format" => if subcommand = some .list ∨ subcommand = some .check then some .format else none
  | _ => none

def ofShort? (subcommand : Option Subcommand) (c : Char) : Option ArgumentKey :=
  if c = 'f' then
    match subcommand with
    | some .step => some .file
    | some .list => some .format
    | some .check => some .format
    | none => none
  else none

end ArgumentKey

abbrev ArgumentValues := List (ArgumentKey × String)

/-- An argument whose value may still come; it is checked when the next argument begins. -/
structure Pending where
  key : ArgumentKey
  value : Option String
  deriving DecidableEq, Repr

structure ArgumentState where
  values : ArgumentValues
  pending : Option Pending
  onlyPositional : Bool
  deriving DecidableEq, Repr

namespace ArgumentState

def start : ArgumentState := ⟨[], none, false⟩

def awaitsValue (state : ArgumentState) : Bool :=
  match state.pending with
  | some ⟨_, none⟩ => true
  | _ => false

def store (state : ArgumentState) (key : ArgumentKey) (value : String) :
    Except UsageError ArgumentState :=
  if (state.values.lookup key).isSome then .error .argumentConflict
  else if key.accepts value then .ok { state with values := (key, value) :: state.values }
  else .error .invalidValue

def settle (state : ArgumentState) : Except UsageError ArgumentState :=
  match state.pending with
  | none => .ok state
  | some ⟨_, none⟩ => .error .invalidValue
  | some ⟨key, some value⟩ => { state with pending := none }.store key value

def option (state : ArgumentState) (key : ArgumentKey) (attached : Option String) :
    Except UsageError ArgumentState := do
  let state ← state.settle
  match attached with
  | some value => state.store key value
  | none => return { state with pending := some ⟨key, none⟩ }

def helpFlag (state : ArgumentState) : Except UsageError ArgumentState := do
  let _ ← state.settle
  throw .help

def cutLong (cs : List Char) : String × Option String :=
  let name := String.ofList (cs.takeWhile (· != '='))
  match cs.dropWhile (· != '=') with
  | _ :: value => (name, some (String.ofList value))
  | [] => (name, none)

def long (subcommand : Option Subcommand) (state : ArgumentState) (cs : List Char) :
    Except UsageError ArgumentState :=
  let (name, attached) := cutLong cs
  if name = "help" then
    match attached with
    | some _ => .error .tooManyValues
    | none => state.helpFlag
  else
    match ArgumentKey.ofLong? subcommand name with
    | some key => state.option key attached
    | none => .error .unknownArgument

/-- Short options: what follows one that takes a value is its value. -/
def short (subcommand : Option Subcommand) (state : ArgumentState) (c : Char) (rest : List Char) :
    Except UsageError ArgumentState :=
  if c = 'h' then state.helpFlag
  else
    match ArgumentKey.ofShort? subcommand c with
    | some key =>
        state.option key
          (match rest with
          | [] => none
          | '=' :: value => some (String.ofList value)
          | value => some (String.ofList value))
    | none => .error .unknownArgument

def positional (subcommand : Option Subcommand) (state : ArgumentState) (argument : String) :
    Except UsageError ArgumentState :=
  let isTaken :=
    (state.values.lookup .stage).isSome || (state.pending.map Pending.key) == some .stage
  match subcommand with
  | some _ =>
      if isTaken then .error .unknownArgument
      else do
        let state ← state.settle
        return { state with pending := some ⟨.stage, some argument⟩ }
  | none =>
      if state.onlyPositional && ((Subcommand.ofName? argument).isSome || argument == "help") then
        .error .unknownArgument
      else .error .invalidSubcommand

def take (subcommand : Option Subcommand) (state : ArgumentState) (argument : String) :
    Except UsageError ArgumentState :=
  if state.onlyPositional then state.positional subcommand argument
  else
    match argument.toList with
    | ['-', '-'] => .ok { state with onlyPositional := true }
    | '-' :: '-' :: name => state.long subcommand name
    | '-' :: c :: rest => state.short subcommand c rest
    | _ =>
        if state.awaitsValue then
          .ok { state with pending := state.pending.map fun p => { p with value := some argument } }
        else state.positional subcommand argument

def takeAll (subcommand : Option Subcommand) (state : ArgumentState) :
    List String → Except UsageError ArgumentValues
  | [] => state.settle.map ArgumentState.values
  | argument :: rest => do
      let state ← state.take subcommand argument
      state.takeAll subcommand rest

end ArgumentState

structure Invocation where
  subcommand : Subcommand
  values : ArgumentValues
  deriving DecidableEq, Repr

namespace Invocation

def value? (invocation : Invocation) (key : ArgumentKey) : Option String :=
  invocation.values.lookup key

def config (invocation : Invocation) : Path :=
  (invocation.value? .config).getD Settings.defaultFile

def format (invocation : Invocation) : ReportFormat :=
  ((invocation.value? .format).bind ReportFormat.ofName?).getD .text

def helpOn : List String → UsageError
  | [] => .help
  | [name] =>
      if (Subcommand.ofName? name).isSome || name == "help" then .help else .invalidSubcommand
  | _ => .invalidSubcommand

/-- Arguments before the subcommand. What is given after it counts before what is given here. -/
def parseFrom (state : ArgumentState) : List String → Except UsageError Invocation
  | [] => do
      let state ← state.settle
      throw (if state.values.isEmpty then .helpOnMissing else .missingSubcommand)
  | argument :: rest =>
      let subcommand :=
        if state.onlyPositional || state.awaitsValue then none else Subcommand.ofName? argument
      match subcommand with
      | some subcommand => do
          let values ← ArgumentState.start.takeAll (some subcommand) rest
          let state ← state.settle
          return ⟨subcommand, values ++ state.values⟩
      | none =>
          if argument == "help" && !state.onlyPositional && !state.awaitsValue then
            .error (helpOn rest)
          else do
            let state ← state.take none argument
            parseFrom state rest

def parse (arguments : List String) : Except UsageError Invocation :=
  parseFrom .start arguments

end Invocation

end SpanReview
