import SpanReview.CommandLine.Arguments
import SpanReview.CommandLine.Report
import SpanReview.CommandLine.Words
import SpanReview.Repository.Detection
import SpanReview.Session.Basic
import SpanReview.Source.Command

namespace SpanReview

/-!
The program as a whole: what a command line does with a disk, the programs of the host and the
operator's terminal.
-/

inductive ReviewError where
  | engine (error : EngineError)
  | settings (error : SettingsError)
  | command (error : WordsError)
  | noRepository {error : RepositoryError}
  | mismatch (count : Nat)
  deriving DecidableEq, Repr

namespace ReviewError

def message : ReviewError → String
  | .engine error => error.message
  | .settings error => "Settings error: " ++ error.message
  | .command error => "Invalid --command: " ++ error.message
  | @noRepository error => "Repository error: " ++ error.message
  | .mismatch count => Text.natText count ++ " locations do not match their fixtures"

/-- What could not be read or written is told from all other failures. -/
def exitCode : ReviewError → Nat
  | .engine (.fixture (.inaccessible _)) => 2
  | .engine (.source (.unreadable _)) => 2
  | .settings (.inaccessible _) => 2
  | _ => 1

end ReviewError

namespace Invocation

def settings (invocation : Invocation) (disk : Disk) : Except ReviewError Settings :=
  match Settings.load invocation.config disk with
  | .error e => .error (.settings e)
  | .ok settings =>
      let settings :=
        { settings with
          casesDir := (invocation.value? .casesDir).getD settings.casesDir
          fixtureRoot := (invocation.value? .fixtureRoot).getD settings.fixtureRoot }
      match invocation.value? .command with
      | none => .ok settings
      | some line =>
          match Words.split line with
          | .ok words => .ok { settings with command := words }
          | .error e => .error (.command e)

/-- What the command line does not say of the repository is detected. -/
def repository (invocation : Invocation) (programs : Programs σ) (world : World σ) :
    Except RepositoryError Repository × World σ :=
  match invocation.value? .repoUrl, invocation.value? .branch with
  | some url, some branch => (.ok ⟨url, branch⟩, world)
  | url, branch =>
      match Repository.detect programs world with
      | (.error e, world) => (.error e, world)
      | (.ok detected, world) =>
          (.ok ⟨url.getD detected.url, branch.getD detected.branch⟩, world)

end Invocation

def Settings.source (settings : Settings) : CommandSource :=
  ⟨settings.casesDir, settings.caseExtension, settings.command⟩

def Settings.setup (settings : Settings) (programs : Programs σ) (repository : Repository) :
    Setup σ where
  source := settings.source.toTokenSource programs
  store := ⟨settings.fixtureRoot⟩
  repository := repository
  caseExtension := settings.caseExtension

structure Finished (σ : Type) where
  output : String
  error : Option ReviewError
  world : World σ
  terminalFailed : Bool := false

namespace Finished

def disk (finished : Finished σ) : Disk :=
  finished.world.disk

def message? (finished : Finished σ) : Option String :=
  if finished.terminalFailed then some "IO error" else finished.error.map ReviewError.message

def exitCode (finished : Finished σ) : Nat :=
  if finished.terminalFailed then 2
  else
    match finished.error with
    | some e => e.exitCode
    | none => 0

end Finished

namespace CommandLine

def print (format : ReportFormat) (text : String) (json : Json) : String :=
  match format with
  | .text => text
  | .json => json.pretty ++ "\n"

def list (settings : Settings) (stage : String) (format : ReportFormat) (world : World σ) :
    Finished σ :=
  match Stage.ofName? stage with
  | none => ⟨"", some (.engine (.unknownStage (Text.trim stage))), world, false⟩
  | some stage =>
      match settings.source.caseFiles world.disk with
      | .error e => ⟨"", some (.engine (.source e)), world, false⟩
      | .ok files =>
          let listing : Listing := ⟨stage, files⟩
          ⟨print format listing.text listing.toJson, none, world, false⟩

def check (programs : Programs σ) (settings : Settings) (repository : Repository)
    (stage : String) (format : ReportFormat) (world : World σ) : Finished σ :=
  let outcome := Engine.check (settings.setup programs repository) stage
    (Engine.start settings.display) world
  match outcome.result with
  | .error e => ⟨"", some (.engine e), outcome.world, false⟩
  | .ok files =>
      let report : CheckReport := ⟨stage, files⟩
      ⟨print format report.text report.toJson,
        if report.total = 0 then none else some (.mismatch report.total), outcome.world, false⟩

structure Stepping (σ : Type) where
  config : Path
  settings : Settings
  setup : Setup σ
  color : Bool
  session : Session σ

namespace Stepping

def feed (stepping : Stepping σ) (line : String) : Stepping σ :=
  { stepping with session := stepping.session.feed stepping.setup stepping.color line }

def isOver (stepping : Stepping σ) : Bool :=
  stepping.session.awaiting == .nothing

/-- Ends a session; display options that it changed are stored. -/
def finish (stepping : Stepping σ) : Finished σ :=
  let session := stepping.session
  match session.error with
  | some e => ⟨session.output, some (.engine e), session.world, false⟩
  | none =>
      if session.engine.display = stepping.settings.display then
        ⟨session.output, none, session.world, false⟩
      else
        match Settings.storeDisplay stepping.config session.engine.display session.world.disk with
        | (.ok (), disk) => ⟨session.output, none, { session.world with disk := disk }, false⟩
        | (.error e, disk) =>
            ⟨session.output, some (.settings e), { session.world with disk := disk }, false⟩

/-- Nothing is stored if the terminal failed. -/
def conclude (stepping : Stepping σ) (replies : List Reply) : Finished σ :=
  let conversation := stepping.session.converse stepping.setup stepping.color 0 replies
  let session := conversation.session
  if conversation.isBroken then ⟨session.output, none, session.world, true⟩
  else { stepping with session := session }.finish

end Stepping

inductive Run (σ : Type) where
  | finished (finished : Finished σ)
  | stepping (stepping : Stepping σ)

section

variable (programs : Programs σ) (invocation : Invocation)

def beginCheck (settings : Settings) (world : World σ) : Finished σ :=
  match invocation.repository programs world with
  | (.error e, world) => ⟨"", some (@ReviewError.noRepository e), world, false⟩
  | (.ok repository, world) =>
      let stage := (invocation.value? .stage).getD "lexer"
      check programs settings repository stage invocation.format world

def beginSession (settings : Settings) (color : Bool) (world : World σ) : Run σ :=
  match invocation.repository programs world with
  | (.error e, world) => .finished ⟨"", some (@ReviewError.noRepository e), world, false⟩
  | (.ok repository, world) =>
      let setup := settings.setup programs repository
      .stepping ⟨invocation.config, settings, setup, color,
        Session.start setup color (invocation.value? .stage) (invocation.value? .file)
          (Engine.start settings.display) world⟩

def begin (color : Bool) (world : World σ) : Run σ :=
  match invocation.settings world.disk with
  | .error e => .finished ⟨"", some e, world, false⟩
  | .ok settings =>
      match invocation.subcommand with
      | .list =>
          let stage := (invocation.value? .stage).getD "lexer"
          .finished (list settings stage invocation.format world)
      | .check => .finished (beginCheck programs invocation settings world)
      | .step => beginSession programs invocation settings color world

def review (color : Bool) (world : World σ) (replies : List Reply) : Finished σ :=
  match begin programs invocation color world with
  | .finished finished => finished
  | .stepping stepping => stepping.conclude replies

end

end CommandLine

end SpanReview
